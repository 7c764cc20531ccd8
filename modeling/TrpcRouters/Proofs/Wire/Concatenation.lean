import TrpcRouters.Proofs.Wire.RoundTrip

/-! Encoded messages one behind the other. A reader that succeeds never looks past the bytes that it
takes: whatever comes behind them, it gives the same value and stops at the same byte, although lengths
are compared with all the input that is left. So a message that is read is read as well in front of
other bytes, and these are read, or refused, as they are alone. -/

namespace TrpcRouters.Wire

section Results
variable {ε α β : Type} {result : Except ε α} {value : β}

theorem bind_eq_ok_iff {next : α → Except ε β} :
    (result >>= next) = .ok value ↔ ∃ known, result = .ok known ∧ next known = .ok value := by
  cases result <;> simp [bind, Except.bind]

theorem map_eq_ok_iff {change : α → β} :
    result.map change = .ok value ↔ ∃ known, result = .ok known ∧ change known = value := by
  cases result <;> simp [Except.map]

theorem mapError_eq_ok_iff {δ : Type} {result : Except δ α} {explain : δ → ε} {value : α} :
    result.mapError explain = .ok value ↔ result = .ok value := by
  cases result with
  | ok known =>
    have same : (Except.ok known : Except δ α).mapError explain = .ok known := rfl
    rw [same]
    simp
  | error cause =>
    have other : (Except.error cause : Except δ α).mapError explain = .error (explain cause) := rfl
    rw [other]
    simp

theorem lift_eq_ok_iff {result : Except Cause α} {value : α} :
    lift result = .ok value ↔ result = .ok value :=
  mapError_eq_ok_iff

end Results

section Fronts
variable {ε α β : Type} {least more : Nat}

/-- Where the reader succeeds, it takes no fewer than `least` bytes off the front of its input, and it
reads them alike in front of anything else. -/
def ReadsFront (least : Nat) (read : Bytes → Except ε (α × Bytes)) : Prop :=
  ∀ ⦃input rest : Bytes⦄ ⦃value : α⦄, read input = .ok (value, rest) →
    ∃ taken, least ≤ taken.length ∧ input = taken ++ rest ∧
      ∀ behind, read (taken ++ behind) = .ok (value, behind)

def SkipsFront (skip : Bytes → Except ε Bytes) : Prop :=
  ∀ ⦃input rest : Bytes⦄, skip input = .ok rest →
    ∃ taken, input = taken ++ rest ∧ ∀ behind, skip (taken ++ behind) = .ok behind

namespace ReadsFront
variable {read other : Bytes → Except ε (α × Bytes)}

theorem of_eq (same : ∀ input, read input = other input) (front : ReadsFront least other) :
    ReadsFront least read := by
  rwa [funext same]

theorem weaken (front : ReadsFront more read) (fewer : least ≤ more) : ReadsFront least read := by
  intro input rest value found
  obtain ⟨taken, enough, whole, alike⟩ := front found
  exact ⟨taken, Nat.le_trans fewer enough, whole, alike⟩

theorem const (result : Except ε α) :
    ReadsFront 0 (fun input => result >>= fun value => .ok (value, input)) := by
  intro input rest value found
  obtain ⟨_, known, same⟩ := bind_eq_ok_iff.mp found
  cases same
  exact ⟨[], Nat.zero_le _, rfl, fun _ => bind_eq_ok_iff.mpr ⟨_, known, rfl⟩⟩

theorem guard (check : Except ε β) {next : β → Bytes → Except ε (α × Bytes)}
    (later : ∀ known, ReadsFront least (next known)) :
    ReadsFront least (fun input => check >>= fun known => next known input) := by
  intro input rest value found
  obtain ⟨known, passed, read⟩ := bind_eq_ok_iff.mp found
  obtain ⟨taken, enough, whole, alike⟩ := later known read
  exact ⟨taken, enough, whole, fun behind => bind_eq_ok_iff.mpr ⟨known, passed, alike behind⟩⟩

theorem bind {first : Bytes → Except ε (β × Bytes)} {next : β → Bytes → Except ε (α × Bytes)}
    (front : ReadsFront least first) (later : ∀ known, ReadsFront more (next known)) :
    ReadsFront (least + more) (fun input => first input >>= fun found => next found.1 found.2) := by
  intro input rest value found
  obtain ⟨⟨known, middle⟩, early, late⟩ := bind_eq_ok_iff.mp found
  obtain ⟨taken, enough, whole, alike⟩ := front early
  obtain ⟨taken', enough', whole', alike'⟩ := later known late
  refine ⟨taken ++ taken', ?_, ?_, fun behind => ?_⟩
  · rw [List.length_append]
    exact Nat.add_le_add enough enough'
  · rw [whole, show middle = taken' ++ rest from whole', List.append_assoc]
  · rw [List.append_assoc]
    exact bind_eq_ok_iff.mpr ⟨_, alike _, alike' behind⟩

theorem skips (front : ReadsFront least read) :
    SkipsFront (fun input => (read input).map Prod.snd) := by
  intro input rest found
  obtain ⟨⟨value, left⟩, early, rfl⟩ := map_eq_ok_iff.mp found
  obtain ⟨taken, _, whole, alike⟩ := front early
  exact ⟨taken, whole, fun behind => map_eq_ok_iff.mpr ⟨_, alike behind, rfl⟩⟩

theorem mapError {δ : Type} (front : ReadsFront least read) (explain : ε → δ) :
    ReadsFront least (fun input => (read input).mapError explain) := by
  intro input rest value found
  obtain ⟨taken, enough, whole, alike⟩ := front (mapError_eq_ok_iff.mp found)
  exact ⟨taken, enough, whole, fun behind => mapError_eq_ok_iff.mpr (alike behind)⟩

theorem lift {read : Bytes → Except Cause (α × Bytes)} (front : ReadsFront least read) :
    ReadsFront least (fun input => Wire.lift (read input)) :=
  front.mapError _

theorem map (front : ReadsFront least read) (change : α → β) :
    ReadsFront least (fun input => (read input).map fun found => (change found.1, found.2)) := by
  intro input rest value found
  obtain ⟨⟨known, left⟩, early, same⟩ := map_eq_ok_iff.mp found
  cases same
  obtain ⟨taken, enough, whole, alike⟩ := front early
  exact ⟨taken, enough, whole, fun behind => map_eq_ok_iff.mpr ⟨_, alike behind, rfl⟩⟩

end ReadsFront

theorem SkipsFront.reads {skip : Bytes → Except Cause Bytes} (front : SkipsFront skip) (value : α) :
    ReadsFront 0 (fun input => Wire.lift (skip input) >>= fun rest => .ok (value, rest)) := by
  intro input rest value' found
  obtain ⟨left, early, same⟩ := bind_eq_ok_iff.mp found
  cases same
  obtain ⟨taken, whole, alike⟩ := front (lift_eq_ok_iff.mp early)
  exact ⟨taken, Nat.zero_le _, whole,
    fun behind => bind_eq_ok_iff.mpr ⟨_, lift_eq_ok_iff.mpr (alike behind), rfl⟩⟩

end Fronts

section Primitives

theorem Varint.readWithin_front {places value : Nat} {input rest : Bytes}
    (found : readWithin places input = some (value, rest)) :
    ∃ taken, 1 ≤ taken.length ∧ input = taken ++ rest ∧
      ∀ behind, readWithin places (taken ++ behind) = some (value, behind) := by
  induction places generalizing input value with
  | zero => simp [readWithin] at found
  | succ places ih =>
    cases input with
    | nil => simp [readWithin] at found
    | cons byte tail =>
      rw [readWithin] at found
      by_cases low : byte.toNat < 128
      · rw [if_pos low] at found
        split at found
        · cases found
        next fits =>
          cases found
          refine ⟨[byte], Nat.le_refl _, rfl, fun behind => ?_⟩
          rw [List.singleton_append, readWithin, if_pos low, if_neg fits]
      · rw [if_neg low] at found
        obtain ⟨⟨high, left⟩, inner, same⟩ := Option.map_eq_some_iff.mp found
        cases same
        obtain ⟨taken, _, rfl, alike⟩ := ih inner
        refine ⟨byte :: taken, Nat.succ_pos _, rfl, fun behind => ?_⟩
        rw [List.cons_append, readWithin, if_neg low, alike]
        rfl

theorem Varint.read_front : ReadsFront 1 Varint.read := by
  have within : ∀ {input : Bytes} {found : Nat × Bytes},
      Varint.read input = .ok found ↔ readWithin maxBytes input = some found := by
    intro input found
    rw [Varint.read]
    cases readWithin maxBytes input <;> simp
  intro input rest value found
  obtain ⟨taken, some_, whole, alike⟩ := readWithin_front (within.mp found)
  exact ⟨taken, some_, whole, fun behind => within.mpr (alike behind)⟩

theorem Key.read_front : ReadsFront 1 Key.read :=
  Varint.read_front.bind fun value => .const (ofNumber value)

theorem cutBytes_front (count : Nat) : ReadsFront 0 (cutBytes count) := by
  intro input rest value found
  unfold cutBytes at found
  split at found
  next enough =>
    cases found
    refine ⟨input.take count, Nat.zero_le _, (List.take_append_drop count input).symm, fun behind => ?_⟩
    have whole := cutBytes_append (input.take count) behind
    rwa [List.length_take_of_le enough] at whole
  next => cases found

theorem cutCounted_front : ReadsFront 1 cutCounted :=
  Varint.read_front.bind cutBytes_front

theorem readInteger_front : ReadsFront 1 readInteger :=
  Varint.read_front.lift.bind fun value => .const (.ok [Value.integer value])

end Primitives

section Skipping

theorem skipGroup_front {skip : Key → Bytes → Except Cause Bytes} (inner : ∀ key, SkipsFront (skip key))
    {number fuel : Nat} {input rest : Bytes} (found : skipGroup skip number fuel input = .ok rest) :
    ∃ taken, input = taken ++ rest ∧ ∀ behind (fuel : Nat), taken.length < fuel →
      skipGroup skip number fuel (taken ++ behind) = .ok behind := by
  induction fuel generalizing input with
  | zero => cases found
  | succ fuel ih =>
    rw [skipGroup] at found
    obtain ⟨⟨key, middle⟩, read, later⟩ := bind_eq_ok_iff.mp found
    obtain ⟨keyBytes, some_, whole, alike⟩ := Key.read_front read
    by_cases ends : key.wireType = .endGroup
    · simp only [ends, ↓reduceIte] at later
      split at later
      next own =>
        cases later
        refine ⟨keyBytes, whole, fun behind fuel enough => ?_⟩
        obtain ⟨fuel, rfl⟩ := Nat.exists_eq_succ_of_ne_zero (Nat.ne_zero_of_lt enough)
        rw [skipGroup]
        exact bind_eq_ok_iff.mpr ⟨_, alike behind, by simp [ends, own]⟩
      next => cases later
    · simp only [if_neg ends] at later
      obtain ⟨left, skipped, others⟩ := bind_eq_ok_iff.mp later
      obtain ⟨content, shape, alike'⟩ := inner key skipped
      obtain ⟨more, shape', alike''⟩ := ih others
      refine ⟨keyBytes ++ (content ++ more), ?_, fun behind fuel enough => ?_⟩
      · simp [whole, show middle = content ++ left from shape, shape']
      · obtain ⟨fuel, rfl⟩ := Nat.exists_eq_succ_of_ne_zero (Nat.ne_zero_of_lt enough)
        simp only [List.length_append] at enough
        rw [skipGroup, List.append_assoc, List.append_assoc]
        refine bind_eq_ok_iff.mpr ⟨_, alike _, ?_⟩
        simp only [if_neg ends]
        exact bind_eq_ok_iff.mpr ⟨_, alike' _, alike'' behind fuel (by omega)⟩

theorem skip_front (depth : Nat) (key : Key) : SkipsFront (skip depth key) := by
  induction depth generalizing key with
  | zero =>
    intro input rest found
    cases found
  | succ depth ih =>
    intro input rest found
    cases form : key.wireType with
    | varint =>
      simp only [skip, form] at found ⊢
      exact Varint.read_front.skips found
    | sixtyFourBit =>
      simp only [skip, form] at found ⊢
      exact (cutBytes_front 8).skips found
    | thirtyTwoBit =>
      simp only [skip, form] at found ⊢
      exact (cutBytes_front 4).skips found
    | lengthDelimited =>
      simp only [skip, form] at found ⊢
      exact cutCounted_front.skips found
    | endGroup => simp [skip, form] at found
    | startGroup =>
      simp only [skip, form] at found ⊢
      obtain ⟨taken, whole, alike⟩ := skipGroup_front ih found
      exact ⟨taken, whole, fun behind => alike behind _ (by rw [List.length_append]; omega)⟩

end Skipping

section Steps
variable {α : Type} {step : Bytes → Except Fault (List α × Bytes)}

theorem repeatUntil_step {remaining fuel : Nat} {input rest : Bytes} {found : List α}
    (some_ : remaining < input.length) (first : step input = .ok (found, rest)) :
    repeatUntil step remaining (fuel + 1) input =
      (repeatUntil step remaining fuel rest).map (Prod.map (found ++ ·) id) := by
  cases others : repeatUntil step remaining fuel rest with
  | ok reached => exact repeatUntil_of_ok some_ first others
  | error fault => exact repeatUntil_of_later some_ first others

/-- As every step takes something, all fuels are alike that are no less than the input. -/
theorem repeatUntil_fuel (front : ReadsFront 1 step) {remaining fuel other : Nat} {input : Bytes}
    (enough : input.length ≤ fuel) (enough' : input.length ≤ other) :
    repeatUntil step remaining fuel input = repeatUntil step remaining other input := by
  induction fuel generalizing input other with
  | zero =>
    have ended : input.length ≤ remaining := by omega
    rw [repeatUntil_of_le _ ended, repeatUntil_of_le _ ended]
  | succ fuel ih =>
    by_cases ended : input.length ≤ remaining
    · rw [repeatUntil_of_le _ ended, repeatUntil_of_le _ ended]
    · have some_ : remaining < input.length := Nat.lt_of_not_le ended
      obtain ⟨other, rfl⟩ := Nat.exists_eq_succ_of_ne_zero (by omega : other ≠ 0)
      cases first : step input with
      | error fault => rw [repeatUntil_of_error some_ first, repeatUntil_of_error some_ first]
      | ok reached =>
        obtain ⟨found, rest⟩ := reached
        obtain ⟨taken, least, whole, _⟩ := front first
        have shorter := congrArg List.length whole
        rw [List.length_append] at shorter
        rw [repeatUntil_step some_ first, repeatUntil_step some_ first,
          ih (by omega) (by omega : rest.length ≤ other)]

/-- With fuel enough, the steps end for want of input only. -/
theorem le_of_repeatUntil (front : ReadsFront 1 step) {remaining fuel : Nat} {input rest : Bytes}
    {found : List α} (enough : input.length ≤ fuel)
    (run : repeatUntil step remaining fuel input = .ok (found, rest)) : rest.length ≤ remaining := by
  induction fuel generalizing input found with
  | zero =>
    cases run
    omega
  | succ fuel ih =>
    by_cases ended : input.length ≤ remaining
    · rw [repeatUntil_of_le _ ended] at run
      cases run
      exact ended
    · have some_ : remaining < input.length := Nat.lt_of_not_le ended
      cases first : step input with
      | error fault =>
        rw [repeatUntil_of_error some_ first] at run
        cases run
      | ok reached =>
        obtain ⟨early, middle⟩ := reached
        rw [repeatUntil_step some_ first] at run
        obtain ⟨⟨late, left⟩, others, same⟩ := map_eq_ok_iff.mp run
        cases same
        obtain ⟨taken, least, whole, _⟩ := front first
        have shorter := congrArg List.length whole
        rw [List.length_append] at shorter
        exact ih (by omega) others

/-- Steps that end at a certain byte give the same in front of anything else, and go on with that. -/
theorem repeatUntil_append (front : ReadsFront 1 step) {fuel : Nat} {input rest : Bytes}
    {found : List α} (ends : repeatUntil step rest.length fuel input = .ok (found, rest)) :
    ∃ taken, input = taken ++ rest ∧ ∀ (behind : Bytes) (remaining fuel : Nat),
      remaining ≤ behind.length → taken.length + behind.length ≤ fuel →
        repeatUntil step remaining fuel (taken ++ behind) =
          (repeatUntil step remaining behind.length behind).map (Prod.map (found ++ ·) id) := by
  have idle : ∀ result : Except Fault (List α × Bytes), result.map (Prod.map ([] ++ ·) id) = result := by
    rintro (fault | ⟨found, rest⟩) <;> rfl
  induction fuel generalizing input found with
  | zero =>
    cases ends
    refine ⟨[], rfl, fun behind remaining fuel _ enough => ?_⟩
    rw [List.nil_append, idle, repeatUntil_fuel front (by simpa using enough) (Nat.le_refl _)]
  | succ fuel ih =>
    by_cases ended : input.length ≤ rest.length
    · rw [repeatUntil_of_le _ ended] at ends
      cases ends
      refine ⟨[], rfl, fun behind remaining fuel _ enough => ?_⟩
      rw [List.nil_append, idle, repeatUntil_fuel front (by simpa using enough) (Nat.le_refl _)]
    · have some_ : rest.length < input.length := Nat.lt_of_not_le ended
      cases first : step input with
      | error fault =>
        rw [repeatUntil_of_error some_ first] at ends
        cases ends
      | ok reached =>
        obtain ⟨early, middle⟩ := reached
        rw [repeatUntil_step some_ first] at ends
        obtain ⟨⟨late, left⟩, others, same⟩ := map_eq_ok_iff.mp ends
        cases same
        obtain ⟨taken, least, whole, alike⟩ := front first
        obtain ⟨taken', whole', alike'⟩ := ih others
        refine ⟨taken ++ taken', by rw [whole, whole', List.append_assoc],
          fun behind remaining fuel some_ enough => ?_⟩
        rw [List.length_append] at enough
        obtain ⟨fuel, rfl⟩ := Nat.exists_eq_succ_of_ne_zero (by omega : fuel ≠ 0)
        rw [List.append_assoc, repeatUntil_step (by simp; omega) (alike _),
          alike' behind remaining fuel some_ (by omega)]
        cases repeatUntil step remaining behind.length behind with
        | error fault => rfl
        | ok result => simp [Except.map, Prod.map]

def readCounted (step : Bytes → Except Fault (List α × Bytes)) (count : Nat) (input : Bytes) :
    Except Fault (List α × Bytes) :=
  if input.length < count then .error ⟨.underflow, []⟩
  else do
    let (found, rest) ← repeatUntil step (input.length - count) input.length input
    if rest.length = input.length - count then .ok (found, rest) else .error ⟨.overrun, []⟩

theorem readDelimited_eq (input : Bytes) :
    readDelimited step input =
      lift (Varint.read input) >>= fun found => readCounted step found.1 found.2 :=
  rfl

/-- A counted run is read alike in front of anything else, though the count is compared with all the
input that is left. -/
theorem readCounted_front (front : ReadsFront 1 step) (count : Nat) :
    ReadsFront 0 (readCounted step count) := by
  intro input rest found ends
  unfold readCounted at ends
  by_cases short : input.length < count
  · rw [if_pos short] at ends
    cases ends
  · rw [if_neg short] at ends
    obtain ⟨⟨read, left⟩, run, stops⟩ := bind_eq_ok_iff.mp ends
    dsimp only at stops
    split at stops
    next exact_ =>
      cases stops
      rw [← exact_] at run
      obtain ⟨taken, whole, alike⟩ := repeatUntil_append front run
      refine ⟨taken, Nat.zero_le _, whole, fun behind => ?_⟩
      have length := congrArg List.length whole
      rw [List.length_append] at length
      have remaining : (taken ++ behind).length - count = behind.length := by
        rw [List.length_append]
        omega
      have again := alike behind behind.length (taken ++ behind).length (Nat.le_refl _) (by simp)
      rw [repeatUntil_of_le _ (Nat.le_refl _)] at again
      rw [readCounted, if_neg (by simp; omega), remaining]
      exact bind_eq_ok_iff.mpr ⟨_, again, by simp⟩
    next => cases stops

theorem readDelimited_front (front : ReadsFront 1 step) : ReadsFront 1 (readDelimited step) :=
  (Varint.read_front.lift.bind (readCounted_front front)).of_eq readDelimited_eq

end Steps

section Messages

theorem readContent_front {nested : MessageType → Bytes → Except Fault (Entries × Bytes)}
    (inner : ∀ type, ReadsFront 0 (nested type)) (field : Field) (wireType : WireType) :
    ReadsFront 0 (readContent nested field wireType) := by
  have integer : ReadsFront 0 readInteger := readInteger_front.weaken (Nat.zero_le 1)
  have counted : ReadsFront 0 fun input => lift (cutCounted input) :=
    cutCounted_front.lift.weaken (Nat.zero_le 1)
  have number : ReadsFront 0 fun input => lift (Varint.read input) :=
    Varint.read_front.lift.weaken (Nat.zero_le 1)
  cases known : field.type with
  | text =>
    refine .of_eq (fun input => ?_) (.guard (lift (expect .lengthDelimited wireType)) fun _ =>
      counted.bind fun content => .guard (lift (readText content)) fun text =>
        .const (.ok [Value.text text]))
    simp only [readContent, known]
    rfl
  | bytes =>
    refine .of_eq (fun input => ?_) (.guard (lift (expect .lengthDelimited wireType)) fun _ =>
      counted.bind fun content => .const (.ok [Value.bytes content]))
    simp only [readContent, known]
    rfl
  | flag =>
    refine .of_eq (fun input => ?_) (.guard (lift (expect .varint wireType)) fun _ =>
      number.bind fun value => .const (.ok [Value.flag (value != 0)]))
    simp only [readContent, known]
    rfl
  | integer =>
    by_cases packed : field.repeated ∧ wireType = .lengthDelimited
    · refine .of_eq (fun input => ?_) ((readDelimited_front readInteger_front).weaken (Nat.zero_le 1))
      simp only [readContent, known, if_pos packed]
    · refine .of_eq (fun input => ?_) (.guard (lift (expect .varint wireType)) fun _ => integer)
      simp only [readContent, known, if_neg packed]
  | double =>
    refine .of_eq (fun input => ?_) (.guard (lift (expect .sixtyFourBit wireType)) fun _ =>
      (cutBytes_front 8).lift.bind fun content => .const (.ok [Value.double content]))
    simp only [readContent, known]
    rfl
  | message type =>
    refine .of_eq (fun input => ?_) (.guard (lift (expect .lengthDelimited wireType)) fun _ =>
      (inner type).bind fun entries => .const (.ok [Value.message entries]))
    simp only [readContent, known]
    rfl

theorem readEntryWith_eq (nested : MessageType → Bytes → Except Fault (Entries × Bytes))
    (skip : Key → Bytes → Except Cause Bytes) (type : MessageType) (input : Bytes) :
    readEntryWith nested skip type input = lift (Key.read input) >>= fun found =>
      (type.field? found.1.number).elim (lift (skip found.1 found.2) >>= fun rest => .ok ([], rest))
        fun field => ((readContent nested field found.1.wireType found.2).mapError
          (Fault.within type.name field.name)).map fun content =>
            (content.1.map fun value => (field.number, value), content.2) := by
  unfold readEntryWith
  cases lift (Key.read input) with
  | error fault => rfl
  | ok found =>
    obtain ⟨key, rest⟩ := found
    simp only [bind, Except.bind]
    cases type.field? key.number with
    | none => rfl
    | some field =>
      simp only [Option.elim_some]
      cases readContent nested field key.wireType rest <;> rfl

theorem readEntryWith_front {nested : MessageType → Bytes → Except Fault (Entries × Bytes)}
    {skip : Key → Bytes → Except Cause Bytes} (inner : ∀ type, ReadsFront 0 (nested type))
    (skips : ∀ key, SkipsFront (skip key)) (type : MessageType) :
    ReadsFront 1 (readEntryWith nested skip type) := by
  have later : ∀ key : Key, ReadsFront 0 fun rest =>
      (type.field? key.number).elim (lift (skip key rest) >>= fun rest => .ok ([], rest))
        fun field => ((readContent nested field key.wireType rest).mapError
          (Fault.within type.name field.name)).map fun content =>
            (content.1.map fun value => (field.number, value), content.2) := by
    intro key
    cases type.field? key.number with
    | none => exact (skips key).reads []
    | some field => exact ((readContent_front inner field key.wireType).mapError _).map _
  exact .of_eq (readEntryWith_eq nested skip type) (Key.read_front.lift.bind later)

/-- A field is read alike in front of anything else, its messages at every level. -/
theorem readEntry_front (levels : Nat) (type : MessageType) : ReadsFront 1 (readEntry levels type) := by
  induction levels generalizing type with
  | zero => exact readEntryWith_front (fun _ _ _ _ found => by cases found) (skip_front 0) type
  | succ levels ih =>
    exact readEntryWith_front (fun inner => (readDelimited_front (ih inner)).weaken (Nat.zero_le 1))
      (skip_front (levels + 1)) type

/-- Behind a message that is read, other bytes are read as they are alone, and refused for the same. -/
theorem decode_append {type : MessageType} {first : Bytes} {entries : Entries}
    (read : decode type first = .ok entries) (second : Bytes) :
    decode type (first ++ second) = (decode type second).map (entries ++ ·) := by
  obtain ⟨⟨found, rest⟩, run, rfl⟩ := map_eq_ok_iff.mp read
  have front := readEntry_front maxDepth type
  obtain rfl : rest = [] :=
    List.length_eq_zero_iff.mp (Nat.le_zero.mp (le_of_repeatUntil front (Nat.le_refl _) run))
  have ends : repeatUntil (readEntry maxDepth type) ([] : Bytes).length first.length first =
      .ok (found, []) := run
  obtain ⟨taken, whole, alike⟩ := repeatUntil_append front ends
  rw [List.append_nil] at whole
  subst whole
  rw [decode, alike second 0 _ (Nat.zero_le _) (by simp), decode]
  cases repeatUntil (readEntry maxDepth type) 0 second.length second <;> rfl

end Messages

end TrpcRouters.Wire
