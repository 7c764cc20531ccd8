import TrpcRouters.Proofs.Wire.Encoding

/-! Reading what was encoded. Entries that fit their message type are read back, if there are as many
levels of messages left as they take; with fewer, the reader stops at the message that is one too
deep. Both follow the values down: what holds of the content of a field holds of the field, and what
holds of every field holds of the message. -/

namespace TrpcRouters.Wire

/-- How messages are read inside of one that has `levels` left below it. -/
def nestedReader : (levels : Nat) → MessageType → Bytes → Except Fault (Entries × Bytes)
  | 0 => fun _ _ => .error ⟨.tooDeep, []⟩
  | levels + 1 => fun type => readDelimited (readEntry levels type)

theorem readEntry_eq (levels : Nat) (type : MessageType) :
    readEntry levels type = readEntryWith (nestedReader levels) (skip levels) type := by
  cases levels <;> rfl

theorem lift_ok {α : Type} (value : α) : lift (.ok value) = .ok value :=
  rfl

section Steps
variable {α : Type} {step : Bytes → Except Fault (List α × Bytes)} {remaining : Nat}

theorem repeatUntil_of_le {input : Bytes} (fuel : Nat) (ended : input.length ≤ remaining) :
    repeatUntil step remaining fuel input = .ok ([], input) := by
  cases fuel with
  | zero => rfl
  | succ fuel => exact if_pos ended

theorem repeatUntil_of_ok {input rest left : Bytes} {found more : List α} {fuel : Nat}
    (some_ : remaining < input.length) (first : step input = .ok (found, rest))
    (others : repeatUntil step remaining fuel rest = .ok (more, left)) :
    repeatUntil step remaining (fuel + 1) input = .ok (found ++ more, left) := by
  rw [repeatUntil, if_neg (by omega), first]
  show Except.bind (repeatUntil step remaining fuel rest) _ = _
  rw [others]
  rfl

theorem repeatUntil_of_error {input : Bytes} {fault : Fault} {fuel : Nat}
    (some_ : remaining < input.length) (first : step input = .error fault) :
    repeatUntil step remaining (fuel + 1) input = .error fault := by
  rw [repeatUntil, if_neg (by omega), first]
  rfl

theorem repeatUntil_of_later {input rest : Bytes} {found : List α} {fault : Fault} {fuel : Nat}
    (some_ : remaining < input.length) (first : step input = .ok (found, rest))
    (others : repeatUntil step remaining fuel rest = .error fault) :
    repeatUntil step remaining (fuel + 1) input = .error fault := by
  rw [repeatUntil, if_neg (by omega), first]
  show Except.bind (repeatUntil step remaining fuel rest) _ = _
  rw [others]
  rfl

/-- A counted run is read with all the input behind its count in sight. -/
theorem readDelimited_counted (step : Bytes → Except Fault (List α × Bytes)) {content : Bytes}
    (short : content.length < 2 ^ 64) (rest : Bytes) :
    readDelimited step (counted content ++ rest) =
      (repeatUntil step rest.length (content ++ rest).length (content ++ rest)).bind fun read =>
        if read.2.length = rest.length then .ok read else .error ⟨.overrun, []⟩ := by
  have remaining : (content ++ rest).length - content.length = rest.length := by simp
  have enough : ¬(content ++ rest).length < content.length := by simp
  rw [counted, List.append_assoc, readDelimited, Varint.read_write short]
  show (if (content ++ rest).length < content.length then _ else _) = _
  rw [if_neg enough]
  dsimp only
  rw [remaining]
  rfl

end Steps

theorem Entries.length_encodeEntry_pos (entry : Nat × Value) :
    0 < (Entries.encodeEntry entry).length := by
  obtain ⟨number, value⟩ := entry
  have key := Varint.length_write_pos (8 * number + value.wireType.code)
  simp only [Entries.encodeEntry, Key.write, List.length_append]
  omega

mutual

theorem Value.read_encode : (value : Value) → ∀ {field : Field}, Value.Fits field.type value →
    (Value.encode value).length < 2 ^ 64 → ∀ {levels : Nat}, Value.depth value ≤ levels →
      ∀ rest : Bytes, readContent (nestedReader levels) field value.wireType
        (Value.encode value ++ rest) = .ok ([value], rest)
  | .text content, field, known, short, levels, _, rest => by
    have bytes : (Text.encode content).length < 2 ^ 64 := length_of_counted short
    simp only [readContent, show field.type = .text from known, Value.encode,
      cutCounted_counted bytes]
    show Except.bind (lift (readText (Text.encode content))) _ = _
    rw [readText_encode]
    rfl
  | .bytes content, field, known, short, levels, _, rest => by
    have bytes : content.length < 2 ^ 64 := length_of_counted short
    simp only [readContent, show field.type = .bytes from known, Value.encode,
      cutCounted_counted bytes]
    rfl
  | .flag isSet, field, known, short, levels, _, rest => by
    have number : isSet.toNat < 2 ^ 64 := by cases isSet <;> decide
    simp only [readContent, show field.type = .flag from known, Value.encode,
      Varint.read_write number]
    cases isSet <;> rfl
  | .integer number, field, known, short, levels, _, rest => by
    obtain ⟨known, bound⟩ := known
    simp only [readContent, known, Value.encode, readInteger, Varint.read_write bound,
      Value.wireType]
    rw [if_neg (by simp)]
    rfl
  | .double content, field, known, short, levels, _, rest => by
    obtain ⟨known, bytes⟩ := known
    have whole := cutBytes_append content rest
    rw [bytes] at whole
    simp only [readContent, known, Value.encode, whole]
    rfl
  | .message entries, field, known, short, 0, room, rest => by
    exact absurd room (by simp [Value.depth])
  | .message entries, field, known, short, levels + 1, room, rest => by
    obtain ⟨inner, known, fit⟩ := known
    have bytes : (Entries.encode entries).length < 2 ^ 64 := length_of_counted short
    have below : Entries.depth entries ≤ levels := Nat.le_of_succ_le_succ room
    have read := Entries.repeatUntil_encode entries fit bytes below rest
      (Entries.encode entries ++ rest).length (by simp)
    simp only [readContent, known, Value.encode, nestedReader, readDelimited_counted _ bytes, read,
      Except.bind, if_true]
    rfl

theorem Entries.readEntry_encode : (entry : Nat × Value) → ∀ {type : MessageType},
    Entries.FitsEntry type entry → (Entries.encodeEntry entry).length < 2 ^ 64 →
      ∀ {levels : Nat}, Entries.entryDepth entry ≤ levels → ∀ rest : Bytes,
        readEntry levels type (Entries.encodeEntry entry ++ rest) = .ok ([entry], rest)
  | (number, value), type, fits, short, levels, room, rest => by
    obtain ⟨field, known, fits⟩ := fits
    obtain ⟨same, some_, bound⟩ := MessageType.field?_number known
    have bytes : (Value.encode value).length < 2 ^ 64 := by
      rw [Entries.encodeEntry, List.length_append] at short
      omega
    have read := Value.read_encode value fits bytes room rest
    rw [readEntry_eq, readEntryWith, Entries.encodeEntry, List.append_assoc,
      Key.read_write some_ bound]
    simp only [lift_ok, bind, Except.bind, known, read, same, List.map_cons, List.map_nil]

theorem Entries.repeatUntil_encode : (entries : Entries) → ∀ {type : MessageType},
    Entries.Fit type entries → (Entries.encode entries).length < 2 ^ 64 →
      ∀ {levels : Nat}, Entries.depth entries ≤ levels → ∀ (rest : Bytes) (fuel : Nat),
        (Entries.encode entries).length ≤ fuel →
          repeatUntil (readEntry levels type) rest.length fuel (Entries.encode entries ++ rest) =
            .ok (entries, rest)
  | [], _, _, _, _, _, rest, fuel, _ => by
    exact repeatUntil_of_le fuel (by simp [Entries.encode])
  | entry :: others, type, fit, short, levels, room, rest, fuel, enough => by
    obtain ⟨fits, fit⟩ := fit
    have some_ := Entries.length_encodeEntry_pos entry
    simp only [Entries.encode, List.length_append] at short enough
    obtain ⟨room, below⟩ := Nat.max_le.mp room
    obtain ⟨fuel, rfl⟩ := Nat.exists_eq_succ_of_ne_zero (by omega : fuel ≠ 0)
    rw [Entries.encode, List.append_assoc]
    exact repeatUntil_of_ok (by simp; omega)
      (Entries.readEntry_encode entry fits (by omega) room _)
      (Entries.repeatUntil_encode others fit (by omega) below rest _ (by omega))

end

mutual

theorem Value.tooDeep : (value : Value) → ∀ {field : Field}, Value.Fits field.type value →
    (Value.encode value).length < 2 ^ 64 → ∀ {levels : Nat}, levels < Value.depth value →
      ∀ rest : Bytes, ∃ trail, readContent (nestedReader levels) field value.wireType
        (Value.encode value ++ rest) = .error ⟨.tooDeep, trail⟩
  | .message entries, field, known, short, 0, beyond, rest => by
    obtain ⟨inner, known, fit⟩ := known
    refine ⟨[], ?_⟩
    simp only [readContent, known, nestedReader]
    rfl
  | .message entries, field, known, short, levels + 1, beyond, rest => by
    obtain ⟨inner, known, fit⟩ := known
    have bytes : (Entries.encode entries).length < 2 ^ 64 := length_of_counted short
    have below : levels < Entries.depth entries := Nat.lt_of_succ_lt_succ beyond
    obtain ⟨trail, stopped⟩ := Entries.repeatUntil_tooDeep entries fit bytes below rest
      (Entries.encode entries ++ rest).length (by simp)
    refine ⟨trail, ?_⟩
    simp only [readContent, known, Value.encode, nestedReader, readDelimited_counted _ bytes, stopped]
    rfl

theorem Entries.readEntry_tooDeep : (entry : Nat × Value) → ∀ {type : MessageType},
    Entries.FitsEntry type entry → (Entries.encodeEntry entry).length < 2 ^ 64 →
      ∀ {levels : Nat}, levels < Entries.entryDepth entry → ∀ rest : Bytes, ∃ trail,
        readEntry levels type (Entries.encodeEntry entry ++ rest) = .error ⟨.tooDeep, trail⟩
  | (number, value), type, fits, short, levels, beyond, rest => by
    obtain ⟨field, known, fits⟩ := fits
    obtain ⟨same, some_, bound⟩ := MessageType.field?_number known
    have bytes : (Value.encode value).length < 2 ^ 64 := by
      rw [Entries.encodeEntry, List.length_append] at short
      omega
    obtain ⟨trail, stopped⟩ := Value.tooDeep value fits bytes beyond rest
    refine ⟨trail ++ [(type.name, field.name)], ?_⟩
    rw [readEntry_eq, readEntryWith, Entries.encodeEntry, List.append_assoc,
      Key.read_write some_ bound]
    simp only [lift_ok, bind, Except.bind, known, stopped, Fault.within]

/-- The first field that goes too deep ends the reading; those before it are read back. -/
theorem Entries.repeatUntil_tooDeep : (entries : Entries) → ∀ {type : MessageType},
    Entries.Fit type entries → (Entries.encode entries).length < 2 ^ 64 →
      ∀ {levels : Nat}, levels < Entries.depth entries → ∀ (rest : Bytes) (fuel : Nat),
        (Entries.encode entries).length ≤ fuel → ∃ trail,
          repeatUntil (readEntry levels type) rest.length fuel (Entries.encode entries ++ rest) =
            .error ⟨.tooDeep, trail⟩
  | entry :: others, type, fit, short, levels, beyond, rest, fuel, enough => by
    obtain ⟨fits, fit⟩ := fit
    have some_ := Entries.length_encodeEntry_pos entry
    simp only [Entries.encode, List.length_append] at short enough
    obtain ⟨fuel, rfl⟩ := Nat.exists_eq_succ_of_ne_zero (by omega : fuel ≠ 0)
    rw [Entries.encode, List.append_assoc]
    by_cases room : Entries.entryDepth entry ≤ levels
    · have deepest : levels < max (Entries.entryDepth entry) (Entries.depth others) := beyond
      have below : levels < Entries.depth others := by omega
      obtain ⟨trail, stopped⟩ :=
        Entries.repeatUntil_tooDeep others fit (by omega) below rest fuel (by omega)
      exact ⟨trail, repeatUntil_of_later (by simp; omega)
        (Entries.readEntry_encode entry fits (by omega) room _) stopped⟩
    · obtain ⟨trail, stopped⟩ :=
        Entries.readEntry_tooDeep entry fits (by omega) (Nat.lt_of_not_le room)
          (Entries.encode others ++ rest)
      exact ⟨trail, repeatUntil_of_error (by simp; omega) stopped⟩

end

/-- What was encoded is decoded, if its messages go no deeper than the reader. -/
theorem decode_encode {type : MessageType} {entries : Entries} (fit : entries.Fit type)
    (short : entries.encode.length < 2 ^ 64) (room : entries.depth ≤ maxDepth) :
    decode type entries.encode = .ok entries := by
  have read := Entries.repeatUntil_encode entries fit short room [] _ (Nat.le_refl _)
  rw [List.append_nil] at read
  rw [decode, show 0 = ([] : Bytes).length from rfl, read]
  rfl

theorem decode_tooDeep {type : MessageType} {entries : Entries} (fit : entries.Fit type)
    (short : entries.encode.length < 2 ^ 64) (beyond : maxDepth < entries.depth) :
    ∃ trail, decode type entries.encode = .error ⟨.tooDeep, trail⟩ := by
  obtain ⟨trail, stopped⟩ := Entries.repeatUntil_tooDeep entries fit short beyond [] _ (Nat.le_refl _)
  rw [List.append_nil] at stopped
  refine ⟨trail, ?_⟩
  rw [decode, show 0 = ([] : Bytes).length from rfl, stopped]
  rfl

end TrpcRouters.Wire
