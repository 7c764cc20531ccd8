import TrpcRouters.Proofs.Wire.RoundTrip

/-! The ways to spell a message. Beside its standard encoding, a message may come with runs of numbers in
one field and with fields between its own that the schema does not know, at every level, the lengths
around them counting these. All spellings are read alike, but a field that is not known takes a level of its
own to step over, so that the deepest message must leave one. -/

namespace TrpcRouters.Wire

/-- The ways to write a number in groups of seven bits, the last ones may all be zero. -/
inductive Varint.Spells : (places : Nat) → Bytes → Nat → Prop
  | last {places : Nat} {byte : UInt8} (low : byte.toNat < 128) (fits : places = 0 → byte.toNat < 2) :
    Spells (places + 1) [byte] byte.toNat
  | more {places : Nat} {byte : UInt8} {rest : Bytes} {high : Nat} (continued : 128 ≤ byte.toNat)
    (behind : Spells places rest high) :
    Spells (places + 1) (byte :: rest) (byte.toNat - 128 + 128 * high)

/-- What may follow a key of a wire type; groups are left out. -/
inductive Content : WireType → Bytes → Prop
  | varint {bytes : Bytes} {value : Nat} (number : Varint.Spells Varint.maxBytes bytes value) :
    Content .varint bytes
  | sixtyFourBit {bytes : Bytes} (eight : bytes.length = 8) : Content .sixtyFourBit bytes
  | thirtyTwoBit {bytes : Bytes} (four : bytes.length = 4) : Content .thirtyTwoBit bytes
  | lengthDelimited {count bytes : Bytes} (length : Varint.Spells Varint.maxBytes count bytes.length) :
    Content .lengthDelimited (count ++ bytes)

/-- A whole field, of a number that is not in the schema of the message. -/
inductive Unknown (type : MessageType) : Bytes → Prop
  | field {key : Key} {head content : Bytes} (foreign : type.field? key.number = none)
    (some_ : 0 < key.number) (bound : key.number < 2 ^ 29)
    (spelled : Varint.Spells Varint.maxBytes head (8 * key.number + key.wireType.code))
    (follows : Content key.wireType content) : Unknown type (head ++ content)

/-- Where a spelling may differ from one field after another: `foreign` fields that the schema does not
know, and repeated numbers that are `packed` into one field. -/
structure Style where
  foreign : Bool
  packed : Bool
deriving DecidableEq, Inhabited, Repr

inductive Spelled (style : Style) : MessageType → Entries → Bytes → Prop
  | nil {type : MessageType} : Spelled style type [] []
  | unknown {type : MessageType} {field : Bytes} {entries : Entries} {rest : Bytes}
    (allowed : style.foreign = true) (unknown : Unknown type field)
    (others : Spelled style type entries rest) : Spelled style type entries (field ++ rest)
  | plain {type : MessageType} {entry : Nat × Value} {entries : Entries} {rest : Bytes}
    (fits : Entries.FitsEntry type entry) (others : Spelled style type entries rest) :
    Spelled style type (entry :: entries) (Entries.encodeEntry entry ++ rest)
  | message {type inner : MessageType} {number : Nat} {field : Field} {held entries : Entries}
    {content rest : Bytes} (known : type.field? number = some field)
    (message : field.type = .message inner) (inside : Spelled style inner held content)
    (others : Spelled style type entries rest) :
    Spelled style type ((number, .message held) :: entries)
      (Key.write ⟨number, .lengthDelimited⟩ ++ counted content ++ rest)
  | packed {type : MessageType} {number : Nat} {field : Field} {numbers : List Nat} {entries : Entries}
    {rest : Bytes} (allowed : style.packed = true) (known : type.field? number = some field)
    (integer : field.type = .integer) (repeated : field.repeated = true)
    (fit : ∀ value ∈ numbers, value < 2 ^ 64) (others : Spelled style type entries rest) :
    Spelled style type (numbers.map (fun value => (number, .integer value)) ++ entries)
      (Key.write ⟨number, .lengthDelimited⟩ ++ counted (numbers.flatMap Varint.write) ++ rest)

section Reading

theorem Varint.readWithin_spells {places value : Nat} {bytes : Bytes} (spelled : Spells places bytes value)
    (rest : Bytes) : readWithin places (bytes ++ rest) = some (value, rest) := by
  induction spelled with
  | @last places byte low fits =>
    have small : ¬(places = 0 ∧ 2 ≤ byte.toNat) := fun ⟨none_, high⟩ => absurd (fits none_) (by omega)
    rw [List.singleton_append, readWithin, if_pos low, if_neg small]
  | more continued behind ih =>
    rw [List.cons_append, readWithin, if_neg (Nat.not_lt_of_le continued), ih]
    rfl

theorem Varint.spells_of_read {places value : Nat} {bytes : Bytes}
    (found : readWithin places bytes = some (value, [])) : Spells places bytes value := by
  induction places generalizing bytes value with
  | zero => simp [readWithin] at found
  | succ places ih =>
    cases bytes with
    | nil => simp [readWithin] at found
    | cons byte rest =>
      rw [readWithin] at found
      by_cases low : byte.toNat < 128
      · rw [if_pos low] at found
        split at found
        · cases found
        next fits =>
          cases found
          exact .last low fun none_ => Nat.lt_of_not_le fun high => fits ⟨none_, high⟩
      · rw [if_neg low] at found
        obtain ⟨⟨high, left⟩, inner, same⟩ := Option.map_eq_some_iff.mp found
        cases same
        exact .more (Nat.le_of_not_lt low) (ih inner)

theorem Varint.read_spells {value : Nat} {bytes : Bytes} (spelled : Spells maxBytes bytes value)
    (rest : Bytes) : read (bytes ++ rest) = .ok (value, rest) := by
  rw [read, readWithin_spells spelled]

theorem Varint.Spells.length_pos {places value : Nat} {bytes : Bytes}
    (spelled : Spells places bytes value) : 0 < bytes.length := by
  cases spelled <;> simp

theorem skip_content {levels : Nat} {key : Key} {content : Bytes} (follows : Content key.wireType content)
    (rest : Bytes) : skip (levels + 1) key (content ++ rest) = .ok rest := by
  obtain ⟨number, wireType⟩ := key
  cases follows with
  | varint spelled =>
    simp only [skip, Varint.read_spells spelled]
    rfl
  | sixtyFourBit eight =>
    have cut := cutBytes_append content rest
    rw [eight] at cut
    simp only [skip, cut]
    rfl
  | thirtyTwoBit four =>
    have cut := cutBytes_append content rest
    rw [four] at cut
    simp only [skip, cut]
    rfl
  | @lengthDelimited count bytes length =>
    simp only [skip, List.append_assoc, cutCounted, Varint.read_spells length]
    show (cutBytes bytes.length (bytes ++ rest)).map Prod.snd = _
    rw [cutBytes_append]
    rfl

/-- A field that the schema does not know gives nothing. -/
theorem Unknown.readEntry {type : MessageType} {field : Bytes} (unknown : Unknown type field)
    (levels : Nat) (rest : Bytes) :
    readEntry (levels + 1) type (field ++ rest) = .ok ([], rest) := by
  obtain ⟨foreign, some_, bound, spelled, follows⟩ := unknown
  rw [readEntry_eq, readEntryWith, List.append_assoc, Key.read, Varint.read_spells spelled]
  simp only [bind, Except.bind, Key.ofNumber_whole some_ bound, lift_ok, foreign,
    skip_content follows]

theorem Unknown.length_pos {type : MessageType} {field : Bytes} (unknown : Unknown type field) :
    0 < field.length := by
  obtain ⟨_, _, _, spelled, _⟩ := unknown
  rw [List.length_append]
  exact Nat.add_pos_left spelled.length_pos _

theorem repeatUntil_cons {α : Type} {step : Bytes → Except Fault (List α × Bytes)} {first behind : Bytes}
    {found more : List α} {fuel : Nat} (some_ : 0 < first.length) {rest : Bytes}
    (read : step (first ++ (behind ++ rest)) = .ok (found, behind ++ rest))
    (others : ∀ fuel : Nat, behind.length ≤ fuel →
      repeatUntil step rest.length fuel (behind ++ rest) = .ok (more, rest))
    (enough : (first ++ behind).length ≤ fuel) :
    repeatUntil step rest.length fuel (first ++ behind ++ rest) = .ok (found ++ more, rest) := by
  rw [List.length_append] at enough
  obtain ⟨fuel, rfl⟩ := Nat.exists_eq_succ_of_ne_zero (by omega : fuel ≠ 0)
  rw [List.append_assoc]
  exact repeatUntil_of_ok (by simp only [List.length_append]; omega) read (others fuel (by omega))

theorem repeatUntil_numbers {numbers : List Nat} (fit : ∀ value ∈ numbers, value < 2 ^ 64) (rest : Bytes)
    {fuel : Nat} (enough : (numbers.flatMap Varint.write).length ≤ fuel) :
    repeatUntil readInteger rest.length fuel (numbers.flatMap Varint.write ++ rest) =
      .ok (numbers.map .integer, rest) := by
  induction numbers generalizing fuel with
  | nil => exact repeatUntil_of_le fuel (Nat.le_refl _)
  | cons value numbers ih =>
    obtain ⟨bound, fit⟩ := List.forall_mem_cons.mp fit
    have first (behind : Bytes) :
        readInteger (Varint.write value ++ behind) = .ok ([.integer value], behind) := by
      rw [readInteger, Varint.read_write bound]
      rfl
    exact repeatUntil_cons (Varint.length_write_pos value) (first _) (fun fuel => ih fit) enough

theorem readEntry_known {type : MessageType} {number levels : Nat} {field : Field} {wireType : WireType}
    {content rest : Bytes} {values : List Value} (known : type.field? number = some field)
    (read : readContent (nestedReader levels) field wireType content = .ok (values, rest)) :
    readEntry levels type (Key.write ⟨number, wireType⟩ ++ content) =
      .ok (values.map fun value => (number, value), rest) := by
  obtain ⟨same, some_, bound⟩ := MessageType.field?_number known
  rw [readEntry_eq, readEntryWith, Key.read_write some_ bound]
  simp only [lift_ok, bind, Except.bind, known, read, same]

theorem readContent_message {levels : Nat} {field : Field} {inner : MessageType} {content : Bytes}
    {held : Entries} (message : field.type = .message inner) (short : content.length < 2 ^ 64) {rest : Bytes}
    (read : repeatUntil (readEntry levels inner) rest.length (content ++ rest).length (content ++ rest) =
      .ok (held, rest)) :
    readContent (nestedReader (levels + 1)) field .lengthDelimited (counted content ++ rest) =
      .ok ([.message held], rest) := by
  simp only [readContent, message, nestedReader, readDelimited_counted _ short, read, Except.bind, if_true]
  rfl

theorem readContent_packed {nested : MessageType → Bytes → Except Fault (Entries × Bytes)} {field : Field}
    {numbers : List Nat} (integer : field.type = .integer) (repeated : field.repeated = true)
    (fit : ∀ value ∈ numbers, value < 2 ^ 64) (short : (numbers.flatMap Varint.write).length < 2 ^ 64)
    (rest : Bytes) :
    readContent nested field .lengthDelimited (counted (numbers.flatMap Varint.write) ++ rest) =
      .ok (numbers.map .integer, rest) := by
  have read := repeatUntil_numbers fit rest
    (show _ ≤ (numbers.flatMap Varint.write ++ rest).length by simp)
  simp only [readContent, integer, repeated, readDelimited_counted _ short, read, Except.bind, if_true,
    and_self]

theorem Key.length_write_append_pos (key : Key) (content : Bytes) : 0 < (key.write ++ content).length := by
  rw [List.length_append]
  exact Nat.add_pos_left (Varint.length_write_pos _) _

/-- All spellings of a message are read alike, with a level to spare where fields may be unknown. -/
theorem Spelled.repeatUntil {style : Style} {type : MessageType} {entries : Entries} {bytes : Bytes}
    (spelled : Spelled style type entries bytes) (short : bytes.length < 2 ^ 64) {levels : Nat}
    (room : entries.depth + style.foreign.toNat ≤ levels) (rest : Bytes) {fuel : Nat}
    (enough : bytes.length ≤ fuel) :
    Wire.repeatUntil (readEntry levels type) rest.length fuel (bytes ++ rest) = .ok (entries, rest) := by
  induction spelled generalizing levels rest fuel with
  | nil => exact repeatUntil_of_le fuel (Nat.le_refl _)
  | unknown allowed unknown others ih =>
    have spare : style.foreign.toNat = 1 := by rw [allowed]; rfl
    obtain ⟨above, rfl⟩ := Nat.exists_eq_succ_of_ne_zero (by omega : levels ≠ 0)
    rw [List.length_append] at short
    exact repeatUntil_cons unknown.length_pos (unknown.readEntry above _)
      (fun fuel => ih (by omega) room rest) enough
  | @plain _ entry _ _ fits others ih =>
    rw [Entries.depth] at room
    rw [List.length_append] at short
    exact repeatUntil_cons (Entries.length_encodeEntry_pos entry)
      (Entries.readEntry_encode entry fits (by omega) (by omega) _)
      (fun fuel => ih (by omega) (by omega) rest) enough
  | @message _ _ number _ held entries content behind known message inside others ih ih' =>
    rw [Entries.depth, Entries.entryDepth, Value.depth] at room
    rw [List.length_append, List.length_append] at short
    obtain ⟨below, rfl⟩ := Nat.exists_eq_succ_of_ne_zero (by omega : levels ≠ 0)
    have fits : content.length < 2 ^ 64 := length_of_counted (by omega)
    have deeper : held.depth + style.foreign.toNat ≤ below := by omega
    have level : entries.depth + style.foreign.toNat ≤ below + 1 := by omega
    have first := readEntry_known known
      (readContent_message message fits (ih fits deeper (behind ++ rest) (by simp)))
    rw [← List.append_assoc] at first
    exact repeatUntil_cons (Key.length_write_append_pos _ _) first
      (fun fuel => ih' (by omega) level rest) enough
  | @packed _ number _ numbers _ behind allowed known integer repeated fit others ih =>
    rw [Entries.depth_append] at room
    rw [List.length_append, List.length_append] at short
    have fits : (numbers.flatMap Varint.write).length < 2 ^ 64 := length_of_counted (by omega)
    have first := @readEntry_known _ _ levels _ _ _ _ _ known
      (readContent_packed integer repeated fit fits (behind ++ rest))
    rw [List.map_map, ← List.append_assoc] at first
    exact repeatUntil_cons (Key.length_write_append_pos _ _) first
      (fun fuel => ih (by omega) (by omega) rest) enough

theorem Spelled.decode {style : Style} {type : MessageType} {entries : Entries} {bytes : Bytes}
    (spelled : Spelled style type entries bytes) (short : bytes.length < 2 ^ 64)
    (room : entries.depth + style.foreign.toNat ≤ maxDepth) : decode type bytes = .ok entries := by
  have read := spelled.repeatUntil short room [] (Nat.le_refl _)
  rw [List.append_nil] at read
  rw [Wire.decode, show 0 = ([] : Bytes).length from rfl, read]
  rfl

end Reading

section Encoding

/-- The standard encoding is a spelling. -/
theorem Spelled.encode (style : Style) {type : MessageType} {entries : Entries} (fit : entries.Fit type) :
    Spelled style type entries entries.encode := by
  induction entries with
  | nil => exact .nil
  | cons entry rest ih => exact .plain fit.1 (ih fit.2)

theorem Varint.length_writeWithin_le (places : Nat) {small large : Nat} (le : small ≤ large) :
    (writeWithin places small).length ≤ (writeWithin places large).length := by
  induction places generalizing small large with
  | zero => exact Nat.le_refl _
  | succ places ih =>
    rw [writeWithin, writeWithin]
    by_cases low : large < 128
    · rw [if_pos low, if_pos (Nat.lt_of_le_of_lt le low)]
      exact Nat.le_refl 1
    · rw [if_neg low]
      split
      next => exact Nat.succ_le_succ (Nat.zero_le _)
      next => exact Nat.succ_le_succ (ih (Nat.div_le_div_right le))

theorem length_counted_le {small large : Bytes} (le : small.length ≤ large.length) :
    (counted small).length ≤ (counted large).length := by
  rw [counted, counted, List.length_append, List.length_append]
  exact Nat.add_le_add (Varint.length_writeWithin_le _ le) le

/-- Of the spellings that do not pack numbers, the standard encoding is the shortest. -/
theorem Spelled.length_encode_le {style : Style} {type : MessageType} {entries : Entries} {bytes : Bytes}
    (spelled : Spelled style type entries bytes) (unpacked : style.packed = false) :
    entries.encode.length ≤ bytes.length := by
  induction spelled with
  | nil => exact Nat.le_refl _
  | unknown allowed unknown others ih =>
    rw [List.length_append]
    exact Nat.le_add_left_of_le ih
  | plain fits others ih =>
    rw [Entries.encode, List.length_append, List.length_append]
    exact Nat.add_le_add_left ih _
  | message known message inside others ih ih' =>
    rw [Entries.encode, Entries.encodeEntry, Value.encode, List.length_append, List.length_append,
      List.length_append, List.length_append]
    exact Nat.add_le_add (Nat.add_le_add_left (length_counted_le ih) _) ih'
  | packed allowed => exact absurd allowed (by simp [unpacked])

end Encoding

end TrpcRouters.Wire
