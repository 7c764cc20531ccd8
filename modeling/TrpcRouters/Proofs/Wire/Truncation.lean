import TrpcRouters.Proofs.Wire.Concatenation

/-! Fields that were cut off. Wherever the cut is in a message, in its key, its length or its content, the
reader refuses what is left: a number or a counted run of bytes is never taken for a shorter one. -/

namespace TrpcRouters.Wire

/-- The first list is the front of the second and shorter. -/
def Torn (torn whole : Bytes) : Prop :=
  ∃ lost, lost ≠ [] ∧ torn ++ lost = whole

/-- What the reader finds wrong with a field that was cut off. -/
def Cause.IsCut (cause : Cause) : Prop :=
  cause = .invalidVarint ∨ cause = .underflow

section Primitives
variable {torn first second : Bytes}

/-- A cut runs through the first of two parts, or behind it through the second. -/
theorem Torn.append (cut : Torn torn (first ++ second)) :
    Torn torn first ∨ ∃ rest, torn = first ++ rest ∧ Torn rest second := by
  obtain ⟨lost, some_, whole⟩ := cut
  rcases List.append_eq_append_iff.mp whole with ⟨more, first_, lost_⟩ | ⟨rest, torn_, second_⟩
  · by_cases ends : more = []
    · rw [ends, List.append_nil] at first_
      rw [ends, List.nil_append] at lost_
      exact Or.inr ⟨[], by rw [first_, List.append_nil], lost, some_, lost_⟩
    · exact Or.inl ⟨more, ends, first_.symm⟩
  · exact Or.inr ⟨rest, torn_, lost, some_, second_.symm⟩

theorem Torn.length_lt (cut : Torn torn first) : torn.length < first.length := by
  obtain ⟨lost, some_, rfl⟩ := cut
  rw [List.length_append]
  exact Nat.lt_add_of_pos_right (List.length_pos_iff.mpr some_)

/-- All bytes of a number but the last one announce a further byte. -/
theorem Varint.readWithin_torn (left : Nat) {places value : Nat}
    (cut : Torn torn (writeWithin places value)) : readWithin left torn = none := by
  induction places generalizing torn value left with
  | zero => exact absurd cut.length_lt (by simp [writeWithin])
  | succ places ih =>
    cases left with
    | zero => rfl
    | succ left =>
    cases torn with
    | nil => rfl
    | cons byte rest =>
      rw [writeWithin] at cut
      split at cut
      next => exact absurd cut.length_lt (by simp)
      next =>
        obtain ⟨lost, some_, whole⟩ := cut
        rw [List.cons_append, List.cons_eq_cons] at whole
        obtain ⟨rfl, behind⟩ := whole
        have high : ¬(UInt8.ofNat (value % 128 + 128)).toNat < 128 := by
          rw [toNat_byte (by omega)]
          omega
        rw [readWithin, if_neg high, ih left ⟨lost, some_, behind⟩]
        rfl

theorem Varint.read_torn {value : Nat} (cut : Torn torn (write value)) :
    read torn = .error .invalidVarint := by
  rw [read, readWithin_torn maxBytes cut]

theorem Torn.counted {content : Bytes} (fits : content.length < 2 ^ 64)
    (cut : Torn torn (Wire.counted content)) :
    Varint.read torn = .error .invalidVarint ∨
      ∃ rest, Varint.read torn = .ok (content.length, rest) ∧ rest.length < content.length := by
  rcases cut.append with count | ⟨rest, rfl, behind⟩
  · exact Or.inl (Varint.read_torn count)
  · exact Or.inr ⟨rest, Varint.read_write fits rest, behind.length_lt⟩

theorem readDelimited_torn {α : Type} (step : Bytes → Except Fault (List α × Bytes)) {content : Bytes}
    (fits : content.length < 2 ^ 64) (cut : Torn torn (counted content)) :
    ∃ cause : Cause, cause.IsCut ∧ readDelimited step torn = .error ⟨cause, []⟩ := by
  rcases cut.counted fits with count | ⟨rest, count, short⟩
  · refine ⟨.invalidVarint, Or.inl rfl, ?_⟩
    rw [readDelimited, count]
    rfl
  · refine ⟨.underflow, Or.inr rfl, ?_⟩
    rw [readDelimited_eq, count]
    exact if_pos short

end Primitives

theorem readEntry_torn {type inner : MessageType} {number : Nat} {field : Field}
    (known : type.field? number = some field) (message : field.type = .message inner) {content torn : Bytes}
    (fits : content.length < 2 ^ 64) (levels : Nat)
    (cut : Torn torn (Key.write ⟨number, .lengthDelimited⟩ ++ counted content)) :
    ∃ fault : Fault, fault.cause.IsCut ∧ readEntry (levels + 1) type torn = .error fault := by
  obtain ⟨_, some_, bound⟩ := MessageType.field?_number known
  rw [readEntry_eq, readEntryWith]
  rcases cut.append with key | ⟨rest, rfl, behind⟩
  · refine ⟨⟨.invalidVarint, []⟩, Or.inl rfl, ?_⟩
    rw [Key.read, Varint.read_torn key]
    rfl
  · obtain ⟨cause, isCut, refused⟩ := readDelimited_torn (readEntry levels inner) fits behind
    refine ⟨Fault.within type.name field.name ⟨cause, []⟩, isCut, ?_⟩
    rw [Key.read_write some_ bound]
    simp only [lift_ok, bind, Except.bind, known, readContent, message, nestedReader, refused]
    rfl

end TrpcRouters.Wire
