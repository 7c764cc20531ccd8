/-! Texts as code units of sixteen bits, the form in which generated code compares them. A character is one
unit or a pair of surrogates, and no unit of a pair stands for a character of its own; so a text begins
with another unit by unit exactly if it does character by character. -/

namespace TrpcRouters.Text.Utf16

def units (c : Char) : List UInt16 :=
  if c.toNat < 0x10000 then [.ofNat c.toNat]
  else
    [.ofNat (0xd800 + (c.toNat - 0x10000) / 0x400), .ofNat (0xdc00 + (c.toNat - 0x10000) % 0x400)]

def encode (text : List Char) : List UInt16 :=
  text.flatMap units

/-- A unit that is half a character. -/
def IsSurrogate (unit : UInt16) : Prop :=
  0xd800 ≤ unit.toNat ∧ unit.toNat ≤ 0xdfff

instance (unit : UInt16) : Decidable (IsSurrogate unit) :=
  inferInstanceAs (Decidable (_ ∧ _))

/-- The character that two surrogates stand for, the greater half first. -/
def paired? (high low : UInt16) : Option Char :=
  if high.toNat < 0xdc00 ∧ 0xdc00 ≤ low.toNat ∧ low.toNat ≤ 0xdfff then
    some (Char.ofNat (0x10000 + 0x400 * (high.toNat - 0xd800) + (low.toNat - 0xdc00)))
  else none

/-- The characters of code units, if every surrogate has its partner. -/
def decode? : List UInt16 → Option (List Char)
  | [] => some []
  | unit :: rest =>
    if IsSurrogate unit then
      match rest with
      | [] => none
      | low :: rest => do return (← paired? unit low) :: (← decode? rest)
    else do return Char.ofNat unit.toNat :: (← decode? rest)

/-- A character is no surrogate, and its number is not beyond the last. -/
theorem toNat_scalar (c : Char) : (c.toNat < 0xd800 ∨ 0xdfff < c.toNat) ∧ c.toNat < 0x110000 := by
  have valid : c.toNat.isValidChar := c.valid
  unfold Nat.isValidChar at valid
  omega

theorem units_cases (c : Char) :
    (∃ unit, units c = [unit] ∧ ¬IsSurrogate unit ∧ Char.ofNat unit.toNat = c) ∨
      ∃ high low, units c = [high, low] ∧ IsSurrogate high ∧ paired? high low = some c := by
  obtain ⟨scalar, bounded⟩ := toNat_scalar c
  by_cases short : c.toNat < 0x10000
  · have number : (UInt16.ofNat c.toNat).toNat = c.toNat := UInt16.toNat_ofNat_of_lt short
    refine Or.inl ⟨.ofNat c.toNat, if_pos short, ?_, ?_⟩
    · rw [IsSurrogate, number]
      omega
    · rw [number, Char.ofNat_toNat]
  · have size : UInt16.size = 0x10000 := rfl
    have high : (UInt16.ofNat (0xd800 + (c.toNat - 0x10000) / 0x400)).toNat =
        0xd800 + (c.toNat - 0x10000) / 0x400 := UInt16.toNat_ofNat_of_lt (by omega)
    have low : (UInt16.ofNat (0xdc00 + (c.toNat - 0x10000) % 0x400)).toNat =
        0xdc00 + (c.toNat - 0x10000) % 0x400 := UInt16.toNat_ofNat_of_lt (by omega)
    refine Or.inr ⟨_, _, if_neg short, ?_, ?_⟩
    · rw [IsSurrogate, high]
      omega
    · have number : 0x10000 + 0x400 * (0xd800 + (c.toNat - 0x10000) / 0x400 - 0xd800) +
          (0xdc00 + (c.toNat - 0x10000) % 0x400 - 0xdc00) = c.toNat := by
        omega
      rw [paired?, high, low, if_pos (by omega), number, Char.ofNat_toNat]

theorem decode?_units (c : Char) (rest : List UInt16) :
    decode? (units c ++ rest) = (decode? rest).map (c :: ·) := by
  rcases units_cases c with ⟨unit, spelled, plain, number⟩ | ⟨high, low, spelled, surrogate, pair⟩
  · rw [spelled, List.singleton_append, decode?.eq_def]
    simp only [if_neg plain, number]
    cases decode? rest <;> rfl
  · rw [spelled, List.cons_append, List.singleton_append, decode?.eq_def]
    simp only [if_pos surrogate, pair]
    cases decode? rest <;> rfl

theorem decode?_encode (text : List Char) : decode? (encode text) = some text := by
  induction text with
  | nil => rfl
  | cons c rest ih =>
    calc
      decode? (encode (c :: rest)) = (decode? (encode rest)).map (c :: ·) := decode?_units c _
      _ = some (c :: rest) := by rw [ih, Option.map_some]

/-- A character beyond the first plane takes two units, and half of it decodes to nothing. -/
example : encode ['a', Char.ofNat 0x1f600] = [0x61, 0xd83d, 0xde00] ∧ decode? [0x61, 0xd83d] = none := by
  decide

theorem units_ne_nil (c : Char) : units c ≠ [] := by
  unfold units
  split <;> simp

/-- Texts that begin with the units of two characters begin with the same character. -/
theorem eq_of_units_append {first second : Char} {rest others : List UInt16}
    (same : units first ++ rest = units second ++ others) : first = second := by
  rcases units_cases first with ⟨unit, spelled, plain, number⟩ | ⟨high, low, spelled, surrogate, pair⟩ <;>
    rcases units_cases second with
      ⟨unit', spelled', plain', number'⟩ | ⟨high', low', spelled', surrogate', pair'⟩ <;>
    rw [spelled, spelled'] at same
  · obtain ⟨rfl, _⟩ := List.cons.inj same
    rw [← number, ← number']
  · obtain ⟨rfl, _⟩ := List.cons.inj same
    exact absurd surrogate' plain
  · obtain ⟨rfl, _⟩ := List.cons.inj same
    exact absurd surrogate plain'
  · obtain ⟨rfl, later⟩ := List.cons.inj same
    obtain ⟨rfl, _⟩ := List.cons.inj later
    rw [pair] at pair'
    exact Option.some.inj pair'

/-- A text begins with another unit by unit exactly if it does character by character. -/
theorem encode_prefix_encode_iff {text start : List Char} : encode start <+: encode text ↔ start <+: text := by
  induction start generalizing text with
  | nil => simp [encode]
  | cons c rest ih =>
    constructor
    · rintro ⟨behind, whole⟩
      cases text with
      | nil => simp [encode, units_ne_nil] at whole
      | cons d others =>
        rw [encode, encode, List.flatMap_cons, List.flatMap_cons, List.append_assoc] at whole
        obtain rfl := eq_of_units_append whole
        have short : encode rest <+: encode others := ⟨behind, List.append_cancel_left whole⟩
        exact List.cons_prefix_cons.mpr ⟨rfl, ih.mp short⟩
    · rintro ⟨behind, rfl⟩
      exact ⟨encode behind, by simp [encode]⟩

end TrpcRouters.Text.Utf16
