import TrpcRouters.Proofs.Text.Utf16
import TrpcRouters.Text.Json

/-! A reader for arrays of texts in JSON, and that it gives back what was written. It takes one character
at a time, with all the freedom that the format gives: blanks between the parts, and any character of a text
escaped, by a short form or by its code units. -/

namespace TrpcRouters.Text.Json

/-- Where a reader stands, with the code units that it has read of the text it is in. -/
inductive Spot where
  /-- Only blanks so far. -/
  | before
  /-- Behind the bracket, with no text yet. -/
  | opened
  | text (units : List UInt16)
  /-- Behind a backslash. -/
  | escape (units : List UInt16)
  /-- In the number of a code unit of which some digits are missing. -/
  | number (units : List UInt16) (missing value : Nat)
  | behindText
  | behindComma
  | closed
deriving DecidableEq, Inhabited, Repr

structure Reader where
  /-- The texts that are read, in order. -/
  done : List (List UInt16)
  spot : Spot
deriving DecidableEq, Inhabited, Repr

def isBlank (c : Char) : Bool :=
  c = ' ' || c = '\t' || c = '\n' || c = '\r'

def hexValue? (c : Char) : Option Nat :=
  if '0' ≤ c ∧ c ≤ '9' then some (c.toNat - 0x30)
  else if 'a' ≤ c ∧ c ≤ 'f' then some (c.toNat - 0x57)
  else if 'A' ≤ c ∧ c ≤ 'F' then some (c.toNat - 0x37)
  else none

def escaped? (c : Char) : Option UInt16 :=
  if c = '"' then some 0x22
  else if c = '\\' then some 0x5c
  else if c = '/' then some 0x2f
  else if c = 'b' then some 0x08
  else if c = 'f' then some 0x0c
  else if c = 'n' then some 0x0a
  else if c = 'r' then some 0x0d
  else if c = 't' then some 0x09
  else none

namespace Reader

/-- One character further, unless it may not stand here. -/
def step (reader : Reader) (c : Char) : Option Reader :=
  match reader.spot with
  | .before =>
    if isBlank c then some reader
    else if c = '[' then some { reader with spot := .opened }
    else none
  | .opened =>
    if isBlank c then some reader
    else if c = ']' then some { reader with spot := .closed }
    else if c = '"' then some { reader with spot := .text [] }
    else none
  | .text units =>
    if c = '"' then some ⟨reader.done ++ [units], .behindText⟩
    else if c = '\\' then some { reader with spot := .escape units }
    else if c.toNat < 0x20 then none
    else some { reader with spot := .text (units ++ Utf16.units c) }
  | .escape units =>
    if c = 'u' then some { reader with spot := .number units 4 0 }
    else (escaped? c).map fun unit => { reader with spot := .text (units ++ [unit]) }
  | .number units missing value =>
    (hexValue? c).map fun digit =>
      if missing ≤ 1 then { reader with spot := .text (units ++ [.ofNat (16 * value + digit)]) }
      else { reader with spot := .number units (missing - 1) (16 * value + digit) }
  | .behindText =>
    if isBlank c then some reader
    else if c = ',' then some { reader with spot := .behindComma }
    else if c = ']' then some { reader with spot := .closed }
    else none
  | .behindComma =>
    if isBlank c then some reader
    else if c = '"' then some { reader with spot := .text [] }
    else none
  | .closed => if isBlank c then some reader else none

end Reader

def readUnits? (text : List Char) : Option (List (List UInt16)) := do
  let reader ← text.foldlM Reader.step ⟨[], .before⟩
  if reader.spot = .closed then some reader.done else none

def read? (text : List Char) : Option (List String) := do
  let texts ← readUnits? text
  texts.mapM fun units => (Utf16.decode? units).map String.ofList

theorem hexValue?_hexDigit : ∀ value < 16, hexValue? (hexDigit value) = some value := by
  decide

theorem escape_cases (c : Char) :
    (∃ mark unit, escape c = ['\\', mark] ∧ escaped? mark = some unit ∧ Utf16.units c = [unit]) ∨
    (c.toNat < 0x20 ∧ escape c =
      ['\\', 'u', '0', '0', hexDigit (c.toNat / 16), hexDigit (c.toNat % 16)]) ∨
    (c ≠ '"' ∧ c ≠ '\\' ∧ 0x20 ≤ c.toNat ∧ escape c = [c]) := by
  have unit : ∀ value, c.toNat = value → value < 0x10000 → Utf16.units c = [.ofNat value] := by
    intro value same short
    rw [Utf16.units, same, if_pos short]
  unfold escape
  split
  next same => exact Or.inl ⟨_, _, rfl, rfl, unit 0x22 (same ▸ rfl) (by decide)⟩
  split
  next same => exact Or.inl ⟨_, _, rfl, rfl, unit 0x5c (same ▸ rfl) (by decide)⟩
  split
  next same => exact Or.inl ⟨_, _, rfl, rfl, unit 0x0a (same ▸ rfl) (by decide)⟩
  split
  next same => exact Or.inl ⟨_, _, rfl, rfl, unit 0x0d (same ▸ rfl) (by decide)⟩
  split
  next same => exact Or.inl ⟨_, _, rfl, rfl, unit 0x09 (same ▸ rfl) (by decide)⟩
  split
  next same => exact Or.inl ⟨_, _, rfl, rfl, unit 0x08 same (by decide)⟩
  split
  next same => exact Or.inl ⟨_, _, rfl, rfl, unit 0x0c same (by decide)⟩
  split
  next low => exact Or.inr (Or.inl ⟨low, rfl⟩)
  next quote backslash _ _ _ _ _ high =>
    exact Or.inr (Or.inr ⟨quote, backslash, Nat.le_of_not_lt high, rfl⟩)

section
variable (done : List (List UInt16)) (units : List UInt16)

theorem foldlM_short {mark : Char} {unit : UInt16} (known : escaped? mark = some unit) :
    ['\\', mark].foldlM Reader.step ⟨done, .text units⟩ = some ⟨done, .text (units ++ [unit])⟩ := by
  have other : mark ≠ 'u' := by
    rintro rfl
    cases known
  simp [Reader.step, other, known]

theorem foldlM_number {value : Nat} (small : value < 0x100) :
    ['\\', 'u', '0', '0', hexDigit (value / 16), hexDigit (value % 16)].foldlM Reader.step
      ⟨done, .text units⟩ = some ⟨done, .text (units ++ [.ofNat value])⟩ := by
  have zero : hexValue? '0' = some 0 := by decide
  have high : hexValue? (hexDigit (value / 16)) = some (value / 16) := hexValue?_hexDigit _ (by omega)
  have low : hexValue? (hexDigit (value % 16)) = some (value % 16) := hexValue?_hexDigit _ (by omega)
  have whole : 16 * (value / 16) + value % 16 = value := by omega
  simp [Reader.step, zero, high, low, whole, -UInt16.ofNat_add, -UInt16.ofNat_mul]

theorem foldlM_escape (c : Char) :
    (escape c).foldlM Reader.step ⟨done, .text units⟩ =
      some ⟨done, .text (units ++ Utf16.units c)⟩ := by
  rcases escape_cases c with ⟨mark, unit, form, known, same⟩ | ⟨low, form⟩ |
    ⟨quote, backslash, high, form⟩
  · rw [form, same]
    exact foldlM_short done units known
  · have unit : Utf16.units c = [.ofNat c.toNat] := if_pos (by omega)
    rw [form, unit]
    exact foldlM_number done units (by omega)
  · rw [form, List.foldlM_cons]
    simp [Reader.step, quote, backslash, Nat.not_lt.mpr high]

theorem foldlM_escapes (text : List Char) :
    (text.flatMap escape).foldlM Reader.step ⟨done, .text units⟩ =
      some ⟨done, .text (units ++ Utf16.encode text)⟩ := by
  induction text generalizing units with
  | nil => simp [Utf16.encode]
  | cons c rest ih =>
    rw [List.flatMap_cons, List.foldlM_append, foldlM_escape, Option.bind_eq_bind, Option.bind_some, ih,
      Utf16.encode, Utf16.encode, List.flatMap_cons, List.append_assoc]

end

theorem foldlM_quoted {reader : Reader} (ready : reader.spot = .opened ∨ reader.spot = .behindComma)
    (text : List Char) :
    (quoted text).foldlM Reader.step reader = some ⟨reader.done ++ [Utf16.encode text], .behindText⟩ := by
  have starts : reader.step '"' = some ⟨reader.done, .text []⟩ := by
    rcases ready with spot | spot <;> simp [Reader.step, spot, isBlank]
  have ends : Reader.step ⟨reader.done, .text (Utf16.encode text)⟩ '"' =
      some ⟨reader.done ++ [Utf16.encode text], .behindText⟩ := by
    simp [Reader.step]
  rw [quoted, List.foldlM_cons, starts, Option.bind_eq_bind, Option.bind_some, List.foldlM_append,
    foldlM_escapes, List.nil_append, Option.bind_eq_bind, Option.bind_some, List.foldlM_cons, ends]
  rfl

theorem foldlM_elements {reader : Reader} (ready : reader.spot = .opened ∨ reader.spot = .behindComma)
    {texts : List (List Char)} (some_ : texts ≠ []) :
    (elements texts).foldlM Reader.step reader =
      some ⟨reader.done ++ texts.map Utf16.encode, .behindText⟩ := by
  induction texts generalizing reader with
  | nil => exact absurd rfl some_
  | cons text rest ih =>
    cases rest with
    | nil => exact foldlM_quoted ready text
    | cons next more =>
      have comma : Reader.step ⟨reader.done ++ [Utf16.encode text], .behindText⟩ ',' =
          some ⟨reader.done ++ [Utf16.encode text], .behindComma⟩ := by
        simp [Reader.step, isBlank]
      rw [elements, List.foldlM_append, foldlM_quoted ready, Option.bind_eq_bind, Option.bind_some,
        List.foldlM_cons, comma, Option.bind_eq_bind, Option.bind_some,
        ih (Or.inr rfl) (List.cons_ne_nil _ _)]
      simp

/-- The reader gives back the code units of what was written. -/
theorem readUnits?_array (texts : List String) :
    readUnits? (array texts).toList = some (texts.map fun text => Utf16.encode text.toList) := by
  have reached : (array texts).toList.foldlM Reader.step ⟨[], .before⟩ =
      some ⟨texts.map fun text => Utf16.encode text.toList, .closed⟩ := by
    have opens : Reader.step ⟨[], .before⟩ '[' = some ⟨[], .opened⟩ := by decide
    rw [array, String.toList_ofList, List.foldlM_cons, opens, Option.bind_eq_bind, Option.bind_some]
    by_cases none_ : texts = []
    · subst none_
      rfl
    · rw [List.foldlM_append, foldlM_elements (Or.inl rfl) (by simpa using none_), List.map_map]
      rfl
  rw [readUnits?, reached]
  rfl

theorem read?_array (texts : List String) : read? (array texts).toList = some texts := by
  have decoded : (texts.map fun text => Utf16.encode text.toList).mapM
      (fun units => (Utf16.decode? units).map String.ofList) = some texts := by
    induction texts with
    | nil => rfl
    | cons text rest ih => simp [ih, Utf16.decode?_encode]
  calc
    read? (array texts).toList = (texts.map fun text => Utf16.encode text.toList).mapM
        (fun units => (Utf16.decode? units).map String.ofList) := by
      rw [read?, readUnits?_array, Option.bind_eq_bind, Option.bind_some]
    _ = some texts := decoded

theorem newline_notMem_escape (c : Char) : '\n' ∉ escape c := by
  rcases escape_cases c with ⟨mark, unit, form, known, _⟩ | ⟨low, form⟩ | ⟨_, _, high, form⟩
  · have other : '\n' ≠ mark := by
      rintro rfl
      cases known
    simp [form, other]
  · have digit : ∀ value < 16, '\n' ≠ hexDigit value := by decide
    have first := digit (c.toNat / 16) (by omega)
    have last := digit (c.toNat % 16) (by omega)
    simp [form, first, last]
  · have other : '\n' ≠ c := by
      rintro rfl
      exact absurd high (by decide)
    simp [form, other]

theorem newline_notMem_quoted (text : List Char) : '\n' ∉ quoted text := by
  simp [quoted, newline_notMem_escape]

/-- What is written takes one line. -/
theorem newline_notMem_array (texts : List String) : '\n' ∉ (array texts).toList := by
  have inner : ∀ texts : List (List Char), '\n' ∉ elements texts := by
    intro texts
    fun_induction elements texts with
    | case1 => simp
    | case2 text => exact newline_notMem_quoted text
    | case3 text next rest ih => simp [newline_notMem_quoted, ih]
  simp [array, inner]

/-- Escapes, blanks and pairs of surrogates are read, a lone surrogate and a line break are not. -/
example : read? " [ \"\\u0047\\uD83D\\ude00\" , \"\\/\" ]".toList = some ["G😀", "/"] ∧
    read? "[\"\\ud83d\"]".toList = none ∧ read? "[\"\n\"]".toList = none := by
  decide +kernel

end TrpcRouters.Text.Json
