import Mathlib.Data.List.TakeWhile
import TrpcRouters.Text.Blank

/-! Texts between blanks. What is left of a text without the blanks at its ends is the one part of it that
has blanks only before and behind it and none at its own ends, so that more blanks around a text change
nothing, and a text without them stays as it is. -/

namespace TrpcRouters.Text

def AllBlank (text : List Char) : Prop :=
  ∀ c ∈ text, isBlank c = true

theorem allBlank_iff (text : List Char) : allBlank text = true ↔ AllBlank text :=
  List.all_eq_true

instance (text : List Char) : Decidable (AllBlank text) :=
  decidable_of_iff _ (allBlank_iff text)

theorem allBlank_append {first second : List Char} :
    AllBlank (first ++ second) ↔ AllBlank first ∧ AllBlank second :=
  List.forall_mem_append

theorem AllBlank.notMem {blanks : List Char} (blank : AllBlank blanks) {c : Char}
    (other : isBlank c = false) : c ∉ blanks := by
  intro member
  rw [blank c member] at other
  cases other

theorem trimStart_append_of_begins {blanks text : List Char} (blank : AllBlank blanks)
    (begins : ∀ c ∈ text.head?, isBlank c = false) : trimStart (blanks ++ text) = text := by
  rw [trimStart, List.dropWhile_append_of_pos blank]
  cases text with
  | nil => rfl
  | cons c rest => exact List.dropWhile_cons_of_neg (by simpa using begins)

theorem trimStart_append {blanks : List Char} (blank : AllBlank blanks) (word : List Char)
    (begins : word.head?.any (fun c => !isBlank c) = true) (rest : List Char) :
    trimStart (blanks ++ (word ++ rest)) = word ++ rest := by
  cases word with
  | nil => simp at begins
  | cons c more => exact trimStart_append_of_begins blank (by simpa using begins)

theorem exists_blanks (text : List Char) :
    ∃ blanks, AllBlank blanks ∧ text = blanks ++ trimStart text :=
  ⟨text.takeWhile isBlank, fun _ member => List.mem_takeWhile_imp member,
    (List.takeWhile_append_dropWhile ..).symm⟩

def Solid (text : List Char) : Prop :=
  (∀ c ∈ text.head?, isBlank c = false) ∧ ∀ c ∈ text.getLast?, isBlank c = false

instance (text : List Char) : Decidable (Solid text) :=
  decidable_of_iff (text.head?.all (fun c => !isBlank c) = true ∧
    text.getLast?.all (fun c => !isBlank c) = true) (by simp [Solid, Option.all_eq_true])

/-- What a text holds between the blanks at its ends. -/
structure Trims (raw word : String) : Prop where
  between : ∃ front back, AllBlank front ∧ AllBlank back ∧ raw.toList = front ++ (word.toList ++ back)
  solid : Solid word.toList

theorem head?_trimStart {text : List Char} : ∀ c ∈ (trimStart text).head?, isBlank c = false := by
  intro c first
  have stopped := List.head?_dropWhile_not isBlank text
  rw [← trimStart, first] at stopped
  simpa using stopped

theorem exists_blanks_behind (text : List Char) :
    ∃ blanks, AllBlank blanks ∧ text = trimEnd text ++ blanks := by
  obtain ⟨blanks, blank, whole⟩ := exists_blanks text.reverse
  refine ⟨blanks.reverse, fun c member => blank c (List.mem_reverse.mp member), ?_⟩
  rw [trimEnd, ← List.reverse_append, ← whole, List.reverse_reverse]

theorem solid_trimEnd {text : List Char} (begins : ∀ c ∈ text.head?, isBlank c = false) :
    Solid (trimEnd text) := by
  constructor
  · intro c first
    obtain ⟨blanks, _, whole⟩ := exists_blanks_behind text
    apply begins
    rw [whole, List.head?_append, Option.mem_def.mp first]
    rfl
  · intro c last
    rw [trimEnd, List.getLast?_reverse] at last
    exact head?_trimStart c last

/-- What is cut off at the two ends is blank, and no blank is left there. -/
theorem trims_trimmed (raw : String) : Trims raw (trimmed raw) := by
  obtain ⟨front, before, whole⟩ := exists_blanks raw.toList
  obtain ⟨back, behind, rest⟩ := exists_blanks_behind (trimStart raw.toList)
  constructor
  · refine ⟨front, back, before, behind, ?_⟩
    rw [trimmed, String.toList_ofList, ← rest, ← whole]
  · rw [trimmed, String.toList_ofList]
    exact solid_trimEnd head?_trimStart

theorem trimStart_eq_nil {text : List Char} (blank : AllBlank text) : trimStart text = [] :=
  List.dropWhile_eq_nil_iff.mpr blank

theorem trimmed_of_trims {raw word : String} (trims : Trims raw word) : trimmed raw = word := by
  obtain ⟨⟨front, back, before, behind, whole⟩, begins, ends⟩ := trims
  have behind' : AllBlank back.reverse := fun c member => behind c (List.mem_reverse.mp member)
  apply String.toList_inj.mp
  rw [trimmed, String.toList_ofList, whole]
  cases letters : word.toList with
  | nil =>
    rw [List.nil_append, trimStart_eq_nil (allBlank_append.mpr ⟨before, behind⟩)]
    rfl
  | cons c rest =>
    rw [letters] at begins ends
    rw [trimStart_append_of_begins before (by simpa using begins), trimEnd, List.reverse_append,
      trimStart_append_of_begins behind' (by simpa only [List.head?_reverse] using ends),
      List.reverse_reverse]

theorem trimmed_eq_iff {raw word : String} : trimmed raw = word ↔ Trims raw word :=
  ⟨fun same => same ▸ trims_trimmed raw, trimmed_of_trims⟩

theorem trimmed_eq_self_iff {text : String} : trimmed text = text ↔ Solid text.toList := by
  rw [trimmed_eq_iff]
  constructor
  · exact Trims.solid
  · exact fun solid => ⟨⟨[], [], by simp [AllBlank], by simp [AllBlank], by simp⟩, solid⟩

theorem trimmed_eq_empty_iff {raw : String} : trimmed raw = "" ↔ AllBlank raw.toList := by
  rw [trimmed_eq_iff]
  constructor
  · rintro ⟨⟨front, back, before, behind, whole⟩, _⟩
    rw [whole]
    exact allBlank_append.mpr ⟨before, by simpa using behind⟩
  · intro blank
    exact ⟨⟨raw.toList, [], blank, by simp [AllBlank], by simp⟩, by decide⟩

theorem trimmed_padded {front back : String} (before : AllBlank front.toList)
    (behind : AllBlank back.toList) (raw : String) : trimmed (front ++ raw ++ back) = trimmed raw := by
  obtain ⟨⟨first, last, before', behind', whole⟩, solid⟩ := trims_trimmed raw
  refine trimmed_of_trims ⟨⟨front.toList ++ first, last ++ back.toList, ?_, ?_, ?_⟩, solid⟩
  · exact allBlank_append.mpr ⟨before, before'⟩
  · exact allBlank_append.mpr ⟨behind', behind⟩
  · simp [whole]

end TrpcRouters.Text
