import Mathlib.Data.List.TakeWhile
import TrpcRouters.Text.Split

/-! Cutting and gluing as inverses. A text is cut at every separator and nowhere else, so the pieces of
two texts that meet at a separator are those of the first followed by those of the second. -/

namespace TrpcRouters.Text

section Lists
variable {α : Type} [DecidableEq α] {separator : α}

theorem cut_append (first second : List α) :
    cut separator (first ++ separator :: second) = cut separator first ++ cut separator second := by
  induction first with
  | nil => simp [cut]
  | cons c rest ih =>
    by_cases same : c = separator
    · simp only [List.cons_append, cut, if_pos same, ih]
    · simp only [List.cons_append, cut, if_neg same, ih]
      cases pieces : cut separator rest with
      | nil => exact absurd pieces (cut_ne_nil separator rest)
      | cons piece others => rfl

theorem cut_eq_splitOn (text : List α) : cut separator text = text.splitOn separator := by
  induction text with
  | nil => rfl
  | cons c rest ih =>
    rw [List.splitOn_eq_splitOnP, List.splitOnP_cons_eq_if_modifyHead, ← List.splitOn_eq_splitOnP, ← ih,
      cut]
    by_cases same : c = separator
    · simp [same]
    · rw [if_neg same, if_neg (by simpa using same)]
      cases pieces : cut separator rest with
      | nil => exact absurd pieces (cut_ne_nil separator rest)
      | cons piece others => rfl

theorem cut_of_notMem {text : List α} (whole : separator ∉ text) : cut separator text = [text] := by
  induction text with
  | nil => rfl
  | cons c rest ih =>
    rw [List.mem_cons, not_or] at whole
    simp only [cut, if_neg (Ne.symm whole.1), ih whole.2]

theorem notMem_of_mem_cut {text piece : List α} (member : piece ∈ cut separator text) :
    separator ∉ piece := by
  induction text generalizing piece with
  | nil =>
    rw [cut, List.mem_singleton] at member
    simp [member]
  | cons c rest ih =>
    by_cases same : c = separator
    · rw [cut, if_pos same, List.mem_cons] at member
      rcases member with rfl | later
      · simp
      · exact ih later
    · rw [cut, if_neg same] at member
      cases pieces : cut separator rest with
      | nil => exact absurd pieces (cut_ne_nil separator rest)
      | cons first others =>
        rw [pieces] at member ih
        rcases List.mem_cons.mp member with rfl | later
        · intro bad
          rcases List.mem_cons.mp bad with here | inside
          · exact same here.symm
          · exact ih (List.mem_cons_self ..) inside
        · exact ih (List.mem_cons_of_mem _ later)

omit [DecidableEq α] in
theorem mem_glue {c : α} {piece : List α} {pieces : List (List α)} (member : piece ∈ pieces)
    (inside : c ∈ piece) : c ∈ glue separator pieces := by
  induction pieces with
  | nil => cases member
  | cons first rest ih =>
    cases rest with
    | nil => rwa [glue, ← List.mem_singleton.mp member]
    | cons next others =>
      rw [glue, List.mem_append]
      rcases List.mem_cons.mp member with rfl | later
      · exact Or.inl inside
      · exact Or.inr (List.mem_cons_of_mem _ (ih later))

theorem mem_of_mem_cut {c : α} {text piece : List α} (member : piece ∈ cut separator text)
    (inside : c ∈ piece) : c ∈ text := by
  rw [← glue_cut separator text]
  exact mem_glue member inside

theorem cut_glue {pieces : List (List α)} (some_ : pieces ≠ [])
    (whole : ∀ piece ∈ pieces, separator ∉ piece) :
    cut separator (glue separator pieces) = pieces := by
  induction pieces with
  | nil => exact absurd rfl some_
  | cons piece rest ih =>
    have first := cut_of_notMem (whole piece (List.mem_cons_self ..))
    cases rest with
    | nil => exact first
    | cons next others =>
      rw [glue, cut_append, first, ih (List.cons_ne_nil _ _)
        (fun other member => whole other (List.mem_cons_of_mem _ member))]
      rfl

omit [DecidableEq α] in
theorem glue_append {first second : List (List α)} (left : first ≠ []) (right : second ≠ []) :
    glue separator (first ++ second) = glue separator first ++ separator :: glue separator second := by
  induction first with
  | nil => exact absurd rfl left
  | cons piece rest ih =>
    cases rest with
    | nil =>
      cases second with
      | nil => exact absurd rfl right
      | cons next others => rfl
    | cons next others =>
      rw [List.cons_append, List.cons_append, glue, ← List.cons_append, ih (List.cons_ne_nil _ _)]
      simp [glue]

/-- A text falls apart in one way at its last separator. -/
theorem split_last {front back other end_ : List α} (left : separator ∉ back)
    (right : separator ∉ end_) (same : front ++ separator :: back = other ++ separator :: end_) :
    front = other ∧ back = end_ := by
  have cuts := congrArg (cut separator) same
  rw [cut_append, cut_append, cut_of_notMem left, cut_of_notMem right] at cuts
  obtain ⟨fronts, backs⟩ := List.append_inj' cuts rfl
  have glued := congrArg (glue separator) fronts
  rw [glue_cut, glue_cut] at glued
  exact ⟨glued, List.singleton_inj.mp backs⟩

theorem getLast?_cut (text : List α) :
    (cut separator text).getLast? = some (text.reverse.takeWhile (· ≠ separator)).reverse := by
  by_cases whole : separator ∈ text
  · obtain ⟨back, front, split, plain⟩ := List.eq_append_cons_of_mem (List.mem_reverse.mpr whole)
    have shape : text = front.reverse ++ separator :: back.reverse := by
      rw [← List.reverse_inj, split]
      simp
    have last : text.reverse.takeWhile (· ≠ separator) = back := by
      rw [split, List.takeWhile_append_of_pos]
      · simp
      · intro c member
        simpa using ne_of_mem_of_not_mem member plain
    have piece : cut separator back.reverse = [back.reverse] := cut_of_notMem (by simpa using plain)
    rw [last, shape, cut_append, piece]
    simp
  · have all : text.reverse.takeWhile (· ≠ separator) = text.reverse := by
      rw [List.takeWhile_eq_self_iff]
      intro c member
      simpa using ne_of_mem_of_not_mem (List.mem_reverse.mp member) whole
    rw [all, cut_of_notMem whole]
    simp

/-- Separators in front leave the last piece as it is. -/
theorem getLast?_cut_dropWhile (text : List α) :
    (cut separator (text.dropWhile (· = separator))).getLast? = (cut separator text).getLast? := by
  induction text with
  | nil => rfl
  | cons c rest ih =>
    by_cases same : c = separator
    · rw [List.dropWhile_cons_of_pos (by simpa using same), ih, cut, if_pos same,
        List.getLast?_cons_of_ne_nil (cut_ne_nil separator rest)]
    · rw [List.dropWhile_cons_of_neg (by simpa using same)]

end Lists

section Joined
variable {separator : Char}

theorem joined_nil (separator : Char) : joined separator [] = "" := by
  simp [joined, glue]

theorem joined_single (separator : Char) (part : String) : joined separator [part] = part := by
  simp [joined, glue]

theorem joined_concat (separator : Char) {parts : List String} (some_ : parts ≠ []) (last : String) :
    joined separator (parts ++ [last]) = joined separator parts ++ String.singleton separator ++ last := by
  rw [joined, joined, List.map_append, glue_append (by simpa using some_) (by simp)]
  apply String.toList_inj.mp
  simp [glue]

theorem notMem_joined {c : Char} (other : c ≠ separator) {parts : List String}
    (absent : ∀ part ∈ parts, c ∉ part.toList) : c ∉ (joined separator parts).toList := by
  rw [joined, String.toList_ofList]
  induction parts with
  | nil => simp [glue]
  | cons part rest ih =>
    have here := absent part (List.mem_cons_self ..)
    have later := ih fun other member => absent other (List.mem_cons_of_mem _ member)
    cases rest with
    | nil => exact here
    | cons next others =>
      rw [List.map_cons, List.map_cons, glue, List.mem_append, List.mem_cons, not_or, not_or]
      exact ⟨here, other, later⟩

theorem pieces_joined {parts : List String} (some_ : parts ≠ [])
    (whole : ∀ part ∈ parts, separator ∉ part.toList) :
    pieces separator (joined separator parts) = parts := by
  rw [pieces, joined, String.toList_ofList, cut_glue (by simpa using some_)]
  · simp
  · intro piece member
    obtain ⟨part, inside, rfl⟩ := List.mem_map.mp member
    exact whole part inside

theorem joined_injective {first second : List String} (some_ : first ≠ []) (other : second ≠ [])
    (left : ∀ part ∈ first, separator ∉ part.toList)
    (right : ∀ part ∈ second, separator ∉ part.toList)
    (same : joined separator first = joined separator second) : first = second := by
  rw [← pieces_joined some_ left, same, pieces_joined other right]

end Joined

end TrpcRouters.Text
