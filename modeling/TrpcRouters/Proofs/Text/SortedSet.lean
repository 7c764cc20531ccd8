import Mathlib.Data.List.Induction
import Mathlib.Data.List.Sort
import TrpcRouters.Text.SortedSet

/-! What an ordered list built by insertion holds: every inserted key once, in increasing order, and
nothing else. -/

namespace TrpcRouters.Text
variable {α κ : Type} [LT κ] [DecidableLT κ] [DecidableEq κ] {key : α → κ}

section Members

theorem mem_insertByKey {new element : α} {sorted : List α}
    (member : element ∈ insertByKey key new sorted) : element = new ∨ element ∈ sorted := by
  induction sorted with
  | nil => exact Or.inl (List.mem_singleton.mp member)
  | cons first rest ih =>
    rw [insertByKey] at member
    split at member
    · exact List.mem_cons.mp member
    · split at member
      · exact Or.inr member
      · rcases List.mem_cons.mp member with rfl | later
        · exact Or.inr (List.mem_cons_self ..)
        · exact (ih later).imp_right (List.mem_cons_of_mem _)

theorem sortedSetBy_append_singleton (front : List α) (last : α) :
    sortedSetBy key (front ++ [last]) = insertByKey key last (sortedSetBy key front) := by
  rw [sortedSetBy, List.foldl_append]
  rfl

theorem mem_sortedSetBy {elements : List α} {element : α}
    (member : element ∈ sortedSetBy key elements) : element ∈ elements := by
  induction elements using List.reverseRecOn with
  | nil => simp [sortedSetBy] at member
  | append_singleton front last ih =>
    rw [sortedSetBy_append_singleton] at member
    rcases mem_insertByKey member with rfl | before
    · simp
    · exact List.mem_append_left _ (ih before)

theorem exists_key_insertByKey (new : α) (sorted : List α) :
    ∃ kept ∈ insertByKey key new sorted, key kept = key new := by
  induction sorted with
  | nil => exact ⟨new, List.mem_singleton_self new, rfl⟩
  | cons first rest ih =>
    rw [insertByKey]
    split
    · exact ⟨new, List.mem_cons_self .., rfl⟩
    · split
      next same => exact ⟨first, List.mem_cons_self .., same.symm⟩
      · obtain ⟨kept, member, same⟩ := ih
        exact ⟨kept, List.mem_cons_of_mem _ member, same⟩

theorem mem_insertByKey_of_mem {new element : α} {sorted : List α} (member : element ∈ sorted) :
    element ∈ insertByKey key new sorted := by
  induction sorted with
  | nil => simp at member
  | cons first rest ih =>
    rw [insertByKey]
    split
    · exact List.mem_cons_of_mem _ member
    · split
      · exact member
      · rcases List.mem_cons.mp member with rfl | later
        · exact List.mem_cons_self ..
        · exact List.mem_cons_of_mem _ (ih later)

theorem exists_key_sortedSetBy {elements : List α} {element : α} (member : element ∈ elements) :
    ∃ kept ∈ sortedSetBy key elements, key kept = key element := by
  induction elements using List.reverseRecOn with
  | nil => simp at member
  | append_singleton front last ih =>
    rw [sortedSetBy_append_singleton]
    rcases List.mem_append.mp member with before | here
    · obtain ⟨kept, inside, same⟩ := ih before
      exact ⟨kept, mem_insertByKey_of_mem inside, same⟩
    · rw [List.mem_singleton.mp here]
      exact exists_key_insertByKey last _

theorem mem_sortedSet {keys : List κ} {one : κ} (member : one ∈ sortedSet keys) :
    one ∈ keys :=
  mem_sortedSetBy member

theorem mem_sortedSet_iff {keys : List κ} {one : κ} :
    one ∈ sortedSet keys ↔ one ∈ keys := by
  refine ⟨mem_sortedSet, fun member => ?_⟩
  obtain ⟨kept, inside, same⟩ : ∃ kept ∈ sortedSetBy id keys, id kept = id one :=
    exists_key_sortedSetBy member
  exact (show kept = one from same) ▸ inside

theorem map_insertByKey (new : α) (sorted : List α) :
    (insertByKey key new sorted).map key = insertByKey id (key new) (sorted.map key) := by
  induction sorted with
  | nil => rfl
  | cons first rest ih =>
    simp only [insertByKey, List.map_cons, id]
    split
    · rfl
    · split
      · rfl
      · rw [List.map_cons, ih]

theorem map_sortedSetBy (elements : List α) :
    (sortedSetBy key elements).map key = sortedSet (elements.map key) := by
  unfold sortedSet
  induction elements using List.reverseRecOn with
  | nil => rfl
  | append_singleton front last ih =>
    rw [List.map_append, List.map_singleton, sortedSetBy_append_singleton,
      sortedSetBy_append_singleton, map_insertByKey, ih]

end Members

section Order
variable [Std.Trichotomous (α := κ) (· < ·)] [Trans (α := κ) (· < ·) (· < ·) (· < ·)]

theorem increasing_insertByKey {sorted : List α}
    (increasing : sorted.Pairwise (fun first second => key first < key second)) (new : α) :
    (insertByKey key new sorted).Pairwise (fun first second => key first < key second) := by
  induction sorted with
  | nil => exact List.pairwise_singleton _ _
  | cons first rest ih =>
    obtain ⟨least, later⟩ := List.pairwise_cons.mp increasing
    rw [insertByKey]
    split
    next less =>
      refine List.pairwise_cons.mpr ⟨fun other member => ?_, increasing⟩
      rcases List.mem_cons.mp member with rfl | inner
      · exact less
      · exact Trans.trans less (least other inner)
    next more =>
      split
      · exact increasing
      next apart =>
        have greater : key first < key new := by
          by_contra none_
          exact apart (Std.Trichotomous.trichotomous _ _ more none_)
        refine List.pairwise_cons.mpr ⟨fun other member => ?_, ih later⟩
        rcases mem_insertByKey member with rfl | inner
        · exact greater
        · exact least other inner

theorem increasing_sortedSet (keys : List κ) : (sortedSet keys).Pairwise (· < ·) := by
  unfold sortedSet
  induction keys using List.reverseRecOn with
  | nil => exact List.Pairwise.nil
  | append_singleton front last ih =>
    rw [sortedSetBy_append_singleton]
    exact increasing_insertByKey ih last

variable [Std.Asymm (α := κ) (· < ·)]

/-- What a set holds decides its order. -/
theorem sortedSet_congr {keys others : List κ} (same : ∀ one, one ∈ keys ↔ one ∈ others) :
    sortedSet keys = sortedSet others := by
  refine List.Pairwise.eq_of_mem_iff (increasing_sortedSet keys) (increasing_sortedSet others)
    fun one => ?_
  rw [mem_sortedSet_iff, mem_sortedSet_iff, same]

theorem sortedSet_eq_filter {keys others : List κ} {keep : κ → Bool}
    (same : ∀ one, one ∈ keys ↔ one ∈ others ∧ keep one = true) :
    sortedSet keys = (sortedSet others).filter keep := by
  refine List.Pairwise.eq_of_mem_iff (increasing_sortedSet keys)
    ((increasing_sortedSet others).filter keep) fun one => ?_
  rw [mem_sortedSet_iff, List.mem_filter, mem_sortedSet_iff, same]

end Order

end TrpcRouters.Text
