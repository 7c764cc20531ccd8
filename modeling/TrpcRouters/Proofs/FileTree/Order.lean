import TrpcRouters.Proofs.FileTree.Walk
import TrpcRouters.Proofs.Path.Order

/-! The order in which a walk meets the entries: directories before their content and names in their
order, so the paths are strictly increasing component by component. -/

namespace TrpcRouters.FileTree
variable {tree : FileTree}

/-- Entries below a path, in the order of their paths. -/
structure Ordered (path : Path) (entries : List Visited) : Prop where
  increasing : entries.Pairwise fun first second => first.path.Before second.path
  below : ∀ entry ∈ entries, path.components <+: entry.path.components

namespace Ordered

theorem nil (path : Path) : Ordered path [] :=
  ⟨List.Pairwise.nil, by simp⟩

theorem single (path : Path) (place : Place) (node : Node) : Ordered path [⟨path, place, node⟩] :=
  ⟨List.pairwise_singleton _ _, by simp⟩

/-- A directory comes before what it holds, and that in the order of the names. -/
theorem directory (path : Path) (place : Place) {names : List RawString} {inner : RawString → List Visited}
    (named : ∀ name ∈ names, Path.IsName name) (sorted : names.Pairwise (· < ·))
    (ordered : ∀ name ∈ names, Ordered (path.child name) (inner name)) :
    Ordered path (⟨path, place, .directory⟩ :: names.flatMap inner) := by
  have spelled : ∀ name ∈ names, ∀ entry ∈ inner name,
      ∃ more, entry.path.components = path.components ++ .name name :: more := by
    intro name member entry met
    obtain ⟨more, whole⟩ := (ordered name member).below entry met
    rw [Path.components_child (named name member), List.append_assoc] at whole
    exact ⟨more, whole.symm⟩
  constructor
  case increasing =>
    refine List.pairwise_cons.mpr ⟨fun entry member => ?_, List.pairwise_flatMap.mpr ⟨?_, ?_⟩⟩
    · obtain ⟨name, inside, met⟩ := List.mem_flatMap.mp member
      obtain ⟨more, whole⟩ := spelled name inside entry met
      exact Path.before_of_prefix whole
    · exact fun name inside => (ordered name inside).increasing
    · refine sorted.imp_of_mem fun {first second} inside inside' less entry met entry' met' => ?_
      obtain ⟨more, whole⟩ := spelled first inside entry met
      obtain ⟨more', whole'⟩ := spelled second inside' entry' met'
      exact Path.before_of_names whole whole' less
  case below =>
    intro entry member
    rcases List.mem_cons.mp member with rfl | later
    · exact List.prefix_refl _
    · obtain ⟨name, inside, met⟩ := List.mem_flatMap.mp later
      obtain ⟨more, whole⟩ := spelled name inside entry met
      exact ⟨_, whole.symm⟩

end Ordered

theorem increasing_shown (tree : FileTree) (path : Path) (place : Place) :
    (tree.shown path place).Pairwise (· < ·) := by
  unfold shown
  split
  · exact Text.increasing_sortedSet _
  · exact .nil

theorem ordered_visit (sound : tree.Sound) (links : Bool) (fuel : Nat) (above : List Place) (path : Path)
    (place : Place) (node : Node) : Ordered path (tree.visit links fuel above path place node) := by
  induction fuel generalizing above path place node with
  | zero => exact .nil path
  | succ fuel ih =>
    cases node with
    | file content stamp executable =>
      simp only [visit]
      exact .single path place _
    | link target =>
      simp only [visit]
      exact .single path place _
    | directory =>
      rw [visit_eq_onward]
      refine .directory path place (fun name member => isName_of_mem_names sound (mem_shown_iff.mp member).2)
        (increasing_shown tree path place) fun name _ => ?_
      have ways := onward_cases tree links above place name (path.child name)
      generalize tree.onward links above place name (path.child name) = onward at ways ⊢
      cases ways with
      | nowhere => exact .nil _
      | linked => exact .single _ _ _
      | single => exact .single _ _ _
      | down => exact ih _ _ _ _
      | across => exact ih _ _ _ _

theorem ordered_walk (sound : tree.Sound) (links : Bool) (root : Path) :
    Ordered root (tree.walk links root) := by
  unfold walk
  split
  · exact .nil root
  · split
    · exact ordered_visit sound _ _ _ _ _ _
    · split
      · exact ordered_visit sound _ _ _ _ _ _
      · exact .nil root
      · exact ordered_visit sound _ _ _ _ _ _

end TrpcRouters.FileTree
