import TrpcRouters.Proofs.FileTree.Trail
import TrpcRouters.Proofs.FileTree.Visit

/-! Trees that hold the same at every place but list their entries in different orders. No walk tells them
apart, since it goes through the names of a directory in their own order. -/

namespace TrpcRouters.FileTree

theorem lookup_eq_some_iff_mem {nodes : List (Place × Node)} (distinct : (nodes.map Prod.fst).Nodup)
    {place : Place} {node : Node} : nodes.lookup place = some node ↔ (place, node) ∈ nodes := by
  induction nodes with
  | nil => simp
  | cons first rest ih =>
    obtain ⟨other, held⟩ := first
    rw [List.map_cons, List.nodup_cons] at distinct
    by_cases same : place = other
    · subst same
      have absent : (place, node) ∉ rest := fun member =>
        distinct.1 (List.mem_map.mpr ⟨_, member, rfl⟩)
      simp [absent, eq_comm]
    · have away : (place == other) = false := by simpa using same
      simp [List.lookup_cons, away, same, ih distinct.2]

/-- The trees have the same entries, relative paths start at the same place, and the same is closed. -/
structure Relisted (first second : FileTree) : Prop where
  home : second.workingDirectory = first.workingDirectory
  closed : second.closed = first.closed
  node : ∀ place, second.node? place = first.node? place

namespace Relisted
variable {first second : FileTree}

theorem of_perm {tree : FileTree} (distinct : (tree.nodes.map Prod.fst).Nodup)
    {nodes : List (Place × Node)} (order : nodes.Perm tree.nodes) : Relisted tree { tree with nodes } where
  home := rfl
  closed := rfl
  node place := by
    have distinct' : (nodes.map Prod.fst).Nodup := (order.map Prod.fst).nodup_iff.mpr distinct
    have lookup : nodes.lookup place = tree.nodes.lookup place := by
      apply Option.ext
      intro node
      rw [lookup_eq_some_iff_mem distinct, lookup_eq_some_iff_mem distinct', order.mem_iff]
    rw [node?, node?, lookup]

theorem sound (relisted : Relisted first second) (sound : first.Sound) : second.Sound where
  named entry member name inside := by
    obtain ⟨place, node⟩ := entry
    have some_ : place ≠ [] := List.ne_nil_of_mem inside
    have listed : (second.nodes.lookup place).isSome := by
      rw [List.lookup_isSome_iff]
      exact ⟨_, member, beq_self_eq_true _⟩
    obtain ⟨held, found⟩ := Option.isSome_iff_exists.mp listed
    have there : second.node? place = some held := by rw [node?, if_neg some_, found]
    rw [relisted.node] at there
    exact sound.names there name inside
  rooted held := by
    rw [relisted.node] at held ⊢
    exact sound.rooted held
  home := by
    rw [relisted.home]
    exact sound.home

theorem follow (relisted : Relisted first second) {followLast : Bool} {links : Nat} {place : Place}
    {steps : List RawString} :
    second.follow followLast links place steps = first.follow followLast links place steps := by
  have advance : ∀ place steps, second.advance followLast place steps =
      first.advance followLast place steps :=
    fun place steps => advance_congr_trail fun other _ => relisted.node other
  induction links generalizing place steps with
  | zero => rw [follow_zero, follow_zero, advance]
  | succ links ih => simp only [follow_succ, advance, ih]

theorem entry (relisted : Relisted first second) {followLast : Bool} {path : Path} :
    second.entry followLast path = first.entry followLast path := by
  have start : second.start path = first.start path := by
    rw [FileTree.start, FileTree.start, relisted.home]
  rw [FileTree.entry, FileTree.entry, resolve, resolve, resolveSteps, resolveSteps, start,
    relisted.follow]

theorem absolute (relisted : Relisted first second) (path : Path) :
    second.absolute path = first.absolute path := by
  rw [FileTree.absolute, FileTree.absolute, relisted.home]

theorem names (relisted : Relisted first second) (place : Place) :
    second.names place = first.names place := by
  have member : ∀ name, name ∈ second.names place ↔ name ∈ first.names place := by
    intro name
    rw [mem_names_iff, mem_names_iff, relisted.node]
  exact List.Pairwise.eq_of_mem_iff (Text.increasing_sortedSet _) (Text.increasing_sortedSet _) member

theorem shown (relisted : Relisted first second) (path : Path) (place : Place) :
    second.shown path place = first.shown path place := by
  have opens : second.opens path = first.opens path := by
    rw [Bool.eq_iff_iff, opens_iff, opens_iff, relisted.entry, relisted.closed]
  rw [FileTree.shown, FileTree.shown, opens, relisted.names]

theorem visit (relisted : Relisted first second) (links : Bool) (fuel : Nat) (above : List Place)
    (path : Path) (place : Place) (node : Node) :
    second.visit links fuel above path place node = first.visit links fuel above path place node := by
  induction fuel generalizing above path place node with
  | zero => rfl
  | succ fuel ih =>
    cases node with
    | file content stamp executable => simp only [FileTree.visit]
    | link target => simp only [FileTree.visit]
    | directory =>
      rw [visit_eq_onward, visit_eq_onward, relisted.shown]
      simp only [onward, relisted.node, relisted.entry, ih]

theorem walk (relisted : Relisted first second) (sound : first.Sound) (root : Path) :
    second.walk true root = first.walk true root := by
  unfold FileTree.walk
  rw [relisted.entry]
  cases entered : first.entry true root with
  | error error => rfl
  | ok reached =>
    obtain ⟨place, node⟩ := reached
    have held := held_of_entry entered
    have held' : second.node? place = some node := (relisted.node place).trans held
    -- The bound counts the listed entries, but both walks end by themselves.
    have far := visit_eq sound true root held (reach_le_depthBound first [place] place)
      (Nat.le_max_left first.depthBound second.depthBound)
    have far' := visit_eq (relisted.sound sound) true root held' (reach_le_depthBound second [place] place)
      (Nat.le_max_right first.depthBound second.depthBound)
    simp only [↓reduceIte]
    rw [← far, ← far', relisted.visit]

end Relisted

end TrpcRouters.FileTree
