import Mathlib.Data.List.Forall2
import TrpcRouters.Proofs.FileTree.Below
import TrpcRouters.Proofs.FileTree.Walk

/-! Walks to which the system refuses nothing. What a path leads to is walked alike by every path that leads
there, if both walks are of this kind. -/

namespace TrpcRouters.FileTree
variable {tree : FileTree}

def Dangles (tree : FileTree) (directory : Place) (name : RawString) : Prop :=
  ∀ reached node, tree.follow true linkLimit directory [name] ≠ .ok (.found reached node)

/-- The system refuses nothing at an entry: its path leads to it, and a directory there is listed and holds
no link that leads somewhere, but not by the whole path. -/
structure Admits (tree : FileTree) (entry : Visited) : Prop where
  found : tree.entry true entry.path = .ok (entry.place, entry.node)
  opens : entry.node = .directory → tree.opens entry.path = true
  links : entry.node = .directory → ∀ name target,
    tree.node? (name :: entry.place) = some (.link target) →
      tree.Dangles entry.place name ∨ ∃ reached, tree.entry true (entry.path.child name) = .ok reached

/-- A path leads to a directory in which everything can be looked at by its whole path. -/
def Readable (tree : FileTree) (root : Path) : Prop :=
  tree.isDirectory root = true ∧ ∀ entry ∈ tree.walk true root, tree.Admits entry

theorem Readable.of_linkFree {root : Path} (free : tree.LinkFree []) (directory : tree.isDirectory root = true)
    (found : ∀ entry ∈ tree.walk true root, tree.entry true entry.path = .ok (entry.place, entry.node) ∧
      (entry.node = .directory → tree.opens entry.path = true)) : tree.Readable root := by
  refine ⟨directory, fun entry member => ⟨(found entry member).1, (found entry member).2, ?_⟩⟩
  intro _ name target held
  exact absurd (by simpa using held) (free (name :: entry.place) target)

/-- Entries that two walks meet at the same place, by the same names behind the paths that they begin with.
Without names behind it, such a path is that of the node where the walks begin. -/
structure Parallel (path path' : Path) (start : Node) (entry entry' : Visited) : Prop where
  place : entry'.place = entry.place
  node : entry'.node = entry.node
  names : ∃ names, (∀ name ∈ names, Path.IsName name) ∧ entry.path = along path names ∧
    entry'.path = along path' names ∧ (names = [] → entry.node = start)

namespace Parallel
variable {path path' : Path} {start : Node}

theorem here (path path' : Path) (place : Place) (start : Node) :
    Parallel path path' start ⟨path, place, start⟩ ⟨path', place, start⟩ :=
  ⟨rfl, rfl, [], by simp, rfl, rfl, fun _ => rfl⟩

theorem further {name : RawString} (named : Path.IsName name) {inner : Node} {entry entry' : Visited}
    (parallel : Parallel (path.child name) (path'.child name) inner entry entry') :
    Parallel path path' start entry entry' where
  place := parallel.place
  node := parallel.node
  names := by
    obtain ⟨names, all, spelled, spelled', _⟩ := parallel.names
    exact ⟨name :: names, List.forall_mem_cons.mpr ⟨named, all⟩, spelled, spelled', by simp⟩

end Parallel

section Walks
variable {path path' : Path} {place : Place}

theorem Admits.shown {node : Node} (admits : tree.Admits ⟨path, place, node⟩) (directory : node = .directory) :
    tree.shown path place = tree.names place :=
  if_pos (admits.opens directory)

/-- Where the system refuses nothing, two paths to a directory find the same behind a link there. -/
theorem entry_eq_of_link (admits : tree.Admits ⟨path, place, .directory⟩)
    (admits' : tree.Admits ⟨path', place, .directory⟩) {name : RawString} (named : Path.IsName name)
    {target : Path} (held : tree.node? (name :: place) = some (.link target)) :
    (∃ reached, tree.entry true (path.child name) = .ok reached ∧
      tree.entry true (path'.child name) = .ok reached) ∨
    (∃ error error', tree.entry true (path.child name) = .error error ∧
      tree.entry true (path'.child name) = .error error') := by
  have nowhere {path : Path} (admits : tree.Admits ⟨path, place, .directory⟩)
      (dangles : tree.Dangles place name) : ∃ error, tree.entry true (path.child name) = .error error := by
    cases found : tree.entry true (path.child name) with
    | error error => exact ⟨error, rfl⟩
    | ok reached => exact absurd (follow_child admits.found named found) (dangles _ _)
  by_cases dangles : tree.Dangles place name
  · obtain ⟨error, refused⟩ := nowhere admits dangles
    obtain ⟨error', refused'⟩ := nowhere admits' dangles
    exact Or.inr ⟨error, error', refused, refused'⟩
  · obtain ⟨reached, found⟩ := (admits.links rfl name target held).resolve_left dangles
    obtain ⟨reached', found'⟩ := (admits'.links rfl name target held).resolve_left dangles
    have same := follow_unique (follow_child admits.found named found) (follow_child admits'.found named found')
    simp only [Target.found.injEq] at same
    exact Or.inl ⟨reached, found, by rw [found', ← Prod.ext same.1 same.2]⟩

theorem parallel_onward {fuel : Nat} {above : List Place} {name : RawString} (named : Path.IsName name)
    (here : tree.Admits ⟨path, place, .directory⟩) (here' : tree.Admits ⟨path', place, .directory⟩)
    (further : ∀ next node,
      (∀ entry ∈ tree.visit true fuel (place :: above) (path.child name) next node, tree.Admits entry) →
      (∀ entry ∈ tree.visit true fuel (place :: above) (path'.child name) next node, tree.Admits entry) →
      List.Forall₂ (Parallel (path.child name) (path'.child name) node)
        (tree.visit true fuel (place :: above) (path.child name) next node)
        (tree.visit true fuel (place :: above) (path'.child name) next node))
    (inner : ∀ entry ∈ tree.onward true above place name (path.child name) fuel, tree.Admits entry)
    (inner' : ∀ entry ∈ tree.onward true above place name (path'.child name) fuel, tree.Admits entry) :
    List.Forall₂ (Parallel path path' .directory) (tree.onward true above place name (path.child name) fuel)
      (tree.onward true above place name (path'.child name) fuel) := by
  unfold onward at inner inner' ⊢
  cases held : tree.node? (name :: place) with
  | none => exact .nil
  | some node =>
    simp only [held] at inner inner' ⊢
    cases node with
    | directory => exact (further _ _ inner inner').imp fun _ _ => .further named
    | file content stamp executable => exact (further _ _ inner inner').imp fun _ _ => .further named
    | link target =>
      simp only [↓reduceIte] at inner inner' ⊢
      rcases entry_eq_of_link here here' named held with ⟨⟨next, node⟩, found, found'⟩ |
        ⟨error, error', refused, refused'⟩
      · rw [found] at inner ⊢
        rw [found'] at inner' ⊢
        cases node with
        | file content stamp executable => exact .cons (.further named (.here _ _ _ _)) .nil
        | link target => exact .cons (.further named (.here _ _ _ _)) .nil
        | directory =>
          by_cases seen : next ∈ place :: above
          · simp only [if_pos seen]
            exact .nil
          · simp only [if_neg seen] at inner inner' ⊢
            exact (further _ _ inner inner').imp fun _ _ => .further named
      · rw [refused, refused']
        exact .nil

theorem parallel_visit (sound : tree.Sound) (fuel : Nat) (above : List Place) (node : Node)
    (admits : ∀ entry ∈ tree.visit true fuel above path place node, tree.Admits entry)
    (admits' : ∀ entry ∈ tree.visit true fuel above path' place node, tree.Admits entry) :
    List.Forall₂ (Parallel path path' node) (tree.visit true fuel above path place node)
      (tree.visit true fuel above path' place node) := by
  induction fuel generalizing above path path' place node with
  | zero => exact .nil
  | succ fuel ih =>
    cases node with
    | file content stamp executable =>
      simp only [visit]
      exact .cons (.here _ _ _ _) .nil
    | link target =>
      simp only [visit]
      exact .cons (.here _ _ _ _) .nil
    | directory =>
      rw [visit_eq_onward] at admits admits' ⊢
      rw [visit_eq_onward]
      have here := admits _ (List.mem_cons_self ..)
      have here' := admits' _ (List.mem_cons_self ..)
      rw [here.shown rfl] at admits ⊢
      rw [here'.shown rfl] at admits' ⊢
      refine .cons (.here path path' place .directory) ?_
      have same : List.Forall₂ (fun name name' => name = name' ∧ name ∈ tree.names place) (tree.names place)
          (tree.names place) := List.forall₂_same.mpr fun name member => ⟨rfl, member⟩
      refine List.rel_flatMap same ?_
      rintro name _ ⟨rfl, member⟩
      beta_reduce
      have named := isName_of_mem_names sound member
      refine parallel_onward named here here' (fun next node => ih _ node) ?_ ?_
      · exact fun entry met => admits entry (List.mem_cons_of_mem _ (List.mem_flatMap.mpr ⟨name, member, met⟩))
      · exact fun entry met => admits' entry (List.mem_cons_of_mem _ (List.mem_flatMap.mpr ⟨name, member, met⟩))

/-- Walks from two paths to one directory meet the same there, unless something is refused to one of them. -/
theorem parallel_walk (sound : tree.Sound) (readable : tree.Readable path) (readable' : tree.Readable path')
    (entered : tree.entry true path = .ok (place, .directory))
    (entered' : tree.entry true path' = .ok (place, .directory)) :
    List.Forall₂ (Parallel path path' .directory) (tree.walk true path) (tree.walk true path') := by
  have walked := walk_of_entry entered
  have walked' := walk_of_entry entered'
  rw [walked, walked']
  exact parallel_visit sound _ _ _ (walked ▸ readable.2) (walked' ▸ readable'.2)

end Walks

end TrpcRouters.FileTree
