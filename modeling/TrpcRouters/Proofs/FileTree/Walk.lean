import TrpcRouters.FileTree.Walk
import TrpcRouters.Proofs.FileTree.Child
import TrpcRouters.Proofs.Text.SortedSet

/-! What a walk meets. Every entry is in the tree, and its path goes on from that of the walk by the
names of entries; without links it stands at the place that these names spell. -/

namespace TrpcRouters.FileTree
variable {tree : FileTree}

def along (path : Path) (names : List RawString) : Path :=
  names.foldl Path.child path

theorem components_along (path : Path) {names : List RawString} (named : ∀ name ∈ names, Path.IsName name) :
    (along path names).components = path.components ++ names.map .name := by
  induction names generalizing path with
  | nil => simp [along]
  | cons name rest ih =>
    have later := ih (path.child name) fun other member => named other (List.mem_cons_of_mem _ member)
    rw [along, List.foldl_cons, ← along, later, Path.components_child (named name (List.mem_cons_self ..))]
    simp

theorem isName_of_mem_names (sound : tree.Sound) {directory : Place} {name : RawString}
    (member : name ∈ tree.names directory) : Path.IsName name := by
  obtain ⟨⟨place, node⟩, inside, found⟩ := List.mem_filterMap.mp (Text.mem_sortedSet member)
  cases place with
  | nil => cases found
  | cons first above =>
    simp only at found
    split at found
    · cases found
      exact sound.named _ inside _ (List.mem_cons_self ..)
    · cases found

def shown (tree : FileTree) (path : Path) (place : Place) : List RawString :=
  if tree.opens path then tree.names place else []

def onward (tree : FileTree) (links : Bool) (above : List Place) (place : Place) (name : RawString)
    (path : Path) (fuel : Nat) : List Visited :=
  match tree.node? (name :: place) with
  | none => []
  | some (.link target) =>
    if links then
      match tree.entry true path with
      | .ok (reached, .directory) =>
        if reached ∈ place :: above then []
        else tree.visit links fuel (place :: above) path reached .directory
      | .ok (reached, inner) => [⟨path, reached, inner⟩]
      | .error _ => []
    else [⟨path, name :: place, .link target⟩]
  | some inner => tree.visit links fuel (place :: above) path (name :: place) inner

theorem visit_eq_onward (tree : FileTree) (links : Bool) (fuel : Nat) (above : List Place) (path : Path)
    (place : Place) :
    tree.visit links (fuel + 1) above path place .directory =
      ⟨path, place, .directory⟩ :: (tree.shown path place).flatMap fun name =>
        tree.onward links above place name (path.child name) fuel := by
  rw [visit, shown]
  split
  · rfl
  · rfl

/-- All that a visit can do under a name: pass it over, take one entry, or visit a place, which is the one
of that name or a directory behind a link that is not being visited yet. -/
inductive Onward (tree : FileTree) (links : Bool) (above : List Place) (place : Place) (name : RawString)
    (path : Path) : (Nat → List Visited) → Prop
  | nowhere : Onward tree links above place name path fun _ => []
  | linked {target : Path} (held : tree.node? (name :: place) = some (.link target)) (kept : links = false) :
    Onward tree links above place name path fun _ => [⟨path, name :: place, .link target⟩]
  | single {next : Place} {node : Node} (leads : tree.entry true path = .ok (next, node))
    (followed : links = true) : Onward tree links above place name path fun _ => [⟨path, next, node⟩]
  | down {node : Node} (held : tree.node? (name :: place) = some node) (solid : ∀ target, node ≠ .link target) :
    Onward tree links above place name path fun fuel =>
      tree.visit links fuel (place :: above) path (name :: place) node
  | across {next : Place} (leads : tree.entry true path = .ok (next, .directory)) (followed : links = true)
    (fresh : next ∉ place :: above) :
    Onward tree links above place name path fun fuel =>
      tree.visit links fuel (place :: above) path next .directory

theorem onward_cases (tree : FileTree) (links : Bool) (above : List Place) (place : Place)
    (name : RawString) (path : Path) :
    tree.Onward links above place name path (tree.onward links above place name path) := by
  unfold onward
  cases held : tree.node? (name :: place) with
  | none => exact .nowhere
  | some node =>
  cases node with
  | directory => exact .down held (by simp)
  | file content stamp executable => exact .down held (by simp)
  | link target =>
    cases links with
    | false => exact .linked held rfl
    | true =>
      cases found : tree.entry true path with
      | error error => exact .nowhere
      | ok reached =>
      obtain ⟨next, inner⟩ := reached
      cases inner with
      | file content stamp executable => exact .single found rfl
      | link target => exact .single found rfl
      | directory =>
        by_cases seen : next ∈ place :: above
        · simp only [if_pos seen]
          exact .nowhere
        · simp only [if_neg seen]
          exact .across found rfl seen

/-- All directories on the way from a path by names are listed. -/
def Listed (tree : FileTree) : Path → List RawString → Prop
  | _, [] => True
  | path, name :: rest => tree.opens path = true ∧ Listed tree (path.child name) rest

def Met (tree : FileTree) (links : Bool) (path : Path) (place : Place) (entry : Visited) : Prop :=
  tree.node? entry.place = some entry.node ∧ ∃ names, (∀ name ∈ names, Path.IsName name) ∧
    entry.path = along path names ∧ (links = false → entry.place = names.reverse ++ place) ∧
    tree.Listed path names

theorem mem_shown_iff {path : Path} {place : Place} {name : RawString} :
    name ∈ tree.shown path place ↔ tree.opens path = true ∧ name ∈ tree.names place := by
  unfold shown
  split
  next opened => simp [opened]
  next shut => simp [shut]

theorem met_of_mem_visit (sound : tree.Sound) {links : Bool} {fuel : Nat} {above : List Place}
    {path : Path} {place : Place} {node : Node} (held : tree.node? place = some node) :
    ∀ entry ∈ tree.visit links fuel above path place node, tree.Met links path place entry := by
  have here : ∀ {path : Path} {place : Place} {node : Node}, tree.node? place = some node →
      tree.Met links path place ⟨path, place, node⟩ :=
    fun held => ⟨held, [], by simp, rfl, fun _ => rfl, trivial⟩
  induction fuel generalizing above path place node with
  | zero =>
    intro entry member
    simp [visit] at member
  | succ fuel ih =>
    intro entry member
    cases node with
    | file content stamp executable =>
      have same : entry = ⟨path, place, .file content stamp executable⟩ := by
        simpa [visit] using member
      exact same ▸ here held
    | link target =>
      have same : entry = ⟨path, place, .link target⟩ := by simpa [visit] using member
      exact same ▸ here held
    | directory =>
      rw [visit_eq_onward, List.mem_cons] at member
      rcases member with rfl | below
      · exact here held
      obtain ⟨name, inside, met⟩ := List.mem_flatMap.mp below
      obtain ⟨opened, inside⟩ := mem_shown_iff.mp inside
      have named := isName_of_mem_names sound inside
      -- What is met below an entry is met from here, with the entry's name in front.
      have further : ∀ {next : Place}, (links = false → next = name :: place) →
          tree.Met links (path.child name) next entry → tree.Met links path place entry := by
        rintro next there ⟨held, names, all, spelled, placed, listed⟩
        refine ⟨held, name :: names, List.forall_mem_cons.mpr ⟨named, all⟩, spelled, fun plain => ?_,
          opened, listed⟩
        rw [placed plain, there plain]
        simp
      have ways := onward_cases tree links above place name (path.child name)
      generalize tree.onward links above place name (path.child name) = onward at ways met
      cases ways with
      | nowhere => cases met
      | linked held' =>
        rw [List.mem_singleton] at met
        exact further (fun _ => rfl) (met ▸ here held')
      | single leads followed =>
        rw [List.mem_singleton] at met
        exact further (by simp [followed]) (met ▸ here (held_of_entry leads))
      | down held' => exact further (fun _ => rfl) (ih held' entry met)
      | across leads followed =>
        exact further (by simp [followed]) (ih (held_of_entry leads) entry met)

theorem walk_of_entry {root : Path} {place : Place} {node : Node}
    (entered : tree.entry true root = .ok (place, node)) :
    tree.walk true root = tree.visit true tree.depthBound [] root place node := by
  unfold walk
  rw [entered]
  rfl

theorem met_of_mem_walk (sound : tree.Sound) {links : Bool} {root : Path} {entry : Visited}
    (member : entry ∈ tree.walk links root) :
    ∃ place node, tree.entry true root = .ok (place, node) ∧ tree.Met links root place entry := by
  unfold walk at member
  cases start : tree.entry true root with
  | error error => simp [start] at member
  | ok reached =>
    obtain ⟨place, node⟩ := reached
    have held := held_of_entry start
    refine ⟨place, node, rfl, ?_⟩
    rw [start] at member
    simp only at member
    split at member
    · exact met_of_mem_visit sound held entry member
    · split at member
      · exact met_of_mem_visit sound held entry member
      · simp at member
      · exact met_of_mem_visit sound held entry member

/-- A path leads to an entry if it leads anywhere. -/
def Owns (tree : FileTree) (entry : Visited) : Prop :=
  ∀ reached, tree.entry true entry.path = .ok reached → reached = (entry.place, entry.node)

theorem owns_of_mem_visit (sound : tree.Sound) {links : Bool} {fuel : Nat} {above : List Place}
    {path : Path} {place : Place} {node : Node} (owns : tree.Owns ⟨path, place, node⟩) :
    ∀ entry ∈ tree.visit links fuel above path place node, (∀ target, entry.node ≠ .link target) →
      tree.Owns entry := by
  induction fuel generalizing above path place node with
  | zero =>
    intro entry member
    simp [visit] at member
  | succ fuel ih =>
    intro entry member solid
    cases node with
    | file content stamp executable =>
      have same : entry = ⟨path, place, .file content stamp executable⟩ := by
        simpa [visit] using member
      exact same ▸ owns
    | link target =>
      have same : entry = ⟨path, place, .link target⟩ := by simpa [visit] using member
      exact same ▸ owns
    | directory =>
      rw [visit_eq_onward, List.mem_cons] at member
      rcases member with rfl | below
      · exact owns
      obtain ⟨name, inside, met⟩ := List.mem_flatMap.mp below
      obtain ⟨opened, inside⟩ := mem_shown_iff.mp inside
      have named := isName_of_mem_names sound inside
      have entered : tree.entry true path = .ok (place, .directory) := by
        obtain ⟨found, entered, _⟩ := opens_iff.mp opened
        rw [entered, owns _ entered]
      have ways := onward_cases tree links above place name (path.child name)
      generalize tree.onward links above place name (path.child name) = onward at ways met
      cases ways with
      | nowhere => cases met
      | linked held =>
        rw [List.mem_singleton] at met
        exact absurd (congrArg Visited.node met) (solid _)
      | single leads =>
        rw [List.mem_singleton] at met
        subst met
        exact fun reached found => Except.ok.inj (found.symm.trans leads)
      | down held plain =>
        refine ih (fun reached found => ?_) entry met solid
        exact ((entry_child_iff entered named held plain).mp found).2.2
      | across leads =>
        exact ih (fun reached found => Except.ok.inj (found.symm.trans leads)) entry met solid

theorem owns_of_mem_walk (sound : tree.Sound) {links : Bool} {root : Path} {entry : Visited}
    (member : entry ∈ tree.walk links root) (solid : ∀ target, entry.node ≠ .link target) :
    tree.Owns entry := by
  unfold walk at member
  cases start : tree.entry true root with
  | error error => simp [start] at member
  | ok reached =>
    obtain ⟨place, node⟩ := reached
    have owns : tree.Owns ⟨root, place, node⟩ := fun reached found =>
      Except.ok.inj (found.symm.trans start)
    rw [start] at member
    simp only at member
    split at member
    · exact owns_of_mem_visit sound owns entry member solid
    · split at member
      · exact owns_of_mem_visit sound owns entry member solid
      · simp at member
      · exact owns_of_mem_visit sound owns entry member solid

end TrpcRouters.FileTree
