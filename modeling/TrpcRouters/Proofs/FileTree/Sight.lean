import TrpcRouters.Proofs.FileTree.Overlay
import TrpcRouters.Proofs.FileTree.Visit

/-! What a tree shows, whatever the time at which it was written. Two trees that show the same below a
directory are walked alike, and two that show the same on a way are followed alike along it. -/

namespace TrpcRouters

namespace Node

def unstamped : Node → Node
  | file content _ executable => file content 0 executable
  | directory => directory
  | link target => link target

theorem unstamped_eq_directory_iff {node : Node} : node.unstamped = .directory ↔ node = .directory := by
  cases node <;> simp [unstamped]

end Node

namespace FileTree

def sight? (tree : FileTree) (place : Place) : Option Node :=
  (tree.node? place).map Node.unstamped

theorem sight?_congr {first second : FileTree} {place : Place}
    (same : first.node? place = second.node? place) : first.sight? place = second.sight? place := by
  rw [sight?, sight?, same]

theorem sight?_cases {first second : FileTree} {place : Place}
    (same : first.sight? place = second.sight? place) :
    first.node? place = none ∧ second.node? place = none ∨
    first.node? place = some .directory ∧ second.node? place = some .directory ∨
    (∃ target, first.node? place = some (.link target) ∧ second.node? place = some (.link target)) ∨
    ∃ content stamp stamp' executable, first.node? place = some (.file content stamp executable) ∧
      second.node? place = some (.file content stamp' executable) := by
  unfold sight? at same
  cases held : first.node? place with
  | none =>
    cases held' : second.node? place with
    | none => simp
    | some other => simp [held, held'] at same
  | some node =>
    cases held' : second.node? place with
    | none => simp [held, held'] at same
    | some other =>
      rw [held, held'] at same
      cases node <;> cases other <;>
        simp only [Option.map_some, Node.unstamped, Option.some.injEq, Node.file.injEq, Node.link.injEq,
          reduceCtorEq] at same
      case file.file content stamp executable _ stamp' _ =>
        obtain ⟨rfl, _, rfl⟩ := same
        exact Or.inr (Or.inr (Or.inr ⟨content, stamp, stamp', executable, rfl, rfl⟩))
      case directory.directory => exact Or.inr (Or.inl ⟨rfl, rfl⟩)
      case link.link target _ =>
        subst same
        exact Or.inr (Or.inr (Or.inl ⟨target, rfl, rfl⟩))

theorem sight?_remove (tree : FileTree) {place : Place} (inside : place ≠ []) (other : Place) :
    (tree.remove place).sight? other = if place <:+ other then none else tree.sight? other := by
  unfold sight?
  rw [node?_remove _ inside]
  split <;> rfl

namespace Visited

def unstamped (entry : Visited) : Visited :=
  { entry with node := entry.node.unstamped }

end Visited

section Walks
variable {first second : FileTree} {place : Place}

theorem names_congr (same : ∀ name, first.sight? (name :: place) = second.sight? (name :: place)) :
    first.names place = second.names place := by
  have member : ∀ name, name ∈ first.names place ↔ name ∈ second.names place := by
    intro name
    rw [mem_names_iff, mem_names_iff]
    rcases sight?_cases (same name) with ⟨held, held'⟩ | ⟨held, held'⟩ | ⟨_, held, held'⟩ |
      ⟨_, _, _, _, held, held'⟩ <;> simp [held, held']
  exact List.Pairwise.eq_of_mem_iff (Text.increasing_sortedSet _) (Text.increasing_sortedSet _) member

/-- A path leads to a directory in both trees, or it opens nothing in either of them. -/
def Agree (first second : FileTree) (path : Path) (place : Place) : Prop :=
  (first.entry true path = .ok (place, .directory) ∧ second.entry true path = .ok (place, .directory)) ∨
    first.opens path = false ∧ second.opens path = false

theorem Agree.child {path : Path} (agree : Agree first second path place) (opened : first.opens path = true)
    {name : RawString} (named : Path.IsName name) (held : first.node? (name :: place) = some .directory)
    (held' : second.node? (name :: place) = some .directory) :
    Agree first second (path.child name) (name :: place) := by
  obtain ⟨entered, entered'⟩ := agree.resolve_right fun shut => by simp [opened] at shut
  by_cases allowed : Fits (path.child name) ∧ Short [name]
  · exact Or.inl ⟨(entry_child_iff entered named held (by simp)).mpr ⟨allowed.1, allowed.2, rfl⟩,
      (entry_child_iff entered' named held' (by simp)).mpr ⟨allowed.1, allowed.2, rfl⟩⟩
  · have shut {tree : FileTree} (entered : tree.entry true path = .ok (place, .directory))
        (held : tree.node? (name :: place) = some .directory) : tree.opens (path.child name) = false := by
      rw [← Bool.not_eq_true, opens_iff]
      rintro ⟨found, reached, _⟩
      obtain ⟨fits, short, _⟩ := (entry_child_iff entered named held (by simp)).mp reached
      exact allowed ⟨fits, short⟩
    exact Or.inr ⟨shut entered held, shut entered' held'⟩

theorem Agree.opens {path : Path} (agree : Agree first second path place)
    (closed : first.closed = second.closed) : first.opens path = second.opens path := by
  rcases agree with ⟨entered, entered'⟩ | ⟨shut, shut'⟩
  · rw [Bool.eq_iff_iff, opens_iff, opens_iff, entered, entered', closed]
  · rw [shut, shut']

theorem visit_congr (sound : first.Sound) (closed : first.closed = second.closed)
    (same : ∀ front, first.sight? (front ++ place) = second.sight? (front ++ place)) (fuel : Nat)
    (above : List Place) (path : Path) {node other : Node} (like : node.unstamped = other.unstamped)
    (agree : node = .directory → Agree first second path place) :
    (first.visit false fuel above path place node).map Visited.unstamped =
      (second.visit false fuel above path place other).map Visited.unstamped := by
  induction fuel generalizing above path place node other with
  | zero => rfl
  | succ fuel ih =>
    have here : Visited.unstamped ⟨path, place, node⟩ = Visited.unstamped ⟨path, place, other⟩ := by
      rw [Visited.unstamped, Visited.unstamped, like]
    cases node <;> cases other <;> simp only [Node.unstamped, reduceCtorEq] at like
    case directory.directory =>
      replace agree := agree rfl
      have names : first.names place = second.names place := names_congr fun name => same [name]
      have shown : first.shown path place = second.shown path place := by
        rw [shown, shown, agree.opens closed, names]
      rw [visit_eq_onward, visit_eq_onward, ← shown, List.map_cons, List.map_cons, here, List.map_flatMap,
        List.map_flatMap]
      congr 1
      refine List.flatMap_congr fun name member => ?_
      obtain ⟨opened, inside⟩ := mem_shown_iff.mp member
      have below : ∀ front, first.sight? (front ++ name :: place) =
          second.sight? (front ++ name :: place) := by
        intro front
        have shown := same (front ++ [name])
        rwa [List.append_assoc] at shown
      unfold onward
      rcases sight?_cases (same [name]) with ⟨held, held'⟩ | ⟨held, held'⟩ | ⟨_, held, held'⟩ |
        ⟨_, _, _, _, held, held'⟩ <;>
        simp only [List.singleton_append] at held held' <;> simp only [held, held']
      case inr.inl =>
        exact ih below _ _ rfl fun _ => agree.child opened (isName_of_mem_names sound inside) held held'
      case inr.inr.inl => rfl
      case inr.inr.inr => exact ih below _ _ rfl (by simp)
    all_goals simpa only [visit, List.map_cons, List.map_nil, List.cons.injEq, and_true] using here

theorem walk_congr (sound : first.Sound) (sound' : second.Sound) (closed : first.closed = second.closed)
    {root : Path}
    (entered : first.entry true root = .ok (place, .directory))
    (entered' : second.entry true root = .ok (place, .directory))
    (same : ∀ front, first.sight? (front ++ place) = second.sight? (front ++ place)) :
    (first.walk false root).map Visited.unstamped = (second.walk false root).map Visited.unstamped := by
  -- Both visits end by themselves, so they can go down equally far.
  have far : ∀ {tree : FileTree}, tree.Sound → tree.entry true root = .ok (place, .directory) →
      ∀ {fuel}, tree.depthBound ≤ fuel →
        tree.walk false root = tree.visit false fuel [] root place .directory := by
    intro tree sound entered fuel enough
    rw [walk_of_directory entered]
    exact (visit_eq sound false root (held_of_entry entered) (reach_le_depthBound tree _ place)
      enough).symm
  rw [far sound entered (Nat.le_max_left _ second.depthBound),
    far sound' entered' (Nat.le_max_right first.depthBound _)]
  exact visit_congr sound closed same _ _ _ rfl fun _ => Or.inl ⟨entered, entered'⟩

end Walks

/-- From two trees to two others: each place is left as it is on both sides, or it is one of the given
places and shows the same in the end. -/
def Together (touched : Place → Prop) (first second first' second' : FileTree) : Prop :=
  ∀ place, (first'.node? place = first.node? place ∧ second'.node? place = second.node? place) ∨
    touched place ∧ first'.sight? place = second'.sight? place

namespace Together
variable {touched more : Place → Prop} {first second first' second' first'' second'' : FileTree}

theorem refl : Together touched first second first second :=
  fun _ => Or.inl ⟨rfl, rfl⟩

theorem trans (early : Together touched first second first' second')
    (late : Together touched first' second' first'' second'') :
    Together touched first second first'' second'' := by
  intro place
  rcases late place with ⟨kept, kept'⟩ | there
  · rcases early place with ⟨before, before'⟩ | ⟨there, same⟩
    · exact Or.inl ⟨kept.trans before, kept'.trans before'⟩
    · exact Or.inr ⟨there, by rwa [sight?_congr kept, sight?_congr kept']⟩
  · exact Or.inr there

theorem mono (together : Together touched first second first' second')
    (within : ∀ place, touched place → more place) : Together more first second first' second' :=
  fun place => (together place).imp_right fun there => ⟨within place there.1, there.2⟩

theorem sight? (together : Together touched first second first' second') {place : Place}
    (same : first.sight? place = second.sight? place) : first'.sight? place = second'.sight? place := by
  rcases together place with ⟨kept, kept'⟩ | ⟨_, same⟩
  · rwa [sight?_congr kept, sight?_congr kept']
  · exact same

theorem put {place : Place} {node other : Node} (like : node.unstamped = other.unstamped)
    (there : touched place) :
    Together touched first second (first.put place node) (second.put place other) := by
  intro spot
  by_cases inside : place = []
  · -- The root is always a directory, whatever is put there.
    have root : ∀ (tree : FileTree) node, (tree.put [] node).node? spot = tree.node? spot := by
      intro tree node
      unfold node?
      split
      · rfl
      next away => rw [FileTree.put, lookup_setNode, if_neg away]
    rw [inside]
    exact Or.inl ⟨root _ _, root _ _⟩
  · rw [FileTree.sight?, FileTree.sight?, node?_put _ _ _ _ inside, node?_put _ _ _ _ inside]
    by_cases here : spot = place
    · simp only [if_pos here]
      exact Or.inr ⟨here ▸ there, congrArg some like⟩
    · simp only [if_neg here]
      exact Or.inl ⟨trivial, trivial⟩

theorem putFile {place : Place} (content : Bytes) (executable : Bool) (there : touched place) :
    Together touched first second (first.putFile place content executable)
      (second.putFile place content executable) := by
  have like : (Node.file content (first.clock + 1) executable).unstamped =
      (Node.file content (second.clock + 1) executable).unstamped := rfl
  exact put like there

end Together

end FileTree

end TrpcRouters
