import Mathlib.Data.List.Infix
import Mathlib.Data.List.Perm.Subperm
import TrpcRouters.Proofs.FileTree.Below
import TrpcRouters.Proofs.FileTree.Walk

/-! What a walk does not miss. No place is deeper than the number of entries, so a walk that is let down
that far meets everything below its start. -/

namespace TrpcRouters.FileTree
variable {tree : FileTree}

theorem mem_names_iff {directory : Place} {name : RawString} :
    name ∈ tree.names directory ↔ ∃ node, tree.node? (name :: directory) = some node := by
  have lookup : (∃ node, tree.node? (name :: directory) = some node) ↔
      ∃ entry ∈ tree.nodes, entry.1 = name :: directory := by
    rw [node?, if_neg (List.cons_ne_nil _ _), ← Option.ne_none_iff_exists', Ne,
      List.lookup_eq_none_iff]
    constructor
    · intro present
      by_contra absent
      exact present fun entry member => by simpa using fun same => absent ⟨entry, member, same.symm⟩
    · rintro ⟨entry, member, same⟩ absent
      simpa [same] using absent entry member
  rw [lookup, names, Text.mem_sortedSet_iff, List.mem_filterMap]
  constructor
  · rintro ⟨⟨place, node⟩, member, found⟩
    cases place with
    | nil => simp at found
    | cons first above =>
      simp only [Option.ite_none_right_eq_some, Option.some.injEq] at found
      exact ⟨_, member, by simp [found]⟩
  · rintro ⟨entry, member, shape⟩
    exact ⟨entry, member, by obtain ⟨place, node⟩ := entry; cases shape; simp⟩

/-- Every step down to a place is an entry of its own. -/
theorem length_le_of_node? (sound : tree.Sound) {place : Place} {node : Node}
    (held : tree.node? place = some node) : place.length ≤ tree.nodes.length := by
  suffices keys : ∀ {place : Place} {node : Node}, tree.node? place = some node →
      ∃ keys : List Place, keys.length = place.length ∧ keys.Nodup ∧
        (∀ key ∈ keys, key.length ≤ place.length) ∧ keys ⊆ tree.nodes.map Prod.fst by
    obtain ⟨keys, length, distinct, _, inside⟩ := keys held
    rw [← length, ← List.length_map (f := Prod.fst)]
    exact (distinct.subperm inside).length_le
  intro place node held
  induction place generalizing node with
  | nil => exact ⟨[], rfl, List.nodup_nil, by simp, by simp⟩
  | cons name above ih =>
    obtain ⟨keys, length, distinct, short, inside⟩ := ih (sound.rooted held)
    refine ⟨(name :: above) :: keys, by simp [length], ?_, ?_, ?_⟩
    · refine List.nodup_cons.mpr ⟨fun member => ?_, distinct⟩
      have low := short _ member
      rw [List.length_cons] at low
      omega
    · intro key member
      rcases List.mem_cons.mp member with rfl | deeper
      · exact Nat.le_refl _
      · exact Nat.le_succ_of_le (short key deeper)
    · refine List.cons_subset.mpr ⟨?_, inside⟩
      rw [node?, if_neg (List.cons_ne_nil _ _)] at held
      obtain ⟨front, rest, whole, _⟩ := List.lookup_eq_some_iff.mp held
      simp [whole]

theorem mem_visit (sound : tree.Sound) {names : List RawString} {fuel : Nat} (deep : names.length < fuel)
    (above : List Place) (path : Path) {place : Place} {node last : Node}
    (held : tree.node? place = some node) (there : tree.node? (names.reverse ++ place) = some last)
    (listed : tree.Listed path names) :
    ⟨along path names, names.reverse ++ place, last⟩ ∈ tree.visit false fuel above path place node := by
  induction names generalizing fuel above path place node with
  | nil =>
    obtain ⟨fuel, rfl⟩ := Nat.exists_eq_add_one.mpr deep
    rw [List.reverse_nil, List.nil_append, held] at there
    cases there
    exact List.mem_cons_self ..
  | cons name rest ih =>
    obtain ⟨fuel, rfl⟩ := Nat.exists_eq_add_one.mpr (Nat.zero_lt_of_lt deep)
    rw [List.length_cons, Nat.add_lt_add_iff_right] at deep
    have shape : (name :: rest).reverse ++ place = rest.reverse ++ (name :: place) := by simp
    rw [shape] at there ⊢
    obtain ⟨inner, next⟩ : ∃ inner, tree.node? (name :: place) = some inner := by
      by_cases none_ : rest = []
      · exact ⟨last, by simpa [none_] using there⟩
      · exact ⟨.directory, sound.above there (by simpa using none_)⟩
    have inside := sound.rooted next
    rw [held] at inside
    cases inside
    rw [visit_eq_onward]
    refine List.mem_cons_of_mem _ (List.mem_flatMap.mpr
      ⟨name, mem_shown_iff.mpr ⟨listed.1, mem_names_iff.mpr ⟨inner, next⟩⟩, ?_⟩)
    have further := ih deep (place :: above) (path.child name) next there listed.2
    rw [onward, next]
    cases inner with
    | directory => exact further
    | file content stamp executable => exact further
    | link target =>
      -- Nothing lies below a link, so the way ends here.
      have none_ : rest = [] := by
        by_contra some_
        have directory := sound.above there (by simpa using some_)
        rw [next] at directory
        cases directory
      subst none_
      rw [List.reverse_nil, List.nil_append, next] at there
      cases there
      exact List.mem_singleton_self _

theorem walk_of_directory {root : Path} {place : Place}
    (entered : tree.entry true root = .ok (place, .directory)) (links : Bool) :
    tree.walk links root = tree.visit links tree.depthBound [] root place .directory := by
  unfold walk
  rw [entered]
  cases links with
  | true => rfl
  | false =>
    simp only [Bool.false_eq_true, ↓reduceIte]
    split
    · rfl
    next absent => exact absurd rfl absent
    · rfl

theorem mem_walk (sound : tree.Sound) {root : Path} {place : Place}
    (entered : tree.entry true root = .ok (place, .directory)) {names : List RawString} {node : Node}
    (held : tree.node? (names.reverse ++ place) = some node) (listed : tree.Listed root names) :
    ⟨along root names, names.reverse ++ place, node⟩ ∈ tree.walk false root := by
  have deep : names.length < tree.depthBound := by
    have short := length_le_of_node? sound held
    rw [List.length_append, List.length_reverse] at short
    calc names.length < tree.nodes.length + 2 := by omega
      _ ≤ tree.depthBound := Nat.le_mul_of_pos_left _ (by omega)
  rw [walk_of_directory entered]
  exact mem_visit sound deep [] root (held_of_entry entered) held listed

/-- Without following links, a walk meets what lies below its directory behind directories that are listed,
and at the places that the names on the way spell. -/
theorem mem_walk_iff (sound : tree.Sound) {root : Path} {directory : Place}
    (entered : tree.entry true root = .ok (directory, .directory)) {entry : Visited} :
    entry ∈ tree.walk false root ↔ ∃ names, entry.path = along root names ∧
      entry.place = names.reverse ++ directory ∧ tree.node? entry.place = some entry.node ∧
      tree.Listed root names := by
  constructor
  · intro member
    obtain ⟨place, node, entered', held, names, _, spelled, placed, listed⟩ := met_of_mem_walk sound member
    rw [entered] at entered'
    cases entered'
    exact ⟨names, spelled, placed rfl, held, listed⟩
  · rintro ⟨names, spelled, placed, held, listed⟩
    obtain ⟨path, place, node⟩ := entry
    subst spelled placed
    exact mem_walk sound entered held listed

/-- A walk from a path to a directory goes through all directories on the way of some names: they are listed,
and the system takes their paths. -/
def Passable (closed : List Place) (root : Path) (directory : Place) (names : List RawString) : Prop :=
  ∀ front ∈ names.inits, front ≠ names →
    front.reverse ++ directory ∉ closed ∧ (front = [] ∨ Fits (along root front) ∧ Short front)

instance (closed : List Place) (root : Path) (directory : Place) (names : List RawString) :
    Decidable (Passable closed root directory names) :=
  inferInstanceAs (Decidable (∀ front ∈ _, _))

theorem short_cons {name : RawString} {rest : List RawString} :
    Short (name :: rest) ↔ Short [name] ∧ Short rest := by
  simp [Short]

theorem passable_cons {closed : List Place} {root : Path} {directory : Place} {name : RawString}
    {rest : List RawString} : Passable closed root directory (name :: rest) ↔
      directory ∉ closed ∧ (rest ≠ [] → Fits (root.child name) ∧ Short [name]) ∧
        Passable closed (root.child name) (name :: directory) rest := by
  have inner (front : List RawString) : (name :: front).reverse ++ directory =
      front.reverse ++ name :: directory := by simp
  simp only [Passable, List.inits_cons, List.forall_mem_cons, List.forall_mem_map, List.reverse_nil,
    List.nil_append, ne_eq, reduceCtorEq, not_false_eq_true, true_or, and_true, forall_const,
    List.cons.injEq, true_and, false_or, inner]
  refine and_congr_right fun _ => ⟨fun all => ⟨fun some_ => ?_, fun front member differs => ?_⟩, ?_⟩
  · exact (all [] (List.mem_inits _ _ |>.mpr (List.nil_prefix)) (Ne.symm some_)).2
  · obtain ⟨listed, fits, short⟩ := all front member differs
    exact ⟨listed, Or.inr ⟨fits, (short_cons.mp short).2⟩⟩
  · rintro ⟨first, all⟩ front member differs
    obtain ⟨listed, inside⟩ := all front member differs
    have some_ : rest ≠ [] := by
      rintro rfl
      exact differs (List.prefix_nil.mp ((List.mem_inits _ _).mp member))
    refine ⟨listed, ?_⟩
    rcases inside with rfl | ⟨fits, short⟩
    · exact first some_
    · exact ⟨fits, short_cons.mpr ⟨(first some_).2, short⟩⟩

theorem listed_iff (sound : tree.Sound) {root : Path} {directory : Place}
    (entered : tree.entry true root = .ok (directory, .directory)) {names : List RawString} {node : Node}
    (held : tree.node? (names.reverse ++ directory) = some node) :
    tree.Listed root names ↔ Passable tree.closed root directory names := by
  induction names generalizing root directory with
  | nil => simp [Listed, Passable]
  | cons name rest ih =>
    have opens : tree.opens root = true ↔ directory ∉ tree.closed := by simp [opens_iff, entered]
    rw [Listed, passable_cons, opens]
    refine and_congr_right fun _ => ?_
    have shape : (name :: rest).reverse ++ directory = rest.reverse ++ name :: directory := by simp
    rw [shape] at held
    by_cases some_ : rest = []
    · simp [some_, Listed, Passable]
    obtain ⟨second, others, rest_⟩ := List.exists_cons_of_ne_nil some_
    have inner := sound.above held (by simpa using some_)
    have named := sound.names inner name (List.mem_cons_self ..)
    by_cases allowed : Fits (root.child name) ∧ Short [name]
    · have entered' := (entry_child_iff entered named inner (by simp)).mpr ⟨allowed.1, allowed.2, rfl⟩
      rw [ih entered' held]
      simp [allowed]
    · refine iff_of_false (fun listed => ?_) fun passable => allowed (passable.1 some_)
      rw [rest_, Listed] at listed
      obtain ⟨_, found, _⟩ := opens_iff.mp listed.1
      obtain ⟨fits, short, _⟩ := (entry_child_iff entered named inner (by simp)).mp found
      exact allowed ⟨fits, short⟩

theorem listed_concat {path : Path} {front : List RawString} {last : RawString} :
    tree.Listed path (front ++ [last]) ↔ tree.Listed path front ∧ tree.opens (along path front) = true := by
  induction front generalizing path with
  | nil => simp [Listed, along]
  | cons name rest ih => simp only [List.cons_append, Listed, ih, and_assoc, along, List.foldl_cons]

theorem entered_of_listed (sound : tree.Sound) {root : Path} {directory : Place}
    (entered : tree.entry true root = .ok (directory, .directory)) {front : List RawString} {last : RawString}
    (held : tree.node? (front.reverse ++ directory) = some .directory)
    (listed : tree.Listed root (front ++ [last])) :
    tree.entry true (along root front) = .ok (front.reverse ++ directory, .directory) := by
  induction front generalizing root directory with
  | nil => exact entered
  | cons name rest ih =>
    have shape : (name :: rest).reverse ++ directory = rest.reverse ++ name :: directory := by simp
    rw [shape] at held ⊢
    have inner : tree.node? (name :: directory) = some .directory := by
      by_cases none_ : rest = []
      · simpa [none_] using held
      · exact sound.above held (by simpa using none_)
    have named := sound.names inner name (List.mem_cons_self ..)
    have opened : tree.opens (root.child name) = true := by
      obtain ⟨first, others, whole⟩ := List.exists_cons_of_ne_nil (by simp : rest ++ [last] ≠ [])
      have listed := listed.2
      rw [List.append_eq, whole] at listed
      exact listed.1
    obtain ⟨_, found, _⟩ := opens_iff.mp opened
    obtain ⟨fits, short, _⟩ := (entry_child_iff entered named inner (by simp)).mp found
    exact ih ((entry_child_iff entered named inner (by simp)).mpr ⟨fits, short, rfl⟩) held listed.2

theorem visit_of_linkFree {place : Place} (free : tree.LinkFree place) (fuel : Nat) (above : List Place)
    (path : Path) (node : Node) :
    tree.visit true fuel above path place node = tree.visit false fuel above path place node := by
  induction fuel generalizing above path place node with
  | zero => rfl
  | succ fuel ih =>
    cases node with
    | file content stamp executable => simp only [visit]
    | link target => simp only [visit]
    | directory =>
      rw [visit_eq_onward, visit_eq_onward]
      congr 1
      refine List.flatMap_congr fun name _ => ?_
      unfold onward
      have inner : tree.LinkFree (name :: place) := fun front target held =>
        free (front ++ [name]) target (by simpa using held)
      cases held : tree.node? (name :: place) with
      | none => rfl
      | some node =>
        cases node with
        | directory => exact ih inner _ _ _
        | file content stamp executable => exact ih inner _ _ _
        | link target => exact absurd held (inner [] target)

theorem walk_of_linkFree (free : tree.LinkFree []) (root : Path) :
    tree.walk true root = tree.walk false root := by
  unfold walk
  cases tree.entry true root with
  | error error => rfl
  | ok reached =>
    simp only [↓reduceIte, Bool.false_eq_true]
    rw [visit_of_linkFree fun front target held => free (front ++ reached.1) target (by simpa using held)]
    split
    next => rfl
    next entered _ =>
      have held := held_of_entry entered
      exact absurd (by simpa using held) (free _ _)
    next => rfl

/-- The directories that are not being visited. -/
def unseen (tree : FileTree) (seen : List Place) : List Place :=
  ([] :: tree.nodes.map Prod.fst).filter fun place =>
    tree.node? place = some .directory && !seen.contains place

theorem mem_unseen_iff {seen : List Place} {place : Place} (held : tree.node? place = some .directory) :
    place ∈ tree.unseen seen ↔ place ∉ seen := by
  have key : place ∈ [] :: tree.nodes.map Prod.fst := by
    by_cases root : place = []
    · simp [root]
    · rw [node?, if_neg root] at held
      obtain ⟨front, rest, whole, _⟩ := List.lookup_eq_some_iff.mp held
      simp [whole]
  rw [unseen, List.mem_filter, held]
  simp only [key, true_and, decide_true, Bool.true_and, Bool.not_eq_true', List.contains_eq_mem,
    decide_eq_false_iff_not]

theorem unseen_cons_sublist (tree : FileTree) (place : Place) (seen : List Place) :
    (tree.unseen (place :: seen)).Sublist (tree.unseen seen) := by
  apply List.monotone_filter_right
  intro other
  simp only [Bool.and_eq_true, Bool.not_eq_true', List.contains_cons, Bool.or_eq_false_iff]
  rintro ⟨directory, _, apart⟩
  exact ⟨directory, apart⟩

/-- A directory that is visited for the first time leaves one less to visit. -/
theorem unseen_cons_lt {seen : List Place} {place : Place} (held : tree.node? place = some .directory)
    (fresh : place ∉ seen) : (tree.unseen (place :: seen)).length < (tree.unseen seen).length := by
  refine Nat.lt_of_le_of_ne (unseen_cons_sublist tree place seen).length_le fun same => ?_
  have equal := (unseen_cons_sublist tree place seen).eq_of_length same
  have member := (mem_unseen_iff held).mpr fresh
  rw [← equal] at member
  exact (mem_unseen_iff held).mp member (List.mem_cons_self ..)

/-- How far a visit can go down: through every directory that is not being visited yet, and from each of
them as far as places are deep. -/
def reach (tree : FileTree) (seen : List Place) (place : Place) : Nat :=
  (tree.unseen seen).length * (tree.nodes.length + 2) + (tree.nodes.length + 2 - place.length)

theorem reach_le_depthBound (tree : FileTree) (seen : List Place) (place : Place) :
    tree.reach seen place ≤ tree.depthBound := by
  have few : (tree.unseen seen).length ≤ tree.nodes.length + 1 := by
    have short := List.length_filter_le (fun place => decide (tree.node? place = some .directory) &&
      !seen.contains place) ([] :: tree.nodes.map Prod.fst)
    rwa [List.length_cons, List.length_map] at short
  calc tree.reach seen place
      ≤ (tree.nodes.length + 1) * (tree.nodes.length + 2) + (tree.nodes.length + 2) :=
        Nat.add_le_add (Nat.mul_le_mul_right _ few) (Nat.sub_le _ _)
    _ = tree.depthBound := by rw [depthBound, ← Nat.succ_mul]

theorem reach_enter (sound : tree.Sound) {seen : List Place} {name : RawString} {place : Place} {node : Node}
    (held : tree.node? (name :: place) = some node) :
    tree.reach ((name :: place) :: place :: seen) (name :: place) < tree.reach (place :: seen) place := by
  have short := length_le_of_node? sound held
  have few := Nat.mul_le_mul_right (tree.nodes.length + 2)
    (unseen_cons_sublist tree (name :: place) (place :: seen)).length_le
  rw [List.length_cons] at short
  unfold reach
  rw [List.length_cons]
  omega

theorem reach_jump (sound : tree.Sound) {seen : List Place} {place reached : Place} {node : Node}
    (here : tree.node? place = some node) (held : tree.node? reached = some .directory)
    (fresh : reached ∉ place :: seen) :
    tree.reach (reached :: place :: seen) reached < tree.reach (place :: seen) place := by
  have less := Nat.mul_le_mul_right (tree.nodes.length + 2) (unseen_cons_lt held fresh)
  have short := length_le_of_node? sound here
  rw [Nat.succ_mul] at less
  unfold reach
  omega

theorem visit_eq (sound : tree.Sound) (links : Bool) {fuel more : Nat} {above : List Place} (path : Path)
    {place : Place} {node : Node} (held : tree.node? place = some node)
    (enough : tree.reach (place :: above) place ≤ fuel) (enough' : fuel ≤ more) :
    tree.visit links more above path place node = tree.visit links fuel above path place node := by
  induction fuel generalizing more above path place node with
  | zero =>
    have short := length_le_of_node? sound held
    unfold reach at enough
    omega
  | succ fuel ih =>
    obtain ⟨more, rfl⟩ := Nat.exists_eq_add_one.mpr (Nat.lt_of_lt_of_le (Nat.succ_pos _) enough')
    rw [Nat.add_le_add_iff_right] at enough'
    cases node with
    | file content stamp executable => simp only [visit]
    | link target => simp only [visit]
    | directory =>
      rw [visit_eq_onward, visit_eq_onward]
      congr 1
      refine List.flatMap_congr fun name _ => ?_
      have ways := onward_cases tree links above place name (path.child name)
      generalize tree.onward links above place name (path.child name) = onward at ways ⊢
      cases ways with
      | nowhere => rfl
      | linked => rfl
      | single => rfl
      | down inner =>
        have less := Nat.lt_of_lt_of_le (reach_enter sound inner) enough
        exact ih _ inner (Nat.le_of_lt_succ less) enough'
      | across leads _ fresh =>
        have directory := held_of_entry leads
        have less := Nat.lt_of_lt_of_le (reach_jump sound held directory fresh) enough
        exact ih _ directory (Nat.le_of_lt_succ less) enough'

end TrpcRouters.FileTree
