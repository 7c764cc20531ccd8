import TrpcRouters.FileTree.Install
import TrpcRouters.Proofs.Path.Components

/-! What writing leaves of a file tree: the directories and links that were there, and no links besides
them, so that a path never leads to another place than before. In a sound tree every entry lies in a
directory and is called by a proper name. -/

namespace TrpcRouters

/-- No file, so a path can go on from it. -/
def Node.IsWay (node : Node) : Prop :=
  ∀ content stamp executable, node ≠ .file content stamp executable

theorem Node.not_isWay_file (content : Bytes) (stamp : Nat) (executable : Bool) :
    ¬(Node.file content stamp executable).IsWay :=
  fun way => way content stamp executable rfl

namespace FileTree

/-- The second tree is the first after some writing. -/
structure Grows (before after : FileTree) : Prop where
  home : after.workingDirectory = before.workingDirectory
  closed : after.closed = before.closed
  fixed : after.fixed = before.fixed
  way {place : Place} {node : Node} : before.node? place = some node → node.IsWay →
    after.node? place = some node
  link {place : Place} {target : Path} : after.node? place = some (.link target) →
    before.node? place = some (.link target)

/-- The second tree has the links of the first and no others. -/
structure Alike (before after : FileTree) : Prop where
  home : after.workingDirectory = before.workingDirectory
  link {place : Place} {target : Path} :
    after.node? place = some (.link target) ↔ before.node? place = some (.link target)

theorem Grows.alike {before after : FileTree} (grows : Grows before after) : Alike before after :=
  ⟨grows.home, grows.link, fun held => grows.way held (by simp [Node.IsWay])⟩

theorem Alike.refl (tree : FileTree) : Alike tree tree :=
  ⟨rfl, Iff.rfl⟩

theorem Alike.symm {before after : FileTree} (alike : Alike before after) : Alike after before :=
  ⟨alike.home.symm, alike.link.symm⟩

theorem Alike.trans {before after later : FileTree} (early : Alike before after)
    (late : Alike after later) : Alike before later :=
  ⟨late.home.trans early.home, late.link.trans early.link⟩

theorem Alike.same {before after : FileTree} (alike : Alike before after) {place : Place}
    {node other : Node} (held : before.node? place = some node) (kept : after.node? place = some other)
    (open_ : node.IsWay) (open' : other.IsWay) : other = node := by
  cases node with
  | file content stamp executable => exact absurd open_ (Node.not_isWay_file _ _ _)
  | link target =>
    rw [alike.link.mpr held] at kept
    cases kept
    rfl
  | directory =>
    cases other with
    | file content stamp executable => exact absurd open' (Node.not_isWay_file _ _ _)
    | directory => rfl
    | link target =>
      rw [alike.link.mp kept] at held
      cases held

/-- A tree that a file system can hold. -/
structure Sound (tree : FileTree) : Prop where
  named : ∀ entry ∈ tree.nodes, ∀ name ∈ entry.1, Path.IsName name
  rooted : ∀ {name : RawString} {above : Place} {node : Node},
    tree.node? (name :: above) = some node → tree.node? above = some .directory
  home : ∀ name ∈ tree.workingDirectory, Path.IsName name

theorem Grows.refl (tree : FileTree) : Grows tree tree :=
  ⟨rfl, rfl, rfl, fun held _ => held, fun held => held⟩

theorem Grows.trans {before after later : FileTree} (early : Grows before after)
    (late : Grows after later) : Grows before later :=
  ⟨late.home.trans early.home, late.closed.trans early.closed, late.fixed.trans early.fixed,
    fun held open_ => late.way (early.way held open_) open_, fun held => early.link (late.link held)⟩

theorem mem_setNode {place : Place} {node : Node} {entry : Place × Node}
    {nodes : List (Place × Node)} (member : entry ∈ setNode place node nodes) :
    entry.1 = place ∨ entry ∈ nodes := by
  induction nodes with
  | nil =>
    have whole : entry = (place, node) := by simpa [setNode] using member
    exact Or.inl (congrArg Prod.fst whole)
  | cons first rest ih =>
    rw [setNode] at member
    split at member
    next same =>
      rcases List.mem_cons.mp member with here | later
      · exact Or.inl ((congrArg Prod.fst here).trans same)
      · exact Or.inr (List.mem_cons_of_mem _ later)
    next =>
      rcases List.mem_cons.mp member with here | later
      · exact Or.inr (here ▸ List.mem_cons_self ..)
      · exact (ih later).imp_right (List.mem_cons_of_mem _)

theorem lookup_filter (keep : Place → Bool) (place : Place) (nodes : List (Place × Node)) :
    (nodes.filter fun entry => keep entry.1).lookup place =
      if keep place then nodes.lookup place else none := by
  induction nodes with
  | nil => simp
  | cons entry rest ih =>
    obtain ⟨other, node⟩ := entry
    by_cases same : place = other
    · subst same
      by_cases kept : keep place = true
      · simp [kept]
      · simp [kept, ih]
    · have away : (place == other) = false := by simpa using same
      by_cases kept : keep other = true
      · simp [kept, List.lookup_cons, away, ih]
      · simp [kept, List.lookup_cons, away, ih]

theorem node?_remove (tree : FileTree) {place : Place} (inside : place ≠ []) (other : Place) :
    (tree.remove place).node? other = if place <:+ other then none else tree.node? other := by
  by_cases root : other = []
  · have apart : ¬place <:+ other := by
      rw [root, List.suffix_nil]
      exact inside
    rw [if_neg apart, root]
    simp [node?]
  · have lookup := lookup_filter (fun key => !place.isSuffixOf key) other tree.nodes
    simp only [node?, if_neg root, remove]
    rw [lookup]
    by_cases below : place <:+ other
    · have kept : place.isSuffixOf other = true := List.isSuffixOf_iff_suffix.mpr below
      rw [if_pos below, kept]
      rfl
    · have gone : place.isSuffixOf other = false := by
        rw [Bool.eq_false_iff]
        exact fun kept => below (List.isSuffixOf_iff_suffix.mp kept)
      rw [if_neg below, gone]
      rfl

namespace Sound
variable {tree : FileTree}

theorem names (sound : tree.Sound) {place : Place} {node : Node} (held : tree.node? place = some node) :
    ∀ name ∈ place, Path.IsName name := by
  unfold node? at held
  split at held
  next root => simp [root]
  next =>
    obtain ⟨front, back, whole, _⟩ := List.lookup_eq_some_iff.mp held
    exact sound.named (place, node) (by simp [whole])

theorem above (sound : tree.Sound) {front place : Place} {node : Node}
    (held : tree.node? (front ++ place) = some node) (deeper : front ≠ []) :
    tree.node? place = some .directory := by
  induction front generalizing node with
  | nil => exact absurd rfl deeper
  | cons name rest ih =>
    have next := sound.rooted held
    by_cases last : rest = []
    · simpa [last] using next
    · exact ih next last

theorem none_below (sound : tree.Sound) {place : Place} (free : tree.node? place = none)
    (front : Place) : tree.node? (front ++ place) = none := by
  cases held : tree.node? (front ++ place) with
  | none => rfl
  | some node =>
    by_cases here : front = []
    · rw [here, List.nil_append, free] at held
      cases held
    · rw [sound.above held here] at free
      cases free

theorem remove (sound : tree.Sound) {place : Place} (inside : place ≠ []) :
    (tree.remove place).Sound where
  named entry member := sound.named entry (List.mem_filter.mp member).1
  rooted := by
    intro name above node held
    rw [node?_remove _ inside] at held ⊢
    split at held
    next => cases held
    next apart =>
      have higher : ¬place <:+ above := fun below => apart (below.trans (List.suffix_cons name above))
      rw [if_neg higher]
      exact sound.rooted held
  home := sound.home

theorem put (sound : tree.Sound) {name : RawString} {above : Place} {node : Node}
    (named : Path.IsName name) (inside : tree.node? above = some .directory)
    (bare : tree.node? (name :: above) = some .directory → node = .directory) :
    (tree.put (name :: above) node).Sound where
  named := by
    intro entry member other otherIn
    rcases mem_setNode member with same | old
    · rw [same, List.mem_cons] at otherIn
      rcases otherIn with rfl | up
      · exact named
      · exact sound.names inside other up
    · exact sound.named entry old other otherIn
  rooted := by
    intro other up held node'
    rw [node?_put _ _ _ _ (List.cons_ne_nil _ _)] at node' ⊢
    have rooted : tree.node? up = some .directory := by
      split at node'
      next same =>
        obtain ⟨rfl, rfl⟩ := List.cons.inj same
        exact inside
      next => exact sound.rooted node'
    split
    next same => rw [bare (same ▸ rooted)]
    next => exact rooted
  home := sound.home

end Sound

theorem sound_iff {tree : FileTree} : tree.Sound ↔
    (∀ entry ∈ tree.nodes, (∀ name ∈ entry.1, Path.IsName name) ∧
      tree.node? entry.1.tail = some .directory) ∧
    ∀ name ∈ tree.workingDirectory, Path.IsName name := by
  constructor
  · intro sound
    refine ⟨fun entry member => ⟨sound.named entry member, ?_⟩, sound.home⟩
    obtain ⟨place, node⟩ := entry
    cases place with
    | nil => simp [node?]
    | cons name above =>
      cases held : tree.node? (name :: above) with
      | some other => exact sound.rooted held
      | none =>
        rw [node?, if_neg (List.cons_ne_nil _ _), List.lookup_eq_none_iff] at held
        simpa using held _ member
  · rintro ⟨entries, home⟩
    refine ⟨fun entry member => (entries entry member).1, ?_, home⟩
    intro name above node held
    rw [node?, if_neg (List.cons_ne_nil _ _)] at held
    obtain ⟨front, back, whole, _⟩ := List.lookup_eq_some_iff.mp held
    exact (entries (name :: above, node) (by simp [whole])).2

instance (tree : FileTree) : Decidable tree.Sound :=
  decidable_of_iff _ sound_iff.symm

end FileTree

end TrpcRouters
