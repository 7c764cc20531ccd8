import TrpcRouters.Proofs.Discovery
import TrpcRouters.Proofs.FileTree.Overlay
import TrpcRouters.Proofs.FileTree.Readable
import TrpcRouters.Proofs.FileTree.Visit

/-! Finding the definition files again, in a tree that more files have been written to. If none of these
is called like a definition file and no link that led nowhere leads to something now, the same are found
in the same order. -/

namespace TrpcRouters

namespace Discovery
open FileTree

theorem isProto_child (path : Path) {name : RawString} (named : Path.IsName name) :
    (path.child name).isProto = true ↔ IsProtoName name := by
  rw [Path.isProto, Path.extension?, Path.fileName?, Path.components_child named, List.getLast?_concat]
  exact beq_iff_eq

def protoPaths (visited : List Visited) : List Path :=
  (protoFiles visited).map fun entry => entry.path

theorem protoPaths_append (first second : List Visited) :
    protoPaths (first ++ second) = protoPaths first ++ protoPaths second := by
  simp [protoPaths, protoFiles, files]

theorem protoPaths_flatMap {α : Type} (elements : List α) (visits : α → List Visited) :
    protoPaths (elements.flatMap visits) = elements.flatMap fun element => protoPaths (visits element) := by
  induction elements with
  | nil => rfl
  | cons first rest ih => rw [List.flatMap_cons, protoPaths_append, ih, List.flatMap_cons]

theorem protoPaths_cons_of_isWay {node : Node} (way : node.IsWay) (path : Path) (place : Place)
    (rest : List Visited) : protoPaths (⟨path, place, node⟩ :: rest) = protoPaths rest := by
  cases node with
  | file content stamp executable => exact absurd way (Node.not_isWay_file _ _ _)
  | directory => rfl
  | link target => rfl

theorem protoPaths_file (path : Path) (place : Place) (content : Bytes) (stamp : Nat)
    (executable : Bool) :
    protoPaths [⟨path, place, .file content stamp executable⟩] = if path.isProto then [path] else [] := by
  cases proto : path.isProto <;> simp [protoPaths, protoFiles, FileTree.files, Node.isFile, List.filter, proto]

theorem flatMap_eq_of_filter {α β : Type} {elements : List α} {keep : α → Bool} {first second : α → List β}
    (kept : ∀ element ∈ elements, keep element = true → first element = second element)
    (dropped : ∀ element ∈ elements, keep element = false → first element = []) :
    elements.flatMap first = (elements.filter keep).flatMap second := by
  induction elements with
  | nil => rfl
  | cons element rest ih =>
    have later := ih (fun other member => kept other (List.mem_cons_of_mem _ member))
      fun other member => dropped other (List.mem_cons_of_mem _ member)
    rw [List.flatMap_cons, later]
    cases choice : keep element with
    | true =>
      rw [kept element (List.mem_cons_self ..) choice, List.filter_cons_of_pos choice, List.flatMap_cons]
    | false =>
      rw [dropped element (List.mem_cons_self ..) choice,
        List.filter_cons_of_neg (by simp [choice]), List.nil_append]

/-- More has been written, but no definition files. -/
structure Spares (files : Files) (before after : FileTree) : Prop where
  overlaid : Overlaid files before after
  sound : before.Sound
  plain {name : RawString} {above : Place} : files (name :: above) ≠ none → ¬IsProtoName name
  /-- A link that led nowhere leads nowhere still. -/
  links {name : RawString} {directory : Place} {target : Path} :
    before.node? (name :: directory) = some (.link target) → before.Dangles directory name →
      after.Dangles directory name

namespace Spares
variable {files : Files} {before after : FileTree}

theorem protoPaths_fresh (spares : Spares files before after) {fuel : Nat} {above : List Place}
    (path : Path) {name : RawString} {directory : Place} {node : Node}
    (fresh : before.node? (name :: directory) = none)
    (held : after.node? (name :: directory) = some node) :
    protoPaths (after.visit true fuel above (path.child name) (name :: directory) node) = [] := by
  induction fuel generalizing above path name directory node with
  | zero => rfl
  | succ fuel ih =>
    have named := spares.overlaid.sound.names held name (List.mem_cons_self ..)
    cases node with
    | link target =>
      rw [spares.overlaid.grows.link held] at fresh
      cases fresh
    | file content stamp executable =>
      have written : files (name :: directory) ≠ none := by
        intro none_
        rcases spares.overlaid.kept none_ with same | ⟨_, made⟩
        · rw [held, fresh] at same
          cases same
        · rw [held] at made
          cases made
      have other : (path.child name).isProto = false := by
        rw [Bool.eq_false_iff, Ne, isProto_child path named]
        exact spares.plain written
      simp [visit, protoPaths, protoFiles, FileTree.files, other]
    | directory =>
      rw [visit_eq_onward, protoPaths_cons_of_isWay (by simp [Node.IsWay]), protoPaths_flatMap]
      refine List.flatMap_eq_nil_iff.mpr fun inner member => ?_
      obtain ⟨next, there⟩ := mem_names_iff.mp (mem_shown_iff.mp member).2
      have fresh' := spares.sound.none_below fresh [inner]
      rw [onward, there]
      cases next with
      | link target =>
        rw [List.singleton_append, spares.overlaid.grows.link there] at fresh'
        cases fresh'
      | directory => exact ih (path.child name) fresh' there
      | file content stamp executable => exact ih (path.child name) fresh' there

theorem names_eq (spares : Spares files before after) (directory : Place) :
    before.names directory = (after.names directory).filter fun name =>
      (before.node? (name :: directory)).isSome := by
  apply Text.sortedSet_eq_filter
  intro name
  have member : ∀ tree : FileTree, name ∈ tree.names directory ↔
      ∃ node, tree.node? (name :: directory) = some node := fun _ => mem_names_iff
  simp only [names, Text.mem_sortedSet_iff] at member
  rw [member, member, Option.isSome_iff_exists]
  constructor
  · rintro ⟨node, held⟩
    obtain ⟨other, there, _⟩ := spares.overlaid.node held
    exact ⟨⟨other, there⟩, node, held⟩
  · rintro ⟨_, there⟩
    exact there

/-- A directory is opened by its path in both trees or in none of them. -/
def OpensAlike (before after : FileTree) (path : Path) (place : Place) : Prop :=
  (before.entry true path = .ok (place, .directory) ∧ after.entry true path = .ok (place, .directory)) ∨
    (before.opens path = false ∧ after.opens path = false)

theorem opens_eq (spares : Spares files before after) {path : Path} {place : Place}
    (alike : OpensAlike before after path place) : after.opens path = before.opens path := by
  rcases alike with ⟨entered, entered'⟩ | ⟨shut, shut'⟩
  · rw [Bool.eq_iff_iff, opens_iff, opens_iff, entered, entered', spares.overlaid.grows.closed]
  · rw [shut, shut']

theorem opensAlike_child (spares : Spares files before after) {path : Path} {place : Place} {name : RawString}
    (entered : before.entry true path = .ok (place, .directory))
    (entered' : after.entry true path = .ok (place, .directory))
    (held : before.node? (name :: place) = some .directory) :
    OpensAlike before after (path.child name) (name :: place) := by
  have named := spares.sound.names held name (List.mem_cons_self ..)
  have held' := spares.overlaid.grows.way held (by simp [Node.IsWay])
  have reached := @entry_child_iff before path place name (name :: place, .directory) _ entered named held
    (by simp)
  have reached' := @entry_child_iff after path place name (name :: place, .directory) _ entered' named held'
    (by simp)
  by_cases allowed : Fits (path.child name) ∧ Short [name]
  · exact Or.inl ⟨reached.mpr ⟨allowed.1, allowed.2, rfl⟩, reached'.mpr ⟨allowed.1, allowed.2, rfl⟩⟩
  · refine Or.inr ⟨?_, ?_⟩ <;> rw [Bool.eq_false_iff] <;> intro opened <;>
      obtain ⟨other, found, _⟩ := opens_iff.mp opened
    · obtain ⟨fits, short, _⟩ := (entry_child_iff entered named held (by simp)).mp found
      exact allowed ⟨fits, short⟩
    · obtain ⟨fits, short, _⟩ := (entry_child_iff entered' named held' (by simp)).mp found
      exact allowed ⟨fits, short⟩

/-- What a link in a directory leads to by its path, it leads to again, and to nothing else. -/
theorem entry_link (spares : Spares files before after) {path : Path} {place : Place} {name : RawString}
    {target : Path} (entered : before.entry true path = .ok (place, .directory))
    (entered' : after.entry true path = .ok (place, .directory))
    (held : before.node? (name :: place) = some (.link target)) {reached' : Place × Node}
    (found' : after.entry true (path.child name) = .ok reached') :
    ∃ reached, before.entry true (path.child name) = .ok reached := by
  have named := spares.sound.names held name (List.mem_cons_self ..)
  have some_ := isEmpty_of_entry entered
  -- The link led somewhere from its own directory, since it does so now.
  have leads : ¬before.Dangles place name := fun nowhere =>
    spares.links held nowhere _ _ (follow_child entered' named found')
  simp only [Dangles, not_forall, not_not] at leads
  obtain ⟨next, node, local_⟩ := leads
  have long := (follow_eq_ok_iff.mp (Leads.of_entry entered)).append (follow_eq_ok_iff.mp local_)
    (List.cons_ne_nil _ _)
  have way' := follow_of_entry found'
  obtain ⟨_, same⟩ := resolveSteps_of_ok (resolve_of_entry found')
  rw [steps_child some_ named, start_child after some_ named, spares.overlaid.grows.alike.start] at way'
  have way := (spares.overlaid.fewer long (follow_eq_ok_iff.mp way')).result
  refine ⟨(next, node), ?_⟩
  rw [FileTree.entry, FileTree.resolve, same, steps_child some_ named, start_child before some_ named, way]

theorem protoPaths_linked (spares : Spares files before after) {fuel : Nat} {above : List Place}
    {path : Path} {place : Place} {name : RawString} {target : Path}
    (entered : before.entry true path = .ok (place, .directory))
    (entered' : after.entry true path = .ok (place, .directory))
    (held : before.node? (name :: place) = some (.link target))
    (further : ∀ {next : Place} {node other : Node}, before.node? next = some node →
      after.node? next = some other → (node = .directory → OpensAlike before after (path.child name) next) →
        protoPaths (after.visit true fuel (place :: above) (path.child name) next other) =
          protoPaths (before.visit true fuel (place :: above) (path.child name) next node)) :
    protoPaths (after.onward true above place name (path.child name) fuel) =
      protoPaths (before.onward true above place name (path.child name) fuel) := by
  have held' := spares.overlaid.grows.way held (by simp [Node.IsWay])
  simp only [onward, held, held', ↓reduceIte]
  cases found : before.entry true (path.child name) with
  | error error =>
    cases found' : after.entry true (path.child name) with
    | error error' => rfl
    | ok reached' =>
      obtain ⟨reached, leads⟩ := spares.entry_link entered entered' held found'
      rw [found] at leads
      cases leads
  | ok reached =>
    obtain ⟨next, node⟩ := reached
    obtain ⟨other, found'⟩ := spares.overlaid.entry found
    have there := held_of_entry found
    have there' := held_of_entry found'
    obtain ⟨_, now, same, stays⟩ := spares.overlaid.node there
    rw [there'] at now
    cases now
    rw [found']
    cases node with
    | directory =>
      cases same (by simp [Node.IsWay])
      dsimp only
      split
      · rfl
      · exact further there there' fun _ => Or.inl ⟨found, found'⟩
    | link target =>
      cases same (by simp [Node.IsWay])
      rfl
    | file content stamp executable =>
      obtain ⟨_, _, _, rfl⟩ := Node.exists_of_not_isWay (stays (Node.not_isWay_file _ _ _))
      simp only [protoPaths_file]

theorem protoPaths_visit (spares : Spares files before after) (fuel : Nat) (above : List Place)
    (path : Path) {place : Place} {node other : Node} (held : before.node? place = some node)
    (there : after.node? place = some other) (alike : node = .directory → OpensAlike before after path place) :
    protoPaths (after.visit true fuel above path place other) =
      protoPaths (before.visit true fuel above path place node) := by
  induction fuel generalizing above path place node other with
  | zero => rfl
  | succ fuel ih =>
    obtain ⟨other', there', same, stays⟩ := spares.overlaid.node held
    rw [there] at there'
    cases there'
    cases node with
    | link target =>
      simp only [same (by simp [Node.IsWay]), visit]
    | file content stamp executable =>
      obtain ⟨_, _, _, rfl⟩ := Node.exists_of_not_isWay (stays (Node.not_isWay_file _ _ _))
      simp only [visit, protoPaths_file]
    | directory =>
      rw [same (by simp [Node.IsWay]), visit_eq_onward, visit_eq_onward,
        protoPaths_cons_of_isWay (by simp [Node.IsWay]), protoPaths_cons_of_isWay (by simp [Node.IsWay]),
        protoPaths_flatMap, protoPaths_flatMap, shown, shown, spares.opens_eq (alike rfl)]
      split
      case isFalse => rw [List.flatMap_nil, List.flatMap_nil]
      next opened =>
      obtain ⟨entered, entered'⟩ := (alike rfl).resolve_right fun shut => by simp [shut.1] at opened
      rw [spares.names_eq]
      refine flatMap_eq_of_filter (fun name _ was => ?kept) fun name member fresh => ?dropped
      case dropped =>
        obtain ⟨next, now⟩ := mem_names_iff.mp member
        have free : before.node? (name :: place) = none := by simpa using fresh
        cases next with
        | link target =>
          rw [spares.overlaid.grows.link now] at free
          cases free
        | directory =>
          simp only [onward, now]
          exact spares.protoPaths_fresh path free now
        | file content stamp executable =>
          simp only [onward, now]
          exact spares.protoPaths_fresh path free now
      case kept =>
        obtain ⟨early, was⟩ := Option.isSome_iff_exists.mp was
        obtain ⟨late, now, same, stays⟩ := spares.overlaid.node was
        cases early with
        | link target =>
          exact spares.protoPaths_linked entered entered' was fun first last inner => ih _ _ first last inner
        | directory =>
          cases same (by simp [Node.IsWay])
          simp only [onward, was, now]
          exact ih _ (path.child name) was now fun _ => spares.opensAlike_child entered entered' was
        | file content stamp executable =>
          obtain ⟨_, _, _, rfl⟩ := Node.exists_of_not_isWay (stays (Node.not_isWay_file _ _ _))
          simp only [onward, was, now]
          exact ih _ (path.child name) was now (by simp)

/-- The same definition files are found again. -/
theorem discover_eq (spares : Spares files before after) {root : Path} {paths : List Path}
    (found : discover before root = .ok paths) (some_ : paths ≠ []) :
    discover after root = .ok paths := by
  have absolute : after.absolute root.withoutTrailing = before.absolute root.withoutTrailing := by
    rw [FileTree.absolute, FileTree.absolute, spares.overlaid.grows.home]
  obtain ⟨start, whole, rfl⟩ := discover_eq_ok_iff.mp found
  refine discover_eq_ok_iff.mpr ⟨start, absolute.trans whole, ?_⟩
  cases entered : before.entry true start with
  | error error => simp [walk, entered, protoFiles, FileTree.files] at some_
  | ok reached =>
    obtain ⟨place, node⟩ := reached
    obtain ⟨other, entered'⟩ := spares.overlaid.entry entered
    have held := held_of_entry entered
    have held' := held_of_entry entered'
    have alike : node = .directory → OpensAlike before after start place := by
      rintro rfl
      have way := spares.overlaid.grows.way held (by simp [Node.IsWay])
      cases held'.symm.trans way
      exact Or.inl ⟨entered, entered'⟩
    have enough := fun tree : FileTree => tree.reach_le_depthBound [place] place
    have most := visit_eq spares.sound true start held (enough before)
      (Nat.le_max_left before.depthBound after.depthBound)
    have most' := visit_eq spares.overlaid.sound true start held' (enough after)
      (Nat.le_max_right before.depthBound after.depthBound)
    have same := spares.protoPaths_visit (max before.depthBound after.depthBound) [] start held held' alike
    rw [most, most', ← walk_of_entry entered, ← walk_of_entry entered'] at same
    exact same.symm

end Spares

end Discovery

end TrpcRouters
