import TrpcRouters.Proofs.FileTree.Order
import TrpcRouters.Proofs.FileTree.Readable
import TrpcRouters.Proofs.FileTree.Spelling
import TrpcRouters.Watch

/-! What a snapshot of a watched root has: for the definition files below the root, in the order of their
paths, when they were written and how long they are. These are the files that are discovered from the root,
unless the system refuses something to one of the two paths. -/

namespace TrpcRouters

namespace Discovery
open FileTree

def isProtoFile (entry : Visited) : Bool :=
  match entry.node with
  | .file _ _ _ => entry.path.isProto
  | _ => false

theorem protoFiles_eq_filter (visited : List Visited) : protoFiles visited = visited.filter isProtoFile := by
  rw [protoFiles, FileTree.files, List.filter_filter]
  refine List.filter_congr fun entry _ => ?_
  unfold isProtoFile
  cases entry.node <;> simp [Node.isFile]

theorem isProtoFile_iff {entry : Visited} : isProtoFile entry = true ↔
    (∃ content stamp executable, entry.node = .file content stamp executable) ∧
      entry.path.isProto = true := by
  unfold isProtoFile
  cases entry.node <;> simp

theorem isProto_along {path path' : Path} {names : List RawString} (some_ : names ≠ [])
    (named : ∀ name ∈ names, Path.IsName name) :
    (along path names).isProto = (along path' names).isProto := by
  have last : ∀ path, (along path names).fileName? = names.getLast? := by
    intro path
    obtain ⟨front, last, rfl⟩ := (List.eq_nil_or_concat' names).resolve_left some_
    rw [Path.fileName?, components_along path named]
    simp
  rw [Path.isProto, Path.isProto, Path.extension?, Path.extension?, last, last]

theorem increasing_protoFiles {tree : FileTree} (sound : tree.Sound) (root : Path) :
    (protoFiles (tree.walk true root)).Pairwise fun first second => first.path.Before second.path := by
  rw [protoFiles_eq_filter]
  exact (ordered_walk sound true root).increasing.filter _

/-- Walks from two paths to one directory find the same definition files. -/
theorem parallel_protoFiles {tree : FileTree} (sound : tree.Sound) {root root' : Path} {place : Place}
    (readable : tree.Readable root) (readable' : tree.Readable root')
    (entered : tree.entry true root = .ok (place, .directory))
    (entered' : tree.entry true root' = .ok (place, .directory)) :
    List.Forall₂ (Parallel root root' .directory) (protoFiles (tree.walk true root))
      (protoFiles (tree.walk true root')) := by
  rw [protoFiles_eq_filter, protoFiles_eq_filter]
  refine List.rel_filter (fun entry entry' along_ => ?_) (parallel_walk sound readable readable' entered entered')
  obtain ⟨names, named, path, path', start⟩ := along_.names
  suffices proto : isProtoFile entry = isProtoFile entry' from iff_of_eq (congrArg (· = true) proto)
  by_cases none_ : names = []
  · simp [isProtoFile, along_.node, start none_]
  · rw [isProtoFile, isProtoFile, along_.node, path, path', isProto_along none_ named]

end Discovery

namespace Watch
open FileTree Discovery

theorem sighting?_eq_some_iff {tree : FileTree} {path : Path} {sighting : Sighting} :
    sighting? tree path = some sighting ↔ ∃ place content stamp executable,
      tree.entry true path = .ok (place, .file content stamp executable) ∧
        sighting = ⟨path, some stamp, content.length⟩ := by
  unfold sighting?
  cases tree.entry true path with
  | error error => simp
  | ok reached =>
    obtain ⟨place, node⟩ := reached
    cases node <;> simp [eq_comm]

section Captures
variable {tree other : FileTree} {root : Path}

theorem mem_capture {sighting : Sighting} : sighting ∈ capture tree root ↔
    ∃ entry ∈ protoFiles (tree.walk true root), ∃ place content stamp executable,
      tree.entry true entry.path = .ok (place, .file content stamp executable) ∧
        sighting = ⟨entry.path, some stamp, content.length⟩ := by
  simp only [capture, List.mem_filterMap, sighting?_eq_some_iff]

/-- A snapshot of a root to which the system refuses nothing has all of them. -/
theorem paths_capture (readable : tree.Readable root) :
    (capture tree root).map Sighting.path = (protoFiles (tree.walk true root)).map Visited.path := by
  rw [capture, List.map_filterMap, ← List.filterMap_eq_map]
  refine List.filterMap_congr fun entry member => ?_
  rw [protoFiles_eq_filter] at member
  obtain ⟨met, proto⟩ := List.mem_filter.mp member
  obtain ⟨⟨content, stamp, executable, isFile⟩, _⟩ := isProtoFile_iff.mp proto
  simp [sighting?, (readable.2 entry met).found, isFile]

theorem increasing_capture (sound : tree.Sound) (root : Path) :
    ((capture tree root).map Sighting.path).Pairwise Path.Before := by
  rw [List.pairwise_map, capture, List.pairwise_filterMap]
  refine (increasing_protoFiles sound root).imp fun before first found second found' => ?_
  obtain ⟨_, _, _, _, _, rfl⟩ := sighting?_eq_some_iff.mp found
  obtain ⟨_, _, _, _, _, rfl⟩ := sighting?_eq_some_iff.mp found'
  exact before

theorem along_of_mem_capture (sound : tree.Sound) {sighting : Sighting}
    (member : sighting ∈ capture tree root) :
    ∃ names, (∀ name ∈ names, Path.IsName name) ∧ sighting.path = along root names := by
  obtain ⟨entry, met, _, _, _, _, _, rfl⟩ := mem_capture.mp member
  rw [protoFiles_eq_filter] at met
  obtain ⟨_, _, _, _, names, named, spelled, _⟩ := met_of_mem_walk sound (List.mem_filter.mp met).1
  exact ⟨names, named, spelled⟩

/-- The time and the size that a snapshot has for a path, however it is spelled. -/
def Snapshot.state? (snapshot : Snapshot) (path : Path) : Option (Option Nat × Nat) :=
  (snapshot.find? fun sighting => sighting.path.same path).map fun sighting =>
    (sighting.stamp, sighting.size)

theorem state?_of_mem {snapshot : Snapshot} (increasing : (snapshot.map Sighting.path).Pairwise Path.Before)
    {sighting : Sighting} (member : sighting ∈ snapshot) {path : Path}
    (same : sighting.path.same path = true) :
    snapshot.state? path = some (sighting.stamp, sighting.size) := by
  induction snapshot with
  | nil => cases member
  | cons first rest ih =>
    rw [List.map_cons, List.pairwise_cons] at increasing
    obtain ⟨front, later⟩ := increasing
    unfold Snapshot.state?
    rw [List.find?_cons]
    rcases List.mem_cons.mp member with rfl | inside
    · simp [same]
    · have before := front _ (List.mem_map_of_mem inside)
      have apart : first.path.same path = false := by
        rw [← Bool.not_eq_true]
        intro same'
        have both := (eq_of_beq same').trans (eq_of_beq same).symm
        exact absurd rfl ((Path.before_congr both rfl).mp before).ne
      rw [apart]
      exact ih later inside

theorem exists_of_state? {snapshot : Snapshot} {path : Path} {state : Option Nat × Nat}
    (found : snapshot.state? path = some state) : ∃ sighting ∈ snapshot,
      sighting.path.same path = true ∧ state = (sighting.stamp, sighting.size) := by
  obtain ⟨sighting, there, rfl⟩ := Option.map_eq_some_iff.mp found
  have same := List.find?_some there
  exact ⟨sighting, List.mem_of_find?_eq_some there, same, rfl⟩

/-- A path leads to a definition file below a root, which was written at a time and is so many bytes long. -/
def Shows (tree : FileTree) (root path : Path) (state : Option Nat × Nat) : Prop :=
  ∃ entry ∈ protoFiles (tree.walk true root), entry.path.same path = true ∧
    ∃ place content stamp executable,
      tree.entry true entry.path = .ok (place, .file content stamp executable) ∧
        state = (some stamp, content.length)

/-- A snapshot has for a path what the tree shows there. -/
theorem state?_capture_iff (sound : tree.Sound) {path : Path} {state : Option Nat × Nat} :
    (capture tree root).state? path = some state ↔ Shows tree root path state := by
  constructor
  · intro found
    obtain ⟨sighting, member, same, rfl⟩ := exists_of_state? found
    obtain ⟨entry, met, place, content, stamp, executable, entered, rfl⟩ := mem_capture.mp member
    exact ⟨entry, met, same, place, content, stamp, executable, entered, rfl⟩
  · rintro ⟨entry, met, same, place, content, stamp, executable, entered, rfl⟩
    exact state?_of_mem (increasing_capture sound root)
      (mem_capture.mpr ⟨entry, met, place, content, stamp, executable, entered, rfl⟩) same

/-- Snapshots of one root are equal if they have the same for every path. -/
theorem capture_eq_iff (sound : tree.Sound) (sound' : other.Sound) :
    capture tree root = capture other root ↔
      ∀ path, (capture tree root).state? path = (capture other root).state? path := by
  refine ⟨fun same path => by rw [same], fun same => ?_⟩
  have within : ∀ {tree other : FileTree}, tree.Sound → other.Sound →
      (∀ path, (capture tree root).state? path = (capture other root).state? path) →
      ∀ sighting ∈ capture tree root, sighting ∈ capture other root := by
    intro tree other sound sound' same sighting member
    have itself : sighting.path.same sighting.path = true := beq_self_eq_true _
    have state := state?_of_mem (increasing_capture sound root) member itself
    rw [same] at state
    obtain ⟨found, inside, spelled, agrees⟩ := exists_of_state? state
    obtain ⟨names, named, path⟩ := along_of_mem_capture sound member
    obtain ⟨names', named', path'⟩ := along_of_mem_capture sound' inside
    rw [Path.same, beq_iff_eq, path, path', components_along root named,
      components_along root named'] at spelled
    have equal : names' = names :=
      List.map_injective_iff.mpr (fun _ _ => Component.name.inj) (List.append_cancel_left spelled)
    have whole : found = sighting := by
      obtain ⟨stamp, size⟩ := Prod.mk.inj agrees
      cases found
      cases sighting
      simp_all
    exact whole ▸ inside
  have order : Std.Asymm fun first second : Sighting => first.path.Before second.path :=
    ⟨fun _ _ before before' => Std.Asymm.asymm _ _ before before'⟩
  exact List.Pairwise.eq_of_mem_iff (List.pairwise_map.mp (increasing_capture sound root))
    (List.pairwise_map.mp (increasing_capture sound' root)) fun sighting =>
      ⟨within sound sound' same sighting, within sound' sound (fun path => (same path).symm) sighting⟩

/-- The files of a snapshot are those discovered from its root, in the same order, if the system refuses
nothing to the root and to its absolute form, and this is spelled with the bytes of the root. -/
theorem capture_discover (sound : tree.Sound) {whole : Path} (strippable : root.Strippable)
    (readable : tree.Readable root) (spelled : tree.absolute root.withoutTrailing = .ok whole)
    (readable' : tree.Readable whole) :
    ∃ files, discover tree root = .ok files ∧
      List.Forall₂ (fun sighting file => ∃ key, tree.absolute sighting.path = .ok key ∧
        key.components = file.components) (capture tree root) files := by
  obtain ⟨place, entered⟩ := entry_of_isDirectory readable.1
  obtain ⟨place', entered'⟩ := entry_of_isDirectory readable'.1
  obtain rfl : place' = place := place_absolute sound strippable spelled entered entered'
  have some_ := isEmpty_of_entry entered
  refine ⟨_, discover_eq_ok_iff.mpr ⟨whole, spelled, rfl⟩, ?_⟩
  rw [List.forall₂_map_right_iff]
  suffices keys : List.Forall₂ (fun path entry => ∃ key, tree.absolute path = .ok key ∧
      key.components = entry.path.components) ((capture tree root).map Sighting.path)
      (protoFiles (tree.walk true whole)) from List.forall₂_map_left_iff.mp keys
  rw [paths_capture readable, List.forall₂_map_left_iff]
  refine (parallel_protoFiles sound readable readable' entered entered').imp fun entry entry' along_ => ?_
  obtain ⟨names, named, path, path', _⟩ := along_.names
  rw [path, path']
  exact absolute_along sound some_ strippable spelled named

end Captures

end Watch

end TrpcRouters
