import TrpcRouters.Proofs.FileTree.Listing
import TrpcRouters.Proofs.Rediscovery
import TrpcRouters.Proofs.Watch.Session

/-! What is discovered below a root, and in which order. The files are met in the order of their paths,
however the directories are listed and however many separators the root ends in; without links they are
the files whose names end in the extension. -/

namespace TrpcRouters

namespace Path

theorem withoutTrailing_slash {path : Path} (some_ : path.isEmpty = false) (whole : path.raw.IsText) :
    (Path.mk (path.raw ++ "/")).withoutTrailing = path := by
  obtain ⟨text, spelled⟩ := RawString.isText_iff.mp whole
  obtain rfl : path = ofText text := congrArg mk spelled
  have longer : Path.mk ((ofText text).raw ++ "/") = ofText (text ++ "/") :=
    congrArg mk (RawString.ofText_append text "/").symm
  have letters : (ofText (text ++ "/")).text.toList.reverse = '/' :: text.toList.reverse := by
    rw [Path.text, ofText, RawString.text_ofText, String.toList_append, List.reverse_append]
    rfl
  rw [longer, withoutTrailing, letters]
  cases backwards : text.toList.reverse with
  | nil =>
    rw [String.toList_eq_nil_iff.mp (List.reverse_eq_nil_iff.mp backwards)] at some_
    cases some_
  | cons c before =>
    show ofText (String.ofList (c :: before).reverse) = ofText text
    rw [← backwards, List.reverse_reverse, String.ofList_toList]

end Path

namespace Discovery
open FileTree

section Found
variable {tree : FileTree} {root whole : Path} {directory : Place}

/-- A definition file below a directory: its name has the extension and something in front of it. -/
def Holds (tree : FileTree) (directory : Place) (names : List RawString) : Prop :=
  (∃ (front : List RawString) (stem : RawString), stem ≠ "" ∧
    names = front ++ [stem ++ RawString.ofText ".proto"]) ∧
    ∃ content stamp executable,
      tree.node? (names.reverse ++ directory) = some (.file content stamp executable)

theorem names_of_mem_protoFiles (sound : tree.Sound)
    (entered : tree.entry true whole = .ok (directory, .directory)) {entry : Visited}
    (found : entry ∈ protoFiles (tree.walk true whole)) :
    ∃ names, names ≠ [] ∧ (∀ name ∈ names, Path.IsName name) ∧ entry.path = along whole names := by
  rw [protoFiles_eq_filter] at found
  obtain ⟨met, proto⟩ := List.mem_filter.mp found
  obtain ⟨⟨content, stamp, executable, isFile⟩, _⟩ := isProtoFile_iff.mp proto
  obtain ⟨_, _, _, _, names, named, spelled, _⟩ := met_of_mem_walk sound met
  refine ⟨names, ?_, named, spelled⟩
  rintro rfl
  have owns := owns_of_mem_walk sound met (by simp [isFile]) (directory, .directory) (spelled ▸ entered)
  rw [isFile] at owns
  cases owns

theorem walk_of_free (entered : tree.entry true whole = .ok (directory, .directory))
    (free : tree.LinkFree directory) : tree.walk true whole = tree.walk false whole := by
  rw [walk_of_directory entered, walk_of_directory entered, visit_of_linkFree free]

theorem listed_of_readable (sound : tree.Sound) (readable : tree.Readable whole)
    (entered : tree.entry true whole = .ok (directory, .directory)) (free : tree.LinkFree directory)
    {names : List RawString} {node : Node} (held : tree.node? (names.reverse ++ directory) = some node) :
    tree.Listed whole names := by
  induction names using List.reverseRecOn generalizing node with
  | nil => trivial
  | append_singleton front last ih =>
    rw [List.reverse_concat, List.cons_append] at held
    have above := sound.rooted held
    have met := mem_walk sound entered above (ih above)
    rw [← walk_of_free entered free] at met
    exact listed_concat.mpr ⟨ih above, (readable.2 _ met).opens rfl⟩

/-- Without links, the files that are found are all that the directory holds. -/
theorem mem_protoFiles_iff (sound : tree.Sound) (readable : tree.Readable whole)
    (entered : tree.entry true whole = .ok (directory, .directory)) (free : tree.LinkFree directory)
    {file : Path} :
    file ∈ (protoFiles (tree.walk true whole)).map Visited.path ↔
      ∃ names, file = along whole names ∧ Holds tree directory names := by
  have last : ∀ front last, Path.IsName last →
      ((along whole (front ++ [last])).isProto = true ↔ IsProtoName last) := by
    intro front last named
    rw [along, List.foldl_append]
    exact isProto_child _ named
  rw [walk_of_free entered free, protoFiles_eq_filter, List.mem_map]
  constructor
  · rintro ⟨entry, found, rfl⟩
    obtain ⟨met, proto⟩ := List.mem_filter.mp found
    obtain ⟨⟨content, stamp, executable, isFile⟩, called⟩ := isProtoFile_iff.mp proto
    obtain ⟨names, spelled, placed, held, _⟩ := (mem_walk_iff sound entered).mp met
    rw [placed, isFile] at held
    refine ⟨names, spelled, ?_, content, stamp, executable, held⟩
    rcases List.eq_nil_or_concat' names with rfl | ⟨front, name, rfl⟩
    · cases (held_of_entry entered).symm.trans held
    · have named := sound.names held name (by simp)
      rw [spelled, last front name named] at called
      obtain ⟨stem, some_, rfl⟩ := isProtoName_iff.mp called
      exact ⟨front, stem, some_, rfl⟩
  · rintro ⟨_, rfl, ⟨front, stem, some_, rfl⟩, content, stamp, executable, held⟩
    have named := sound.names held (stem ++ RawString.ofText ".proto") (by simp)
    have met := mem_walk sound entered held (listed_of_readable sound readable entered free held)
    refine ⟨_, List.mem_filter.mpr ⟨met, isProtoFile_iff.mpr ⟨?_, ?_⟩⟩, rfl⟩
    · exact ⟨content, stamp, executable, rfl⟩
    · exact (last front _ named).mpr (isProtoName_iff.mpr ⟨stem, some_, rfl⟩)

theorem components_protoFiles (sound : tree.Sound) {other : Path}
    (same : other.components = whole.components) (readable : tree.Readable whole)
    (readable' : tree.Readable other) :
    ((protoFiles (tree.walk true other)).map Visited.path).map Path.components =
      ((protoFiles (tree.walk true whole)).map Visited.path).map Path.components := by
  obtain ⟨place, entered⟩ := entry_of_isDirectory readable.1
  obtain ⟨place', entered'⟩ := entry_of_isDirectory readable'.1
  obtain rfl : place' = place := place_of_components entered entered' same
  rw [List.map_map, List.map_map, ← List.forall₂_eq_eq_eq, List.forall₂_map_left_iff,
    List.forall₂_map_right_iff]
  refine (parallel_protoFiles sound readable' readable entered' entered).imp fun entry entry' along_ => ?_
  obtain ⟨names, named, path, path', _⟩ := along_.names
  simp only [Function.comp_apply, path, path', components_along _ named, same]

/-- The files below a root whose absolute form is spelled with its own bytes, and is refused nothing, are
discovered in the order of their paths, each of them once and by a path that goes on from the absolute root.
Without links they are those with the extension, and no matter how the entries are listed they are the same.
So are their components if the root is a text and is given with one more separator, which its absolute form
has too if there is one already. -/
theorem discover_canonical (sound : tree.Sound) (strippable : root.Strippable)
    (entered : tree.entry true root = .ok (directory, .directory))
    (spelled : tree.absolute root.withoutTrailing = .ok whole) (readable : tree.Readable whole) :
    ∃ start files, tree.absolute root = .ok start ∧ discover tree root = .ok files ∧
      files.Pairwise Path.Before ∧ files.Nodup ∧
      (∀ file ∈ files, file.isAbsolute = true ∧ ∃ names, names ≠ [] ∧
        (∀ name ∈ names, Path.IsName name) ∧
        file.components = start.components ++ names.map .name) ∧
      (tree.LinkFree directory → ∀ file, file ∈ files ↔
        ∃ names, file = along whole names ∧ Holds tree directory names) ∧
      (∀ other, Relisted tree other → discover other root = .ok files) ∧
      (root.raw.IsText → (root.endsInSeparator = true → tree.Readable start) →
        ∃ files', discover tree ⟨root.raw ++ "/"⟩ = .ok files' ∧
          files'.map Path.components = files.map Path.components) := by
  obtain ⟨place, entered'⟩ := entry_of_isDirectory readable.1
  obtain rfl : place = directory := place_absolute sound strippable spelled entered entered'
  have some_ := isEmpty_of_entry entered
  obtain ⟨start, begun⟩ := tree.exists_absolute some_
  have same : start.components = whole.components :=
    components_absolute_congr spelled begun (Path.components_withoutTrailing strippable).symm
  have discovered := discover_eq_ok_iff.mpr ⟨whole, spelled, rfl⟩
  have increasing := List.pairwise_map.mpr (increasing_protoFiles sound whole)
  refine ⟨start, _, begun, discovered, increasing, increasing.imp Path.Before.ne, ?below,
    fun free file => mem_protoFiles_iff sound readable entered' free, ?relisted, ?slash⟩
  case below =>
    intro file member
    obtain ⟨entry, found, rfl⟩ := List.mem_map.mp member
    obtain ⟨names, behind, named, path⟩ := names_of_mem_protoFiles sound entered' found
    rw [path, isAbsolute_along named, components_along whole named, same]
    exact ⟨(sound.tidy_absolute spelled).1, names, behind, named, rfl⟩
  case relisted =>
    intro other relisted
    refine discover_eq_ok_iff.mpr ⟨whole, (relisted.absolute _).trans spelled, ?_⟩
    rw [relisted.walk sound]
  case slash =>
    intro text longer
    have readable' : tree.Readable start := by
      cases open_ : root.endsInSeparator with
      | true => exact longer open_
      | false =>
        rw [Path.withoutTrailing_of_open open_, begun] at spelled
        cases spelled
        exact readable
    refine ⟨_, discover_eq_ok_iff.mpr ⟨start, ?_, rfl⟩, components_protoFiles sound same readable readable'⟩
    rw [Path.withoutTrailing_slash some_ text]
    exact begun

end Found

/-- Directories and files with a common beginning of their names, which stand in another order as texts than
as paths, and beside them what is called like a definition file but is none. -/
def branches : FileTree where
  nodes := [(["workspace"], .directory), (["p", "workspace"], .directory),
    (["x.proto", "p", "workspace"], .directory), (["b.proto", "x.proto", "p", "workspace"], .file [] 1 false),
    ([".proto", "p", "workspace"], .file [] 1 false), (["a.proto", "p", "workspace"], .file [] 1 false),
    (["a-b.proto", "p", "workspace"], .file [] 1 false), (["a", "p", "workspace"], .directory),
    (["z.proto", "a", "p", "workspace"], .file [] 1 false)]
  workingDirectory := ["workspace"]
  clock := 1

theorem branches_canonical :
    ∃ files, files = ["a/z.proto", "a-b.proto", "a.proto", "x.proto/b.proto"].map
        (fun file => Path.child ⟨"/workspace/p"⟩ (.ofText file)) ∧
      discover branches ⟨"./p/"⟩ = .ok files ∧ files.Pairwise Path.Before ∧
      discover { branches with nodes := branches.nodes.reverse } ⟨"./p/"⟩ = .ok files ∧
      (∀ file, file ∈ files ↔ ∃ names, file = along ⟨"/workspace/p"⟩ names ∧
        Holds branches ["p", "workspace"] names) ∧
      ∃ files', discover branches ⟨"./p//"⟩ = .ok files' ∧
        files'.map Path.components = files.map Path.components := by
  have sound : branches.Sound := by decide +kernel
  have entered : branches.entry true ⟨"./p/"⟩ = .ok (["p", "workspace"], .directory) := by decide +kernel
  have spelled : branches.absolute (Path.mk "./p/").withoutTrailing = .ok ⟨"/workspace/p"⟩ := by
    decide +kernel
  have free : branches.LinkFree [] := .of_nodes (by simp [branches]) _
  have readable : branches.Readable ⟨"/workspace/p"⟩ :=
    .of_linkFree free (by decide +kernel) (by decide +kernel)
  obtain ⟨start, files, begun, discovered, increasing, _, _, all, relisted, slash⟩ :=
    discover_canonical sound (by decide) entered spelled readable
  have listed : discover branches ⟨"./p/"⟩ = .ok (["a/z.proto", "a-b.proto", "a.proto",
      "x.proto/b.proto"].map (fun file => Path.child ⟨"/workspace/p"⟩ (.ofText file))) := by decide +kernel
  have started : branches.absolute ⟨"./p/"⟩ = .ok ⟨"/workspace/p/"⟩ := by decide +kernel
  cases begun.symm.trans started
  refine ⟨files, Except.ok.inj (discovered.symm.trans listed), discovered, increasing, ?_, ?_, ?_⟩
  · exact relisted _ (.of_perm (by decide) (List.reverse_perm _))
  · exact all (.of_nodes (by simp [branches]) _)
  · exact slash (by decide) fun _ => .of_linkFree free (by decide +kernel) (by decide +kernel)

/-- A root to which nothing is refused, with a definition file in its directory and no links, by a path whose
absolute form is too long for the directory to be read; and one that is no text, at which the file is found
without a separator at the end and not with one. -/
theorem winding_root_misses :
    (Watch.windingTree.Sound ∧ Watch.windingTree.Readable (Watch.winding 817) ∧
      Watch.windingTree.entry true (Watch.winding 817) = .ok (["p", "workspace"], .directory) ∧
      Watch.windingTree.LinkFree [] ∧ Holds Watch.windingTree ["p", "workspace"] [RawString.ofText "x.proto"] ∧
      discover Watch.windingTree (Watch.winding 817) = .ok []) ∧
    let root : Path := ⟨⟨[Path.slash, 0xff]⟩⟩
    Watch.illegibleTree.Sound ∧ Watch.illegibleTree.Readable root ∧
      discover Watch.illegibleTree root = .ok [root.child "x.proto"] ∧
      discover Watch.illegibleTree ⟨root.raw ++ "/"⟩ = .ok [] := by
  refine ⟨⟨by decide, Watch.readable_winding (by omega), Watch.entry_winding (by omega),
    .of_nodes (by simp [Watch.windingTree]) _, ⟨⟨[], "x", by decide, by decide⟩, [], 1, false, by decide⟩,
    Watch.discover_winding (Nat.le_refl _)⟩, by decide, ?_, by decide, by decide⟩
  exact .of_linkFree (.of_nodes (by simp [Watch.illegibleTree]) _) (by decide) (by decide)

end Discovery

end TrpcRouters
