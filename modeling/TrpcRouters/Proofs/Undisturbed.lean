import TrpcRouters.Proofs.Declaration.Pass
import TrpcRouters.Proofs.FileTree.Opening
import TrpcRouters.Proofs.FileTree.Overlay
import TrpcRouters.Proofs.FileTree.Trail
import TrpcRouters.Proofs.FileTree.Visit
import TrpcRouters.Proofs.OutputTree
import TrpcRouters.Proofs.Rediscovery
import TrpcRouters.Proofs.Watch.Snapshot

/-! Work on a tree without links that leaves the definition files alone: none is made, changed or taken
away. As long as the way to their root stays as well, a poll and a discovery find what they found before. -/

namespace TrpcRouters

namespace FileTree
variable {tree : FileTree}

theorem called_of_place? (free : tree.LinkFree []) {path : Path} {place : Place}
    (found : tree.place? path = some place) {name : RawString} (called : path.fileName? = some name) :
    ∃ above, place = name :: above := by
  have components := Path.fileName?_eq_some called
  have member : .name name ∈ path.components := components ▸ List.mem_append_right _ (by simp)
  have moves : path.moves =
      (path.components.dropLast.filter fun step => step ≠ .root ∧ step ≠ .current) ++ [.name name] := by
    rw [Path.moves_eq_filter, components, List.filter_append, List.dropLast_concat]
    rfl
  rw [place_of_place? free found, moves, List.map_append, endOf_append]
  have plain : Plain [name] := plain_of_named (by simpa using Path.isName_of_mem_components member)
  exact ⟨_, endOf_plain plain _⟩

theorem place?_of_entry {path : Path} {place : Place} {node : Node}
    (entered : tree.entry true path = .ok (place, node)) : tree.place? path = some place := by
  rw [place?, resolve_of_entry entered]
  rfl

theorem called_of_mem_walk (sound : tree.Sound) (free : tree.LinkFree []) {root : Path} {entry : Visited}
    (member : entry ∈ tree.walk false root) {name : RawString} (called : entry.path.fileName? = some name) :
    ∃ above, entry.place = name :: above := by
  obtain ⟨start, node, entered, _, names, named, spelled, placed, _⟩ := met_of_mem_walk sound member
  rw [placed rfl]
  obtain rfl | ⟨front, last, rfl⟩ := List.eq_nil_or_concat' names
  · rw [spelled] at called
    exact called_of_place? free (place?_of_entry entered) called
  · have same : last = name := by
      rw [spelled, Path.fileName?, components_along root named] at called
      simpa [← List.append_assoc] using called
    exact ⟨front.reverse ++ start, by rw [List.reverse_concat, List.cons_append, same]⟩

theorem walk_of_not_directory {root : Path} {place : Place} {node : Node}
    (entered : tree.entry true root = .ok (place, node)) (plain : node ≠ .directory) :
    tree.walk true root = [⟨root, place, node⟩] := by
  obtain ⟨fuel, deep⟩ : ∃ fuel, tree.depthBound = fuel + 1 :=
    Nat.exists_eq_add_one.mpr (Nat.mul_pos (Nat.succ_pos _) (Nat.succ_pos _))
  rw [walk_of_entry entered, deep]
  cases node with
  | directory => exact absurd rfl plain
  | file content stamp executable => simp only [visit]
  | link target => simp only [visit]

end FileTree

namespace Discovery
open FileTree

theorem isProto_iff {path : Path} :
    path.isProto = true ↔ ∃ name, path.fileName? = some name ∧ IsProtoName name := by
  rw [Path.isProto, Path.extension?, beq_iff_eq, Option.bind_eq_some_iff]
  rfl

theorem exists_of_isDeclaration {path : Path} (declares : Declaration.isDeclaration path = true) :
    ∃ name, path.fileName? = some name ∧ Declaration.IsDeclarationName name := by
  unfold Declaration.isDeclaration at declares
  split at declares
  next name called => exact ⟨name, called, List.isSuffixOf_iff_suffix.mp declares⟩
  next => cases declares

/-- Where something is discovered there is a directory or a definition file. -/
theorem entry_of_discover {tree : FileTree} {root : Path} {files : List Path}
    (found : discover tree root = .ok files) (some_ : files.isEmpty = false) :
    ∃ whole place node, tree.absolute root.withoutTrailing = .ok whole ∧
      tree.entry true whole = .ok (place, node) ∧ (node = .directory ∨ whole.isProto = true) := by
  obtain ⟨whole, spelled, rfl⟩ := discover_eq_ok_iff.mp found
  cases entered : tree.entry true whole with
  | error error => simp [walk, entered, protoFiles, FileTree.files] at some_
  | ok reached =>
    obtain ⟨place, node⟩ := reached
    refine ⟨whole, place, node, spelled, entered, or_iff_not_imp_left.mpr fun plain => ?_⟩
    rw [walk_of_not_directory entered plain] at some_
    cases proto : whole.isProto with
    | true => rfl
    | false => simp [protoFiles, FileTree.files, proto] at some_

/-- The second tree has the definition files of the first, the directories among some places, and the same
directories that cannot be listed. -/
structure Undisturbed (kept : List Place) (before after : FileTree) : Prop where
  sound : after.Sound
  free : after.LinkFree []
  home : after.workingDirectory = before.workingDirectory
  closed : after.closed = before.closed
  ways {place : Place} : place ∈ kept → before.node? place = some .directory →
    after.node? place = some .directory
  files {name : RawString} {above : Place} {content : Bytes} {stamp : Nat} {executable : Bool} :
    IsProtoName name → (after.node? (name :: above) = some (.file content stamp executable) ↔
      before.node? (name :: above) = some (.file content stamp executable))

namespace Undisturbed
variable {kept : List Place} {before middle after : FileTree}

theorem refl (kept : List Place) (sound : before.Sound) (free : before.LinkFree []) :
    Undisturbed kept before before :=
  ⟨sound, free, rfl, rfl, fun _ held => held, fun _ => Iff.rfl⟩

theorem trans (early : Undisturbed kept before middle) (late : Undisturbed kept middle after) :
    Undisturbed kept before after where
  sound := late.sound
  free := late.free
  home := late.home.trans early.home
  closed := late.closed.trans early.closed
  ways member held := late.ways member (early.ways member held)
  files proto := (late.files proto).trans (early.files proto)

/-- Files are written over others and into new directories, under other names. -/
theorem of_overlaid (free : before.LinkFree []) {files : Files} (overlaid : Overlaid files before after)
    (other : ∀ name above, IsProtoName name → files (name :: above) = none) :
    Undisturbed kept before after where
  sound := overlaid.sound
  free := free.grows overlaid.grows
  home := overlaid.grows.home
  closed := overlaid.grows.closed
  ways _ held := overlaid.grows.way held (by simp [Node.IsWay])
  files {name above _ _ _} proto := by
    rcases overlaid.kept (other name above proto) with same | ⟨vacant, made⟩
    · rw [same]
    · simp [vacant, made]

theorem of_makeDirectory (sound : before.Sound) (free : before.LinkFree []) {path : Path}
    (result : before.makeDirectory path = .ok after) : Undisturbed kept before after :=
  of_overlaid free (.of_makeDirectory sound result) fun _ _ _ => rfl

theorem of_makeDirectories (sound : before.Sound) (free : before.LinkFree []) {path : Path}
    {error : Option SystemError} (result : before.makeDirectories path = (after, error)) :
    Undisturbed kept before after :=
  of_overlaid free (.of_makeDirectories sound result) fun _ _ _ => rfl

theorem of_write (sound : before.Sound) (free : before.LinkFree []) {path : Path} {name : RawString}
    (called : path.fileName? = some name) (other : ¬IsProtoName name) {content : Bytes}
    (written : before.write path content = .ok after) : Undisturbed kept before after := by
  obtain ⟨place, found, overlaid⟩ := Overlaid.of_write sound written
  obtain ⟨above, rfl⟩ := called_of_place? free found called
  refine of_overlaid free overlaid fun name' above' proto => if_neg fun same => ?_
  obtain ⟨rfl, _⟩ := List.cons.inj same
  exact other proto

theorem of_pass (sound : before.Sound) (free : before.LinkFree []) (root : Path) :
    Undisturbed kept before (Declaration.pass root before).1 := by
  have adapts := Declaration.adapts_pass sound root
  refine ⟨adapts.sound, free.grows adapts.grows, adapts.grows.home, adapts.grows.closed,
    fun _ held => adapts.grows.way held (by simp [Node.IsWay]), fun {name above _ _ _} proto => ?_⟩
  rcases adapts.place (name :: above) with same | ⟨entry, member, declares, there, _⟩
  · rw [same]
  · obtain ⟨last, called, ending⟩ := exists_of_isDeclaration declares
    obtain ⟨above', same⟩ := called_of_mem_walk sound free member called
    obtain ⟨rfl, _⟩ := List.cons.inj (there.symm.trans same)
    exact absurd proto (not_isProtoName_of_suffix (c := 's') ending (by decide) (by decide)
      (by decide))

theorem uninstall (undisturbed : Undisturbed kept before after) (sound : before.Sound)
    (free : before.LinkFree []) {scratch : Path} {opened : FileTree}
    (opens : before.makeDirectory scratch = .ok opened) :
    Undisturbed kept before (after.uninstall scratch) := by
  obtain ⟨_, place, inside, vacant, _, leads, _⟩ := makeDirectory_opens sound opens
  have opening : Undisturbed kept before opened := of_makeDirectory sound free opens
  unfold FileTree.uninstall
  split
  next there node entered =>
    obtain rfl : there = place := by
      have first := (arrives_of_follow opening.free leads).ends.trans (thins_names scratch).endOf_eq
      have second := (arrives_of_resolve undisturbed.free (resolve_of_entry entered)).ends
      have start : after.start scratch = opened.start scratch := by
        rw [FileTree.start, FileTree.start, undisturbed.home, opening.home]
      rw [start] at second
      exact second.trans first.symm
    have apart : ∀ other node, before.node? other = some node → ¬there <:+ other := by
      rintro _ node held ⟨front, rfl⟩
      rw [sound.none_below vacant] at held
      cases held
    refine ⟨undisturbed.sound.remove inside, LinkFree.remove undisturbed.free inside, undisturbed.home,
      undisturbed.closed, fun {place} member held => ?_, fun {name above _ _ _} proto => ?_⟩
    · rw [node?_remove _ inside, if_neg (apart _ _ held)]
      exact undisturbed.ways member held
    · rw [node?_remove _ inside]
      split
      next below =>
        exact iff_of_false (by simp) fun held => apart _ _ held below
      next => exact undisturbed.files proto
  next => exact undisturbed

theorem symm (undisturbed : Undisturbed kept before after) (sound : before.Sound)
    (free : before.LinkFree []) : Undisturbed [] after before where
  sound := sound
  free := free
  home := undisturbed.home.symm
  closed := undisturbed.closed.symm
  ways member := absurd member (List.not_mem_nil)
  files proto := (undisturbed.files proto).symm

section Walks
variable {root : Path} {place : Place} {entry : Visited}

theorem mem_protoFiles (undisturbed : Undisturbed kept before after) (sound : before.Sound)
    (free : before.LinkFree []) (entered : before.entry true root = .ok (place, .directory))
    (entered' : after.entry true root = .ok (place, .directory))
    (member : entry ∈ protoFiles (before.walk true root)) : entry ∈ protoFiles (after.walk true root) := by
  rw [protoFiles_eq_filter, List.mem_filter, walk_of_linkFree free] at member
  rw [protoFiles_eq_filter, List.mem_filter, walk_of_linkFree undisturbed.free]
  obtain ⟨met, proto⟩ := member
  refine ⟨?_, proto⟩
  obtain ⟨⟨content, stamp, executable, isFile⟩, ends⟩ := isProtoFile_iff.mp proto
  obtain ⟨name, called, ends⟩ := isProto_iff.mp ends
  obtain ⟨above, there⟩ := called_of_mem_walk sound free met called
  obtain ⟨names, spelled, placed, held, listed⟩ := (mem_walk_iff sound entered).mp met
  have held' : after.node? entry.place = some entry.node := by
    rw [isFile, there] at held ⊢
    exact (undisturbed.files ends).mpr held
  refine (mem_walk_iff undisturbed.sound entered').mpr ⟨names, spelled, placed, held', ?_⟩
  rw [placed] at held held'
  rwa [listed_iff undisturbed.sound entered' held', undisturbed.closed, ← listed_iff sound entered held]

theorem protoFiles_eq (undisturbed : Undisturbed kept before after) (sound : before.Sound)
    (free : before.LinkFree []) (same : after.entry true root = before.entry true root) :
    protoFiles (after.walk true root) = protoFiles (before.walk true root) := by
  cases entered : before.entry true root with
  | error error => rw [walk, walk, same, entered]
  | ok reached =>
    obtain ⟨place, node⟩ := reached
    have entered' := same.trans entered
    by_cases directory : node = .directory
    · subst directory
      have order : Std.Asymm fun first second : Visited => first.path.Before second.path :=
        ⟨fun _ _ before before' => Std.Asymm.asymm _ _ before before'⟩
      exact List.Pairwise.eq_of_mem_iff (increasing_protoFiles undisturbed.sound root)
        (increasing_protoFiles sound root) fun entry =>
          ⟨mem_protoFiles (undisturbed.symm sound free) undisturbed.sound undisturbed.free entered' entered,
            mem_protoFiles undisturbed sound free entered entered'⟩
    · rw [walk_of_not_directory entered directory, walk_of_not_directory entered' directory]

theorem entry_eq_of_mem (undisturbed : Undisturbed kept before after) (sound : before.Sound)
    (free : before.LinkFree []) (same : after.entry true root = before.entry true root)
    (member : entry ∈ protoFiles (before.walk true root)) :
    after.entry true entry.path = before.entry true entry.path := by
  have member' := member
  rw [← undisturbed.protoFiles_eq sound free same] at member'
  rw [protoFiles_eq_filter, List.mem_filter, walk_of_linkFree undisturbed.free] at member'
  rw [protoFiles_eq_filter, List.mem_filter] at member
  obtain ⟨met, proto⟩ := member
  obtain ⟨⟨content, stamp, executable, isFile⟩, _⟩ := isProtoFile_iff.mp proto
  obtain ⟨start, node, entered, -⟩ := met_of_mem_walk sound met
  have entered' := same.trans entered
  by_cases directory : node = .directory
  case neg =>
    rw [walk_of_not_directory entered directory, List.mem_singleton] at met
    rw [met, entered, entered']
  subst directory
  rw [walk_of_linkFree free] at met
  obtain ⟨names, spelled, placed, held, listed⟩ := (mem_walk_iff sound entered).mp met
  obtain ⟨names', _, placed', held', listed'⟩ := (mem_walk_iff undisturbed.sound entered').mp member'.1
  obtain rfl : names' = names := List.reverse_injective (List.append_cancel_right (placed'.symm.trans placed))
  rw [placed] at held held'
  obtain rfl | ⟨front, last, rfl⟩ := List.eq_nil_or_concat' names'
  · rw [spelled]
    exact same
  have named : Path.IsName last := sound.names held last (by simp)
  rw [List.reverse_concat, List.cons_append] at held held'
  have leads := entered_of_listed sound entered (sound.rooted held) listed
  have leads' := entered_of_listed undisturbed.sound entered' (undisturbed.sound.rooted held') listed'
  have shape : entry.path = (along root front).child last := by rw [spelled, along, List.foldl_concat]; rfl
  rw [shape]
  refine entry_child_congr (isEmpty_of_entry leads) named (.of_entry leads') (.of_entry leads) ?_
    (held'.trans held.symm)
  simp [held', isFile]

end Walks

/-- What is found from a root is found again from all ways to spell it, if the places that it leads past
are kept. -/
theorem entry_eq (undisturbed : Undisturbed kept before after) (sound : before.Sound)
    (free : before.LinkFree []) {root whole : Path} {place : Place} {node : Node}
    (start : before.start whole = []) (entered : before.entry true whole = .ok (place, node))
    (found : node = .directory ∨ whole.isProto = true)
    (within : ∀ there ∈ trail [] (whole.moves.map Component.raw), there ∈ kept)
    (moves : whole.moves = (before.start root).reverse.map .name ++ root.moves) :
    after.entry true root = before.entry true root := by
  have arrives := arrives_of_resolve free (resolve_of_entry entered)
  rw [start] at arrives
  have held := held_of_entry entered
  refine entry_congr_trail free undisturbed.home fun there member => ?_
  have named : ∀ name ∈ before.start root, Path.IsName name := by
    unfold FileTree.start
    split
    · simp
    · exact sound.home
  have passed : there ∈ trail [] (whole.moves.map Component.raw) := by
    have plain : Plain (before.start root).reverse :=
      plain_of_named fun name inside => named name (List.mem_reverse.mp inside)
    have begins : endOf [] (before.start root).reverse = before.start root := by
      rw [endOf_plain plain, List.reverse_reverse, List.append_nil]
    have texts : (whole.moves.map Component.raw) =
        (before.start root).reverse ++ root.moves.map Component.raw := by
      rw [moves, List.map_append, List.map_map]
      exact congrArg (· ++ _) (List.map_id _)
    rw [texts]
    exact mem_trail_append (begins.symm ▸ member)
  rcases arrives.passed there passed with directory | rfl
  · rw [directory, undisturbed.ways (within there passed) directory]
  · cases node with
    | directory => rw [held, undisturbed.ways (within there passed) held]
    | link target => exact absurd (by simpa using held) (free there target)
    | file content stamp executable =>
      obtain ⟨name, called, proto⟩ := isProto_iff.mp (found.resolve_left (by simp))
      obtain ⟨above, rfl⟩ := called_of_place? free (place?_of_entry entered) called
      rw [held, (undisturbed.files proto).mpr held]

/-- A poll and a discovery find what they found before, if a discovery from the absolute root found
something and the places that this root leads past are kept. -/
theorem sees {root whole : Path} (undisturbed : Undisturbed (trail [] whole.steps) before after)
    (sound : before.Sound) (free : before.LinkFree []) (strippable : root.Strippable)
    (strippable' : whole.Strippable) (spelled : before.absolute root = .ok whole)
    {files : List Path} (found : discover before whole = .ok files) (some_ : files.isEmpty = false) :
    Watch.capture after root = Watch.capture before root ∧ discover after root = discover before root := by
  obtain ⟨further, place, node, spelled', entered, shape⟩ := entry_of_discover found some_
  have tidy := sound.tidy_absolute spelled
  have moves : further.moves = whole.moves := by
    rw [moves_absolute sound spelled', start_congr before (Path.isAbsolute_withoutTrailing strippable'),
      Path.moves_withoutTrailing strippable', start_of_tidy before tidy, List.reverse_nil, List.map_nil,
      List.nil_append]
  have within : ∀ there ∈ trail [] (further.moves.map Component.raw), there ∈ trail [] whole.steps := by
    intro there member
    rw [moves] at member
    exact (thins_steps whole).mem_trail_iff.mpr member
  have steps := moves_absolute sound spelled
  have same : ∀ other : Path, whole.moves = (before.start other).reverse.map .name ++ other.moves →
      after.entry true other = before.entry true other := fun other same =>
    undisturbed.entry_eq sound free (start_of_tidy before (sound.tidy_absolute spelled')) entered shape within
      (moves.trans same)
  refine ⟨?_, ?_⟩
  · have rooted := same root steps
    rw [Watch.capture, Watch.capture, undisturbed.protoFiles_eq sound free rooted]
    refine List.filterMap_congr fun entry member => ?_
    rw [Watch.sighting?, Watch.sighting?, undisturbed.entry_eq_of_mem sound free rooted member]
  have absolute : after.absolute root.withoutTrailing = before.absolute root.withoutTrailing := by
    rw [FileTree.absolute, FileTree.absolute, undisturbed.home]
  unfold discover
  rw [absolute]
  cases trimmed : before.absolute root.withoutTrailing with
  | error error => simp only [bind, Except.bind]
  | ok other =>
    have moves' : whole.moves = (before.start other).reverse.map .name ++ other.moves := by
      rw [start_of_tidy before (sound.tidy_absolute trimmed), moves_absolute sound trimmed,
        start_congr before (Path.isAbsolute_withoutTrailing strippable), Path.moves_withoutTrailing strippable, steps,
        List.reverse_nil, List.map_nil, List.nil_append]
    simp only [bind, Except.bind, undisturbed.protoFiles_eq sound free (same other moves')]

end Undisturbed

end Discovery

end TrpcRouters
