import TrpcRouters.Proofs.FileTree.Folder
import TrpcRouters.Proofs.FileTree.Trail

/-! Files written one after the other, by any paths. Each path leads to the place of its file from then on,
links included, and where two of them lead to one place the later file is there. -/

namespace TrpcRouters
open FileTree

namespace FileTree
variable {before after : FileTree}

theorem Overlaid.of_write_entered (sound : before.Sound) {path : Path} {content : Bytes}
    (written : before.write path content = .ok after) :
    ∃ place node, after.entry true path = .ok (place, node) ∧
      Overlaid (.single place content) before after := by
  obtain ⟨place, found, overlaid⟩ := of_write sound written
  have there : after.file? place = some content := overlaid.held (by simp [Files.single])
  unfold place? at found
  split at found
  next target reached =>
    cases found
    have stands : Stands after target := by
      cases target with
      | found place node => trivial
      | vacant directory name => exact Option.isSome_iff_exists.mpr ⟨content, there⟩
    obtain ⟨node, entered⟩ := overlaid.resolve reached stands
    exact ⟨target.place, node, entered, overlaid⟩
  next => cases found

/-- The place that a path leads to. -/
def landing (tree : FileTree) (path : Path) : Place :=
  (tree.place? path).getD []

theorem landing_of_entry {tree : FileTree} {path : Path} {place : Place} {node : Node}
    (entered : tree.entry true path = .ok (place, node)) : tree.landing path = place := by
  rw [landing, place?, resolve_of_entry entered]
  rfl

/-- Files were written one after the other: each path leads to a place in the end, and at these places the
contents were laid over the tree in their order. -/
structure Written (entries : List (Path × String)) (before after : FileTree) : Prop where
  entered : ∀ entry ∈ entries, ∃ node, after.entry true entry.1 = .ok (after.landing entry.1, node)
  overlaid : Overlaid
    (.ofList (entries.map fun entry => (after.landing entry.1, Text.encode entry.2))) before after

theorem Written.read {entries : List (Path × String)} (written : Written entries before after)
    (apart : ∀ first ∈ entries, ∀ second ∈ entries,
      after.landing first.1 = after.landing second.1 → first = second)
    {entry : Path × String} (member : entry ∈ entries) :
    after.read entry.1 = .ok (Text.encode entry.2) := by
  have held : after.file? (after.landing entry.1) = some (Text.encode entry.2) := by
    refine written.overlaid.held
      (Files.ofList_eq_some ?_ (List.mem_map.mpr ⟨entry, member, rfl⟩))
    intro first inside second inside' same
    obtain ⟨one, listed, rfl⟩ := List.mem_map.mp inside
    obtain ⟨other, listed', rfl⟩ := List.mem_map.mp inside'
    rw [apart one listed other listed' same]
  obtain ⟨stamp, executable, there⟩ := file?_eq_some_iff.mp held
  obtain ⟨node, entered⟩ := written.entered entry member
  rw [held_of_entry entered] at there
  cases there
  rw [FileTree.read, entered]

theorem place_below {tree : FileTree} (free : tree.LinkFree []) {base path : Path} {names : List RawString}
    (spelled : path.components = base.components ++ names.map .name)
    (named : ∀ name ∈ names, Path.IsName name) {place : Place} {node : Node}
    (entered : tree.entry true path = .ok (place, node)) :
    place = names.reverse ++ endOf (tree.start base) (base.moves.map Component.raw) := by
  have moves : path.moves.map Component.raw = base.moves.map Component.raw ++ names := by
    rw [Path.moves_of_components spelled, List.map_append, List.map_map]
    exact congrArg _ (List.map_id _)
  have start := start_congr tree (Path.isAbsolute_of_components spelled)
  have plain : Plain names := fun name member => ⟨(named name member).2.1, (named name member).2.2.1⟩
  rw [← endOf_plain plain, ← endOf_append, ← moves, ← start]
  exact (arrives_of_resolve free (resolve_of_entry entered)).ends

end FileTree

theorem Job.forM_emit_written {before : World} (sound : before.tree.Sound)
    {entries : List (Path × String)}
    (nested : ∀ entry ∈ entries, ∃ above, entry.1.parent? = some above) :
    Job.Meets (fun world => world = before) (entries.forM fun entry => Job.emit entry.1 entry.2)
      (fun _ after => Written entries before.tree after.tree) (fun _ _ => True) := by
  induction entries generalizing before with
  | nil =>
    refine .pure ?_
    rintro world rfl
    exact ⟨by simp, .refl sound⟩
  | cons entry rest ih =>
    obtain ⟨above, up⟩ := nested entry (List.mem_cons_self ..)
    rw [List.forM]
    refine .bind _ (Job.emit_written sound up entry.2) fun _ => ⟨?_⟩
    rintro middle ⟨made, making, written⟩
    obtain ⟨place, node, reached, writing⟩ := Overlaid.of_write_entered making.sound written
    have early := making.trans writing
    rw [Files.atop_empty] at early
    have later := (ih early.sound fun other member =>
      nested other (List.mem_cons_of_mem _ member)).run middle rfl
    cases result : (rest.forM fun entry => Job.emit entry.1 entry.2) middle with
    | error failure after => trivial
    | ok value after =>
      rw [result] at later
      -- What is written later leaves the first path leading to its place.
      obtain ⟨other, again⟩ := later.overlaid.entry reached
      have lands := landing_of_entry again
      constructor
      case entered =>
        intro one member
        rcases List.mem_cons.mp member with rfl | behind
        · exact ⟨other, by rw [lands, again]⟩
        · exact later.entered one behind
      case overlaid =>
        rw [List.map_cons, Files.ofList_cons, lands]
        exact early.trans later.overlaid

end TrpcRouters
