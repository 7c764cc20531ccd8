import Mathlib.Data.List.Nodup
import TrpcRouters.Proofs.FileTree.Overlay
import TrpcRouters.Proofs.Job

/-! Files written one after the other into one directory, whatever its path is and whether it was there
before. Under names of their own they stay apart, as long as no link takes one of them elsewhere. -/

namespace TrpcRouters
open FileTree

namespace FileTree
variable {tree after : FileTree} {directory : Path} {name : RawString} {folder : Place}

abbrev Bare (tree : FileTree) (folder : Place) (name : RawString) : Prop :=
  ∀ target, tree.node? (name :: folder) ≠ some (.link target)

theorem Overlaid.of_write_child (sound : tree.Sound) (some_ : directory.isEmpty = false)
    (named : Path.IsName name) {content : Bytes}
    (written : tree.write (directory.child name) content = .ok after) :
    ∃ folder place, tree.Leads (tree.start directory) directory.names folder ∧
      Overlaid (.single place content) tree after ∧
      (tree.Bare folder name → place = name :: folder ∧ Fits (directory.child name) ∧ Short [name]) := by
  obtain ⟨place, found, overlaid⟩ := of_write sound written
  have fits := fits_of_place? found
  have reached : ∃ target, tree.resolve true (directory.child name) = .ok target := by
    unfold place? at found
    cases result : tree.resolve true (directory.child name) with
    | error error => simp [result] at found
    | ok target => exact ⟨target, rfl⟩
  obtain ⟨target, reached⟩ := reached
  have followed := follow_of_resolveSteps reached
  rw [steps_child some_ named, start_child tree some_ named] at followed
  have proper := proper_names directory
  obtain ⟨folder, leads⟩ := exists_leads proper (List.cons_ne_nil _ _) followed
  refine ⟨folder, place, leads, overlaid, fun bare => ⟨?_, fits, ?_⟩⟩
  · exact place?_child some_ named leads bare found
  · rw [leads.inside proper named bare] at followed
    split at followed
    next => cases followed
    next short => simpa [Short] using Nat.le_of_not_lt short

theorem read_in_folder (some_ : directory.isEmpty = false) (named : Path.IsName name)
    (fits : Fits (directory.child name)) (short : Short [name])
    (leads : tree.Leads (tree.start directory) directory.names folder) {content : Bytes}
    (held : tree.file? (name :: folder) = some content) :
    tree.read (directory.child name) = .ok content := by
  obtain ⟨stamp, executable, node⟩ := file?_eq_some_iff.mp held
  have bare : tree.Bare folder name := by
    intro target link
    rw [node] at link
    cases link
  have whole : (directory.child name).isEmpty = false := Path.isEmpty_child named
  have fine : ¬nameLimit < name.bytes.length := Nat.not_lt.mpr (short name (List.mem_cons_self ..))
  unfold read entry resolve resolveSteps
  rw [steps_child some_ named, start_child tree some_ named,
    leads.inside (proper_names directory) named bare]
  simp only [fits.1, whole, Nat.not_le.mpr fits.2, node, fine, Bool.false_eq_true, ↓reduceIte]

/-- The second tree is the first with the given files written into a folder. -/
structure Filed (directory : Path) (folder : Place) (entries : List (String × String))
    (before after : FileTree) : Prop where
  overlaid : Overlaid (.ofList (entries.map fun entry => (entry.1 :: folder, Text.encode entry.2)))
    before after
  fits : ∀ entry ∈ entries, Fits (directory.child entry.1) ∧ Short [entry.1]

theorem Filed.read {entries : List (String × String)} {before : FileTree}
    (filed : Filed directory folder entries before after) (some_ : directory.isEmpty = false)
    (named : ∀ entry ∈ entries, Path.IsName entry.1) (distinct : (entries.map Prod.fst).Nodup)
    (leads : after.Leads (after.start directory) directory.names folder) {entry : String × String}
    (member : entry ∈ entries) :
    after.read (directory.child entry.1) = .ok (Text.encode entry.2) := by
  obtain ⟨fits, short⟩ := filed.fits entry member
  refine read_in_folder some_ (named entry member) fits short leads (filed.overlaid.held ?_)
  apply Files.ofList_eq_some _ (List.mem_map.mpr ⟨entry, member, rfl⟩)
  intro first inside second inside' same
  obtain ⟨one, written, rfl⟩ := List.mem_map.mp inside
  obtain ⟨other, written', rfl⟩ := List.mem_map.mp inside'
  rw [List.inj_on_of_nodup_map distinct written written' (RawString.ofText_inj.mp (List.cons.inj same).1)]

structure Fills (directory : Path) (entries : List (String × String)) (before after : FileTree) :
    Prop where
  grows : Grows before after
  idle : entries = [] → after = before
  leads : entries ≠ [] → ∃ folder, after.Leads (after.start directory) directory.names folder
  filed {folder : Place} : after.Leads (after.start directory) directory.names folder →
    (∀ entry ∈ entries, after.Bare folder entry.1) → Filed directory folder entries before after

end FileTree

namespace Job
variable {directory : Path}

theorem emit_written {before : World} (sound : before.tree.Sound) {path above : Path}
    (up : path.parent? = some above) (content : String) :
    Job.Meets (fun world => world = before) (Job.emit path content)
      (fun _ after => ∃ middle, Overlaid .empty before.tree middle ∧
        middle.write path (Text.encode content) = .ok after.tree)
      (fun _ _ => True) := by
  rw [Job.emit_eq, up]
  refine .bind (fun _ middle => Overlaid .empty before.tree middle.tree) ⟨?_⟩ fun _ => ?_
  · rintro world rfl
    rw [Job.makeDirectories_eq]
    rcases made : world.tree.makeDirectories above with ⟨tree, _ | error⟩
    · exact .of_makeDirectories sound made
    · trivial
  · refine .bind (fun value middle => Overlaid .empty before.tree middle.tree ∧ value = middle)
      ⟨fun _ overlaid => ⟨overlaid, rfl⟩⟩ fun middle => ⟨?_⟩
    rintro _ ⟨overlaid, rfl⟩
    cases written : middle.tree.write path (Text.encode content) with
    | error error => trivial
    | ok tree => exact ⟨middle.tree, overlaid, written⟩

theorem emit_child {before : World} (sound : before.tree.Sound) (some_ : directory.isEmpty = false)
    {name : RawString} (named : Path.IsName name) (content : String) :
    Job.Meets (fun world => world = before) (Job.emit (directory.child name) content)
      (fun _ after => ∃ folder place,
        after.tree.Leads (after.tree.start directory) directory.names folder ∧
        Overlaid (.single place (Text.encode content)) before.tree after.tree ∧
        (after.tree.Bare folder name →
          place = name :: folder ∧ Fits (directory.child name) ∧ Short [name]))
      (fun _ _ => True) := by
  obtain ⟨above, up, _⟩ := Path.parent?_child directory named
  refine .weaken (emit_written sound up content) ?_
  rintro _ after ⟨middle, overlaid, written⟩
  obtain ⟨folder, place, leads, late, there⟩ := Overlaid.of_write_child overlaid.sound some_ named written
  have whole := overlaid.trans late
  rw [Files.atop_empty] at whole
  refine ⟨folder, place, ?_, whole, fun bare => there fun target link => ?_⟩
  · rw [late.grows.alike.start]
    exact leads.grows late.grows
  · exact bare target (late.grows.alike.link.mpr link)

theorem forM_emit_child {before : World} (sound : before.tree.Sound) (some_ : directory.isEmpty = false)
    (entries : List (String × String)) (named : ∀ entry ∈ entries, Path.IsName entry.1) :
    Job.Meets (fun world => world = before)
      (entries.forM fun entry => Job.emit (directory.child entry.1) entry.2)
      (fun _ after => Fills directory entries before.tree after.tree) (fun _ _ => True) := by
  induction entries generalizing before with
  | nil =>
    refine .pure ?_
    rintro world rfl
    exact ⟨Grows.refl _, fun _ => rfl, fun some_ => absurd rfl some_, fun _ _ => ⟨.refl sound, by simp⟩⟩
  | cons entry rest ih =>
    rw [List.forM]
    refine .bind _ (emit_child sound some_ (named entry (List.mem_cons_self ..)) entry.2) fun _ => ⟨?_⟩
    rintro middle ⟨folder, place, leads, early, there⟩
    have later := (ih early.sound fun other member => named other (List.mem_cons_of_mem _ member)).run
      middle rfl
    cases result : (rest.forM fun entry => Job.emit (directory.child entry.1) entry.2) middle with
    | error failure after => trivial
    | ok value after =>
      rw [result] at later
      -- Later files change no way, so the folder of the first file is that of all.
      have reaches : after.tree.Leads (after.tree.start directory) directory.names folder := by
        rw [later.grows.alike.start]
        exact leads.grows later.grows
      constructor
      case grows => exact early.grows.trans later.grows
      case idle => exact fun none_ => absurd none_ (List.cons_ne_nil _ _)
      case leads => exact fun _ => ⟨folder, reaches⟩
      case filed =>
        intro other leads' bare
        obtain rfl : folder = other := (Alike.refl after.tree).leads reaches leads'
        have late := later.filed reaches fun other member => bare other (List.mem_cons_of_mem _ member)
        have bare' : middle.tree.Bare folder entry.1 := fun target link =>
          bare entry (List.mem_cons_self ..) target (later.grows.alike.link.mpr link)
        obtain ⟨rfl, fits⟩ := there bare'
        constructor
        case overlaid =>
          rw [List.map_cons, Files.ofList_cons]
          exact early.trans late.overlaid
        case fits =>
          intro other member
          rcases List.mem_cons.mp member with rfl | behind
          · exact fits
          · exact late.fits other behind

end Job

end TrpcRouters
