import TrpcRouters.Proofs.FileTree.Overlay
import TrpcRouters.Proofs.FileTree.Visit
import TrpcRouters.Proofs.Watch.Snapshot

/-! A watched tree that is edited between polls. Every poll answers whether its snapshot is another than that
of the poll before it, so a watcher that stays quiet has seen nothing new since its last report. -/

namespace TrpcRouters.Watch
open FileTree Discovery

/-- What happens while a tree is watched. A run that a poll started edits the tree too. -/
inductive Moment where
  | edit (after : FileTree)
  | poll

/-- A poll that has taken place: the tree that it found and its answer. -/
structure Look where
  tree : FileTree
  reported : Bool
deriving DecidableEq

def Look.snapshot (root : Path) (look : Look) : Snapshot :=
  capture look.tree root

/-- One watcher with the tree and the polls so far, the last of them first. -/
structure Session where
  watcher : Watcher
  tree : FileTree
  looks : List Look

namespace Session

def start (root : Path) (tree : FileTree) : Session :=
  ⟨.ofRoot root, tree, []⟩

def step (session : Session) : Moment → Session
  | .edit after => { session with tree := after }
  | .poll =>
    let (reported, watcher) := session.watcher.poll session.tree
    { session with watcher, looks := ⟨session.tree, reported⟩ :: session.looks }

def run (session : Session) (moments : List Moment) : Session :=
  moments.foldl step session

theorem run_append (session : Session) (first second : List Moment) :
    session.run (first ++ second) = (session.run first).run second :=
  List.foldl_append

theorem run_edits (session : Session) (edits : List FileTree) :
    ∃ tree, session.run (edits.map .edit) = { session with tree } := by
  induction edits generalizing session with
  | nil => exact ⟨session.tree, rfl⟩
  | cons after rest ih => exact ih (session.step (.edit after))

end Session

/-- Each poll answered whether its snapshot is another than that of the poll before. -/
def Truthful (root : Path) : List Look → Prop
  | [] => True
  | look :: before =>
    (look.reported = true ↔ before.head?.map (Look.snapshot root) ≠ some (look.snapshot root)) ∧
      Truthful root before

structure Session.Consistent (root : Path) (session : Session) : Prop where
  root_eq : session.watcher.root = root
  last : session.watcher.last = session.looks.head?.map (Look.snapshot root)
  truthful : Truthful root session.looks
  sound : session.tree.Sound
  sounds : ∀ look ∈ session.looks, look.tree.Sound

namespace Session.Consistent
variable {root : Path} {session : Session}

theorem start (root : Path) {tree : FileTree} (sound : tree.Sound) :
    (Session.start root tree).Consistent root :=
  ⟨rfl, rfl, trivial, sound, by simp [Session.start]⟩

theorem step (consistent : session.Consistent root) {moment : Moment}
    (sound : ∀ after, moment = .edit after → after.Sound) : (session.step moment).Consistent root := by
  cases moment with
  | edit after =>
    exact ⟨consistent.root_eq, consistent.last, consistent.truthful, sound after rfl, consistent.sounds⟩
  | poll =>
    have snapshot : capture session.tree session.watcher.root = capture session.tree root := by
      rw [consistent.root_eq]
    refine ⟨consistent.root_eq, congrArg some snapshot, ⟨?_, consistent.truthful⟩, consistent.sound, ?_⟩
    · simp only [bne_iff_ne, consistent.last, snapshot, Look.snapshot]
    · exact List.forall_mem_cons.mpr ⟨consistent.sound, consistent.sounds⟩

theorem run (consistent : session.Consistent root) {moments : List Moment}
    (sounds : ∀ after, .edit after ∈ moments → after.Sound) : (session.run moments).Consistent root := by
  induction moments generalizing session with
  | nil => exact consistent
  | cons moment rest ih =>
    refine ih (consistent.step fun after same => sounds after ?_) fun after member => sounds after ?_
    · rw [same]
      exact List.mem_cons_self ..
    · exact List.mem_cons_of_mem _ member

end Session.Consistent

namespace Truthful
variable {root : Path} {look : Look} {before : List Look}

theorem suffix {later : List Look} (truthful : Truthful root (later ++ before)) : Truthful root before := by
  induction later with
  | nil => exact truthful
  | cons _ rest ih => exact ih truthful.2

theorem reported_iff (truthful : Truthful root (look :: before))
    (sounds : ∀ other ∈ look :: before, other.tree.Sound) :
    look.reported = true ↔ before = [] ∨ ∃ previous earlier, before = previous :: earlier ∧
      ∃ path, (look.snapshot root).state? path ≠ (previous.snapshot root).state? path := by
  rw [truthful.1]
  cases before with
  | nil => simp
  | cons previous earlier =>
    obtain ⟨sound, rest⟩ := List.forall_mem_cons.mp sounds
    have same : look.snapshot root = previous.snapshot root ↔
        ∀ path, (look.snapshot root).state? path = (previous.snapshot root).state? path :=
      capture_eq_iff sound (rest previous (List.mem_cons_self ..))
    rw [List.head?_cons, Option.map_some, Ne, Option.some.injEq, eq_comm, same, not_forall]
    constructor
    · exact fun differs => Or.inr ⟨previous, earlier, rfl, differs⟩
    · rintro (none_ | ⟨_, _, whole, differs⟩)
      · cases none_
      · cases whole
        exact differs

theorem quiet (truthful : Truthful root (look :: before)) (silent : look.reported = false) :
    ∃ quiet reporting earlier, before = quiet ++ reporting :: earlier ∧
      (∀ other ∈ quiet, other.reported = false) ∧ reporting.reported = true ∧
      look.snapshot root = reporting.snapshot root := by
  induction before generalizing look with
  | nil =>
    have answers := truthful.1
    simp [silent] at answers
  | cons previous rest ih =>
    obtain ⟨answers, earlier⟩ := truthful
    have same : previous.snapshot root = look.snapshot root := by
      simpa [silent] using answers
    cases reports : previous.reported with
    | true => exact ⟨[], previous, rest, rfl, by simp, reports, same.symm⟩
    | false =>
      obtain ⟨quiet, reporting, further, rfl, all, reported, found⟩ := ih earlier reports
      exact ⟨previous :: quiet, reporting, further, rfl, List.forall_mem_cons.mpr ⟨reports, all⟩, reported,
        same.symm.trans found⟩

end Truthful

/-- Whatever is edited between the polls of a watcher: a poll has seen of every definition file when it was
written and how long it is, and it reports if it is the first one or some of this is different from the poll
before, so a quiet poll finds what the last report was about; any number of edits in a row makes one report,
and another poll behind it is quiet. The files that a poll sees are those that a run discovers, in the order
of their paths, if the system refuses nothing to the root and to its absolute form, and a separator at the end
of the root is stripped without loss. -/
theorem watch_loses_no_edit {root : Path} {tree : FileTree} (sound : tree.Sound) {moments : List Moment}
    (sounds : ∀ after, .edit after ∈ moments → after.Sound) :
    (∀ later look before, ((Session.start root tree).run moments).looks = later ++ look :: before →
      (∀ path state, (look.snapshot root).state? path = some state ↔ Shows look.tree root path state) ∧
      (look.reported = true ↔ before = [] ∨ ∃ previous earlier, before = previous :: earlier ∧
        ∃ path, (look.snapshot root).state? path ≠ (previous.snapshot root).state? path) ∧
      (look.reported = false → ∃ quiet reporting earlier, before = quiet ++ reporting :: earlier ∧
        (∀ other ∈ quiet, other.reported = false) ∧ reporting.reported = true ∧
        look.snapshot root = reporting.snapshot root)) ∧
    (∀ (edits : List FileTree) (last : FileTree), ∃ reported,
      ((Session.start root tree).run (moments ++ edits.map .edit ++ [.edit last, .poll, .poll])).looks =
        ⟨last, false⟩ :: ⟨last, reported⟩ :: ((Session.start root tree).run moments).looks) ∧
    (∀ whole, root.Strippable → tree.Readable root → tree.absolute root.withoutTrailing = .ok whole →
      tree.Readable whole →
      ((capture tree root).map Sighting.path).Pairwise Path.Before ∧
      ∃ files, discover tree root = .ok files ∧
        List.Forall₂ (fun sighting file => ∃ key, tree.absolute sighting.path = .ok key ∧
          key.components = file.components) (capture tree root) files) := by
  have consistent := (Session.Consistent.start root sound).run sounds
  refine ⟨fun later look before whole => ?_, fun edits last => ?_,
    fun whole strippable readable spelled readable' => ?_⟩
  · have truthful := (whole ▸ consistent.truthful).suffix
    have members : ∀ other ∈ look :: before, other.tree.Sound := fun other member =>
      consistent.sounds other (whole ▸ List.mem_append_right _ member)
    exact ⟨fun path state => state?_capture_iff (members look (List.mem_cons_self ..)),
      truthful.reported_iff members, truthful.quiet⟩
  · obtain ⟨middle, settled⟩ := ((Session.start root tree).run moments).run_edits edits
    rw [Session.run_append, Session.run_append, settled]
    refine ⟨_, congrArg₂ List.cons ?_ rfl⟩
    exact congrArg (Look.mk last) (bne_self_eq_false _)
  · exact ⟨increasing_capture sound root, capture_discover sound strippable readable spelled readable'⟩

def shelf (content : Bytes) : FileTree where
  nodes := [(["workspace"], .directory), (["p", "workspace"], .directory),
    (["q", "p", "workspace"], .directory), (["b.proto", "p", "workspace"], .file content 1 false),
    (["a.txt", "p", "workspace"], .file [] 1 false), (["a.proto", "q", "p", "workspace"], .file [] 2 false)]
  workingDirectory := ["workspace"]
  clock := 2

/-- Two edits between polls make one report, which is about another state of a file. -/
theorem shelf_watched :
    ((Session.start ⟨"./p/"⟩ (shelf [])).run
      [.poll, .edit (shelf [0, 1]), .edit (shelf [2]), .poll, .poll]).looks.map Look.reported =
        [false, true, true] ∧
    (∃ path, (capture (shelf [2]) ⟨"./p/"⟩).state? path ≠ (capture (shelf []) ⟨"./p/"⟩).state? path) ∧
    ∃ files, discover (shelf []) ⟨"./p/"⟩ = .ok files ∧ files.length = 2 ∧
      List.Forall₂ (fun sighting file => ∃ key, (shelf []).absolute sighting.path = .ok key ∧
        key.components = file.components) (capture (shelf []) ⟨"./p/"⟩) files := by
  have sounds : ∀ after, Moment.edit after ∈
      [.poll, .edit (shelf [0, 1]), .edit (shelf [2]), .poll, .poll] → after.Sound := by
    intro after member
    simp only [List.mem_cons, reduceCtorEq, Moment.edit.injEq, List.not_mem_nil, or_false, false_or] at member
    rcases member with rfl | rfl <;> decide +kernel
  have sound : (shelf []).Sound := by decide +kernel
  have free : (shelf []).LinkFree [] := .of_nodes (by simp [shelf]) _
  have readable : (shelf []).Readable ⟨"./p/"⟩ :=
    .of_linkFree free (by decide +kernel) (by decide +kernel)
  have readable' : (shelf []).Readable ⟨"/workspace/p"⟩ :=
    .of_linkFree free (by decide +kernel) (by decide +kernel)
  obtain ⟨looks, _, files⟩ := @watch_loses_no_edit ⟨"./p/"⟩ _ sound _ sounds
  refine ⟨by decide +kernel, ?_, ?_⟩
  · have second := looks [⟨shelf [2], false⟩] ⟨shelf [2], true⟩ [⟨shelf [], true⟩] (by decide +kernel)
    obtain none_ | ⟨_, _, whole, differs⟩ := second.2.1.mp rfl
    · cases none_
    · cases whole
      exact differs
  · obtain ⟨_, found, discovered, same⟩ :=
      files ⟨"/workspace/p"⟩ (by decide +kernel) readable (by decide +kernel) readable'
    refine ⟨found, discovered, ?_, same⟩
    rw [← same.length_eq]
    decide +kernel

/-- A way into a directory that leaves it again a number of times. -/
def winding : Nat → Path
  | 0 => ⟨"p"⟩
  | turns + 1 => ⟨"p/../" ++ (winding turns).raw⟩

theorem bytes_winding (turns : Nat) : (winding (turns + 1)).raw.bytes =
    [0x70, Path.slash, Path.dot, Path.dot, Path.slash] ++ (winding turns).raw.bytes := by
  have front : (RawString.ofText "p/../").bytes =
      [0x70, Path.slash, Path.dot, Path.dot, Path.slash] := by decide
  rw [winding, RawString.bytes_append, front]

theorem size_winding (turns : Nat) : (winding turns).raw.bytes.length = 5 * turns + 1 := by
  induction turns with
  | zero => decide
  | succ turns ih =>
    rw [bytes_winding, List.length_append, ih]
    simp only [List.length_cons, List.length_nil]
    omega

theorem segments_winding (turns : Nat) :
    (winding (turns + 1)).segments = [0x70] :: [Path.dot, Path.dot] :: (winding turns).segments := by
  rw [Path.segments, bytes_winding]
  exact Text.cut_append [0x70, Path.slash, Path.dot, Path.dot] _

theorem ends_winding (turns : Nat) : ∃ front, (winding turns).raw.bytes = front ++ [0x70] := by
  induction turns with
  | zero => exact ⟨[], by decide⟩
  | succ turns ih =>
    obtain ⟨front, whole⟩ := ih
    exact ⟨[0x70, Path.slash, Path.dot, Path.dot, Path.slash] ++ front,
      by rw [bytes_winding, whole, List.append_assoc]⟩

def addedSize : List Component → Nat
  | [] => 0
  | step :: rest => 1 + step.raw.bytes.length + addedSize rest

theorem bytes_child {path : Path} {step : RawString} (move : Path.IsMove step)
    (some_ : path.isEmpty = false) (open_ : path.endsInSeparator = false) :
    (path.child step).raw.bytes = path.raw.bytes ++ [Path.slash] ++ step.bytes := by
  have relative := Path.isAbsolute_of_isMove move
  simp [Path.child, Path.join, relative, some_, open_]

theorem size_foldl_child {steps : List Component} (moving : ∀ step ∈ steps, Path.IsMoving step) {path : Path}
    (some_ : path.isEmpty = false) (open_ : path.endsInSeparator = false) :
    (steps.foldl (fun whole step => whole.child step.raw) path).raw.bytes.length =
      path.raw.bytes.length + addedSize steps := by
  induction steps generalizing path with
  | nil => rfl
  | cons step rest ih =>
    obtain ⟨first, later⟩ := List.forall_mem_cons.mp moving
    have move := first.isMove
    have child := bytes_child move some_ open_
    have some' : (path.child step.raw).isEmpty = false := by
      simp [Path.isEmpty, child]
    rw [List.foldl_cons, ih later some' (Path.endsInSeparator_child move), child, List.length_append,
      List.length_append, List.length_singleton, addedSize]
    omega

def windingTree : FileTree where
  nodes := [(["workspace"], .directory), (["p", "workspace"], .directory),
    (["x.proto", "p", "workspace"], .file [] 1 false)]
  workingDirectory := ["workspace"]
  clock := 1

theorem names_winding (turns : Nat) :
    (winding (turns + 1)).names = RawString.ofText "p" :: RawString.ofText ".." :: (winding turns).names := by
  have first : (⟨[0x70]⟩ : RawString) = "p" := by decide
  have second : (⟨[Path.dot, Path.dot]⟩ : RawString) = ".." := by decide
  simp [Path.names, segments_winding, first, second]

theorem moves_winding (turns : Nat) :
    (winding (turns + 1)).moves = .name "p" :: .up :: (winding turns).moves := by
  rw [Path.moves, segments_winding]
  rfl

theorem advance_winding (turns : Nat) :
    windingTree.advance true ["workspace"] (winding turns).names =
      .ok (.arrived (.found ["p", "workspace"] .directory)) := by
  induction turns with
  | zero => rfl
  | succ turns ih =>
    rw [names_winding]
    exact ih

theorem spelled_winding (turns : Nat) :
    (winding turns).isAbsolute = false ∧ (winding turns).isEmpty = false ∧
      (winding turns).endsInSeparator = false ∧ 0 ∉ (winding turns).raw.bytes := by
  induction turns with
  | zero => decide
  | succ turns ih =>
    obtain ⟨_, _, open_, bare⟩ := ih
    have last : (winding (turns + 1)).endsInSeparator = (winding turns).endsInSeparator := by
      obtain ⟨front, whole⟩ := ends_winding turns
      rw [Path.endsInSeparator, Path.endsInSeparator, bytes_winding, whole, ← List.append_assoc,
        List.getLast?_concat, List.getLast?_concat]
    refine ⟨by rw [Path.isAbsolute, bytes_winding]; rfl, by rw [Path.isEmpty, bytes_winding]; rfl,
      last.trans open_, ?_⟩
    rw [bytes_winding, List.mem_append, not_or]
    exact ⟨by decide, bare⟩

section Winding
variable {turns : Nat}

theorem entry_winding (short : turns < 818) :
    windingTree.entry true (winding turns) = .ok (["p", "workspace"], .directory) := by
  have fits : ¬pathLimit ≤ (winding turns).raw.bytes.length := by
    rw [size_winding, pathLimit]
    omega
  have reached : windingTree.resolve true (winding turns) = .ok (.found ["p", "workspace"] .directory) := by
    obtain ⟨relative, some_, open_, bare⟩ := spelled_winding turns
    rw [resolve, resolveSteps, if_neg (by simpa using bare), if_neg (by simp [some_]), if_neg fits, start,
      relative, Path.steps, open_]
    exact follow_of_arrived (advance_winding turns) _
  rw [entry, reached]

theorem entry_child_winding (short : turns < 818) :
    windingTree.entry true ((winding turns).child "x.proto") =
      .ok (["x.proto", "p", "workspace"], .file [] 1 false) := by
  obtain ⟨_, some_, open_, bare⟩ := spelled_winding turns
  have move : Path.IsMove "x.proto" := by decide
  have bytes := bytes_child move some_ open_
  have fits : Fits ((winding turns).child "x.proto") := by
    refine ⟨?_, ?_⟩
    · rw [bytes]
      simpa using ⟨bare, by decide⟩
    · rw [bytes, List.length_append, List.length_append, size_winding, pathLimit,
        show (RawString.ofText "x.proto").bytes.length = 7 by decide, List.length_singleton]
      omega
  exact (entry_child_iff (entry_winding short) (by decide) (by decide) (by simp)).mpr ⟨fits, by decide, rfl⟩

theorem walk_winding (short : turns < 818) :
    windingTree.walk true (winding turns) = [⟨winding turns, ["p", "workspace"], .directory⟩,
      ⟨(winding turns).child "x.proto", ["x.proto", "p", "workspace"], .file [] 1 false⟩] := by
  have inside : windingTree.shown (winding turns) ["p", "workspace"] = [RawString.ofText "x.proto"] := by
    have opened : windingTree.opens (winding turns) = true :=
      opens_iff.mpr ⟨_, entry_winding short, by decide⟩
    rw [shown, if_pos opened]
    decide
  have deep : windingTree.depthBound = 23 + 1 + 1 := rfl
  rw [walk_of_directory (entry_winding short), deep, visit_eq_onward, inside, List.flatMap_singleton]
  rfl

theorem readable_winding (short : turns < 818) : windingTree.Readable (winding turns) := by
  refine .of_linkFree (.of_nodes (by simp [windingTree]) _) (by rw [isDirectory, entry_winding short]) ?_
  rw [walk_winding short]
  exact List.forall_mem_cons.mpr ⟨⟨entry_winding short, fun _ => opens_iff.mpr ⟨_, entry_winding short, by decide⟩⟩,
    List.forall_mem_singleton.mpr ⟨entry_child_winding short, by simp⟩⟩

theorem capture_winding (short : turns < 818) :
    capture windingTree (winding turns) = [⟨(winding turns).child "x.proto", some 1, 0⟩] := by
  have proto : ((winding turns).child "x.proto").isProto = true := by
    have same : (along (winding turns) ["x.proto"]).isProto = (along ⟨""⟩ ["x.proto"]).isProto :=
      isProto_along (by simp) (by decide)
    exact same.trans (by decide)
  rw [capture, walk_winding short]
  simp [protoFiles, files, Node.isFile, sighting?, proto, entry_child_winding short]

end Winding

theorem addedSize_winding (turns : Nat) : addedSize (winding turns).moves = 5 * turns + 2 := by
  induction turns with
  | zero => decide
  | succ turns ih =>
    rw [moves_winding, addedSize, addedSize, ih]
    have first : (Component.name "p").raw.bytes.length = 1 := by decide
    have second : Component.up.raw.bytes.length = 2 := by decide
    omega

theorem absolute_winding (turns : Nat) :
    ∃ whole, windingTree.absolute (winding turns).withoutTrailing = .ok whole ∧
      whole.raw.bytes.length = 5 * turns + 12 := by
  obtain ⟨_, some_, open_, _⟩ := spelled_winding turns
  have home : pathOf windingTree.workingDirectory = ⟨"/workspace"⟩ := by decide
  have anchor_ : (winding turns).anchor ⟨"/workspace"⟩ = ⟨"/workspace"⟩ := by
    cases turns with
    | zero => decide
    | succ turns => rw [Path.anchor, bytes_winding]; rfl
  have moving : ∀ step ∈ (winding turns).moves, Path.IsMoving step := Path.isMoving_of_mem_moves
  have size := @size_foldl_child _ moving ⟨"/workspace"⟩ (by decide) (by decide)
  rw [addedSize_winding, show (RawString.ofText "/workspace").bytes.length = 10 by decide] at size
  rw [Path.withoutTrailing_of_open open_, FileTree.absolute, Path.absolute?, home, some_, open_, anchor_]
  refine ⟨_, rfl, ?_⟩
  rw [if_neg Bool.false_ne_true, ← Path.moves, size]
  omega

theorem discover_winding {turns : Nat} (long : 817 ≤ turns) : discover windingTree (winding turns) = .ok [] := by
  obtain ⟨whole, spelled, size⟩ := absolute_winding turns
  have beyond : pathLimit ≤ whole.raw.bytes.length := by
    rw [size, pathLimit]
    omega
  have nowhere : windingTree.walk true whole = [] := by
    cases entered : windingTree.entry true whole with
    | error error => rw [walk, entered]
    | ok reached => exact absurd (fits_of_resolveSteps (resolve_of_entry entered)).2 (Nat.not_lt.mpr beyond)
  rw [discover_eq_ok_iff]
  exact ⟨whole, spelled, by rw [nowhere]; rfl⟩

def illegibleTree : FileTree where
  nodes := [([⟨[0xff]⟩], .directory), (["x.proto", ⟨[0xff]⟩], .file [] 1 false)]
  workingDirectory := []
  clock := 1

/-- Directories that can be read, by a path that is short enough, while its absolute form is not, and by one
that is no text and ends in a separator: a poll finds the definition file in them, and no file is discovered. -/
theorem winding_root_differs :
    (windingTree.Sound ∧ windingTree.Readable (winding 817) ∧
      capture windingTree (winding 817) = [⟨(winding 817).child "x.proto", some 1, 0⟩] ∧
      discover windingTree (winding 817) = .ok []) ∧
    let root : Path := ⟨⟨[Path.slash, 0xff, Path.slash]⟩⟩
    illegibleTree.Sound ∧ illegibleTree.Readable root ∧
      capture illegibleTree root = [⟨root.child "x.proto", some 1, 0⟩] ∧ discover illegibleTree root = .ok [] := by
  refine ⟨⟨by decide, readable_winding (by omega), capture_winding (by omega),
    discover_winding (Nat.le_refl _)⟩, by decide, ?_, by decide, by decide⟩
  exact .of_linkFree (.of_nodes (by simp [illegibleTree]) _) (by decide) (by decide)

end TrpcRouters.Watch
