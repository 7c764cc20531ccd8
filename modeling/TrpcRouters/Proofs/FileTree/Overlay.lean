import TrpcRouters.Proofs.FileTree.Scratch

/-! Files laid over a tree. Writing, making directories and doing one after the other come down to the
files that are written: each has its content afterwards, and every other file is as before. -/

namespace TrpcRouters

theorem Node.isFile_iff {node : Node} :
    node.isFile = true ↔ ∃ content stamp executable, node = .file content stamp executable := by
  cases node <;> simp [isFile]

theorem Node.exists_of_not_isWay {node : Node} (file : ¬node.IsWay) :
    ∃ content stamp executable, node = .file content stamp executable := by
  cases node with
  | file content stamp executable => exact ⟨content, stamp, executable, rfl⟩
  | directory => exact absurd (by simp [IsWay]) file
  | link target => exact absurd (by simp [IsWay]) file

namespace FileTree

def file? (tree : FileTree) (place : Place) : Option Bytes :=
  match tree.node? place with
  | some (.file content _ _) => some content
  | _ => none

theorem file?_eq_some_iff {tree : FileTree} {place : Place} {content : Bytes} :
    tree.file? place = some content ↔
      ∃ stamp executable, tree.node? place = some (.file content stamp executable) := by
  unfold file?
  split
  next held => simp [held]
  next other =>
    refine ⟨fun found => by simp at found, ?_⟩
    rintro ⟨stamp, executable, held⟩
    exact absurd held (other content stamp executable)

theorem file?_congr {first second : FileTree} {place : Place}
    (same : first.node? place = second.node? place) : first.file? place = second.file? place := by
  rw [file?, file?, same]

theorem file?_remove (tree : FileTree) {place : Place} (inside : place ≠ []) (other : Place) :
    (tree.remove place).file? other = if place <:+ other then none else tree.file? other := by
  unfold file?
  rw [node?_remove _ inside]
  split <;> simp_all

/-- A file can be written at a place, a new one or over an old one. -/
def Takes (tree : FileTree) : Place → Prop
  | [] => False
  | name :: above => Path.IsName name ∧ tree.node? above = some .directory ∧
      (tree.node? (name :: above) = none ∨ (tree.file? (name :: above)).isSome = true)

instance (tree : FileTree) : (place : Place) → Decidable (tree.Takes place)
  | [] => inferInstanceAs (Decidable False)
  | _ :: _ => inferInstanceAs (Decidable (_ ∧ _ ∧ _))

def putFiles (tree : FileTree) (entries : List (Place × Bytes)) : FileTree :=
  entries.foldl (fun tree entry => tree.putFile entry.1 entry.2 false) tree

theorem Takes.putFile {tree : FileTree} {place other : Place} (takes : tree.Takes place)
    (takes' : tree.Takes other) (content : Bytes) (executable : Bool) :
    (tree.putFile other content executable).Takes place := by
  cases other with
  | nil => exact absurd takes' id
  | cons last directory =>
  cases place with
  | nil => exact takes
  | cons name above =>
    obtain ⟨named, inside, free⟩ := takes
    obtain ⟨_, _, free'⟩ := takes'
    refine ⟨named, ?_, ?_⟩
    · rw [node?_putFile _ _ _ _ (List.cons_ne_nil _ _), if_neg ?_]
      · exact inside
      · rintro rfl
        simp [FileTree.file?, inside] at free'
    · rw [FileTree.file?, node?_putFile _ _ _ _ (List.cons_ne_nil _ _)]
      split
      · exact Or.inr rfl
      · exact free

/-- Files by their places, of which there are no more than one at each. -/
abbrev Files := Place → Option Bytes

namespace Files

def empty : Files :=
  fun _ => none

def single (place : Place) (content : Bytes) : Files :=
  fun other => if other = place then some content else none

/-- The upper files, and the lower ones where these leave room. -/
def atop (upper lower : Files) : Files :=
  fun place => (upper place).or (lower place)

theorem atop_empty (upper : Files) : upper.atop empty = upper := by
  funext place
  exact Option.or_none ..

theorem atop_assoc (upper middle lower : Files) :
    (upper.atop middle).atop lower = upper.atop (middle.atop lower) := by
  funext place
  exact Option.or_assoc ..

/-- Files written one after the other; a later one takes the place of an earlier one. -/
def ofList (entries : List (Place × Bytes)) : Files :=
  fun place => entries.reverse.lookup place

theorem ofList_concat (entries : List (Place × Bytes)) (place : Place) (content : Bytes) :
    ofList (entries ++ [(place, content)]) = (single place content).atop (ofList entries) := by
  funext other
  rw [ofList, List.reverse_concat, List.lookup_cons, atop, single]
  by_cases same : other = place
  · simp [same]
  · have away : (other == place) = false := by simpa using same
    simp [same, away, ofList]

theorem ofList_cons (entry : Place × Bytes) (rest : List (Place × Bytes)) :
    ofList (entry :: rest) = (ofList rest).atop (single entry.1 entry.2) := by
  obtain ⟨place, content⟩ := entry
  funext other
  rw [ofList, List.reverse_cons, List.lookup_append, atop, single, ofList, List.lookup_cons]
  by_cases same : other = place
  · simp [same]
  · have away : (other == place) = false := by simpa using same
    simp [same, away]

theorem ofList_eq_none_iff {entries : List (Place × Bytes)} {place : Place} :
    ofList entries place = none ↔ ∀ entry ∈ entries, entry.1 ≠ place := by
  rw [ofList, List.lookup_eq_none_iff]
  constructor
  · intro apart entry member same
    simpa [same] using apart entry (List.mem_reverse.mpr member)
  · intro apart entry member
    simpa using Ne.symm (apart entry (List.mem_reverse.mp member))

theorem ofList_map_eq_none_iff {α : Type} {items : List α} {entry : α → Place × Bytes} {place : Place} :
    ofList (items.map entry) place = none ↔ ∀ item ∈ items, (entry item).1 ≠ place := by
  rw [ofList_eq_none_iff, List.forall_mem_map]

theorem exists_of_ofList {entries : List (Place × Bytes)} {place : Place} {content : Bytes}
    (found : ofList entries place = some content) : (place, content) ∈ entries := by
  obtain ⟨front, rest, whole, _⟩ := List.lookup_eq_some_iff.mp found
  rw [← List.mem_reverse, whole]
  simp

theorem ofList_eq_some {entries : List (Place × Bytes)}
    (agree : ∀ first ∈ entries, ∀ second ∈ entries, first.1 = second.1 → first.2 = second.2)
    {entry : Place × Bytes} (member : entry ∈ entries) :
    ofList entries entry.1 = some entry.2 := by
  cases found : ofList entries entry.1 with
  | none => exact absurd rfl (ofList_eq_none_iff.mp found entry member)
  | some content => exact congrArg some (agree _ (exists_of_ofList found) _ member rfl)

end Files

/-- The second tree is the first with the given files written, and with directories added to it. -/
structure Overlaid (files : Files) (before after : FileTree) : Prop where
  grows : Grows before after
  sound : after.Sound
  held {place : Place} {content : Bytes} : files place = some content →
    after.file? place = some content
  kept {place : Place} : files place = none → after.node? place = before.node? place ∨
    before.node? place = none ∧ after.node? place = some .directory

/-- A tree holds something where steps led to: something was there before, or a file is there now. -/
def Stands (after : FileTree) : Target → Prop
  | .found _ _ => True
  | .vacant directory name => (after.file? (name :: directory)).isSome = true

/-- The first part of a way that was taken before, unless it ended where still nothing is. -/
def Recurs (after : FileTree) (result : Except SystemError Advance) : Advance → Prop
  | .arrived target => Stands after target → ∃ node, result = .ok (.arrived (.found target.place node))
  | .detour there steps => result = .ok (.detour there steps)

namespace Overlaid
variable {before middle after : FileTree} {files upper lower : Files} {place : Place}

theorem refl (sound : before.Sound) : Overlaid .empty before before where
  grows := Grows.refl before
  sound := sound
  held found := by cases found
  kept _ := Or.inl rfl

theorem trans (early : Overlaid lower before middle) (late : Overlaid upper middle after) :
    Overlaid (upper.atop lower) before after where
  grows := early.grows.trans late.grows
  sound := late.sound
  held := by
    intro place content found
    unfold Files.atop at found
    cases above : upper place with
    | some other =>
      rw [above] at found
      cases found
      exact late.held above
    | none =>
      rw [above] at found
      have written : middle.file? place = some content := early.held found
      obtain ⟨stamp, executable, there⟩ := file?_eq_some_iff.mp written
      rcases late.kept above with same | ⟨free, _⟩
      · rw [file?_congr same, written]
      · rw [free] at there
        cases there
  kept := by
    intro place apart
    obtain ⟨above, below⟩ := Option.or_eq_none_iff.mp apart
    rcases late.kept above with same | ⟨free, made⟩
    · rw [same]
      exact early.kept below
    · rcases early.kept below with same | ⟨_, made'⟩
      · exact Or.inr ⟨same ▸ free, made⟩
      · rw [made'] at free
        cases free

theorem file? (overlaid : Overlaid files before after) (place : Place) :
    after.file? place = (files place).or (before.file? place) := by
  cases found : files place with
  | some content => exact overlaid.held found
  | none =>
    rcases overlaid.kept found with same | ⟨free, made⟩
    · exact file?_congr same
    · simp [FileTree.file?, free, made]

/-- A file that is there already may count as written. -/
theorem settled (overlaid : Overlaid files before after) {content : Bytes}
    (there : after.file? place = some content) :
    Overlaid ((Files.single place content).atop files) before after where
  grows := overlaid.grows
  sound := overlaid.sound
  held := by
    intro other content' found
    unfold Files.atop Files.single at found
    split at found
    next same =>
      cases found
      rw [same, there]
    next => exact overlaid.held found
  kept := by
    intro other apart
    exact overlaid.kept (Option.or_eq_none_iff.mp apart).2

theorem of_makeDirectory (sound : before.Sound) {path : Path}
    (result : before.makeDirectory path = .ok after) : Overlaid .empty before after := by
  obtain ⟨front, last, spelled⟩ := names_of_makeDirectory result
  obtain ⟨directory, _, free, _, _, rfl, grows, made⟩ := makeDirectory_spec sound spelled result
  refine ⟨grows, made, (fun found => by cases found), fun {other} _ => ?_⟩
  rw [node?_put _ _ _ _ (List.cons_ne_nil _ _)]
  split
  next same => exact Or.inr ⟨same ▸ free, rfl⟩
  next => exact Or.inl rfl

theorem of_makeAll (sound : before.Sound) {paths : List Path} {error : Option SystemError}
    (result : makeAll paths before = (after, error)) : Overlaid .empty before after := by
  induction paths generalizing after error with
  | nil =>
    cases result
    exact refl sound
  | cons path above ih =>
    cases makes_of_makeAll result with
    | atOnce first => exact of_makeDirectory sound first
    | kept => exact refl sound
    | refused _ inner => exact ih inner
    | afterwards _ inner again =>
      have early := ih inner
      exact early.trans (of_makeDirectory early.sound again)

theorem of_makeDirectories (sound : before.Sound) {path : Path} {error : Option SystemError}
    (result : before.makeDirectories path = (after, error)) : Overlaid .empty before after :=
  of_makeAll sound result

theorem of_write (sound : before.Sound) {path : Path} {content : Bytes}
    (written : before.write path content = .ok after) :
    ∃ place, before.place? path = some place ∧ Overlaid (.single place content) before after := by
  obtain ⟨place, found, grows, sound', there, others⟩ := write_spec sound written
  refine ⟨place, found, grows, sound', fun {other content'} held => ?_, fun {other} apart => ?_⟩
  · unfold Files.single at held
    split at held
    next same =>
      cases held
      rw [same]
      exact file?_eq_some_iff.mpr there
    next => cases held
  · unfold Files.single at apart
    split at apart
    next => cases apart
    next away => exact Or.inl (others other away)

theorem of_putFile (sound : before.Sound) (takes : before.Takes place) (content : Bytes)
    (executable : Bool) :
    Overlaid (.single place content) before (before.putFile place content executable) := by
  cases place with
  | nil => exact absurd takes id
  | cons name above =>
    obtain ⟨named, inside, free⟩ := takes
    have bare : ∀ node, before.node? (name :: above) = some node → ¬node.IsWay := by
      intro node held
      rcases free with nothing | old
      · rw [nothing] at held
        cases held
      · obtain ⟨content, there⟩ := Option.isSome_iff_exists.mp old
        obtain ⟨stamp, executable, there⟩ := file?_eq_some_iff.mp there
        rw [held] at there
        cases there
        exact Node.not_isWay_file _ _ _
    have node : ∀ other, (before.putFile (name :: above) content executable).node? other =
        if other = name :: above then some (.file content (before.clock + 1) executable)
        else before.node? other :=
      fun other => node?_putFile _ other content executable (List.cons_ne_nil _ _)
    constructor
    case grows => exact grows_putFile (List.cons_ne_nil _ _) _ _ bare
    case sound =>
      exact sound.putFile named inside _ _ fun held => bare _ held (by simp [Node.IsWay])
    case held =>
      intro other content' found
      unfold Files.single at found
      split at found
      next same =>
        cases found
        exact file?_eq_some_iff.mpr ⟨_, _, by rw [node, if_pos same]⟩
      next => cases found
    case kept =>
      intro other apart
      unfold Files.single at apart
      split at apart
      next => cases apart
      next away => exact Or.inl (by rw [node, if_neg away])

theorem of_putFile_over (sound : before.Sound) {old : Bytes} (was : before.file? place = some old)
    (content : Bytes) (executable : Bool) :
    Overlaid (.single place content) before (before.putFile place content executable) := by
  obtain ⟨stamp, before_, held⟩ := file?_eq_some_iff.mp was
  cases place with
  | nil => simp [node?] at held
  | cons name above =>
    refine of_putFile sound ?_ _ _
    exact ⟨sound.names held name (List.mem_cons_self ..), sound.rooted held, Or.inr (by simp [was])⟩

/-- What is written over a file, the file is laid over again. -/
theorem of_putFile_back (sound : before.Sound) {old : Bytes} (was : before.file? place = some old)
    (content : Bytes) (executable : Bool) :
    Overlaid (.single place old) (before.putFile place content executable) before := by
  obtain ⟨stamp, executable', held⟩ := file?_eq_some_iff.mp was
  have inside : place ≠ [] := by
    rintro rfl
    simp [node?] at held
  have node : ∀ other, (before.putFile place content executable).node? other =
      if other = place then some (.file content (before.clock + 1) executable) else before.node? other :=
    fun other => node?_putFile place other content executable inside
  constructor
  case sound => exact sound
  case grows =>
    refine ⟨rfl, rfl, rfl, fun {_ _} there way => ?_, fun {_ _} there => ?_⟩
    · rw [node] at there
      split at there
      · cases there
        exact absurd way (Node.not_isWay_file _ _ _)
      · exact there
    · rw [node]
      split
      next same =>
        rw [same, held] at there
        cases there
      next => exact there
  case held =>
    intro other content found
    unfold Files.single at found
    split at found
    next same =>
      cases found
      exact same ▸ was
    next => cases found
  case kept =>
    intro other apart
    unfold Files.single at apart
    split at apart
    next => cases apart
    next away => exact Or.inl (by rw [node, if_neg away])

theorem of_putFiles {entries : List (Place × Bytes)} (sound : before.Sound)
    (takes : ∀ entry ∈ entries, before.Takes entry.1) :
    Overlaid (.ofList entries) before (before.putFiles entries) := by
  induction entries generalizing before with
  | nil => exact refl sound
  | cons entry rest ih =>
    have first := takes entry (List.mem_cons_self ..)
    have step := of_putFile sound first entry.2 false
    have later := ih step.sound fun other member =>
      (takes other (List.mem_cons_of_mem _ member)).putFile first entry.2 false
    rw [Files.ofList_cons]
    exact step.trans later

theorem remove (overlaid : Overlaid files before after) (sound : before.Sound) (inside : place ≠ [])
    (vacant : before.node? place = none) :
    Overlaid (fun other => if place <:+ other then none else files other) before
      (after.remove place) where
  grows :=
    { home := overlaid.grows.home
      closed := overlaid.grows.closed
      fixed := overlaid.grows.fixed
      way := by
        intro other node held way
        rw [node?_remove _ inside]
        split
        next below =>
          obtain ⟨front, rfl⟩ := below
          rw [sound.none_below vacant] at held
          cases held
        next => exact overlaid.grows.way held way
      link := by
        intro other target held
        rw [node?_remove _ inside] at held
        split at held
        · cases held
        · exact overlaid.grows.link held }
  sound := overlaid.sound.remove inside
  held := by
    intro other content found
    rw [file?_remove _ inside]
    split at found
    · cases found
    next apart =>
      rw [if_neg apart]
      exact overlaid.held found
  kept := by
    intro other none_
    rw [node?_remove _ inside]
    split at none_
    next below =>
      obtain ⟨front, rfl⟩ := below
      rw [if_pos (List.suffix_append front place)]
      exact Or.inl (sound.none_below vacant front).symm
    next apart =>
      rw [if_neg apart]
      exact overlaid.kept none_

theorem node (overlaid : Overlaid files before after) {node : Node}
    (held : before.node? place = some node) :
    ∃ other, after.node? place = some other ∧ (node.IsWay → other = node) ∧
      (¬node.IsWay → ¬other.IsWay) := by
  cases node with
  | file content stamp executable =>
    have file : after.file? place = some ((files place).getD content) := by
      rw [overlaid.file?, file?_eq_some_iff.mpr ⟨stamp, executable, held⟩]
      cases files place <;> rfl
    obtain ⟨_, _, there⟩ := file?_eq_some_iff.mp file
    exact ⟨_, there, fun way => absurd way (Node.not_isWay_file _ _ _),
      fun _ => Node.not_isWay_file _ _ _⟩
  | directory => exact ⟨_, overlaid.grows.way held (by simp [Node.IsWay]), fun _ => rfl, fun none_ => none_⟩
  | link target => exact ⟨_, overlaid.grows.way held (by simp [Node.IsWay]), fun _ => rfl, fun none_ => none_⟩

theorem advance (overlaid : Overlaid files before after) {followLast : Bool} {steps : List RawString}
    {reached : Advance} (result : before.Advances followLast place steps reached) :
    Recurs after (after.advance followLast place steps) reached := by
  have way : Node.directory.IsWay := by simp [Node.IsWay]
  have open_ : ∀ target, (Node.link target).IsWay := by simp [Node.IsWay]
  induction result with
  | here held =>
    obtain ⟨other, there, _⟩ := overlaid.node held
    exact fun _ => ⟨other, (Advances.here there).result⟩
  | stay inside stays _ ih => rwa [advance_stay (overlaid.grows.way inside way) stays]
  | climb inside climbs _ ih => rwa [advance_climb (overlaid.grows.way inside way) climbs]
  | enter inside plain fits held solid _ ih =>
    obtain ⟨other, there, _⟩ := overlaid.node held
    have solid' : ∀ target, other ≠ .link target := by
      rintro target rfl
      exact solid target (Option.some.inj (held.symm.trans (overlaid.grows.link there)))
    rwa [advance_enter (overlaid.grows.way inside way) plain fits there solid']
  | @miss place step inside plain fits free =>
    intro stands
    obtain ⟨content, written⟩ := Option.isSome_iff_exists.mp stands
    obtain ⟨stamp, executable, there⟩ := file?_eq_some_iff.mp written
    exact ⟨.file content stamp executable,
      (Advances.enter (overlaid.grows.way inside way) plain fits there (by simp) (.here there)).result⟩
  | halt inside plain fits held halts =>
    have there := overlaid.grows.way held (open_ _)
    exact fun _ => ⟨_, (Advances.halt (overlaid.grows.way inside way) plain fits there halts).result⟩
  | turn inside plain fits held further some_ =>
    have there := overlaid.grows.way held (open_ _)
    exact (Advances.turn (overlaid.grows.way inside way) plain fits there further some_).result

theorem follow (overlaid : Overlaid files before after) {followLast : Bool} {links : Nat}
    {steps : List RawString} {target : Target}
    (result : before.follow followLast links place steps = .ok target) (stands : Stands after target) :
    ∃ other, after.follow followLast links place steps = .ok (.found target.place other) := by
  rw [follow_eq_ok_iff] at result
  induction result with
  | arrive reached =>
    obtain ⟨other, again⟩ := overlaid.advance reached stands
    exact ⟨other, follow_of_arrived again _⟩
  | detour reached _ ih =>
    rw [follow_succ, overlaid.advance reached]
    exact ih stands

/-- What steps lead to through many links, they lead to through as few as they do afterwards. -/
theorem fewer (overlaid : Overlaid files before after) {followLast : Bool} {many few : Nat}
    {steps : List RawString} {target target' : Target}
    (result : before.Follows followLast many place steps target)
    (result' : after.Follows followLast few place steps target') :
    before.Follows followLast few place steps target := by
  induction result generalizing few with
  | arrive reached => exact .arrive reached
  | detour reached _ ih =>
    have again := overlaid.advance reached
    cases result' with
    | arrive reached' => cases again.symm.trans reached'.result
    | detour reached' later' =>
      cases again.symm.trans reached'.result
      exact .detour reached (ih later')

theorem resolve (overlaid : Overlaid files before after) {followLast : Bool} {path : Path}
    {target : Target} (reached : before.resolve followLast path = .ok target)
    (stands : Stands after target) :
    ∃ other, after.entry followLast path = .ok (target.place, other) := by
  obtain ⟨other, found⟩ := overlaid.follow (follow_of_resolveSteps reached) stands
  obtain ⟨_, same⟩ := resolveSteps_of_ok reached
  exact ⟨other, by rw [FileTree.entry, FileTree.resolve, same, overlaid.grows.alike.start, found]⟩

theorem entry (overlaid : Overlaid files before after) {followLast : Bool} {path : Path} {node : Node}
    (entered : before.entry followLast path = .ok (place, node)) :
    ∃ other, after.entry followLast path = .ok (place, other) := by
  unfold FileTree.entry at entered
  cases reached : before.resolve followLast path with
  | error error => simp [reached] at entered
  | ok target =>
    rw [reached] at entered
    cases target with
    | vacant directory name => cases entered
    | found there other =>
      cases entered
      exact overlaid.resolve reached trivial

end Overlaid

section Roots
variable {tree after : FileTree} {root path : Path} {rest : List RawString} {place : Place}

theorem Overlaid.of_write_below (sound : tree.Sound) (leads : tree.Leads [] root.names place)
    (free : tree.LinkFree place) (below : root.Below path rest) {content : Bytes}
    (written : tree.write path content = .ok after) :
    Fits path ∧ Short rest ∧ Overlaid (.single (rest.reverse ++ place) content) tree after := by
  obtain ⟨there, found, overlaid⟩ := of_write sound written
  obtain ⟨short, rfl⟩ := place?_below leads free below found
  exact ⟨fits_of_place? found, short, overlaid⟩

theorem entry_of_fits (fits : Fits path) (tidy : path.Tidy) (ends : path.endsInSeparator = false)
    {node : Node} (found : tree.follow true linkLimit [] path.names = .ok (.found place node)) :
    tree.entry true path = .ok (place, node) := by
  have some_ := Path.isEmpty_of_isAbsolute tidy.1
  have steps : path.steps = path.names := by rw [Path.steps, if_neg (by simp [ends])]
  simp only [entry, resolve, resolveSteps, steps, fits.1, some_, Nat.not_le.mpr fits.2,
    start_of_tidy tree tidy, found, Bool.false_eq_true, ↓reduceIte]

theorem read_below (sound : tree.Sound) (leads : tree.Leads [] root.names place)
    (free : tree.LinkFree place) (below : root.Below path rest) (fits : Fits path)
    (short : Short rest) {content : Bytes}
    (held : tree.file? (rest.reverse ++ place) = some content) : tree.read path = .ok content := by
  obtain ⟨stamp, executable, there⟩ := file?_eq_some_iff.mp held
  obtain ⟨_, found⟩ := (follow_below sound leads free below).mpr ⟨short, there⟩
  rw [← below.names] at found
  rw [read, entry_of_fits fits below.tidy below.ends found]

theorem leads_of_makeDirectories (tidy : path.Tidy) (sound : tree.Sound)
    (result : tree.makeDirectories path = (after, none)) :
    Fits path ∧ ∃ place, after.Leads [] path.names place := by
  have made : ∀ {before after : FileTree}, before.Sound → before.makeDirectory path = .ok after →
      Fits path ∧ ∃ place, after.Leads [] path.names place := by
    intro before after sound result
    refine ⟨?_, (makesWay_of_makeDirectory tidy sound result).2⟩
    unfold makeDirectory at result
    cases reached : before.resolveSteps false path path.names with
    | error error => simp [reached] at result
    | ok target => exact fits_of_resolveSteps reached
  have stands : ∀ {tree : FileTree}, tree.isDirectory path = true →
      Fits path ∧ ∃ place, tree.Leads [] path.names place := by
    intro tree directory
    refine ⟨?_, leads_of_isDirectory tidy directory⟩
    unfold isDirectory entry at directory
    cases reached : tree.resolve true path with
    | error error => simp [reached] at directory
    | ok target => exact fits_of_resolveSteps reached
  have ancestors : ∃ above, path.ancestors = path :: above := by
    rw [Path.ancestors, Path.ancestorsWithin, if_neg (by simp [Path.isEmpty_of_isAbsolute tidy.1])]
    cases path.parent? with
    | none => exact ⟨[], rfl⟩
    | some above => exact ⟨_, rfl⟩
  obtain ⟨above, ancestors⟩ := ancestors
  rw [makeDirectories, ancestors] at result
  cases makes_of_makeAll result with
  | atOnce first => exact made sound first
  | kept _ stays => exact stands (stays rfl)
  | refused _ _ stays => exact stands (stays rfl)
  | afterwards _ inner again => exact made (makeAll_grows sound inner).2 again

end Roots

end FileTree

end TrpcRouters
