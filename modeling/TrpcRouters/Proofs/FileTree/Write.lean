import TrpcRouters.Proofs.FileTree.Resolve
import TrpcRouters.Proofs.Path.Names

/-! What making directories and writing files changes. A file is written where its path leads. New
directories lie one inside the other, the first of them in a directory that a part of the path leads
to. -/

namespace TrpcRouters.FileTree
variable {tree : FileTree}

theorem grows_put {place : Place} {node : Node} (inside : place ≠ [])
    (bare : ∀ held, tree.node? place = some held → ¬held.IsWay)
    (plain : ∀ target, node ≠ .link target) : Grows tree (tree.put place node) where
  home := rfl
  closed := rfl
  fixed := rfl
  way := by
    intro other held there open_
    rw [node?_put _ _ _ _ inside]
    split
    next same => exact absurd open_ (bare held (same ▸ there))
    next => exact there
  link := by
    intro other target there
    rw [node?_put _ _ _ _ inside] at there
    split at there
    next => exact absurd (Option.some.inj there) (plain target)
    next => exact there

theorem node?_putFile (place other : Place) (content : Bytes) (executable : Bool)
    (inside : place ≠ []) :
    (tree.putFile place content executable).node? other =
      if other = place then some (.file content (tree.clock + 1) executable) else tree.node? other :=
  node?_put tree place other _ inside

theorem grows_putFile {place : Place} (inside : place ≠ []) (content : Bytes) (executable : Bool)
    (bare : ∀ held, tree.node? place = some held → ¬held.IsWay) :
    Grows tree (tree.putFile place content executable) :=
  have put : Grows tree (tree.put place (.file content (tree.clock + 1) executable)) :=
    grows_put inside bare (by simp)
  ⟨rfl, rfl, rfl, put.way, put.link⟩

theorem Sound.clock (sound : tree.Sound) (clock : Nat) : ({ tree with clock } : FileTree).Sound :=
  ⟨sound.named, sound.rooted, sound.home⟩

theorem Sound.putFile (sound : tree.Sound) {name : RawString} {above : Place} (named : Path.IsName name)
    (inside : tree.node? above = some .directory) (content : Bytes) (executable : Bool)
    (bare : tree.node? (name :: above) ≠ some .directory) :
    (tree.putFile (name :: above) content executable).Sound :=
  (sound.put named inside (fun directory => absurd directory bare)).clock _

/-- The place that a path leads to, or would lead to if something stood there. -/
def place? (tree : FileTree) (path : Path) : Option Place :=
  match tree.resolve true path with
  | .ok target => some target.place
  | .error _ => none

theorem follow_of_resolveSteps {followLast : Bool} {path : Path} {steps : List RawString}
    {target : Target} (result : tree.resolveSteps followLast path steps = .ok target) :
    tree.follow followLast linkLimit (tree.start path) steps = .ok target := by
  unfold resolveSteps at result
  split at result
  · cases result
  · split at result
    · cases result
    · split at result
      · cases result
      · exact result

theorem held_of_entry {followLast : Bool} {path : Path} {place : Place} {node : Node}
    (result : tree.entry followLast path = .ok (place, node)) : tree.node? place = some node := by
  unfold entry at result
  cases reached : tree.resolve followLast path with
  | error error => simp [reached] at result
  | ok target =>
    rw [reached] at result
    cases target with
    | vacant directory name => cases result
    | found there other =>
      cases result
      exact follow_settled (proper_steps path) (follow_of_resolveSteps reached)

theorem proper_names (path : Path) : Proper path.names := by
  intro step member
  apply proper_steps path step
  unfold Path.steps
  split
  · exact List.mem_append_left _ member
  · exact member

theorem putFile_spec (sound : tree.Sound) {name : RawString} {above : Place} (named : Path.IsName name)
    (inside : tree.node? above = some .directory)
    (bare : ∀ held, tree.node? (name :: above) = some held → ¬held.IsWay) (content : Bytes)
    (executable : Bool) :
    Grows tree (tree.putFile (name :: above) content executable) ∧
      (tree.putFile (name :: above) content executable).Sound ∧
      (∃ stamp executable', (tree.putFile (name :: above) content executable).node? (name :: above) =
        some (.file content stamp executable')) ∧
      ∀ other, other ≠ name :: above →
        (tree.putFile (name :: above) content executable).node? other = tree.node? other := by
  have node (other : Place) : (tree.putFile (name :: above) content executable).node? other =
      if other = name :: above then some (.file content (tree.clock + 1) executable) else tree.node? other :=
    node?_putFile _ other content executable (List.cons_ne_nil _ _)
  refine ⟨grows_putFile (List.cons_ne_nil _ _) _ _ bare, ?_, ?_, fun other away => ?_⟩
  · exact sound.putFile named inside _ _ fun held => bare _ held (by simp [Node.IsWay])
  · exact ⟨_, _, by rw [node, if_pos rfl]⟩
  · rw [node, if_neg away]

theorem write_spec (sound : tree.Sound) {path : Path} {content : Bytes} {after : FileTree}
    (written : tree.write path content = .ok after) :
    ∃ place, tree.place? path = some place ∧ Grows tree after ∧ after.Sound ∧
      (∃ stamp executable, after.node? place = some (.file content stamp executable)) ∧
      ∀ other, other ≠ place → after.node? other = tree.node? other := by
  unfold write at written
  split at written
  · split at written <;> cases written
  · unfold place?
    cases reached : tree.resolve true path with
    | error error => simp [reached] at written
    | ok target =>
      rw [reached] at written
      have settled : tree.Settled target :=
        follow_settled (proper_steps path) (follow_of_resolveSteps reached)
      cases target with
      | found place node =>
        have held : tree.node? place = some node := settled
        cases node with
        | directory => cases written
        | link target => cases written
        | file old stamp executable =>
          dsimp only at written
          split at written
          · cases written
          cases written
          have inside : place ≠ [] := by
            rintro rfl
            simp [node?] at held
          obtain ⟨name, above, rfl⟩ := List.exists_cons_of_ne_nil inside
          refine ⟨name :: above, rfl, putFile_spec sound (sound.names held name (List.mem_cons_self ..))
            (sound.rooted held) ?_ content executable⟩
          intro node there
          rw [held] at there
          cases there
          exact Node.not_isWay_file _ _ _
      | vacant directory name =>
        obtain ⟨inside, free, named⟩ := settled
        cases written
        exact ⟨name :: directory, rfl, putFile_spec sound named inside (by simp [free]) content false⟩

/-- Where the last step leads is free only if it is taken down from the place itself. -/
theorem advance_last {place : Place} {last : RawString} {reached : Advance}
    (result : tree.Advances false place [last] reached) :
    ∃ target, reached = .arrived target ∧ ∀ directory name, target = .vacant directory name →
      directory = place ∧ name = last ∧ last.bytes.length ≤ nameLimit := by
  have here : ∀ {place : Place}, tree.Advances false place [] reached →
      ∃ target, reached = .arrived target ∧ ∀ directory name, target = .vacant directory name →
        directory = place ∧ name = last ∧ last.bytes.length ≤ nameLimit := by
    rintro _ ⟨⟩
    exact ⟨_, rfl, by simp⟩
  cases result with
  | stay _ _ later => exact here later
  | climb _ _ later =>
    cases later
    exact ⟨_, rfl, by simp⟩
  | enter _ _ _ _ _ later =>
    cases later
    exact ⟨_, rfl, by simp⟩
  | miss _ _ fits =>
    refine ⟨_, rfl, fun directory name same => ?_⟩
    cases same
    exact ⟨rfl, rfl, fits⟩
  | halt => exact ⟨_, rfl, by simp⟩
  | turn _ _ _ _ open_ => exact absurd ⟨rfl, rfl⟩ open_

theorem vacant_spec {from_ directory : Place} {front : List RawString} {last name : RawString}
    (proper : Proper (front ++ [last]))
    (result : tree.follow false linkLimit from_ (front ++ [last]) = .ok (.vacant directory name)) :
    name = last ∧ tree.Leads from_ front directory ∧ last.bytes.length ≤ nameLimit := by
  have frontProper : Proper front := fun step member => proper step (List.mem_append_left _ member)
  obtain ⟨middle, leads⟩ := exists_leads frontProper (List.cons_ne_nil _ _) result
  obtain ⟨left, same⟩ := leads.append
  rw [same false [last] (List.cons_ne_nil _ _)] at result
  cases follow_eq_ok_iff.mp result with
  | arrive reached =>
    obtain ⟨target, arrived, spelled⟩ := advance_last reached
    cases arrived
    obtain ⟨rfl, rfl, fits⟩ := spelled directory name rfl
    exact ⟨rfl, leads, fits⟩
  | detour reached _ =>
    obtain ⟨target, arrived, _⟩ := advance_last reached
    cases arrived

theorem Leads.child {from_ directory : Place} {front : List RawString} {last : RawString}
    (leads : tree.Leads from_ front directory) (proper : Proper front)
    (held : tree.node? (last :: directory) = some .directory) (plain : last ≠ "." ∧ last ≠ "..")
    (fits : last.bytes.length ≤ nameLimit) (followLast : Bool) :
    tree.follow followLast linkLimit from_ (front ++ [last]) =
      .ok (.found (last :: directory) .directory) := by
  obtain ⟨left, same⟩ := leads.append
  rw [same followLast [last] (List.cons_ne_nil _ _)]
  have reached : tree.Advances followLast directory [last] (.arrived (.found (last :: directory) .directory)) :=
    .enter (leads.directory proper) plain fits held (by simp) (.here held)
  exact follow_of_arrived reached.result left

theorem makeDirectory_spec (sound : tree.Sound) {path : Path} {front : List RawString} {last : RawString}
    (spelled : path.names = front ++ [last]) {made : FileTree}
    (result : tree.makeDirectory path = .ok made) :
    ∃ directory, tree.Leads (tree.start path) front directory ∧
      tree.node? (last :: directory) = none ∧ Path.IsName last ∧ last.bytes.length ≤ nameLimit ∧
      made = tree.put (last :: directory) .directory ∧ Grows tree made ∧ made.Sound := by
  unfold makeDirectory at result
  cases reached : tree.resolveSteps false path path.names with
  | error error => simp [reached] at result
  | ok target =>
    rw [reached] at result
    have followed := follow_of_resolveSteps reached
    have settled : tree.Settled target := follow_settled (proper_names path) followed
    cases target with
    | found place node => cases result
    | vacant directory name =>
      obtain ⟨inside, free, named⟩ := settled
      cases result
      have proper := proper_names path
      rw [spelled] at followed proper
      obtain ⟨rfl, leads, fits⟩ := vacant_spec proper followed
      have grows : Grows tree (tree.put (name :: directory) .directory) :=
        grows_put (List.cons_ne_nil _ _) (by simp [free]) (by simp)
      exact ⟨directory, leads, free, named, fits, rfl, grows, sound.put named inside (fun _ => rfl)⟩

/-- Wherever the steps climb, they climb out of a directory. -/
def Grounded (tree : FileTree) (steps : List RawString) : Prop :=
  ∀ front, front ++ [RawString.ofText ".."] <+: steps → ∃ place, tree.Leads [] front place

/-- Directories were made one inside the other, the first of them in a directory that a part of the
steps leads to, and called by the steps that follow. -/
structure MadeAlong (before after : FileTree) (steps front made back : List RawString) (top : Place) :
    Prop where
  spelled : steps = front ++ made ++ back
  some_ : made ≠ []
  leads : before.Leads [] front top
  free : ∀ first rest, made = first :: rest → before.node? (first :: top) = none
  plain : Plain (made ++ back)
  place : ∀ place, after.node? place = before.node? place ∨
    ∃ inner, inner ≠ [] ∧ inner <+: made ∧ place = inner.reverse ++ top

namespace MadeAlong
variable {before after later : FileTree} {steps front made back : List RawString} {top : Place}

theorem nothing (along : MadeAlong before after steps front made back top) (sound : before.Sound)
    {inner : List RawString} (some_ : inner ≠ []) (short : inner <+: made ++ back) :
    before.node? (inner.reverse ++ top) = none := by
  obtain ⟨first, rest, rfl⟩ := List.exists_cons_of_ne_nil some_
  obtain ⟨other, others, shape⟩ := List.exists_cons_of_ne_nil along.some_
  have same : other = first := by
    rw [shape, List.cons_append, List.cons_prefix_cons] at short
    exact short.1.symm
  rw [List.reverse_cons, List.append_assoc]
  exact sound.none_below (along.free first others (same ▸ shape)) _

theorem clear (along : MadeAlong before after steps front made back top) (sound : before.Sound)
    (proper : Proper front) (grows : Grows before later) : later.Clear top (made ++ back) := by
  intro inner target short held
  have link := grows.link held
  by_cases none_ : inner = []
  · rw [none_, List.reverse_nil, List.nil_append, along.leads.directory proper] at link
    cases link
  · rw [along.nothing sound none_ short] at link
    cases link

theorem place_of_follow (along : MadeAlong before after steps front made back top)
    (sound : before.Sound) (proper : Proper front) (grows : Grows before later)
    {inner : List RawString} (some_ : inner ≠ []) (short : inner <+: made ++ back) {followLast : Bool}
    {target : Target}
    (result : later.follow followLast linkLimit [] (front ++ inner) = .ok target) :
    target.place = inner.reverse ++ top := by
  obtain ⟨left, same⟩ := (along.leads.grows grows).append
  rw [same followLast inner some_] at result
  have plain : Plain inner := fun step member => along.plain step (short.subset member)
  have clear : later.Clear top inner := fun other link inside held =>
    along.clear sound proper grows other link (inside.trans short) held
  exact (FileTree.place_of_follow plain clear result).2

theorem not_leads (along : MadeAlong before after steps front made back top) (sound : before.Sound)
    (proper : Proper (front ++ made ++ back)) {inner : List RawString} (some_ : inner ≠ [])
    (short : inner <+: made ++ back) (place : Place) : ¬before.Leads [] (front ++ inner) place := by
  intro leads
  have frontProper : Proper front := fun step member =>
    proper step (List.mem_append_left _ (List.mem_append_left _ member))
  have innerProper : Proper (front ++ inner) := by
    intro step member
    apply proper step
    rw [List.append_assoc]
    rcases List.mem_append.mp member with ahead | behind
    · exact List.mem_append_left _ ahead
    · exact List.mem_append_right _ (short.subset behind)
  have there := along.place_of_follow sound frontProper (Grows.refl before) some_ short leads
  have held := leads.directory innerProper
  rw [show place = inner.reverse ++ top from there, along.nothing sound some_ short] at held
  cases held

end MadeAlong

/-- What making a directory with all above it leaves. -/
structure MakesWay (before after : FileTree) (steps : List RawString) : Prop where
  grows : Grows before after
  sound : after.Sound
  along : after = before ∨ ∃ front made back top, MadeAlong before after steps front made back top

theorem start_of_tidy (tree : FileTree) {path : Path} (tidy : path.Tidy) : tree.start path = [] :=
  if_pos tidy.1

theorem leads_of_entry {path : Path} (tidy : path.Tidy) {place : Place}
    (entry : tree.resolve true path = .ok (.found place .directory)) :
    ∃ place, tree.Leads [] path.names place := by
  have followed := follow_of_resolveSteps entry
  rw [start_of_tidy tree tidy] at followed
  unfold Path.steps at followed
  split at followed
  · exact exists_leads (proper_names path) (List.cons_ne_nil _ _) followed
  · exact ⟨place, followed⟩

theorem leads_of_isDirectory {path : Path} (tidy : path.Tidy)
    (directory : tree.isDirectory path = true) : ∃ place, tree.Leads [] path.names place := by
  unfold isDirectory entry at directory
  cases reached : tree.resolve true path with
  | error error => simp [reached] at directory
  | ok target =>
    rw [reached] at directory
    cases target with
    | vacant above name => simp at directory
    | found place node =>
      cases node with
      | directory => exact leads_of_entry tidy reached
      | file content stamp executable => simp at directory
      | link target => simp at directory

theorem entry_of_leads {path : Path} (tidy : path.Tidy) (ends : path.endsInSeparator = false)
    {directory : Place} (leads : tree.Leads [] path.names directory) {place : Place} {node : Node}
    (entered : tree.entry true path = .ok (place, node)) : place = directory ∧ node = .directory := by
  unfold entry at entered
  cases reached : tree.resolve true path with
  | error error => simp [reached] at entered
  | ok target =>
    have followed := follow_of_resolveSteps reached
    rw [start_of_tidy tree tidy, Path.steps, if_neg (by simp [ends]), leads] at followed
    cases followed
    rw [reached] at entered
    cases entered
    exact ⟨rfl, rfl⟩

theorem MadeAlong.longer {before after : FileTree} {steps front made back : List RawString} {top : Place}
    (along : MadeAlong before after steps front made back top) {last : RawString}
    (plain : last ≠ "." ∧ last ≠ "..") :
    MadeAlong before after (steps ++ [last]) front made (back ++ [last]) top where
  spelled := by rw [along.spelled]; simp
  some_ := along.some_
  leads := along.leads
  free := along.free
  plain := by
    intro step member
    rw [← List.append_assoc] at member
    rcases List.mem_append.mp member with ahead | last_
    · exact along.plain step ahead
    · rwa [List.mem_singleton.mp last_]
  place := along.place

/-- A directory at the end of the steps is the last one that was made. -/
theorem MadeAlong.end_of_leads {before middle : FileTree} {steps front made back : List RawString} {top : Place}
    (along : MadeAlong before middle steps front made back top) (sound : before.Sound)
    (proper : Proper steps) (grows : Grows before middle) {directory : Place}
    (leads : middle.Leads [] steps directory) : back = [] ∧ directory = made.reverse ++ top := by
  have steps_ : steps = front ++ (made ++ back) := by rw [along.spelled, List.append_assoc]
  have frontProper : Proper front := fun step member => proper step (by simp [along.spelled, member])
  have some_ : made ++ back ≠ [] := by simp [along.some_]
  have there : directory = (made ++ back).reverse ++ top := by
    have result := leads
    rw [steps_] at result
    exact along.place_of_follow sound frontProper grows some_ (List.prefix_refl _) result
  have nothing : back = [] := by
    have held := leads.directory proper
    rcases along.place directory with kept | ⟨inner, _, short, spelled⟩
    · rw [kept, there, along.nothing sound some_ (List.prefix_refl _)] at held
      cases held
    · have equal : (made ++ back).reverse = inner.reverse :=
        List.append_cancel_right (there.symm.trans spelled)
      have lengths := congrArg List.length equal
      have bound := short.length_le
      simp only [List.length_reverse, List.length_append] at lengths
      exact List.length_eq_zero_iff.mp (by omega)
  exact ⟨nothing, by rw [there, nothing, List.append_nil]⟩

theorem MadeAlong.deeper {before middle : FileTree} {steps front made back : List RawString} {top : Place}
    (along : MadeAlong before middle steps front made back top) (sound : before.Sound)
    (proper : Proper steps) (grows : Grows before middle) {last : RawString} {directory : Place}
    (leads : middle.Leads [] steps directory) (plain : last ≠ "." ∧ last ≠ "..") :
    MadeAlong before (middle.put (last :: directory) .directory) (steps ++ [last]) front
      (made ++ [last]) [] top := by
  obtain ⟨rfl, there⟩ := along.end_of_leads sound proper grows leads
  constructor
  case spelled => rw [along.spelled]; simp
  case some_ => simp
  case leads => exact along.leads
  case free =>
    intro first rest shape
    obtain ⟨other, others, made_⟩ := List.exists_cons_of_ne_nil along.some_
    rw [made_, List.cons_append] at shape
    exact along.free first others (by rw [made_, (List.cons.inj shape).1])
  case plain =>
    intro step member
    rw [List.append_nil] at member
    rcases List.mem_append.mp member with ahead | last_
    · exact along.plain step (by simp [ahead])
    · rwa [List.mem_singleton.mp last_]
  case place =>
    intro place
    rw [node?_put _ _ _ _ (List.cons_ne_nil _ _)]
    split
    next same =>
      refine Or.inr ⟨made ++ [last], by simp, List.prefix_refl _, ?_⟩
      rw [same, there]
      simp
    next =>
      rcases along.place place with kept | ⟨inner, inner_, short, spelled⟩
      · exact Or.inl kept
      · exact Or.inr ⟨inner, inner_, short.trans (List.prefix_append _ _), spelled⟩

theorem MadeAlong.plain_last {before after : FileTree} {steps front made back : List RawString}
    {top : Place} (along : MadeAlong before after steps front made back top) (sound : before.Sound)
    (proper : Proper steps) {last : RawString} (grounded : before.Grounded (steps ++ [last]))
    (moves : last ≠ ".") : last ≠ "." ∧ last ≠ ".." := by
  refine ⟨moves, ?_⟩
  rintro rfl
  obtain ⟨place, leads⟩ := grounded steps (List.prefix_refl _)
  have some_ : made ++ back ≠ [] := by simp [along.some_]
  rw [along.spelled] at proper leads
  rw [List.append_assoc] at leads
  exact along.not_leads sound proper some_ (List.prefix_refl _) place leads

section Ways
variable {path : Path} {made middle : FileTree} {above : List RawString} {last : RawString}

theorem names_of_makeDirectory (result : tree.makeDirectory path = .ok made) :
    ∃ front last, path.names = front ++ [last] := by
  obtain nothing | ⟨front, last, spelled⟩ := List.eq_nil_or_concat path.names
  · unfold makeDirectory at result
    rw [nothing] at result
    cases reached : tree.resolveSteps false path [] with
    | error error => simp [reached] at result
    | ok target =>
      rw [reached] at result
      cases follow_eq_ok_iff.mp (follow_of_resolveSteps reached) with
      | arrive advanced =>
        cases advanced
        cases result
      | detour advanced _ => cases advanced
  · rw [List.concat_eq_append] at spelled
    exact ⟨front, last, spelled⟩

theorem makeDirectory_grows (sound : tree.Sound) (result : tree.makeDirectory path = .ok made) :
    Grows tree made ∧ made.Sound := by
  obtain ⟨front, last, spelled⟩ := names_of_makeDirectory result
  obtain ⟨_, _, _, _, _, _, grows, madeSound⟩ := makeDirectory_spec sound spelled result
  exact ⟨grows, madeSound⟩

theorem makesWay_of_makeDirectory (tidy : path.Tidy) (sound : tree.Sound)
    (result : tree.makeDirectory path = .ok made) :
    MakesWay tree made path.names ∧ ∃ place, made.Leads [] path.names place := by
  obtain ⟨front, last, spelled⟩ := names_of_makeDirectory result
  obtain ⟨directory, leads, free, named, fits, rfl, grows, madeSound⟩ :=
    makeDirectory_spec sound spelled result
  rw [start_of_tidy tree tidy] at leads
  have proper : Proper front := fun step member => proper_names path step (by simp [spelled, member])
  have plain : last ≠ "." ∧ last ≠ ".." := ⟨named.2.1, named.2.2.1⟩
  rw [spelled]
  refine ⟨⟨grows, madeSound, Or.inr ⟨front, [last], [], directory, ?_⟩⟩, last :: directory, ?_⟩
  · constructor
    case spelled => simp
    case some_ => simp
    case leads => exact leads
    case free => simp [free]
    case plain => simpa [Plain] using plain
    case place =>
      intro place
      rw [node?_put _ _ _ _ (List.cons_ne_nil _ _)]
      split
      next same => exact Or.inr ⟨[last], by simp, List.prefix_refl _, by simpa using same⟩
      next => exact Or.inl rfl
  · have held : (tree.put (last :: directory) .directory).node? (last :: directory) =
        some .directory := by
      rw [node?_put _ _ _ _ (List.cons_ne_nil _ _), if_pos rfl]
    exact (leads.grows grows).child proper held plain fits true

theorem MakesWay.longer (way : MakesWay tree middle above) (sound : tree.Sound)
    (proper : Proper above) (grounded : tree.Grounded (above ++ [last])) (moves : last ≠ ".") :
    MakesWay tree middle (above ++ [last]) where
  grows := way.grows
  sound := way.sound
  along := by
    rcases way.along with same | ⟨front, made, back, top, along⟩
    · exact Or.inl same
    · have plain := along.plain_last sound proper grounded moves
      exact Or.inr ⟨front, made, back ++ [last], top, along.longer plain⟩

theorem MakesWay.deeper (way : MakesWay tree middle above) (sound : tree.Sound) (tidy : path.Tidy)
    (spelled : path.names = above ++ [last]) {error : SystemError}
    (before : tree.makeDirectory path = .error error)
    (result : middle.makeDirectory path = .ok made) :
    MakesWay tree made path.names ∧ ∃ place, made.Leads [] path.names place := by
  have later := makesWay_of_makeDirectory tidy way.sound result
  refine ⟨⟨way.grows.trans later.1.grows, later.1.sound, ?_⟩, later.2⟩
  rcases way.along with same | ⟨front, chain, back, top, along⟩
  · rw [same, before] at result
    cases result
  · obtain ⟨directory, reached, _, named, _, rfl, _, _⟩ := makeDirectory_spec way.sound spelled result
    rw [start_of_tidy middle tidy] at reached
    have proper : Proper above := fun step member =>
      proper_names path step (by simp [spelled, member])
    have plain : last ≠ "." ∧ last ≠ ".." := ⟨named.2.1, named.2.2.1⟩
    rw [spelled]
    exact Or.inr ⟨front, chain ++ [last], [], top,
      along.deeper sound proper way.grows reached plain⟩

end Ways

/-- The ways to make a directory: at once, behind those above it, or not at all. -/
inductive Makes (path : Path) (above : List Path) (tree : FileTree) :
    FileTree → Option SystemError → Prop where
  | atOnce {made : FileTree} (first : tree.makeDirectory path = .ok made) :
    Makes path above tree made none
  | kept {reason : SystemError} {error : Option SystemError}
    (first : tree.makeDirectory path = .error reason)
    (stays : error = none → tree.isDirectory path = true) : Makes path above tree tree error
  | refused {reason : SystemError} {middle : FileTree} {failed error : Option SystemError}
    (first : tree.makeDirectory path = .error reason) (inner : makeAll above tree = (middle, failed))
    (stays : error = none → middle.isDirectory path = true) : Makes path above tree middle error
  | afterwards {reason : SystemError} {middle made : FileTree}
    (first : tree.makeDirectory path = .error reason) (inner : makeAll above tree = (middle, none))
    (again : middle.makeDirectory path = .ok made) : Makes path above tree made none

theorem makes_of_makeAll {path : Path} {above : List Path} {after : FileTree}
    {error : Option SystemError} (result : makeAll (path :: above) tree = (after, error)) :
    Makes path above tree after error := by
  rw [makeAll] at result
  cases first : tree.makeDirectory path with
  | ok made =>
    rw [first] at result
    cases result
    exact .atOnce first
  | error reason =>
    rw [first] at result
    simp only at result
    split at result
    next =>
      cases inner : makeAll above tree with
      | mk middle failed =>
        rw [inner] at result
        cases failed with
        | some other =>
          cases result
          exact .refused first inner (by simp)
        | none =>
          simp only at result
          cases again : middle.makeDirectory path with
          | ok made =>
            rw [again] at result
            cases result
            exact .afterwards first inner again
          | error other =>
            rw [again] at result
            cases result
            exact .refused first inner (by simp)
    next =>
      cases result
      exact .kept first (by simp)

theorem makeAll_grows (sound : tree.Sound) {paths : List Path} {after : FileTree}
    {error : Option SystemError} (result : makeAll paths tree = (after, error)) :
    Grows tree after ∧ after.Sound := by
  induction paths generalizing after error with
  | nil =>
    cases result
    exact ⟨Grows.refl tree, sound⟩
  | cons path above ih =>
    cases makes_of_makeAll result with
    | atOnce first => exact makeDirectory_grows sound first
    | kept => exact ⟨Grows.refl tree, sound⟩
    | refused _ inner => exact ih inner
    | afterwards _ inner again =>
      obtain ⟨early, middleSound⟩ := ih inner
      obtain ⟨late, madeSound⟩ := makeDirectory_grows middleSound again
      exact ⟨early.trans late, madeSound⟩

theorem makeDirectories_grows (sound : tree.Sound) {path : Path} {after : FileTree}
    {error : Option SystemError} (result : tree.makeDirectories path = (after, error)) :
    Grows tree after ∧ after.Sound :=
  makeAll_grows sound result

/-- A directory makes way if those above it do, and it inside them where it could not be made at once. -/
theorem Makes.spec {path : Path} (tidy : path.Tidy) (sound : tree.Sound) {above : List Path}
    {after : FileTree} {error : Option SystemError} (makes : Makes path above tree after error)
    (way : ∀ middle failed, makeAll above tree = (middle, failed) →
      MakesWay tree middle path.names ∧ ∀ reason made,
        tree.makeDirectory path = .error reason → middle.makeDirectory path = .ok made →
          MakesWay tree made path.names ∧ ∃ place, made.Leads [] path.names place) :
    MakesWay tree after path.names ∧ (error = none → ∃ place, after.Leads [] path.names place) := by
  cases makes with
  | atOnce first =>
    obtain ⟨made, leads⟩ := makesWay_of_makeDirectory tidy sound first
    exact ⟨made, fun _ => leads⟩
  | kept _ stays =>
    refine ⟨⟨Grows.refl tree, sound, Or.inl rfl⟩, fun silent => ?_⟩
    exact leads_of_isDirectory tidy (stays silent)
  | refused _ inner stays =>
    exact ⟨(way _ _ inner).1, fun silent => leads_of_isDirectory tidy (stays silent)⟩
  | afterwards first inner again =>
    obtain ⟨made, leads⟩ := (way _ _ inner).2 _ _ first again
    exact ⟨made, fun _ => leads⟩

theorem makeAll_spec {count : Nat} {path : Path} (tidy : path.Tidy)
    (enough : path.names.length < count) (sound : tree.Sound) (grounded : tree.Grounded path.names)
    {after : FileTree} {error : Option SystemError}
    (result : makeAll (path.ancestorsWithin count) tree = (after, error)) :
    MakesWay tree after path.names ∧ (error = none → ∃ place, after.Leads [] path.names place) := by
  induction count generalizing path after error with
  | zero => omega
  | succ count ih =>
    rw [Path.ancestorsWithin, if_neg (by simp [Path.isEmpty_of_isAbsolute tidy.1])] at result
    cases up : path.parent? with
    | none =>
      rw [up] at result
      refine (makes_of_makeAll result).spec tidy sound ?_
      intro middle failed inner
      cases inner
      refine ⟨⟨Grows.refl tree, sound, Or.inl rfl⟩, fun reason made first again => ?_⟩
      rw [first] at again
      cases again
    | some above =>
      rw [up] at result
      obtain ⟨aboveTidy, steps, short⟩ := tidy.parent up
      obtain ⟨front, last, spelled⟩ := (List.eq_nil_or_concat path.names).resolve_left steps
      rw [List.concat_eq_append] at spelled
      have front_ : above.names = front := by rw [short, spelled, List.dropLast_concat]
      rw [← front_] at spelled
      have moves : last ≠ "." := by
        rintro rfl
        exact tidy.2 (by simp [spelled])
      have lengths := congrArg List.length spelled
      rw [List.length_append, List.length_singleton] at lengths
      have grounded' : tree.Grounded above.names := fun front climbs =>
        grounded front (climbs.trans (spelled ▸ List.prefix_append _ _))
      refine (makes_of_makeAll result).spec tidy sound ?_
      intro middle failed inner
      obtain ⟨way, _⟩ := ih aboveTidy (by omega) grounded' inner
      refine ⟨?_, fun reason made first again => way.deeper sound tidy spelled first again⟩
      rw [spelled] at grounded ⊢
      exact way.longer sound (proper_names above) grounded moves

theorem makeDirectories_spec {path : Path} (tidy : path.Tidy) (sound : tree.Sound)
    (grounded : tree.Grounded path.names) {after : FileTree} {error : Option SystemError}
    (result : tree.makeDirectories path = (after, error)) :
    MakesWay tree after path.names ∧ (error = none → ∃ place, after.Leads [] path.names place) := by
  apply makeAll_spec tidy _ sound grounded result
  rw [Path.names, List.length_map]
  exact Nat.lt_succ_of_le (List.length_filter_le _ _)

end TrpcRouters.FileTree
