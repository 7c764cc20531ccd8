import TrpcRouters.Proofs.FileTree.Sight

/-! Paths in two trees that show the same on their way: they are followed alike, and making directories or
writing a file by such a path does the same in both or is refused in both. -/

namespace TrpcRouters.FileTree

/-- Two ways that end in the same error or at the same place, with the same there but for its stamp. -/
inductive EndAlike : Except SystemError Target → Except SystemError Target → Prop where
  | refused (error : SystemError) : EndAlike (.error error) (.error error)
  | vacant (directory : Place) (name : RawString) :
    EndAlike (.ok (.vacant directory name)) (.ok (.vacant directory name))
  | found (place : Place) {node other : Node} (like : node.unstamped = other.unstamped) :
    EndAlike (.ok (.found place node)) (.ok (.found place other))

/-- Two trees lead along some steps to one directory, and from there on through further steps they show
the same, and no link. The same files may not be written in them. -/
structure Abreast (first second : FileTree) (front : List RawString) (base : Place) (rest : List RawString) :
    Prop where
  leads : first.Leads [] front base
  leads' : second.Leads [] front base
  clear : first.Clear base rest
  same (inner : List RawString) : inner <+: rest →
    first.sight? (inner.reverse ++ base) = second.sight? (inner.reverse ++ base)
  fixed : first.fixed = second.fixed

section Following
variable {first second : FileTree}

theorem advance_alike {base : Place} {rest : List RawString} (plain : Plain rest)
    (clear : first.Clear base rest) (same : ∀ inner, inner <+: rest →
      first.sight? (inner.reverse ++ base) = second.sight? (inner.reverse ++ base))
    (followLast : Bool) :
    ∃ ends ends', EndAlike ends ends' ∧ first.advance followLast base rest = ends.map .arrived ∧
      second.advance followLast base rest = ends'.map .arrived := by
  induction rest generalizing base with
  | nil =>
    rcases sight?_cases (same [] (List.prefix_refl _)) with ⟨held, held'⟩ | ⟨held, held'⟩ |
      ⟨_, held, held'⟩ | ⟨_, _, _, _, held, held'⟩ <;>
      simp only [List.reverse_nil, List.nil_append] at held held' <;>
      simp only [advance, held, held']
    · exact ⟨_, _, .refused _, rfl, rfl⟩
    all_goals exact ⟨_, _, .found base (by rfl), rfl, rfl⟩
  | cons step rest ih =>
    obtain ⟨notDot, notUp⟩ := plain step (List.mem_cons_self ..)
    have later := ih plain.tail clear.tail
      fun inner short => by
        have shown := same (step :: inner) (by simpa using short)
        simpa using shown
    have next := same [step] (by simp)
    rcases sight?_cases (same [] (List.nil_prefix)) with ⟨held, held'⟩ | ⟨held, held'⟩ |
      ⟨_, held, held'⟩ | ⟨_, _, _, _, held, held'⟩ <;>
      simp only [List.reverse_nil, List.nil_append] at held held' <;>
      simp only [advance, held, held', if_neg notDot, if_neg notUp]
    case inr.inl =>
      by_cases long : nameLimit < step.bytes.length
      · simp only [if_pos long]
        exact ⟨_, _, .refused _, rfl, rfl⟩
      simp only [if_neg long]
      rcases sight?_cases next with ⟨inner, inner'⟩ | ⟨inner, inner'⟩ | ⟨target, inner, _⟩ |
        ⟨_, _, _, _, inner, inner'⟩
      · simp only [List.reverse_singleton, List.singleton_append] at inner inner'
        simp only [inner, inner']
        by_cases last : rest = []
        · simp only [if_pos last]
          exact ⟨_, _, .vacant _ _, rfl, rfl⟩
        · simp only [if_neg last]
          exact ⟨_, _, .refused _, rfl, rfl⟩
      · simp only [List.reverse_singleton, List.singleton_append] at inner inner'
        simpa only [inner, inner'] using later
      · exact absurd inner (clear [step] target (by simp))
      · simp only [List.reverse_singleton, List.singleton_append] at inner inner'
        simpa only [inner, inner'] using later
    all_goals exact ⟨_, _, .refused _, rfl, rfl⟩

theorem follow_of_map {tree : FileTree} {followLast : Bool} {place : Place} {steps : List RawString}
    {ends : Except SystemError Target}
    (advanced : tree.advance followLast place steps = ends.map .arrived) (links : Nat) :
    tree.follow followLast links place steps = ends := by
  cases ends with
  | error error => exact follow_of_error advanced links
  | ok target => exact follow_of_arrived advanced links

end Following

/-- A place on the way from another one through given steps. -/
def OnWay (base : Place) (rest : List RawString) (place : Place) : Prop :=
  ∃ inner, inner ≠ [] ∧ inner <+: rest ∧ place = inner.reverse ++ base

namespace Abreast
variable {first second first' second' : FileTree} {front rest : List RawString} {base : Place} {path : Path}

theorem shorter {last : RawString} (abreast : Abreast first second front base (rest ++ [last])) :
    Abreast first second front base rest where
  leads := abreast.leads
  leads' := abreast.leads'
  clear inner target short := abreast.clear inner target (short.trans (List.prefix_append _ _))
  same inner short := abreast.same inner (short.trans (List.prefix_append _ _))
  fixed := abreast.fixed

theorem moved (abreast : Abreast first second front base rest) (grows : Grows first first')
    (grows' : Grows second second') {touched : Place → Prop}
    (together : Together touched first second first' second') :
    Abreast first' second' front base rest where
  leads := abreast.leads.grows grows
  leads' := abreast.leads'.grows grows'
  clear inner target short held := abreast.clear inner target short (grows.link held)
  same inner short := together.sight? (abreast.same inner short)
  fixed := grows.fixed.trans (abreast.fixed.trans grows'.fixed.symm)

theorem follow (abreast : Abreast first second front base rest) (plain : Plain rest) (some_ : rest ≠ [])
    (followLast : Bool) :
    EndAlike (first.follow followLast linkLimit [] (front ++ rest))
      (second.follow followLast linkLimit [] (front ++ rest)) := by
  obtain ⟨left, same⟩ := abreast.leads.append
  obtain ⟨left', same'⟩ := abreast.leads'.append
  rw [same followLast rest some_, same' followLast rest some_]
  obtain ⟨ends, ends', alike, advanced, advanced'⟩ :=
    advance_alike plain abreast.clear abreast.same followLast
  rwa [follow_of_map advanced, follow_of_map advanced']

theorem resolveSteps (abreast : Abreast first second front base rest) (plain : Plain rest)
    (some_ : rest ≠ []) (tidy : path.Tidy) (spelled : path.names = front ++ rest) (followLast : Bool) :
    EndAlike (first.resolveSteps followLast path path.names)
      (second.resolveSteps followLast path path.names) := by
  unfold FileTree.resolveSteps
  rw [start_of_tidy first tidy, start_of_tidy second tidy, spelled]
  split
  · exact .refused _
  · split
    · exact .refused _
    · split
      · exact .refused _
      · exact abreast.follow plain some_ followLast

theorem leads_iff (abreast : Abreast first second front base rest) (plain : Plain rest) :
    (∃ place, first.Leads [] (front ++ rest) place) ↔
      ∃ place, second.Leads [] (front ++ rest) place := by
  by_cases none_ : rest = []
  · rw [none_, List.append_nil]
    exact ⟨fun _ => ⟨base, abreast.leads'⟩, fun _ => ⟨base, abreast.leads⟩⟩
  · have alike := abreast.follow plain none_ true
    unfold Leads
    generalize first.follow true linkLimit [] (front ++ rest) = ends at alike
    generalize second.follow true linkLimit [] (front ++ rest) = ends' at alike
    cases alike with
    | refused error => simp
    | vacant directory name => simp
    | @found there node other like =>
      have same : node = .directory ↔ other = .directory := by
        rw [← Node.unstamped_eq_directory_iff, like, Node.unstamped_eq_directory_iff]
      simp [same]

end Abreast

section Directories
variable {tree first second first' second' : FileTree} {front rest : List RawString} {base : Place} {path : Path}

theorem isDirectory_iff (tidy : path.Tidy) :
    tree.isDirectory path = true ↔ Fits path ∧ ∃ place, tree.Leads [] path.names place := by
  constructor
  · intro directory
    refine ⟨?_, leads_of_isDirectory tidy directory⟩
    unfold isDirectory entry at directory
    cases reached : tree.resolve true path with
    | error error => simp [reached] at directory
    | ok target => exact fits_of_resolveSteps reached
  · rintro ⟨fits, place, leads⟩
    have some_ := Path.isEmpty_of_isAbsolute tidy.1
    have reached : tree.follow true linkLimit [] path.steps = .ok (.found place .directory) := by
      unfold Path.steps
      split
      · -- A separator at the end takes a step that stays in the directory.
        obtain ⟨left, same⟩ := leads.append
        have inside := leads.directory (proper_names path)
        rw [same true ["."] (List.cons_ne_nil _ _)]
        exact follow_of_arrived (by simp [advance, inside]) left
      · exact leads
    simp only [isDirectory, entry, resolve, FileTree.resolveSteps, fits.1, some_, Nat.not_le.mpr fits.2,
      start_of_tidy tree tidy, reached, Bool.false_eq_true, ↓reduceIte]

/-- Without following a link at the end, the first part of a way is the same or ends at a link. -/
theorem Advances.not_last {place : Place} {steps : List RawString} {reached : Advance}
    (result : tree.Advances true place steps reached) :
    tree.advance false place steps = .ok reached ∨
      ∃ there target, tree.advance false place steps = .ok (.arrived (.found there (.link target))) := by
  induction result with
  | here held => exact Or.inl (Advances.here held).result
  | stay inside stays _ ih => rwa [advance_stay inside stays]
  | climb inside climbs _ ih => rwa [advance_climb inside climbs]
  | enter inside plain fits held solid _ ih => rwa [advance_enter inside plain fits held solid]
  | miss inside plain fits free => exact Or.inl (Advances.miss inside plain fits free).result
  | halt _ _ _ _ halts => cases halts
  | @turn place step rest target inside plain fits held _ some_ =>
    by_cases last : rest = []
    · subst last
      exact Or.inr ⟨step :: place, target, (Advances.halt inside plain fits held rfl).result⟩
    · exact Or.inl (Advances.turn inside plain fits held (fun ends => last ends.1) some_).result

theorem exists_found {links : Nat} {from_ place : Place} {steps : List RawString}
    (leads : tree.follow true links from_ steps = .ok (.found place .directory)) :
    ∃ there node, tree.follow false links from_ steps = .ok (.found there node) := by
  rw [follow_eq_ok_iff] at leads
  generalize ends : Target.found place .directory = target at leads
  induction leads with
  | arrive reached =>
    subst ends
    rcases reached.not_last with same | ⟨there, target, link⟩
    · exact ⟨_, _, follow_of_arrived same _⟩
    · exact ⟨_, _, follow_of_arrived link _⟩
  | detour reached _ ih =>
    rcases reached.not_last with same | ⟨there, target, link⟩
    · rw [follow_succ, same]
      exact ih ends
    · exact ⟨_, _, follow_of_arrived link _⟩

theorem exists_refusal (tidy : path.Tidy) : ∃ error, error ≠ .notFound ∧
    ∀ (tree : FileTree) (place : Place), tree.Leads [] path.names place →
      tree.makeDirectory path = .error error := by
  have some_ := Path.isEmpty_of_isAbsolute tidy.1
  unfold makeDirectory FileTree.resolveSteps
  by_cases nul : path.raw.bytes.contains 0 = true
  · exact ⟨.nulInPath, by decide, fun _ _ _ => by rw [if_pos nul]⟩
  by_cases long : pathLimit ≤ path.raw.bytes.length
  · refine ⟨.nameTooLong, by decide, fun _ _ _ => ?_⟩
    rw [if_neg nul, if_neg (by simp [some_]), if_pos long]
  · refine ⟨.exists_, by decide, fun tree place leads => ?_⟩
    obtain ⟨there, node, found⟩ := exists_found leads
    rw [if_neg nul, if_neg (by simp [some_]), if_neg long, start_of_tidy tree tidy, found]

namespace Abreast

theorem isDirectory (abreast : Abreast first second front base rest) (plain : Plain rest) (tidy : path.Tidy)
    (spelled : path.names = front ++ rest) : first.isDirectory path = second.isDirectory path := by
  rw [Bool.eq_iff_iff, isDirectory_iff tidy, isDirectory_iff tidy, spelled, abreast.leads_iff plain]

theorem makeDirectory (abreast : Abreast first second front base rest) (plain : Plain rest)
    (tidy : path.Tidy) (spelled : path.names = front ++ rest) :
    (∃ error, first.makeDirectory path = .error error ∧ second.makeDirectory path = .error error) ∨
    ∃ place, OnWay base rest place ∧ first.makeDirectory path = .ok (first.put place .directory) ∧
      second.makeDirectory path = .ok (second.put place .directory) := by
  by_cases none_ : rest = []
  · rw [none_, List.append_nil] at spelled
    obtain ⟨error, _, refused⟩ := exists_refusal tidy
    have leads := abreast.leads
    have leads' := abreast.leads'
    rw [← spelled] at leads leads'
    exact Or.inl ⟨error, refused _ _ leads, refused _ _ leads'⟩
  · have alike := abreast.resolveSteps plain none_ tidy spelled false
    have there : ∀ target, first.resolveSteps false path path.names = .ok target →
        target.place = rest.reverse ++ base := by
      intro target result
      have followed := follow_of_resolveSteps result
      obtain ⟨left, same⟩ := abreast.leads.append
      rw [start_of_tidy first tidy, spelled, same false rest none_] at followed
      exact (place_of_follow plain abreast.clear followed).2
    unfold FileTree.makeDirectory
    generalize first.resolveSteps false path path.names = ends at alike there
    generalize second.resolveSteps false path path.names = ends' at alike
    cases alike with
    | refused error => exact Or.inl ⟨error, rfl, rfl⟩
    | found place like => exact Or.inl ⟨.exists_, rfl, rfl⟩
    | vacant directory name =>
      exact Or.inr ⟨name :: directory, ⟨rest, none_, List.prefix_refl _, there _ rfl⟩, rfl, rfl⟩

theorem makeAll_cons (abreast : Abreast first second front base rest) (plain : Plain rest)
    (tidy : path.Tidy) (spelled : path.names = front ++ rest) (sound : first.Sound)
    (sound' : second.Sound) {above : List Path}
    (inner : ∃ middle middle' failed, makeAll above first = (middle, failed) ∧
      makeAll above second = (middle', failed) ∧ Together (OnWay base rest) first second middle middle') :
    ∃ first' second' error, makeAll (path :: above) first = (first', error) ∧
      makeAll (path :: above) second = (second', error) ∧
      Together (OnWay base rest) first second first' second' := by
  rw [makeAll, makeAll]
  rcases abreast.makeDirectory plain tidy spelled with ⟨error, refused, refused'⟩ |
    ⟨place, there, made, made'⟩
  · simp only [refused, refused']
    by_cases missing : error = .notFound
    · obtain ⟨middle, middle', failed, makes, makes', together⟩ := inner
      have later := abreast.moved (makeAll_grows sound makes).1 (makeAll_grows sound' makes').1 together
      simp only [if_pos missing, makes, makes']
      cases failed with
      | some reason => exact ⟨middle, middle', _, rfl, rfl, together⟩
      | none =>
        simp only
        rcases later.makeDirectory plain tidy spelled with ⟨error, refused, refused'⟩ |
          ⟨place, there, made, made'⟩
        · simp only [refused, refused', later.isDirectory plain tidy spelled]
          exact ⟨middle, middle', _, rfl, rfl, together⟩
        · simp only [made, made']
          exact ⟨_, _, none, rfl, rfl, together.trans (.put rfl there)⟩
    · simp only [if_neg missing, abreast.isDirectory plain tidy spelled]
      exact ⟨first, second, _, rfl, rfl, .refl⟩
  · simp only [made, made']
    exact ⟨_, _, none, rfl, rfl, .put rfl there⟩

theorem makeAll {count : Nat} (abreast : Abreast first second front base rest) (plain : Plain rest)
    (tidy : path.Tidy) (spelled : path.names = front ++ rest) (sound : first.Sound)
    (sound' : second.Sound) :
    ∃ first' second' error, FileTree.makeAll (path.ancestorsWithin count) first = (first', error) ∧
      FileTree.makeAll (path.ancestorsWithin count) second = (second', error) ∧
      Together (OnWay base rest) first second first' second' := by
  induction count generalizing path rest with
  | zero => exact ⟨first, second, none, rfl, rfl, .refl⟩
  | succ count ih =>
    rw [Path.ancestorsWithin, if_neg (by simp [Path.isEmpty_of_isAbsolute tidy.1])]
    cases up : path.parent? with
    | none =>
      exact abreast.makeAll_cons plain tidy spelled sound sound' ⟨first, second, none, rfl, rfl, .refl⟩
    | some above =>
      obtain ⟨aboveTidy, _, short⟩ := tidy.parent up
      obtain nothing | ⟨before, last, shape⟩ := List.eq_nil_or_concat rest
      · -- The way begins here, so whatever is above it need not be made.
        subst nothing
        rw [List.append_nil] at spelled
        obtain ⟨error, other, refused⟩ := exists_refusal tidy
        have leads := abreast.leads
        have leads' := abreast.leads'
        rw [← spelled] at leads leads'
        have same := abreast.isDirectory plain tidy (by rw [spelled, List.append_nil])
        simp only [FileTree.makeAll, refused _ _ leads, refused _ _ leads', if_neg other, same]
        exact ⟨first, second, _, rfl, rfl, .refl⟩
      · rw [List.concat_eq_append] at shape
        subst shape
        have before_ : above.names = front ++ before := by
          rw [short, spelled, ← List.append_assoc, List.dropLast_concat]
        obtain ⟨middle, middle', failed, makes, makes', together⟩ :=
          ih abreast.shorter (fun step member => plain step (List.mem_append_left _ member)) aboveTidy before_
        refine abreast.makeAll_cons plain tidy spelled sound sound'
          ⟨middle, middle', failed, makes, makes', together.mono ?_⟩
        rintro place ⟨inner, some_, within, there⟩
        exact ⟨inner, some_, within.trans (List.prefix_append _ _), there⟩

theorem makeDirectories (abreast : Abreast first second front base rest) (plain : Plain rest)
    (tidy : path.Tidy) (spelled : path.names = front ++ rest) (sound : first.Sound)
    (sound' : second.Sound) :
    ∃ first' second' error, first.makeDirectories path = (first', error) ∧
      second.makeDirectories path = (second', error) ∧
      Together (OnWay base rest) first second first' second' :=
  abreast.makeAll plain tidy spelled sound sound'

theorem write (abreast : Abreast first second front base rest) (plain : Plain rest) (some_ : rest ≠ [])
    (tidy : path.Tidy) (ends : path.endsInSeparator = false) (spelled : path.names = front ++ rest)
    (content : Bytes) :
    (∃ error, first.write path content = .error error ∧ second.write path content = .error error) ∨
    ∃ first' second', first.write path content = .ok first' ∧ second.write path content = .ok second' ∧
      Together (OnWay base rest) first second first' second' := by
  have steps : path.steps = path.names := by rw [Path.steps, if_neg (by simp [ends])]
  have alike := abreast.resolveSteps plain some_ tidy spelled true
  have there : ∀ target, first.resolveSteps true path path.names = .ok target →
      OnWay base rest target.place := by
    intro target result
    have followed := follow_of_resolveSteps result
    obtain ⟨left, same⟩ := abreast.leads.append
    rw [start_of_tidy first tidy, spelled, same true rest some_] at followed
    exact ⟨rest, some_, List.prefix_refl _, (place_of_follow plain abreast.clear followed).2⟩
  unfold FileTree.write resolve
  simp only [ends, Bool.false_eq_true, ↓reduceIte, steps]
  generalize first.resolveSteps true path path.names = reached at alike there
  generalize second.resolveSteps true path path.names = reached' at alike
  cases alike with
  | refused error => exact Or.inl ⟨error, rfl, rfl⟩
  | vacant directory name => exact Or.inr ⟨_, _, rfl, rfl, .putFile _ _ (there _ rfl)⟩
  | @found place node other like =>
    cases node <;> cases other <;> simp only [Node.unstamped, Node.file.injEq, reduceCtorEq] at like
    case file.file =>
      obtain ⟨_, _, rfl⟩ := like
      dsimp only
      rw [abreast.fixed]
      by_cases shut : place ∈ second.fixed
      · simp only [if_pos shut]
        exact Or.inl ⟨.permissionDenied, rfl, rfl⟩
      · simp only [if_neg shut]
        exact Or.inr ⟨_, _, rfl, rfl, .putFile _ _ (there _ rfl)⟩
    all_goals exact Or.inl ⟨.isDirectory, rfl, rfl⟩

end Abreast

end Directories

end TrpcRouters.FileTree
