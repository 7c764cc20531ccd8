import TrpcRouters.Proofs.FileTree.Following

/-! Where paths lead. A path is followed through its first steps and then through the others; what is
found depends only on the directories and links on the way. -/

namespace TrpcRouters.FileTree
variable {tree : FileTree}

/-- Steps lead from one place to a directory at another. -/
def Leads (tree : FileTree) (from_ : Place) (steps : List RawString) (place : Place) : Prop :=
  tree.follow true linkLimit from_ steps = .ok (.found place .directory)

instance (tree : FileTree) (from_ : Place) (steps : List RawString) (place : Place) :
    Decidable (tree.Leads from_ steps place) :=
  match result : tree.follow true linkLimit from_ steps with
  | .ok target => decidable_of_iff (target = .found place .directory) (by simp [Leads, result])
  | .error _ => .isFalse (by simp [Leads, result])

theorem advance_append (tree : FileTree) (followLast : Bool) {rest : List RawString} (some_ : rest ≠ [])
    (place : Place) (front : List RawString) :
    tree.advance followLast place (front ++ rest) =
      match tree.advance true place front with
      | .error error => .error error
      | .ok (.arrived (.vacant _ _)) => .error .notFound
      | .ok (.arrived (.found middle _)) => tree.advance followLast middle rest
      | .ok (.detour middle steps) => .ok (.detour middle (steps ++ rest)) := by
  induction front generalizing place with
  | nil =>
    obtain ⟨step, others, rfl⟩ := List.exists_cons_of_ne_nil some_
    cases held : tree.node? place with
    | none => simp only [List.nil_append, advance, held]
    | some node => simp only [List.nil_append, advance, held]
  | cons step front ih =>
    have more : front ++ rest ≠ [] := by simp [some_]
    rw [List.cons_append]
    cases tree.stepping place step with
    | refused error same => rw [same, same]
    | stay inside stays =>
      rw [advance_stay inside stays, advance_stay inside stays]
      exact ih place
    | climb inside climbs =>
      rw [advance_climb inside climbs, advance_climb inside climbs]
      exact ih place.tail
    | enter inside plain fits held solid =>
      rw [advance_enter inside plain fits held solid, advance_enter inside plain fits held solid]
      exact ih (step :: place)
    | miss inside plain fits free =>
      rw [advance_miss inside plain fits free, advance_miss inside plain fits free, if_neg more]
      by_cases last : front = [] <;> simp [last]
    | link inside plain fits held =>
      rw [advance_link inside plain fits held, advance_link inside plain fits held]
      simp only [more, false_and, Bool.not_true, Bool.false_eq_true, and_false, ↓reduceIte]
      split
      · rfl
      · simp only [List.append_assoc]

theorem follow_append (tree : FileTree) (links : Nat) (place : Place) (front : List RawString) :
    ∃ left ≤ links, ∀ (followLast : Bool) (rest : List RawString), rest ≠ [] →
      tree.follow followLast links place (front ++ rest) =
        match tree.follow true links place front with
        | .error error => .error error
        | .ok (.vacant _ _) => .error .notFound
        | .ok (.found middle _) => tree.follow followLast left middle rest := by
  induction links generalizing place front with
  | zero =>
    refine ⟨0, Nat.le_refl _, fun followLast rest some_ => ?_⟩
    simp only [follow_zero, advance_append tree followLast some_]
    cases tree.advance true place front with
    | error error => rfl
    | ok reached =>
      cases reached with
      | arrived target => cases target <;> rfl
      | detour middle steps => rfl
  | succ links ih =>
    cases reached : tree.advance true place front with
    | error error =>
      refine ⟨0, Nat.zero_le _, fun followLast rest some_ => ?_⟩
      simp only [follow_succ, advance_append tree followLast some_, reached]
    | ok reached' =>
      cases reached' with
      | arrived target =>
        refine ⟨links + 1, Nat.le_refl _, fun followLast rest some_ => ?_⟩
        simp only [follow_succ, advance_append tree followLast some_, reached]
        cases target <;> rfl
      | detour middle steps =>
        obtain ⟨left, fewer, same⟩ := ih middle steps
        refine ⟨left, Nat.le_succ_of_le fewer, fun followLast rest some_ => ?_⟩
        simp only [follow_succ, advance_append tree followLast some_, reached]
        exact same followLast rest some_

theorem Follows.append {followLast : Bool} {links more : Nat} {place middle : Place} {front rest : List RawString}
    {node : Node} {target : Target} (first : tree.Follows true links place front (.found middle node))
    (second : tree.Follows followLast more middle rest target) (some_ : rest ≠ []) :
    tree.Follows followLast (links + more) place (front ++ rest) target := by
  generalize halfway : Target.found middle node = between at first
  induction first with
  | arrive reached =>
    subst halfway
    have same := advance_append tree followLast some_ _ _ |>.trans (by rw [reached.result])
    cases second with
    | arrive reached' => exact .arrive (advance_eq_ok_iff.mp (same.trans reached'.result))
    | detour reached' later =>
      exact .detour (advance_eq_ok_iff.mp (same.trans reached'.result)) (later.mono (Nat.le_add_left _ _))
  | @detour links _ _ _ _ _ reached _ ih =>
    have same := advance_append tree followLast some_ _ _ |>.trans (by rw [reached.result])
    rw [Nat.add_right_comm]
    exact .detour (advance_eq_ok_iff.mp same) (ih halfway)

/-- Steps that a path can be cut into. -/
def Proper (steps : List RawString) : Prop :=
  ∀ step ∈ steps, step ≠ "" ∧ Path.slash ∉ step.bytes

theorem Proper.tail {step : RawString} {rest : List RawString} (proper : Proper (step :: rest)) : Proper rest :=
  fun other member => proper other (List.mem_cons_of_mem _ member)

/-- What a target says of the tree. -/
def Settled (tree : FileTree) : Target → Prop
  | .found place node => tree.node? place = some node
  | .vacant directory name =>
    tree.node? directory = some .directory ∧ tree.node? (name :: directory) = none ∧ Path.IsName name

/-- What the first part of a way says of the tree. -/
def Reached (tree : FileTree) : Advance → Prop
  | .arrived target => tree.Settled target
  | .detour _ others => Proper others

theorem proper_steps (path : Path) : Proper path.steps := by
  have names : Proper path.names := by
    intro step member
    obtain ⟨segment, inside, rfl⟩ := List.mem_map.mp member
    obtain ⟨cut, some_⟩ := List.mem_filter.mp inside
    refine ⟨?_, by simpa using Text.notMem_of_mem_cut cut⟩
    intro empty
    exact absurd (by simpa using congrArg RawString.bytes empty) (of_decide_eq_true some_)
  unfold Path.steps
  split
  · intro step member
    rcases List.mem_append.mp member with name | dot
    · exact names step name
    · rw [List.mem_singleton.mp dot]
      decide
  · exact names

theorem advance_settled {followLast : Bool} {place : Place} {steps : List RawString} (proper : Proper steps)
    {reached : Advance} (result : tree.Advances followLast place steps reached) :
    tree.Reached reached := by
  induction result with
  | here held => exact held
  | stay _ _ _ ih => exact ih proper.tail
  | climb _ _ _ ih => exact ih proper.tail
  | enter _ _ _ _ _ _ ih => exact ih proper.tail
  | miss inside plain _ free =>
    obtain ⟨notEmpty, whole⟩ := proper _ (List.mem_cons_self ..)
    exact ⟨inside, free, notEmpty, plain.1, plain.2, whole⟩
  | halt _ _ _ held => exact held
  | @turn place step rest target =>
    intro other member
    rcases List.mem_append.mp member with inTarget | inRest
    · exact proper_steps target other inTarget
    · exact proper.tail other inRest

theorem follow_settled {followLast : Bool} {links : Nat} {place : Place} {steps : List RawString}
    (proper : Proper steps) {target : Target}
    (result : tree.follow followLast links place steps = .ok target) : tree.Settled target := by
  rw [follow_eq_ok_iff] at result
  induction result with
  | arrive reached => exact advance_settled proper reached
  | detour reached _ ih => exact ih (advance_settled proper reached)

theorem directory_of_follow {followLast : Bool} {links : Nat} {place : Place} {steps : List RawString}
    (some_ : steps ≠ []) {target : Target}
    (result : tree.follow followLast links place steps = .ok target) :
    tree.node? place = some .directory := by
  have begins : ∀ {reached : Advance}, tree.Advances followLast place steps reached →
      tree.node? place = some .directory := by
    rintro _ (_ | inside | inside | inside | inside | inside | inside)
    · exact absurd rfl some_
    all_goals exact inside
  cases follow_eq_ok_iff.mp result with
  | arrive reached => exact begins reached
  | detour reached _ => exact begins reached

theorem Leads.directory {from_ place : Place} {steps : List RawString} (proper : Proper steps)
    (leads : tree.Leads from_ steps place) : tree.node? place = some .directory :=
  follow_settled proper leads

theorem Leads.append_le {from_ middle : Place} {front : List RawString}
    (leads : tree.Leads from_ front middle) :
    ∃ left ≤ linkLimit, ∀ (followLast : Bool) (rest : List RawString), rest ≠ [] →
      tree.follow followLast linkLimit from_ (front ++ rest) =
        tree.follow followLast left middle rest := by
  obtain ⟨left, fewer, same⟩ := follow_append tree linkLimit from_ front
  refine ⟨left, fewer, fun followLast rest some_ => ?_⟩
  rw [same followLast rest some_, show tree.follow true linkLimit from_ front = _ from leads]

theorem Leads.append {from_ middle : Place} {front : List RawString}
    (leads : tree.Leads from_ front middle) :
    ∃ left, ∀ (followLast : Bool) (rest : List RawString), rest ≠ [] →
      tree.follow followLast linkLimit from_ (front ++ rest) =
        tree.follow followLast left middle rest :=
  leads.append_le.imp fun _ same => same.2

theorem exists_leads {followLast : Bool} {from_ : Place} {front rest : List RawString}
    (proper : Proper front) (some_ : rest ≠ []) {target : Target}
    (result : tree.follow followLast linkLimit from_ (front ++ rest) = .ok target) :
    ∃ middle, tree.Leads from_ front middle := by
  obtain ⟨left, _, same⟩ := follow_append tree linkLimit from_ front
  rw [same followLast rest some_] at result
  cases reached : tree.follow true linkLimit from_ front with
  | error error => simp [reached] at result
  | ok halfway =>
    rw [reached] at result
    cases halfway with
    | vacant directory name => cases result
    | found middle node =>
      have held : tree.node? middle = some node := follow_settled proper reached
      have directory := directory_of_follow some_ result
      rw [held] at directory
      cases directory
      exact ⟨middle, reached⟩

def Target.place : Target → Place
  | .found place _ => place
  | .vacant directory name => name :: directory

/-- No link stands on the way from a place through given steps. -/
def Clear (tree : FileTree) (place : Place) (steps : List RawString) : Prop :=
  ∀ front target, front <+: steps → tree.node? (front.reverse ++ place) ≠ some (.link target)

theorem Clear.tail {place : Place} {step : RawString} {rest : List RawString}
    (clear : tree.Clear place (step :: rest)) : tree.Clear (step :: place) rest := by
  intro front target short
  have longer := clear (step :: front) target (by simpa using short)
  simpa using longer

/-- Steps of a name are short enough, and none of them stays or climbs. -/
def Plain (steps : List RawString) : Prop :=
  ∀ step ∈ steps, step ≠ "." ∧ step ≠ ".."

def Short (steps : List RawString) : Prop :=
  ∀ step ∈ steps, step.bytes.length ≤ nameLimit

instance (steps : List RawString) : Decidable (Short steps) :=
  inferInstanceAs (Decidable (∀ step ∈ steps, _))

theorem Plain.tail {step : RawString} {rest : List RawString} (plain : Plain (step :: rest)) : Plain rest :=
  fun other member => plain other (List.mem_cons_of_mem _ member)

theorem advance_of_plain {followLast : Bool} {place : Place} {steps : List RawString}
    (plain : Plain steps) (clear : tree.Clear place steps) {reached : Advance}
    (result : tree.Advances followLast place steps reached) :
    Short steps ∧ ∃ target, reached = .arrived target ∧ target.place = steps.reverse ++ place := by
  have first : ∀ {step : RawString} {rest : List RawString}, Plain (step :: rest) →
      step ≠ "." ∧ step ≠ ".." := fun plain => plain _ (List.mem_cons_self ..)
  induction result with
  | here held => exact ⟨by simp [Short], _, rfl, rfl⟩
  | stay _ stays => exact absurd stays (first plain).1
  | climb _ climbs => exact absurd climbs (first plain).2
  | enter _ _ fits _ _ _ ih =>
    obtain ⟨short, target, arrived, there⟩ := ih plain.tail clear.tail
    exact ⟨List.forall_mem_cons.mpr ⟨fits, short⟩, target, arrived, by simpa using there⟩
  | miss _ _ fits => exact ⟨by simpa [Short] using fits, _, rfl, rfl⟩
  | halt _ _ _ held => exact absurd (by simpa using held) (clear [_] _ (by simp))
  | @turn place step rest target _ _ _ held =>
    exact absurd (by simpa using held) (clear [step] target (by simp))

theorem place_of_follow {followLast : Bool} {links : Nat} {place : Place} {steps : List RawString}
    (plain : Plain steps) (clear : tree.Clear place steps) {target : Target}
    (result : tree.follow followLast links place steps = .ok target) :
    Short steps ∧ target.place = steps.reverse ++ place := by
  cases follow_eq_ok_iff.mp result with
  | arrive reached =>
    obtain ⟨short, other, same, there⟩ := advance_of_plain plain clear reached
    cases same
    exact ⟨short, there⟩
  | detour reached _ =>
    obtain ⟨_, other, same, _⟩ := advance_of_plain plain clear reached
    cases same

theorem follow_plain (sound : tree.Sound) {followLast : Bool} (links : Nat) {place : Place}
    {steps : List RawString} (plain : Plain steps) (short : Short steps)
    (clear : tree.Clear place steps) {node : Node}
    (held : tree.node? (steps.reverse ++ place) = some node) :
    tree.follow followLast links place steps = .ok (.found (steps.reverse ++ place) node) := by
  suffices advances : tree.Advances followLast place steps (.arrived (.found (steps.reverse ++ place) node))
    from follow_of_arrived advances.result links
  induction steps generalizing place with
  | nil => exact .here held
  | cons step rest ih =>
    have spelled : (step :: rest).reverse ++ place = rest.reverse ++ step :: place := by simp
    have inside := sound.above held (by simp)
    rw [spelled] at held ⊢
    obtain ⟨other, inner⟩ : ∃ other, tree.node? (step :: place) = some other := by
      by_cases last : rest = []
      · exact ⟨node, by simpa [last] using held⟩
      · exact ⟨.directory, sound.above held (by simpa using last)⟩
    have solid : ∀ target, other ≠ .link target := by
      rintro target rfl
      exact clear [step] target (by simp) (by simpa using inner)
    exact .enter inside (plain step (List.mem_cons_self ..)) (short step (List.mem_cons_self ..)) inner
      solid (ih plain.tail (fun other member => short other (List.mem_cons_of_mem _ member)) clear.tail held)

/-- Two trees hold the same where a third has its ways: what the third holds there, or nothing. -/
def AgreeOn (ways first second : FileTree) : Prop :=
  ∀ place node, ways.node? place = some node → node.IsWay →
    first.node? place = second.node? place ∧
      (first.node? place = some node ∨ first.node? place = none)

/-- The first part of a way goes on through a link or ends at a directory. -/
def Advance.Passes : Advance → Prop
  | .arrived (.found _ .directory) | .detour _ _ => True
  | _ => False

/-- The steps from one directory to the next, up to a link or to the end. -/
inductive Goes (tree : FileTree) (followLast : Bool) : Place → List RawString → Advance → Prop where
  | here {place : Place} (inside : tree.node? place = some .directory) :
    Goes tree followLast place [] (.arrived (.found place .directory))
  | stay {place : Place} {step : RawString} {rest : List RawString} {reached : Advance}
    (inside : tree.node? place = some .directory) (stays : step = ".")
    (later : Goes tree followLast place rest reached) :
    Goes tree followLast place (step :: rest) reached
  | climb {place : Place} {step : RawString} {rest : List RawString} {reached : Advance}
    (inside : tree.node? place = some .directory) (climbs : step = "..")
    (later : Goes tree followLast place.tail rest reached) :
    Goes tree followLast place (step :: rest) reached
  | enter {place : Place} {step : RawString} {rest : List RawString} {reached : Advance}
    (inside : tree.node? place = some .directory) (plain : step ≠ "." ∧ step ≠ "..")
    (fits : step.bytes.length ≤ nameLimit)
    (held : tree.node? (step :: place) = some .directory)
    (later : Goes tree followLast (step :: place) rest reached) :
    Goes tree followLast place (step :: rest) reached
  | turn {place : Place} {step : RawString} {rest : List RawString} {target : Path}
    (inside : tree.node? place = some .directory) (plain : step ≠ "." ∧ step ≠ "..")
    (fits : step.bytes.length ≤ nameLimit)
    (held : tree.node? (step :: place) = some (.link target))
    (open_ : ¬(rest = [] ∧ !followLast)) (some_ : target.isEmpty = false) :
    Goes tree followLast place (step :: rest)
      (.detour (if target.isAbsolute then [] else place) (target.steps ++ rest))

theorem Goes.advances {followLast : Bool} {place : Place} {steps : List RawString} {reached : Advance}
    (goes : tree.Goes followLast place steps reached) : tree.Advances followLast place steps reached := by
  induction goes with
  | here inside => exact .here inside
  | stay inside stays _ ih => exact .stay inside stays ih
  | climb inside climbs _ ih => exact .climb inside climbs ih
  | enter inside plain fits held _ ih => exact .enter inside plain fits held (by simp) ih
  | turn inside plain fits held open_ some_ => exact .turn inside plain fits held open_ some_

theorem Goes.advance {followLast : Bool} {place : Place} {steps : List RawString} {reached : Advance}
    (goes : tree.Goes followLast place steps reached) :
    tree.advance followLast place steps = .ok reached :=
  goes.advances.result

theorem goes_of_advances {followLast : Bool} {place : Place} {steps : List RawString} {reached : Advance}
    (result : tree.Advances followLast place steps reached) (passes : reached.Passes) :
    tree.Goes followLast place steps reached := by
  induction result with
  | @here place node held =>
    cases node with
    | directory => exact .here held
    | file content stamp executable => exact passes.elim
    | link target => exact passes.elim
  | stay inside stays _ ih => exact .stay inside stays (ih passes)
  | climb inside climbs _ ih => exact .climb inside climbs (ih passes)
  | @enter place step rest reached node inside plain fits held solid _ ih =>
    cases node with
    | directory => exact .enter inside plain fits held (ih passes)
    | link target => exact absurd rfl (solid target)
    | file content stamp executable =>
      -- From a file there is no way on, and a file at the end is no directory.
      cases ih passes with
      | here below | stay below | climb below | enter below | turn below =>
        rw [held] at below
        cases below
  | miss => exact passes.elim
  | halt => exact passes.elim
  | turn inside plain fits held open_ some_ => exact .turn inside plain fits held open_ some_
/-- Nothing is found, not even a link to follow. -/
def Blocked (result : Except SystemError Advance) : Prop :=
  ∀ reached, result = .ok reached → ∃ directory name, reached = .arrived (.vacant directory name)

theorem advance_congr {ways first second : FileTree} (agree : AgreeOn ways first second)
    {followLast : Bool} {place : Place} {steps : List RawString} {reached : Advance}
    (goes : ways.Goes followLast place steps reached) :
    first.advance followLast place steps = second.advance followLast place steps ∧
      (first.advance followLast place steps = .ok reached ∨
        Blocked (first.advance followLast place steps)) := by
  have open_ : Node.directory.IsWay := by simp [Node.IsWay]
  induction goes with
  | here inside =>
    obtain ⟨same, here | gone⟩ := agree _ _ inside open_
    · simp [advance, ← same, here]
    · simp [advance, ← same, gone, Blocked]
  | stay inside stays later ih =>
    obtain ⟨same, here | gone⟩ := agree _ _ inside open_
    · simpa [advance, ← same, here, stays] using ih
    · simp [advance, ← same, gone, Blocked]
  | climb inside climbs later ih =>
    obtain ⟨same, here | gone⟩ := agree _ _ inside open_
    · simpa [advance, ← same, here, climbs] using ih
    · simp [advance, ← same, gone, Blocked]
  | @enter place step rest reached inside plain fits held later ih =>
    obtain ⟨same, here | gone⟩ := agree _ _ inside open_
    · obtain ⟨also_, there | nothing⟩ := agree _ _ held open_
      · simpa [advance, ← same, here, plain, Nat.not_lt.mpr fits, ← also_, there] using ih
      · by_cases last : rest = [] <;>
          simp [advance, ← same, here, plain, Nat.not_lt.mpr fits, ← also_, nothing, last, Blocked]
    · simp [advance, ← same, gone, Blocked]
  | @turn place step rest target inside plain fits held passes some_ =>
    obtain ⟨same, here | gone⟩ := agree _ _ inside open_
    · obtain ⟨also_, there | nothing⟩ := agree _ _ held (by simp [Node.IsWay])
      · have first_ : first.Goes followLast place (step :: rest) _ :=
          .turn here plain fits there passes some_
        have second_ : second.Goes followLast place (step :: rest) _ :=
          .turn (same ▸ here) plain fits (also_ ▸ there) passes some_
        exact ⟨first_.advance.trans second_.advance.symm, Or.inl first_.advance⟩
      · by_cases last : rest = [] <;>
          simp [advance, ← same, here, plain, Nat.not_lt.mpr fits, ← also_, nothing, last, Blocked]
    · simp [advance, ← same, gone, Blocked]

section Agreeing
variable {ways first second : FileTree} {followLast : Bool} {place end_ : Place} {steps : List RawString}

theorem follow_of_blocked
    (same : first.advance followLast place steps = second.advance followLast place steps)
    (blocked : Blocked (first.advance followLast place steps)) (links : Nat) :
    first.follow followLast links place steps = second.follow followLast links place steps ∧
      ∀ other node, first.follow followLast links place steps = .ok (.found other node) →
        other = end_ ∧ node = .directory := by
  cases reached : first.advance followLast place steps with
  | error error =>
    rw [follow_of_error reached, follow_of_error (same ▸ reached)]
    simp
  | ok way =>
    obtain ⟨directory, name, rfl⟩ := blocked way reached
    rw [follow_of_arrived reached, follow_of_arrived (same ▸ reached)]
    simp

theorem follow_congr_of_goes (agree : AgreeOn ways first second)
    (goes : ways.Goes followLast place steps (.arrived (.found end_ .directory))) (links : Nat) :
    first.follow followLast links place steps = second.follow followLast links place steps ∧
      ∀ other node, first.follow followLast links place steps = .ok (.found other node) →
        other = end_ ∧ node = .directory := by
  obtain ⟨same, open_ | blocked⟩ := advance_congr agree goes
  · rw [follow_of_arrived open_, follow_of_arrived (same ▸ open_)]
    refine ⟨rfl, fun other node found => ?_⟩
    cases found
    exact ⟨rfl, rfl⟩
  · exact follow_of_blocked same blocked links

/-- What leads to a directory in one tree does so in two others alike, or is blocked in both. -/
theorem follow_congr (agree : AgreeOn ways first second) {links : Nat}
    (leads : ways.follow followLast links place steps = .ok (.found end_ .directory)) :
    first.follow followLast links place steps = second.follow followLast links place steps ∧
      ∀ other node, first.follow followLast links place steps = .ok (.found other node) →
        other = end_ ∧ node = .directory := by
  rw [follow_eq_ok_iff] at leads
  generalize ends : Target.found end_ .directory = target at leads
  induction leads with
  | arrive reached =>
    subst ends
    exact follow_congr_of_goes agree (goes_of_advances reached trivial) _
  | detour reached _ ih =>
    obtain ⟨same, open_ | blocked⟩ := advance_congr agree (goes_of_advances reached trivial)
    · rw [follow_succ, follow_succ, ← same, open_]
      exact ih ends
    · exact follow_of_blocked same blocked _

end Agreeing

section Meeting
variable {first second both : FileTree} {place end_ other : Place} {steps : List RawString}

/-- Where two trees have a way on, it is the same, and a third tree has it as well. -/
def Meet (first second both : FileTree) : Prop :=
  ∀ place node other, first.node? place = some node → second.node? place = some other →
    node.IsWay → other.IsWay → both.node? place = some node ∧ other = node

theorem Goes.meet (meet : Meet first second both) {followLast : Bool} {reached reached' : Advance}
    (goes : first.Goes followLast place steps reached)
    (goes' : second.Goes followLast place steps reached') :
    both.Goes followLast place steps reached ∧ reached' = reached := by
  have open_ : Node.directory.IsWay := by simp [Node.IsWay]
  have shared : ∀ {place}, first.node? place = some .directory →
      second.node? place = some .directory → both.node? place = some .directory :=
    fun inside inside' => (meet _ _ _ inside inside' open_ open_).1
  induction goes with
  | here inside =>
    cases goes' with
    | here inside' => exact ⟨.here (shared inside inside'), rfl⟩
  | stay inside stays later ih =>
    cases goes' with
    | stay inside' _ later' =>
      obtain ⟨later, same⟩ := ih later'
      exact ⟨.stay (shared inside inside') stays later, same⟩
    | climb _ climbs => simp [stays] at climbs
    | enter _ plain => exact absurd stays plain.1
    | turn _ plain => exact absurd stays plain.1
  | climb inside climbs later ih =>
    cases goes' with
    | stay _ stays => simp [climbs] at stays
    | climb inside' _ later' =>
      obtain ⟨later, same⟩ := ih later'
      exact ⟨.climb (shared inside inside') climbs later, same⟩
    | enter _ plain => exact absurd climbs plain.2
    | turn _ plain => exact absurd climbs plain.2
  | enter inside plain fits held later ih =>
    cases goes' with
    | stay _ stays => exact absurd stays plain.1
    | climb _ climbs => exact absurd climbs plain.2
    | enter inside' _ _ held' later' =>
      obtain ⟨later, same⟩ := ih later'
      exact ⟨.enter (shared inside inside') plain fits (shared held held') later, same⟩
    | turn _ _ _ held' =>
      cases (meet _ _ _ held held' open_ (by simp [Node.IsWay])).2
  | turn inside plain fits held passes some_ =>
    cases goes' with
    | stay _ stays => exact absurd stays plain.1
    | climb _ climbs => exact absurd climbs plain.2
    | enter _ _ _ held' => cases (meet _ _ _ held held' (by simp [Node.IsWay]) open_).2
    | turn inside' _ _ held' =>
      obtain ⟨there, same⟩ := meet _ _ _ held held' (by simp [Node.IsWay]) (by simp [Node.IsWay])
      cases same
      exact ⟨.turn (shared inside inside') plain fits there passes some_, rfl⟩

theorem follow_meet (meet : Meet first second both) {followLast : Bool} {links : Nat}
    (leads : first.follow followLast links place steps = .ok (.found end_ .directory))
    (leads' : second.follow followLast links place steps = .ok (.found other .directory)) :
    both.follow followLast links place steps = .ok (.found end_ .directory) ∧ other = end_ := by
  rw [follow_eq_ok_iff] at leads leads'
  have goes : ∀ {tree : FileTree} {place steps reached}, tree.Advances followLast place steps reached →
      reached.Passes → tree.Goes followLast place steps reached := goes_of_advances
  generalize ends : Target.found end_ .directory = target at leads
  induction leads with
  | arrive reached =>
    subst ends
    cases leads' with
    | arrive reached' =>
      obtain ⟨way, same⟩ := (goes reached trivial).meet meet (goes reached' trivial)
      cases same
      exact ⟨follow_of_arrived way.advance _, rfl⟩
    | detour reached' _ => cases ((goes reached trivial).meet meet (goes reached' trivial)).2
  | detour reached _ ih =>
    cases leads' with
    | arrive reached' => cases ((goes reached trivial).meet meet (goes reached' trivial)).2
    | detour reached' later' =>
      obtain ⟨way, same⟩ := (goes reached trivial).meet meet (goes reached' trivial)
      cases same
      rw [follow_succ, way.advance]
      exact ih later' ends

theorem Alike.leads (alike : Alike first second) (leads : first.Leads place steps end_)
    (leads' : second.Leads place steps other) : end_ = other := by
  have meet : Meet first second first := fun place node other held held' open_ open' =>
    ⟨held, alike.same held held' open_ open'⟩
  exact (follow_meet meet leads leads').2.symm

theorem Alike.leads_remove (alike : Alike first second) {gone : Place} (inside : gone ≠ [])
    (leads' : second.Leads place steps other) (leads : (first.remove gone).Leads place steps end_) :
    (second.remove gone).Leads place steps end_ := by
  have meet : Meet (first.remove gone) second (second.remove gone) := by
    intro place node other held held' open_ open'
    rw [node?_remove _ inside] at held ⊢
    split at held
    · cases held
    next apart =>
      have same := alike.same held held' open_ open'
      rw [if_neg apart, held', same]
      exact ⟨rfl, rfl⟩
  exact (follow_meet meet leads leads').1

end Meeting

theorem Leads.grows {before after : FileTree} {from_ place : Place} {steps : List RawString}
    (leads : before.Leads from_ steps place) (grows : Grows before after) :
    after.Leads from_ steps place := by
  have agree : AgreeOn before after before := fun other node held open_ =>
    ⟨(grows.way held open_).trans held.symm, Or.inl (grows.way held open_)⟩
  exact (follow_congr agree leads).1.trans leads

end TrpcRouters.FileTree
