import TrpcRouters.Proofs.FileTree.Growth

/-! How a path is followed, said once for both ends: the steps up to the first link, with one case for each
thing that a step can do, and the whole way, from link to link. What is shown of ways that lead somewhere
is shown by going through these cases. -/

namespace TrpcRouters.FileTree
variable {tree : FileTree}

/-- What following steps up to the first link comes to, if it comes to anything: one case for each thing
that a step can do. -/
inductive Advances (tree : FileTree) (followLast : Bool) : Place → List RawString → Advance → Prop where
  | here {place : Place} {node : Node} (held : tree.node? place = some node) :
    Advances tree followLast place [] (.arrived (.found place node))
  | stay {place : Place} {step : RawString} {rest : List RawString} {reached : Advance}
    (inside : tree.node? place = some .directory) (stays : step = ".")
    (later : Advances tree followLast place rest reached) :
    Advances tree followLast place (step :: rest) reached
  | climb {place : Place} {step : RawString} {rest : List RawString} {reached : Advance}
    (inside : tree.node? place = some .directory) (climbs : step = "..")
    (later : Advances tree followLast place.tail rest reached) :
    Advances tree followLast place (step :: rest) reached
  | enter {place : Place} {step : RawString} {rest : List RawString} {reached : Advance} {node : Node}
    (inside : tree.node? place = some .directory) (plain : step ≠ "." ∧ step ≠ "..")
    (fits : step.bytes.length ≤ nameLimit) (held : tree.node? (step :: place) = some node)
    (solid : ∀ target, node ≠ .link target)
    (later : Advances tree followLast (step :: place) rest reached) :
    Advances tree followLast place (step :: rest) reached
  | miss {place : Place} {step : RawString} (inside : tree.node? place = some .directory)
    (plain : step ≠ "." ∧ step ≠ "..") (fits : step.bytes.length ≤ nameLimit)
    (free : tree.node? (step :: place) = none) :
    Advances tree followLast place [step] (.arrived (.vacant place step))
  | halt {place : Place} {step : RawString} {target : Path} (inside : tree.node? place = some .directory)
    (plain : step ≠ "." ∧ step ≠ "..") (fits : step.bytes.length ≤ nameLimit)
    (held : tree.node? (step :: place) = some (.link target)) (halts : followLast = false) :
    Advances tree followLast place [step] (.arrived (.found (step :: place) (.link target)))
  | turn {place : Place} {step : RawString} {rest : List RawString} {target : Path}
    (inside : tree.node? place = some .directory) (plain : step ≠ "." ∧ step ≠ "..")
    (fits : step.bytes.length ≤ nameLimit) (held : tree.node? (step :: place) = some (.link target))
    (open_ : ¬(rest = [] ∧ !followLast)) (some_ : target.isEmpty = false) :
    Advances tree followLast place (step :: rest)
      (.detour (if target.isAbsolute then [] else place) (target.steps ++ rest))

section Advancing
variable {followLast : Bool} {place : Place} {step : RawString} {rest steps : List RawString}

theorem advance_stay (inside : tree.node? place = some .directory) (stays : step = ".") :
    tree.advance followLast place (step :: rest) = tree.advance followLast place rest := by
  simp only [advance, inside, if_pos stays]

theorem advance_climb (inside : tree.node? place = some .directory) (climbs : step = "..") :
    tree.advance followLast place (step :: rest) = tree.advance followLast place.tail rest := by
  subst climbs
  rw [advance, inside]
  rfl

theorem advance_enter (inside : tree.node? place = some .directory) (plain : step ≠ "." ∧ step ≠ "..")
    (fits : step.bytes.length ≤ nameLimit) {node : Node} (held : tree.node? (step :: place) = some node)
    (solid : ∀ target, node ≠ .link target) :
    tree.advance followLast place (step :: rest) = tree.advance followLast (step :: place) rest := by
  simp only [advance, inside, if_neg plain.1, if_neg plain.2, if_neg (Nat.not_lt.mpr fits), held]

theorem advance_miss (inside : tree.node? place = some .directory) (plain : step ≠ "." ∧ step ≠ "..")
    (fits : step.bytes.length ≤ nameLimit) (free : tree.node? (step :: place) = none) :
    tree.advance followLast place (step :: rest) =
      if rest = [] then .ok (.arrived (.vacant place step)) else .error .notFound := by
  simp only [advance, inside, if_neg plain.1, if_neg plain.2, if_neg (Nat.not_lt.mpr fits), free]

theorem advance_link (inside : tree.node? place = some .directory) (plain : step ≠ "." ∧ step ≠ "..")
    (fits : step.bytes.length ≤ nameLimit) {target : Path}
    (held : tree.node? (step :: place) = some (.link target)) :
    tree.advance followLast place (step :: rest) =
      if rest = [] ∧ !followLast then .ok (.arrived (.found (step :: place) (.link target)))
      else if target.isEmpty then .error .notFound
      else .ok (.detour (if target.isAbsolute then [] else place) (target.steps ++ rest)) := by
  simp only [advance, inside, if_neg plain.1, if_neg plain.2, if_neg (Nat.not_lt.mpr fits), held]

/-- What the tree decides about a step, whatever comes behind it. -/
inductive Stepping (tree : FileTree) (place : Place) (step : RawString) : Prop where
  | refused (error : SystemError)
    (same : ∀ followLast rest, tree.advance followLast place (step :: rest) = .error error)
  | stay (inside : tree.node? place = some .directory) (stays : step = ".")
  | climb (inside : tree.node? place = some .directory) (climbs : step = "..")
  | enter {node : Node} (inside : tree.node? place = some .directory) (plain : step ≠ "." ∧ step ≠ "..")
    (fits : step.bytes.length ≤ nameLimit) (held : tree.node? (step :: place) = some node)
    (solid : ∀ target, node ≠ .link target)
  | miss (inside : tree.node? place = some .directory) (plain : step ≠ "." ∧ step ≠ "..")
    (fits : step.bytes.length ≤ nameLimit) (free : tree.node? (step :: place) = none)
  | link {target : Path} (inside : tree.node? place = some .directory) (plain : step ≠ "." ∧ step ≠ "..")
    (fits : step.bytes.length ≤ nameLimit) (held : tree.node? (step :: place) = some (.link target))

theorem stepping (tree : FileTree) (place : Place) (step : RawString) : tree.Stepping place step := by
  cases inside : tree.node? place with
  | none => exact .refused .notFound fun _ _ => by rw [advance, inside]
  | some node =>
  cases node with
  | file content stamp executable => exact .refused .notDirectory fun _ _ => by rw [advance, inside]
  | link target => exact .refused .notDirectory fun _ _ => by rw [advance, inside]
  | directory =>
    by_cases stays : step = "."
    · exact .stay inside stays
    by_cases climbs : step = ".."
    · exact .climb inside climbs
    by_cases long : nameLimit < step.bytes.length
    · exact .refused .nameTooLong fun _ _ => by
        simp only [advance, inside, if_neg stays, if_neg climbs, if_pos long]
    have fits := Nat.le_of_not_lt long
    cases held : tree.node? (step :: place) with
    | none => exact .miss inside ⟨stays, climbs⟩ fits held
    | some node =>
      cases node with
      | directory => exact .enter inside ⟨stays, climbs⟩ fits held (by simp)
      | file content stamp executable => exact .enter inside ⟨stays, climbs⟩ fits held (by simp)
      | link target => exact .link inside ⟨stays, climbs⟩ fits held

theorem Advances.result {reached : Advance} (advances : tree.Advances followLast place steps reached) :
    tree.advance followLast place steps = .ok reached := by
  induction advances with
  | here held => rw [advance, held]
  | stay inside stays _ ih => rw [advance_stay inside stays, ih]
  | climb inside climbs _ ih => rw [advance_climb inside climbs, ih]
  | enter inside plain fits held solid _ ih => rw [advance_enter inside plain fits held solid, ih]
  | miss inside plain fits free => rw [advance_miss inside plain fits free, if_pos rfl]
  | halt inside plain fits held halts =>
    rw [advance_link inside plain fits held, if_pos ⟨rfl, by simp [halts]⟩]
  | turn inside plain fits held open_ some_ =>
    rw [advance_link inside plain fits held, if_neg open_, if_neg (by simp [some_])]

theorem advance_eq_ok_iff {reached : Advance} :
    tree.advance followLast place steps = .ok reached ↔ tree.Advances followLast place steps reached := by
  refine ⟨fun result => ?_, Advances.result⟩
  induction steps generalizing place with
  | nil =>
    cases held : tree.node? place with
    | none => simp [advance, held] at result
    | some node =>
      rw [advance, held] at result
      cases result
      exact .here held
  | cons step rest ih =>
    cases tree.stepping place step with
    | refused error same =>
      rw [same] at result
      cases result
    | stay inside stays => exact .stay inside stays (ih (advance_stay inside stays ▸ result))
    | climb inside climbs => exact .climb inside climbs (ih (advance_climb inside climbs ▸ result))
    | enter inside plain fits held solid =>
      exact .enter inside plain fits held solid (ih (advance_enter inside plain fits held solid ▸ result))
    | miss inside plain fits free =>
      rw [advance_miss inside plain fits free] at result
      split at result
      next last =>
        cases result
        exact last ▸ .miss inside plain fits free
      next => cases result
    | link inside plain fits held =>
      rw [advance_link inside plain fits held] at result
      split at result
      next last =>
        cases result
        exact last.1 ▸ .halt inside plain fits held (by simpa using last.2)
      next open_ =>
        split at result
        · cases result
        next some_ =>
          cases result
          exact .turn inside plain fits held open_ (by simpa using some_)

end Advancing

/-- What steps lead to through no more than so many links. -/
inductive Follows (tree : FileTree) (followLast : Bool) : Nat → Place → List RawString → Target → Prop where
  | arrive {links : Nat} {place : Place} {steps : List RawString} {target : Target}
    (reached : tree.Advances followLast place steps (.arrived target)) :
    Follows tree followLast links place steps target
  | detour {links : Nat} {place middle : Place} {steps others : List RawString} {target : Target}
    (reached : tree.Advances followLast place steps (.detour middle others))
    (later : Follows tree followLast links middle others target) :
    Follows tree followLast (links + 1) place steps target

theorem follow_zero (tree : FileTree) (followLast : Bool) (place : Place) (steps : List RawString) :
    tree.follow followLast 0 place steps =
      match tree.advance followLast place steps with
      | .error error => .error error
      | .ok (.arrived target) => .ok target
      | .ok (.detour _ _) => .error .tooManyLinks :=
  (follow.eq_def ..).trans rfl

theorem follow_succ (tree : FileTree) (followLast : Bool) (links : Nat) (place : Place)
    (steps : List RawString) :
    tree.follow followLast (links + 1) place steps =
      match tree.advance followLast place steps with
      | .error error => .error error
      | .ok (.arrived target) => .ok target
      | .ok (.detour middle others) => tree.follow followLast links middle others :=
  (follow.eq_def ..).trans rfl

section Following
variable {followLast : Bool} {links : Nat} {place : Place} {steps : List RawString}

theorem follow_of_error {error : SystemError} (failed : tree.advance followLast place steps = .error error)
    (links : Nat) : tree.follow followLast links place steps = .error error := by
  cases links with
  | zero => rw [follow_zero, failed]
  | succ links => rw [follow_succ, failed]

theorem follow_of_arrived {target : Target}
    (arrived : tree.advance followLast place steps = .ok (.arrived target)) (links : Nat) :
    tree.follow followLast links place steps = .ok target := by
  cases links with
  | zero => rw [follow_zero, arrived]
  | succ links => rw [follow_succ, arrived]

theorem Follows.result {target : Target} (follows : tree.Follows followLast links place steps target) :
    tree.follow followLast links place steps = .ok target := by
  induction follows with
  | arrive reached => exact follow_of_arrived reached.result _
  | detour reached _ ih =>
    rw [follow_succ, reached.result]
    exact ih

theorem follow_eq_ok_iff {target : Target} :
    tree.follow followLast links place steps = .ok target ↔
      tree.Follows followLast links place steps target := by
  refine ⟨fun result => ?_, Follows.result⟩
  induction links generalizing place steps with
  | zero =>
    cases reached : tree.advance followLast place steps with
    | error error => simp [follow_zero, reached] at result
    | ok way =>
      rw [follow_zero, reached] at result
      cases way with
      | detour middle others => cases result
      | arrived found =>
        cases result
        exact .arrive (advance_eq_ok_iff.mp reached)
  | succ links ih =>
    cases reached : tree.advance followLast place steps with
    | error error => simp [follow_succ, reached] at result
    | ok way =>
      rw [follow_succ, reached] at result
      cases way with
      | detour middle others => exact .detour (advance_eq_ok_iff.mp reached) (ih result)
      | arrived found =>
        cases result
        exact .arrive (advance_eq_ok_iff.mp reached)

theorem Follows.mono {target : Target} (follows : tree.Follows followLast links place steps target)
    {more : Nat} (fewer : links ≤ more) : tree.Follows followLast more place steps target := by
  induction follows generalizing more with
  | arrive reached => exact .arrive reached
  | detour reached _ ih =>
    obtain ⟨more, rfl⟩ := Nat.exists_eq_add_one.mpr (Nat.lt_of_lt_of_le (Nat.succ_pos _) fewer)
    exact .detour reached (ih (Nat.le_of_succ_le_succ fewer))

theorem follow_unique {followLast : Bool} {links links' : Nat} {place : Place} {steps : List RawString}
    {target target' : Target} (result : tree.follow followLast links place steps = .ok target)
    (result' : tree.follow followLast links' place steps = .ok target') : target = target' := by
  rw [follow_eq_ok_iff] at result result'
  have one : ∀ {place steps reached reached'}, tree.Advances followLast place steps reached →
      tree.Advances followLast place steps reached' → reached = reached' :=
    fun first second => Except.ok.inj (first.result.symm.trans second.result)
  induction result generalizing links' with
  | arrive reached =>
    cases result' with
    | arrive reached' =>
      cases one reached reached'
      rfl
    | detour reached' _ => cases one reached reached'
  | detour reached _ ih =>
    cases result' with
    | arrive reached' => cases one reached reached'
    | detour reached' later' =>
      cases one reached reached'
      exact ih later'

end Following

end TrpcRouters.FileTree
