import TrpcRouters.Proofs.FileTree.Spelling

/-! The places that steps lead past in a tree without links. The steps alone tell these places, so trees
that hold the same at all of them lead to the same. -/

namespace TrpcRouters.FileTree

def move (place : Place) (step : RawString) : Place :=
  if step = "." then place
  else if step = ".." then place.tail
  else step :: place

/-- All places on the way, from the one that the steps begin at to the one that they lead to. -/
def trail : Place → List RawString → List Place
  | place, [] => [place]
  | place, step :: rest => place :: trail (move place step) rest

def endOf (place : Place) (steps : List RawString) : Place :=
  steps.foldl move place

section Trails
variable {place other : Place} {steps kept : List RawString}

theorem mem_trail_start (place : Place) (steps : List RawString) : place ∈ trail place steps := by
  cases steps with
  | nil => exact List.mem_singleton_self place
  | cons step rest => exact List.mem_cons_self ..

theorem endOf_append (place : Place) (front rest : List RawString) :
    endOf place (front ++ rest) = endOf (endOf place front) rest :=
  List.foldl_append

theorem endOf_plain (plain : Plain steps) (place : Place) : endOf place steps = steps.reverse ++ place := by
  induction steps generalizing place with
  | nil => rfl
  | cons step rest ih =>
    obtain ⟨notDot, notUp⟩ := plain step (List.mem_cons_self ..)
    have later := ih plain.tail (step :: place)
    rw [endOf, List.foldl_cons, move, if_neg notDot, if_neg notUp, ← endOf, later]
    simp

theorem mem_trail_append {front rest : List RawString} (later : other ∈ trail (endOf place front) rest) :
    other ∈ trail place (front ++ rest) := by
  induction front generalizing place with
  | nil => exact later
  | cons step front ih => exact List.mem_cons_of_mem _ (ih later)

theorem Thins.mem_trail_iff (thins : Thins steps kept) :
    other ∈ trail place steps ↔ other ∈ trail place kept := by
  induction thins generalizing place with
  | nil => rfl
  | skip later ih =>
    rw [trail, List.mem_cons, move, if_pos rfl, ih, or_iff_right_iff_imp]
    rintro rfl
    exact mem_trail_start _ _
  | keep step later ih => rw [trail, trail, List.mem_cons, List.mem_cons, ih]

theorem Thins.endOf_eq (thins : Thins steps kept) : endOf place steps = endOf place kept := by
  induction thins generalizing place with
  | nil => rfl
  | skip later ih => exact ih
  | keep step later ih => exact ih

end Trails

section Agreement
variable {first second : FileTree} {followLast : Bool} {place : Place} {steps : List RawString}

theorem advance_congr_trail
    (same : ∀ other ∈ trail place steps, second.node? other = first.node? other) :
    second.advance followLast place steps = first.advance followLast place steps := by
  induction steps generalizing place with
  | nil => rw [advance, advance, same place (mem_trail_start _ _)]
  | cons step rest ih =>
    rw [trail, List.forall_mem_cons] at same
    obtain ⟨here, later⟩ := same
    cases held : first.node? place with
    | none => simp only [advance, here, held]
    | some node =>
      cases node with
      | file content stamp executable => simp only [advance, here, held]
      | link target => simp only [advance, here, held]
      | directory =>
        simp only [advance, here, held]
        have further := ih later
        by_cases stays : step = "."
        · rw [if_pos stays, if_pos stays]
          rwa [move, if_pos stays] at further
        by_cases up : step = ".."
        · rw [if_neg stays, if_neg stays, if_pos up, if_pos up]
          rwa [move, if_neg stays, if_pos up] at further
        rw [move, if_neg stays, if_neg up] at later further
        rw [if_neg stays, if_neg stays, if_neg up, if_neg up, later _ (mem_trail_start _ _), further]

end Agreement

section Unlinked
variable {tree other : FileTree} {followLast : Bool} {place : Place} {steps : List RawString}

/-- What steps lead to without links. -/
structure Arrives (tree : FileTree) (place : Place) (steps : List RawString) (target : Target) : Prop where
  ends : target.place = endOf place steps
  passed : ∀ other ∈ trail place steps, tree.node? other = some .directory ∨ other = target.place

theorem Arrives.cons {step : RawString} {rest : List RawString} {target : Target}
    (inside : tree.node? place = some .directory) (later : tree.Arrives (move place step) rest target) :
    tree.Arrives place (step :: rest) target :=
  ⟨later.ends, List.forall_mem_cons.mpr ⟨Or.inl inside, later.passed⟩⟩

theorem arrives_of_advance (free : tree.LinkFree []) {reached : Advance}
    (result : tree.Advances followLast place steps reached) :
    ∃ target, reached = .arrived target ∧ tree.Arrives place steps target := by
  have further : ∀ {place next step rest reached}, tree.node? place = some .directory →
      move place step = next →
      (∃ target, reached = Advance.arrived target ∧ tree.Arrives next rest target) →
      ∃ target, reached = .arrived target ∧ tree.Arrives place (step :: rest) target := by
    rintro place _ step rest reached inside rfl ⟨target, shape, later⟩
    exact ⟨target, shape, later.cons inside⟩
  have down : ∀ {place} {step : RawString}, step ≠ "." ∧ step ≠ ".." → move place step = step :: place :=
    fun plain => by rw [move, if_neg plain.1, if_neg plain.2]
  induction result with
  | here held => exact ⟨_, rfl, rfl, by simp [trail, Target.place]⟩
  | stay inside stays _ ih => exact further inside (if_pos stays) ih
  | climb inside climbs _ ih => exact further inside (by rw [climbs]; rfl) ih
  | enter inside plain _ _ _ _ ih => exact further inside (down plain) ih
  | miss inside plain _ none_ =>
    exact further inside (down plain) ⟨_, rfl, rfl, by simp [trail, Target.place]⟩
  | @halt place step target _ _ _ held => exact absurd (by simpa using held) (free (step :: place) target)
  | @turn place step rest target _ _ _ held =>
    exact absurd (by simpa using held) (free (step :: place) target)

theorem arrives_of_follow (free : tree.LinkFree []) {links : Nat} {target : Target}
    (result : tree.follow followLast links place steps = .ok target) : tree.Arrives place steps target := by
  cases follow_eq_ok_iff.mp result with
  | arrive reached =>
    obtain ⟨found, same, arrives⟩ := arrives_of_advance free reached
    cases same
    exact arrives
  | detour reached _ =>
    obtain ⟨found, same, _⟩ := arrives_of_advance free reached
    cases same

theorem arrives_of_resolve (free : tree.LinkFree []) {path : Path} {target : Target}
    (result : tree.resolve followLast path = .ok target) :
    tree.Arrives (tree.start path) (path.moves.map Component.raw) target := by
  have arrives := arrives_of_follow free (follow_of_resolveSteps result)
  have thins := thins_steps path
  exact ⟨arrives.ends.trans thins.endOf_eq, fun place member =>
    arrives.passed place (thins.mem_trail_iff.mpr member)⟩

theorem follow_congr_trail (free : tree.LinkFree [])
    (same : ∀ there ∈ trail place steps, other.node? there = tree.node? there) (links : Nat) :
    other.follow followLast links place steps = tree.follow followLast links place steps := by
  have advances : other.advance followLast place steps = tree.advance followLast place steps :=
    advance_congr_trail same
  cases reached : tree.advance followLast place steps with
  | error error => rw [follow_of_error reached, follow_of_error (advances.trans reached)]
  | ok way =>
    obtain ⟨target, rfl, _⟩ := arrives_of_advance free (advance_eq_ok_iff.mp reached)
    rw [follow_of_arrived reached, follow_of_arrived (advances.trans reached)]

/-- What a path leads to depends on what there is on its way. -/
theorem entry_congr_trail (free : tree.LinkFree []) {path : Path}
    (home : other.workingDirectory = tree.workingDirectory)
    (same : ∀ there ∈ trail (tree.start path) (path.moves.map Component.raw),
      other.node? there = tree.node? there) :
    other.entry followLast path = tree.entry followLast path := by
  have start : other.start path = tree.start path := by
    rw [FileTree.start, FileTree.start, home]
  have follows : other.follow followLast linkLimit (tree.start path) path.steps =
      tree.follow followLast linkLimit (tree.start path) path.steps :=
    follow_congr_trail free (fun there member =>
      same there ((thins_steps path).mem_trail_iff.mp member)) linkLimit
  rw [entry, entry, resolve, resolve, resolveSteps, resolveSteps, start, follows]

theorem place_of_place? (free : tree.LinkFree []) {path : Path} (found : tree.place? path = some place) :
    place = endOf (tree.start path) (path.moves.map Component.raw) := by
  unfold place? at found
  split at found
  next reached =>
    cases found
    exact (arrives_of_resolve free reached).ends
  next => cases found

end Unlinked

end TrpcRouters.FileTree
