import TrpcRouters.Job
import TrpcRouters.Proofs.FileTree.Below

/-! What a job makes of a world, whether it ends well or fails: a rule for each way to put jobs together,
and what writing a file with the directories above it changes. -/

namespace TrpcRouters

def Event.line? : Event → Option String
  | progress line => some line
  | _ => none

def Event.command? : Event → Option Command
  | called command => some command
  | _ => none

def World.lines (world : World) : List String :=
  world.log.filterMap Event.line?

def World.calls (world : World) : List Command :=
  world.log.filterMap Event.command?

namespace Job
variable {α β : Type}

/-- How a job ends that is done for its effects. -/
abbrev Outcome := EStateM.Result Failure World Unit

def failure? : Outcome → Option Failure
  | .ok _ _ => none
  | .error failure _ => some failure

def treeAfter : Outcome → FileTree
  | .ok _ world | .error _ world => world.tree

theorem bind_eq (job : Job α) (next : α → Job β) (world : World) :
    (job >>= next) world =
      match job world with
      | .ok value world => next value world
      | .error failure world => .error failure world := by
  simp only [Bind.bind, EStateM.bind]
  cases job world <;> rfl

theorem report_eq (event : Event) (world : World) :
    Job.report event world = .ok () { world with log := world.log ++ [event] } :=
  rfl

theorem forM_report (event : α → Event) (elements : List α) (world : World) :
    (elements.forM fun element => Job.report (event element)) world =
      .ok () { world with log := world.log ++ elements.map event } := by
  induction elements generalizing world with
  | nil => simp [List.forM, Pure.pure, EStateM.pure]
  | cons first rest ih =>
    rw [List.forM, bind_eq, report_eq]
    simp [ih]

theorem ask_eq (question : FileTree → α) (world : World) :
    Job.ask question world = .ok (question world.tree) world :=
  rfl

theorem change_eq (action : FileTree → FileTree × α) (world : World) :
    Job.change action world =
      .ok (action world.tree).2 { world with tree := (action world.tree).1 } :=
  rfl

theorem ofExcept_eq {ε : Type} (explain : ε → Failure) (result : Except ε α) (world : World) :
    Job.ofExcept explain result world =
      match result with
      | .ok value => .ok value world
      | .error error => .error (explain error) world := by
  cases result <;> rfl

theorem modify_eq (edit : World → World) (world : World) :
    (modify edit : Job PUnit) world = .ok () (edit world) :=
  rfl

theorem tryCatch_eq (job : Job α) (rescue : Failure → Job α) (world : World) :
    (tryCatch job rescue) world =
      match job world with
      | .ok value world => .ok value world
      | .error failure world => rescue failure world := by
  simp only [tryCatch, tryCatchThe, MonadExceptOf.tryCatch]
  delta EStateM.tryCatch
  cases job world <;> rfl

theorem absolute_eq (path : Path) (world : World) :
    Job.absolute path world =
      match world.tree.absolute path with
      | .ok whole => .ok whole world
      | .error error => .error (.system error) world := by
  rw [Job.absolute, bind_eq, ask_eq]
  cases world.tree.absolute path <;> rfl

theorem makeDirectories_eq (path : Path) (world : World) :
    Job.makeDirectories path world =
      match world.tree.makeDirectories path with
      | (tree, none) => .ok () { world with tree }
      | (tree, some error) => .error (.emission path error) { world with tree } := by
  rw [Job.makeDirectories, bind_eq, change_eq]
  rcases world.tree.makeDirectories path with ⟨tree, _ | error⟩ <;> rfl

/-- From every world that `before` holds of, a job ends well with `after` or fails with `failing`. -/
structure Meets (before : World → Prop) (job : Job α) (after : α → World → Prop)
    (failing : Failure → World → Prop) : Prop where
  run (world : World) (start : before world) :
    match job world with
    | .ok value world => after value world
    | .error failure world => failing failure world

namespace Meets
variable {before : World → Prop} {after : α → World → Prop} {failing : Failure → World → Prop}

theorem pure {value : α} (held : ∀ world, before world → after value world) :
    Meets before (Pure.pure value) after failing :=
  ⟨held⟩

theorem throw {failure : Failure} (held : ∀ world, before world → failing failure world) :
    Meets before (MonadExcept.throw failure : Job α) after failing :=
  ⟨held⟩

theorem bind {job : Job α} {next : α → Job β} (middle : α → World → Prop)
    {after : β → World → Prop} (first : Meets before job middle failing)
    (second : ∀ value, Meets (middle value) (next value) after failing) :
    Meets before (job >>= next) after failing := by
  constructor
  intro world start
  have early := first.run world start
  rw [bind_eq]
  cases reached : job world with
  | ok value middle =>
    rw [reached] at early
    exact (second value).run middle early
  | error failure middle =>
    rw [reached] at early
    exact early

/-- What does not depend on the world can be taken for granted. -/
theorem assume {job : Job α} {fact : Prop} (given : fact → Meets before job after failing) :
    Meets (fun world => before world ∧ fact) job after failing :=
  ⟨fun world start => (given start.2).run world start.1⟩

theorem weaken {job : Job α} {weaker : α → World → Prop} (meets : Meets before job after failing)
    (held : ∀ value world, after value world → weaker value world) :
    Meets before job weaker failing := by
  constructor
  intro world start
  have ended := meets.run world start
  cases result : job world with
  | ok value world =>
    rw [result] at ended
    exact held value world ended
  | error failure world =>
    rw [result] at ended
    exact ended

theorem report {event : Event} {after : Unit → World → Prop}
    (held : ∀ world, before world → after () { world with log := world.log ++ [event] }) :
    Meets before (Job.report event) after failing :=
  ⟨held⟩

theorem ask {question : FileTree → α} :
    Meets before (Job.ask question)
      (fun value world => before world ∧ value = question world.tree) failing :=
  ⟨fun _ start => ⟨start, rfl⟩⟩

theorem ofExcept {ε : Type} {explain : ε → Failure} {result : Except ε α}
    (good : ∀ value, result = .ok value → ∀ world, before world → after value world)
    (bad : ∀ error, result = .error error → ∀ world, before world → failing (explain error) world) :
    Meets before (Job.ofExcept explain result) after failing := by
  cases result with
  | ok value => exact ⟨good value rfl⟩
  | error error => exact ⟨bad error rfl⟩

theorem change {action : FileTree → FileTree × α}
    (held : ∀ world, before world →
      after (action world.tree).2 { world with tree := (action world.tree).1 }) :
    Meets before (Job.change action) after failing :=
  ⟨held⟩

theorem forM {γ : Type} {elements : List γ} {body : γ → Job Unit}
    (step : ∀ element ∈ elements, Meets before (body element) (fun _ => before) failing) :
    Meets before (elements.forM body) (fun _ => before) failing := by
  induction elements with
  | nil => exact pure fun _ start => start
  | cons first rest ih =>
    rw [List.forM]
    apply bind _ (step first (List.mem_cons_self ..))
    intro _
    exact ih fun element member => step element (List.mem_cons_of_mem _ member)

end Meets

end Job

open FileTree

/-- What writing a file changes, with all directories above it. -/
structure Emitted (path : Path) (before after : World) : Prop where
  log : after.log = before.log
  grows : Grows before.tree after.tree
  sound : after.tree.Sound
  place {root : Path} {rest : List RawString} {place : Place} : root.Below path rest →
    before.tree.Leads [] root.names place → before.tree.LinkFree place →
    ∀ other, after.tree.node? other = before.tree.node? other ∨
      ∃ inner, inner ≠ [] ∧ inner <+: rest ∧ other = inner.reverse ++ place

namespace Emitted
variable {path : Path} {before middle after : World}

theorem idle (sound : before.tree.Sound) : Emitted path before before :=
  ⟨rfl, Grows.refl _, sound, fun _ _ _ _ => Or.inl rfl⟩

theorem trans (early : Emitted path before middle) (late : Emitted path middle after) :
    Emitted path before after where
  log := late.log.trans early.log
  grows := early.grows.trans late.grows
  sound := late.sound
  place below leads free other := by
    rcases late.place below (leads.grows early.grows) (free.grows early.grows) other with kept | there
    · rw [kept]
      exact early.place below leads free other
    · exact Or.inr there

theorem of_makeDirectories (sound : before.tree.Sound) {above : Path} (up : path.parent? = some above)
    {tree : FileTree} {error : Option SystemError}
    (result : before.tree.makeDirectories above = (tree, error)) :
    Emitted path before { before with tree } := by
  obtain ⟨grows, sound'⟩ := makeDirectories_grows sound result
  refine ⟨rfl, grows, sound', fun {root rest place} below leads free other => ?_⟩
  obtain ⟨shared, found, tidy, names⟩ := below.parent
  rw [up] at found
  cases found
  have named : ∀ name ∈ rest.dropLast, Path.IsName name := fun name member =>
    below.named name (List.dropLast_subset rest member)
  obtain ⟨_, _, changed⟩ := makeDirectories_below sound leads tidy names named result
  rcases changed free other with kept | ⟨inner, some_, short, there⟩
  · exact Or.inl kept
  · exact Or.inr ⟨inner, some_, short.trans (List.dropLast_prefix rest), there⟩

theorem of_write (sound : before.tree.Sound) {content : Bytes} {tree : FileTree}
    (written : before.tree.write path content = .ok tree) : Emitted path before { before with tree } := by
  obtain ⟨_, _, grows, sound', _, _⟩ := write_spec sound written
  refine ⟨rfl, grows, sound', fun {root rest place} below leads free other => ?_⟩
  obtain ⟨_, _, changed⟩ := write_below sound leads below written
  exact (changed free other).imp_right fun there => ⟨rest, below.some_, List.prefix_refl _, there⟩

end Emitted

/-- A failed emission names the file or the directory above it. -/
def Blames (path : Path) (failure : Failure) : Prop :=
  ∃ named error, failure = .emission named error ∧ (named = path ∨ path.parent? = some named)

def Job.write (path : Path) (content : String) : Job Unit := do
  match (← get).tree.write path (Text.encode content) with
  | .ok tree => modify fun world => { world with tree }
  | .error error => throw (.emission path error)

theorem Job.emit_eq (path : Path) (content : String) :
    Job.emit path content =
      match path.parent? with
      | some above => Job.makeDirectories above >>= fun _ => Job.write path content
      | none => Job.write path content := by
  rw [Job.emit]
  cases path.parent? <;> rfl

theorem Job.write_meets {before : World} (path : Path) (content : String) :
    Job.Meets (Emitted path before) (Job.write path content)
      (fun _ world => Emitted path before world)
      (fun failure world => Emitted path before world ∧ Blames path failure) := by
  refine .bind (fun value world => Emitted path before world ∧ value = world)
    ⟨fun _ emitted => ⟨emitted, rfl⟩⟩ fun world => ⟨?_⟩
  rintro _ ⟨emitted, rfl⟩
  cases written : world.tree.write path (Text.encode content) with
  | ok tree => exact emitted.trans (.of_write emitted.sound written)
  | error error => exact ⟨emitted, path, error, rfl, Or.inl rfl⟩

theorem Job.emit_meets {before : World} (sound : before.tree.Sound) (path : Path) (content : String) :
    Job.Meets (fun world => world = before) (Job.emit path content)
      (fun _ world => Emitted path before world)
      (fun failure world => Emitted path before world ∧ Blames path failure) := by
  rw [Job.emit_eq]
  cases up : path.parent? with
  | none =>
    constructor
    rintro world rfl
    exact (Job.write_meets path content).run world (.idle sound)
  | some above =>
    refine .bind (fun _ => Emitted path before) ⟨?_⟩ fun _ => Job.write_meets path content
    rintro world rfl
    rw [Job.makeDirectories_eq]
    rcases made : world.tree.makeDirectories above with ⟨tree, _ | error⟩
    · exact .of_makeDirectories sound up made
    · exact ⟨.of_makeDirectories sound up made, above, error, rfl, Or.inr up⟩

end TrpcRouters
