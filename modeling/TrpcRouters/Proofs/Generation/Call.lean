import TrpcRouters.Proofs.Generation.Stages

/-! The compiler's call. What comes before it does not depend on the compiler, and a run that gets there is
a function of the answer; any other run fails in one of the first stages. -/

namespace TrpcRouters

namespace Compiler

def prepared (config : CompilerConfig) (request : CompileRequest) (tree : FileTree) :
    FileTree × Except Failure Command :=
  match tree.makeDirectories request.output with
  | (made, some error) => (made, .error (.emission request.output error))
  | (made, none) =>
    match made.absolute request.output with
    | .error error => (made, .error (.system error))
    | .ok output =>
      match made.absolute request.protoRoot with
      | .error error => (made, .error (.system error))
      | .ok protoRoot =>
        (made, .ok (command config made { request with output, protoRoot }))

theorem prepared_spec {config : CompilerConfig} {request : CompileRequest} {tree made : FileTree}
    {outcome : Except Failure Command} (result : prepared config request tree = (made, outcome)) :
    ∃ error, tree.makeDirectories request.output = (made, error) ∧
      match outcome with
      | .ok _ => error = none
      | .error failure => (∃ reason, failure = .system reason) ∨
        ∃ reason, failure = .emission request.output reason := by
  unfold prepared at result
  rcases first : tree.makeDirectories request.output with ⟨after, _ | error⟩
  · rw [first] at result
    simp only at result
    split at result
    · cases result
      exact ⟨none, rfl, Or.inl ⟨_, rfl⟩⟩
    · split at result
      · cases result
        exact ⟨none, rfl, Or.inl ⟨_, rfl⟩⟩
      · cases result
        exact ⟨none, rfl, rfl⟩
  · rw [first] at result
    cases result
    exact ⟨some error, rfl, Or.inr ⟨error, rfl⟩⟩

/-- What the compiler leaves and says. -/
abbrev Answer := FileTree × Except SystemError Finished

def answered (answer : Answer) (log : List Event) : Job.Outcome :=
  match answer with
  | (tree, .error _) => .error notStarted ⟨tree, log⟩
  | (tree, .ok finished) =>
    if finished.status.succeeded then .ok () ⟨tree, log⟩
    else .error (rejection finished) ⟨tree, log⟩

/-- The compiler is called once, after the preparations, if these do not fail. -/
theorem run_eq (executor : Executor) (config : CompilerConfig) {request : CompileRequest}
    (some_ : request.protoFiles.isEmpty = false) (world : World) :
    run executor config request world =
      match prepared config request world.tree with
      | (made, .error failure) => .error failure { world with tree := made }
      | (made, .ok command) => answered (executor command made) (world.log ++ [.called command]) := by
  rw [run, some_, if_neg Bool.false_ne_true, Job.bind_eq, Job.makeDirectories_eq, prepared]
  rcases world.tree.makeDirectories request.output with ⟨made, _ | error⟩
  case some => rfl
  simp only [Job.bind_eq, Job.absolute_eq]
  cases made.absolute request.output with
  | error error => rfl
  | ok output =>
    simp only
    cases made.absolute request.protoRoot with
    | error error => rfl
    | ok protoRoot =>
      simp only [Job.ask_eq, Job.report_eq, Job.change_eq, answered]
      rcases executor _ made with ⟨tree, error | finished⟩
      · rfl
      · simp only
        split <;> rfl

end Compiler

namespace Generation

def closed (scratch : Path) : Job.Outcome → Job.Outcome
  | .ok _ world => .ok () { world with tree := world.tree.uninstall scratch }
  | .error failure world => .error failure { world with tree := world.tree.uninstall scratch }

theorem withScratch_eq (scratch : Path) (work : Job Unit) (world : World) :
    withScratch scratch work world =
      match world.tree.makeDirectory scratch with
      | .error error => .error (.system error) world
      | .ok opened => closed scratch (work { world with tree := opened }) := by
  rw [withScratch, Job.bind_eq, Job.ask_eq]
  simp only [Job.bind_eq, Job.ofExcept_eq, Job.modify_eq, Job.tryCatch_eq]
  cases world.tree.makeDirectory scratch with
  | error error => rfl
  | ok opened =>
    simp only
    cases work { world with tree := opened } <;> rfl

def Options.definitions (options : Options) (tree : FileTree) : Path :=
  (tree.absolute options.protoRoot).toOption.getD options.protoRoot

def Options.generated (options : Options) (tree : FileTree) : OutputTree :=
  ⟨(tree.absolute options.output).toOption.getD options.output⟩

theorem Options.definitions_eq {options : Options} {tree : FileTree} {root : Path}
    (found : tree.absolute options.protoRoot = .ok root) : options.definitions tree = root := by
  simp [definitions, found, Except.toOption]

theorem Options.generated_eq {options : Options} {tree : FileTree} {root : Path}
    (found : tree.absolute options.output = .ok root) : options.generated tree = ⟨root⟩ := by
  simp [generated, found, Except.toOption]

def descriptorSet (scratch : Path) : Path :=
  scratch.child "descriptors.binpb"

def request (protoRoot root scratch : Path) (files : List Path) : CompileRequest where
  protoFiles := files
  output := (OutputTree.mk root).connect
  protoRoot := protoRoot
  descriptorSet := some (descriptorSet scratch)

/-- The command with which a run calls the compiler, and the tree in which it does, if it does. -/
def call? (options : Options) (scratch : Path) (tree : FileTree) : Option (Command × FileTree) := do
  let protoRoot ← (tree.absolute options.protoRoot).toOption
  let root ← (tree.absolute options.output).toOption
  let files ← (Discovery.discover tree protoRoot).toOption
  if files.isEmpty then none
  else
    let opened ← (tree.makeDirectory scratch).toOption
    match Compiler.prepared options.compiler (request protoRoot root scratch files) opened with
    | (made, .ok command) => some (command, made)
    | (_, .error _) => none

/-- What the initial tree and the compiler leave, without the scratch directory. -/
def left (options : Options) (executor : Executor) (scratch : Path) (tree : FileTree) : FileTree :=
  match call? options scratch tree with
  | some (command, made) => (executor command made).1.uninstall scratch
  | none => tree

/-- A run that does not get to the compiler's call. -/
structure Aborted (options : Options) (scratch : Path) (tree : FileTree) (stage : Stage)
    (failure : Failure) (world : World) : Prop where
  early : stage ≤ .compilation
  lines : world.lines = stage.heard options.connectOnly (options.definitions tree)
  calls : world.calls = []
  raises : stage.Raises (options.generated tree) failure
  tree : world.tree = tree ∨ stage = .compilation ∧ ∃ root opened made error,
    tree.absolute options.output = .ok root ∧ tree.makeDirectory scratch = .ok opened ∧
      opened.makeDirectories (OutputTree.mk root).connect = (made, error) ∧
      world.tree = made.uninstall scratch

def outset (protoRoot : Path) : List Event :=
  [.progress ("Discovering .proto files in " ++ protoRoot.text),
    .progress "Running protoc to generate ConnectRPC and TS outputs..."]

/-- A run that gets to the compiler's call. -/
structure Call (options : Options) (scratch : Path) (tree : FileTree) where
  protoRoot : Path
  root : Path
  files : List Path
  opened : FileTree
  made : FileTree
  command : Command
  definitions : tree.absolute options.protoRoot = .ok protoRoot
  generated : tree.absolute options.output = .ok root
  found : Discovery.discover tree protoRoot = .ok files
  opens : tree.makeDirectory scratch = .ok opened
  makes : opened.makeDirectories (OutputTree.mk root).connect = (made, none)

namespace Call
variable {options : Options} {scratch : Path} {tree : FileTree}

def log (call : Call options scratch tree) : List Event :=
  outset call.protoRoot ++ [.called call.command]

def finish (call : Call options scratch tree) (answer : Compiler.Answer) : Job.Outcome :=
  closed scratch <|
    match Compiler.answered answer call.log with
    | .ok _ world =>
      emitAll options call.protoRoot ⟨call.root⟩ call.files (descriptorSet scratch) world
    | .error failure world => .error failure world

end Call

/-- A run fails by itself, or it calls the compiler and goes on with the answer, whatever the compiler. -/
inductive Course (options : Options) (scratch : Path) (tree : FileTree) : Prop where
  | aborts (stage : Stage) (failure : Failure) (world : World)
    (none_ : call? options scratch tree = none)
    (aborted : Aborted options scratch tree stage failure world)
    (same : ∀ executor, run options executor scratch ⟨tree, []⟩ = .error failure world)
  | calls (call : Call options scratch tree)
    (called : call? options scratch tree = some (call.command, call.made))
    (same : ∀ executor, run options executor scratch ⟨tree, []⟩ =
      call.finish (executor call.command call.made))

section Outset
variable {options : Options} {tree : FileTree} {protoRoot root : Path} {files : List Path}

theorem run_of_files (scratch : Path) (definitions : tree.absolute options.protoRoot = .ok protoRoot)
    (generated : tree.absolute options.output = .ok root)
    (found : Discovery.discover tree protoRoot = .ok files) (some_ : files.isEmpty = false)
    (executor : Executor) :
    run options executor scratch ⟨tree, []⟩ =
      withScratch scratch (do
        Compiler.run executor options.compiler (request protoRoot root scratch files)
        emitAll options protoRoot ⟨root⟩ files (descriptorSet scratch))
      ⟨tree, outset protoRoot⟩ := by
  simp only [run, Job.bind_eq, Job.absolute_eq, definitions, generated, Job.say, Job.report_eq,
    Job.ask_eq, Job.ofExcept_eq, found, some_, Bool.false_eq_true, ↓reduceIte]
  rfl

theorem call?_of_files (scratch : Path) (definitions : tree.absolute options.protoRoot = .ok protoRoot)
    (generated : tree.absolute options.output = .ok root)
    (found : Discovery.discover tree protoRoot = .ok files) (some_ : files.isEmpty = false) :
    call? options scratch tree =
      match tree.makeDirectory scratch with
      | .error _ => none
      | .ok opened =>
        match Compiler.prepared options.compiler (request protoRoot root scratch files) opened with
        | (made, .ok command) => some (command, made)
        | (_, .error _) => none := by
  simp only [call?, definitions, generated, found, some_, Except.toOption, Bool.false_eq_true,
    ↓reduceIte, Option.bind_eq_bind, Option.bind_some]
  cases tree.makeDirectory scratch <;> rfl

/-- With files to compile, a run can still fail at its directories. -/
theorem course_of_files (scratch : Path) (definitions : tree.absolute options.protoRoot = .ok protoRoot)
    (generated : tree.absolute options.output = .ok root)
    (found : Discovery.discover tree protoRoot = .ok files) (some_ : files.isEmpty = false) :
    Course options scratch tree := by
  have running := run_of_files scratch definitions generated found some_
  have calling := call?_of_files scratch definitions generated found some_
  have lines : ∀ later, World.lines ⟨later, outset protoRoot⟩ =
      Stage.compilation.heard options.connectOnly (options.definitions tree) := by
    intro later
    rw [Options.definitions_eq definitions]
    rfl
  cases opens : tree.makeDirectory scratch with
  | error error =>
    refine .aborts .compilation (.system error) ⟨tree, outset protoRoot⟩ (by rw [calling, opens])
      ⟨by decide, lines tree, rfl, Or.inr (Or.inr (Or.inl rfl)), Or.inl rfl⟩ fun executor => ?_
    rw [running, withScratch_eq, opens]
  | ok opened =>
  simp only [opens] at calling
  have compiling := fun executor : Executor => Compiler.run_eq executor options.compiler
    (show (request protoRoot root scratch files).protoFiles.isEmpty = false from some_)
    ⟨opened, outset protoRoot⟩
  cases prepares : Compiler.prepared options.compiler (request protoRoot root scratch files) opened with
  | mk made outcome =>
  obtain ⟨error, makes, ends⟩ := Compiler.prepared_spec prepares
  simp only [prepares] at calling compiling
  cases outcome with
  | error failure =>
    have raises : Stage.compilation.Raises (options.generated tree) failure := by
      rcases ends with ⟨reason, rfl⟩ | ⟨reason, rfl⟩
      · exact Or.inr (Or.inr (Or.inl rfl))
      · exact Or.inl ⟨rfl, by rw [Options.generated_eq generated]; rfl⟩
    refine .aborts .compilation failure ⟨made.uninstall scratch, outset protoRoot⟩ calling
      ⟨by decide, lines _, rfl, raises, Or.inr ⟨rfl, root, opened, made, error, generated, opens,
        makes, rfl⟩⟩ fun executor => ?_
    rw [running, withScratch_eq, opens]
    simp only [Job.bind_eq, compiling]
    rfl
  | ok command =>
    subst ends
    refine .calls ⟨protoRoot, root, files, opened, made, command, definitions, generated, found,
      opens, makes⟩ calling fun executor => ?_
    rw [running, withScratch_eq, opens]
    simp only [Job.bind_eq, compiling, Call.finish, Call.log]
    cases Compiler.answered (executor command made) (outset protoRoot ++ [.called command]) <;> rfl

end Outset

theorem run_course (options : Options) (scratch : Path) (tree : FileTree) :
    Course options scratch tree := by
  cases definitions : tree.absolute options.protoRoot with
  | error error =>
    refine .aborts .preparation (.system error) ⟨tree, []⟩ ?_
      ⟨by decide, rfl, rfl, Or.inl rfl, Or.inl rfl⟩ fun executor => ?_
    · simp [call?, definitions, Except.toOption]
    · simp only [run, Job.bind_eq, Job.absolute_eq, definitions]
  | ok protoRoot =>
  cases generated : tree.absolute options.output with
  | error error =>
    refine .aborts .preparation (.system error) ⟨tree, []⟩ ?_
      ⟨by decide, rfl, rfl, Or.inl rfl, Or.inl rfl⟩ fun executor => ?_
    · simp [call?, definitions, generated, Except.toOption]
    · simp only [run, Job.bind_eq, Job.absolute_eq, definitions, generated]
  | ok root =>
  let discovering : Event := .progress ("Discovering .proto files in " ++ protoRoot.text)
  have lines : World.lines ⟨tree, [discovering]⟩ =
      Stage.discovery.heard options.connectOnly (options.definitions tree) := by
    rw [Options.definitions_eq definitions]
    rfl
  cases found : Discovery.discover tree protoRoot with
  | error error =>
    refine .aborts .discovery (.system error) ⟨tree, [discovering]⟩ ?_
      ⟨by decide, lines, rfl, Or.inr (Or.inl rfl), Or.inl rfl⟩ fun executor => ?_
    · simp [call?, definitions, generated, found, Except.toOption]
    · simp only [run, Job.bind_eq, Job.absolute_eq, definitions, generated, Job.say, Job.report_eq,
        Job.ask_eq, Job.ofExcept_eq, found]
      rfl
  | ok files =>
  cases some_ : files.isEmpty with
  | true =>
    have none_ : files = [] := List.isEmpty_iff.mp some_
    refine .aborts .discovery (.noInput protoRoot) ⟨tree, [discovering]⟩ ?_
      ⟨by decide, lines, rfl, rfl, Or.inl rfl⟩ fun executor => ?_
    · simp [call?, definitions, generated, found, none_, Except.toOption]
    · simp only [run, Job.bind_eq, Job.absolute_eq, definitions, generated, Job.say, Job.report_eq,
        Job.ask_eq, Job.ofExcept_eq, found, some_]
      rfl
  | false => exact course_of_files scratch definitions generated found some_

end Generation

end TrpcRouters
