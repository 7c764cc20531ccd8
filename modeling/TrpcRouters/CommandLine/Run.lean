import TrpcRouters.CommandLine.Arguments
import TrpcRouters.CommandLine.Report
import TrpcRouters.Generation
import TrpcRouters.Watch

/-! A run of the command, from its arguments to its reports and the way it ends. -/

namespace TrpcRouters.CommandLine

structure Surroundings where
  environment : Environment
  /-- The directory that holds the command's own program. -/
  bundled : Option Path
  executor : Executor
  /-- A path that is free for as long as the command runs. -/
  scratch : Path

namespace Request

/-- The options of a generation. The import roots of a request come before those of the environment. -/
def options (request : Request) (surroundings : Surroundings) (workingDirectory : Path) :
    Generation.Options :=
  let known :=
    CompilerConfig.ofEnvironment surroundings.environment surroundings.bundled workingDirectory
  { protoRoot := request.protoRoot
    output := request.output
    rules := VerbRules.ofWritten request.queryVerbs request.mutationVerbs
    compiler :=
      { known with explicit := request.compiler, includes := request.importRoots ++ known.includes }
    connectOnly := request.connectOnly }

end Request

inductive Ending where
  | success
  | failure (reason : CommandFailure)
  | misuse (error : UsageError)
  /-- It does not end by itself, but goes on to look after every pause. -/
  | watching (options : Generation.Options) (pause : Nat) (watcher : Watch.Watcher)
deriving DecidableEq, Inhabited, Repr

namespace Ending

def exitCode : Ending → Nat
  | success | watching _ _ _ => 0
  | failure _ => 1
  | misuse _ => 2

end Ending

structure Outcome where
  reports : List Report
  ending : Ending
deriving DecidableEq, Inhabited, Repr

def generate (surroundings : Surroundings) (options : Generation.Options) (tree : FileTree) :
    Outcome × FileTree :=
  match (Generation.run options surroundings.executor surroundings.scratch).run ⟨tree, []⟩ with
  | .ok _ world => (⟨world.log.filterMap Report.ofEvent?, .success⟩, world.tree)
  | .error failure world =>
    (⟨world.log.filterMap Report.ofEvent?, .failure (.generation failure)⟩, world.tree)

/-- The reports of a generation that a watch has started. Its failure is reported like the rest. -/
def watchedReports (outcome : Outcome) : List Report :=
  ⟨.information, "Running codegen..."⟩ :: outcome.reports ++
    match outcome.ending with
    | .failure reason => [⟨.failure, reason.text⟩]
    | _ => [⟨.information, "Codegen finished."⟩]

def look (surroundings : Surroundings) (options : Generation.Options) (watcher : Watch.Watcher)
    (tree : FileTree) : List Report × Watch.Watcher × FileTree :=
  match watcher.poll tree with
  | (true, watcher) =>
    let (outcome, tree) := generate surroundings options tree
    (watchedReports outcome, watcher, tree)
  | (false, watcher) => ([], watcher, tree)

def announcement (root : Path) : Report :=
  ⟨.information, "Watching " ++ (root.child "**/*.proto").text ++ " for changes..."⟩

def concerned (options : Generation.Options) : List Path :=
  let program := options.compiler.program
  let programs :=
    if program.raw.bytes.contains Path.slash then [program]
    else options.compiler.searchEntries.map fun directory => (⟨directory⟩ : Path).join program
  [options.protoRoot, options.output] ++ options.compiler.includes ++ programs

/-- Runs the command; where it is to watch, up to the first pause. -/
def run (surroundings : Surroundings) (arguments : List String) (tree : FileTree) :
    Outcome × FileTree :=
  match Request.ofArguments arguments with
  | .error error => (⟨[], .misuse error⟩, tree)
  | .ok request =>
    let options := request.options surroundings (FileTree.pathOf tree.workingDirectory)
    if request.watch then
      match Watch.requireDirectory tree options.protoRoot with
      | .error reason => (⟨[], .failure reason⟩, tree)
      | .ok _ =>
        let (reports, watcher, tree) :=
          look surroundings options (Watch.Watcher.ofRoot options.protoRoot) tree
        (⟨announcement options.protoRoot :: reports,
          .watching options request.pollInterval watcher⟩, tree)
    else generate surroundings options tree

end TrpcRouters.CommandLine
