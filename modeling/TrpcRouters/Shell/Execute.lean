import TrpcRouters.Compiler.Command
import TrpcRouters.Shell.Interpreter

/-! An executor for commands whose programs are scripts in the tree. -/

namespace TrpcRouters.Shell

/-- How deep a script may go. -/
def fuel : Nat := 20000

def boot (environment : Environment) (tree : FileTree) : Machine where
  tree := tree
  name := "sh"
  lines := 1
  line := 1
  arguments := []
  values := environment.map fun entry => (entry.1, Word.ofRaw entry.2)
  exported := environment.map Prod.fst
  functions := []
  status := 0
  input := []
  stdoutSink := .stdout
  stderrSink := .stderr
  stdout := []
  stderr := []
  loops := 0
  strict := false
  needsValues := false
  broken := false
  farewell := none

def withSearchPath (environment : Environment) : Option RawString → Environment
  | some searchPath => ("PATH", searchPath) :: environment.filter (fun entry => entry.1 != "PATH")
  | none => environment

def holdsNul (raw : RawString) : Bool :=
  raw.bytes.contains 0

/-- Starts the program of a command in an environment and waits for its end. A new search path is also
the one on which the program is looked for, and then a script that names no interpreter is run by the
shell. -/
def execute (environment : Environment) : Executor := fun command tree =>
  let environment := withSearchPath environment command.searchPath
  let machine := boot environment tree
  if holdsNul command.program.raw || command.arguments.any (fun argument => holdsNul (.ofText argument)) ||
      (command.searchPath.map holdsNul).getD false then
    (tree, .error .nulInCommand)
  else
    let lenient := command.searchPath.isSome && !Program.isPath command.program
    let attempt := if lenient then Program.runnable tree else Program.startable tree
    let searchPath := (environment.lookup "PATH").getD "/bin:/usr/bin"
    match Program.find attempt searchPath command.program with
    | .error error => (tree, .error error)
    | .ok program =>
      let arguments := command.arguments.map fun argument => Word.ofRaw (.ofText argument)
      let (flow, after) :=
        (Interpreter.runProgram fuel (Word.ofRaw command.program.raw) program arguments).run machine
      let status := match flow with
        | .killed signal => WaitStatus.killed signal
        | _ => WaitStatus.exited after.status
      ({ after.tree with workingDirectory := tree.workingDirectory },
        .ok ⟨status, after.stdout, after.stderr⟩)

end TrpcRouters.Shell
