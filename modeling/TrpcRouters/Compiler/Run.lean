import TrpcRouters.Compiler.Config
import TrpcRouters.FileTree.Install
import TrpcRouters.Job
import TrpcRouters.Text.Blank

/-! Running the compiler. Whatever it prints when it rejects its input becomes the failure, word for
word. -/

namespace TrpcRouters.Compiler

def notStarted : Failure :=
  .compiler "Failed to execute protoc. Is it installed and on your PATH?"

def rejection (finished : Finished) : Failure :=
  let diagnostics := Text.decodeLossy finished.stderr
  if Text.allBlank diagnostics.toList then
    .compiler ("protoc exited with " ++ finished.status.text ++ " and no diagnostics")
  else .compiler diagnostics

def command (config : CompilerConfig) (tree : FileTree) (request : CompileRequest) : Command where
  program := config.program
  arguments := request.arguments (config.importRoots tree request.protoRoot)
  searchPath := config.searchPath

/-- Compiles the files of a request into its output directory, which is made first. Without files there
is nothing to do. -/
def run (executor : Executor) (config : CompilerConfig) (request : CompileRequest) : Job Unit := do
  if request.protoFiles.isEmpty then return
  Job.makeDirectories request.output
  let output ← Job.absolute request.output
  let protoRoot ← Job.absolute request.protoRoot
  let command ← Job.ask fun tree => command config tree { request with output, protoRoot }
  Job.report (.called command)
  match ← Job.change (executor command) with
  | .error _ => throw notStarted
  | .ok finished => unless finished.status.succeeded do throw (rejection finished)

end TrpcRouters.Compiler
