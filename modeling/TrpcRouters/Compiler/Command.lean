import TrpcRouters.FileTree.Write
import TrpcRouters.Process.Status

/-! The command that compiles definition files, and what may carry it out. -/

namespace TrpcRouters

structure Command where
  program : Path
  arguments : List String
  /-- The search path that the program gets in place of the inherited one. -/
  searchPath : Option RawString
deriving DecidableEq, Inhabited, Repr

structure Finished where
  status : WaitStatus
  stdout : Bytes
  stderr : Bytes
deriving DecidableEq, Inhabited, Repr

/-- Carries out a command: the tree afterwards, and the result if the program could be started. -/
abbrev Executor := Command → FileTree → FileTree × Except SystemError Finished

structure CompileRequest where
  protoFiles : List Path
  /-- The directory that receives the generated modules. -/
  output : Path
  /-- The first import root. -/
  protoRoot : Path
  /-- Where the descriptor set goes, if it is wanted. -/
  descriptorSet : Option Path
deriving DecidableEq, Inhabited, Repr

namespace CompileRequest

def arguments (request : CompileRequest) (importRoots : List Path) : List String :=
  ["--connect-es_out=" ++ request.output.text,
    "--es_out=" ++ request.output.text,
    "--proto_path=" ++ request.protoRoot.text] ++
  importRoots.map (fun root => "--proto_path=" ++ root.text) ++
  ["--experimental_allow_proto3_optional"] ++
  (match request.descriptorSet with
    | some file => ["--descriptor_set_out=" ++ file.text, "--include_imports"]
    | none => []) ++
  request.protoFiles.map Path.text

end CompileRequest

end TrpcRouters
