import TrpcRouters.Path.Basic
import TrpcRouters.SystemError

/-! The ways in which a generation fails. The text of a failure is what the user gets to read, so the
compiler's own diagnostics stand alone in it. -/

namespace TrpcRouters

inductive Failure where
  /-- A request to the system that concerns no generated file. -/
  | system (error : SystemError)
  /-- There are no definition files below the directory. -/
  | noInput (root : Path)
  /-- The compiler could not be run or rejected its input. -/
  | compiler (diagnostics : String)
  /-- A file or the directory above it could not be written. -/
  | emission (path : Path) (error : SystemError)
  /-- The compiler's descriptor set is missing or malformed. -/
  | descriptor (reason : String)
  /-- Two services would share a field of the joint router. -/
  | duplicateService (detail : String)
  | general (detail : String)
deriving DecidableEq, Inhabited, Repr

namespace Failure

def text : Failure → String
  | system error => "IO Error: " ++ error.text
  | noInput root => "No .proto files found under " ++ root.text
  | compiler diagnostics => diagnostics
  | emission path error => "Failed to write " ++ path.text ++ ": " ++ error.text
  | descriptor reason => "Descriptor Error: " ++ reason
  | duplicateService detail => "Duplicate service name: " ++ detail
  | general detail => "General Error: " ++ detail

def cause? : Failure → Option SystemError
  | system error | emission _ error => some error
  | _ => none

end Failure

inductive CommandFailure where
  | generation (failure : Failure)
  | refused (reason : String)
deriving DecidableEq, Inhabited, Repr

namespace CommandFailure

def text : CommandFailure → String
  | generation failure => failure.text
  | refused reason => "Operation failed: " ++ reason

end CommandFailure

end TrpcRouters
