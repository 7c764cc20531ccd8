import TrpcRouters.Descriptor.Collect
import TrpcRouters.FileTree.Resolve
import TrpcRouters.Failure

/-! Reading the descriptor set of a compilation from its file. -/

namespace TrpcRouters.Descriptor

inductive LoadError where
  | unreadable (path : Path) (error : SystemError)
  | malformed (path : Path) (fault : Wire.Fault)
deriving DecidableEq, Inhabited, Repr

namespace LoadError

def text : LoadError → String
  | unreadable path error => "Failed to read " ++ path.text ++ ": " ++ error.text
  | malformed path fault => "Failed to decode " ++ path.text ++ ": " ++ fault.text

def failure (error : LoadError) : Failure :=
  .descriptor error.text

end LoadError

def FileSet.ofBytes (path : Path) (content : Bytes) : Except LoadError FileSet :=
  (FileSet.decode content).mapError (LoadError.malformed path)

def FileSet.load (tree : FileTree) (path : Path) : Except LoadError FileSet :=
  match tree.read path with
  | .ok content => FileSet.ofBytes path content
  | .error error => .error (.unreadable path error)

end TrpcRouters.Descriptor
