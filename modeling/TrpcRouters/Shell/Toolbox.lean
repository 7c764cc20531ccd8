import TrpcRouters.FileTree.Install
import TrpcRouters.Shell.Program

/-! The programs of the system, as entries of a tree. -/

namespace TrpcRouters.Shell.Toolbox

def programs : List String :=
  ["sh", "dash", "env", "cp", "mv", "cat", "mkdir", "touch", "rm", "ln", "ls", "tee", "chmod", "sleep",
    "basename", "dirname", "printenv", "true", "false", "echo", "printf", "test", "pwd", "kill"]

def directory : Path := ⟨"/usr/bin"⟩

def olderDirectory : Path := ⟨"/bin"⟩

def installed (tree : FileTree) : FileTree :=
  tree.installAll <|
    programs.map (fun name => (directory.child (RawString.ofText name), .file binaryMark 0 true)) ++
      [(olderDirectory, .link directory)]

end TrpcRouters.Shell.Toolbox
