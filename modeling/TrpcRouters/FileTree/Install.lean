import TrpcRouters.FileTree.Write

/-! Putting prepared entries into a tree and taking entries out of it, whatever is there before. -/

namespace TrpcRouters.FileTree

/-- Makes the directories above a path as far as possible. -/
def withParents (tree : FileTree) (path : Path) : FileTree :=
  match path.parent? with
  | some above => (tree.makeDirectories above).1
  | none => tree

/-- Puts a file over what a path leads to, or where it is free. An executable file stays so. -/
def installFile (tree : FileTree) (path : Path) (content : Bytes) (stamp : Nat)
    (executable : Bool) : FileTree :=
  match tree.resolve true path with
  | .ok (.found place (.file _ _ before)) =>
    tree.put place (.file content stamp (executable || before))
  | .ok (.vacant directory name) => tree.put (name :: directory) (.file content stamp executable)
  | _ => tree

/-- Puts a link where a path is free. A path that ends in a separator names no link. -/
def installLink (tree : FileTree) (path target : Path) : FileTree :=
  if path.endsInSeparator then tree
  else
    match tree.resolve false path with
    | .ok (.vacant directory name) => tree.put (name :: directory) (.link target)
    | _ => tree

def install (tree : FileTree) (path : Path) : Node → FileTree
  | .directory => (tree.makeDirectories path).1
  | .file content stamp executable =>
    (tree.withParents path).installFile path content stamp executable
  | .link target => (tree.withParents path).installLink path target

def installAll (tree : FileTree) (entries : List (Path × Node)) : FileTree :=
  entries.foldl (fun tree entry => tree.install entry.1 entry.2) tree

/-- Takes away what is at a path and all below it; a link goes, but not what it leads to. -/
def uninstall (tree : FileTree) (path : Path) : FileTree :=
  match tree.entry false path with
  | .ok (place, _) => tree.remove place
  | .error _ => tree

end TrpcRouters.FileTree
