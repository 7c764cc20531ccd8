import TrpcRouters.FileTree.Resolve

/-! Changing the tree by path: files with their content, directories with those above them. -/

namespace TrpcRouters

namespace Path

def ancestorsWithin : (count : Nat) → Path → List Path
  | 0, _ => []
  | count + 1, path =>
    if path.isEmpty then []
    else
      match path.parent? with
      | none => [path]
      | some above => path :: ancestorsWithin count above

def ancestors (path : Path) : List Path :=
  path.ancestorsWithin (path.segments.length + 1)

end Path

namespace FileTree

/-- Writes a file, a new one or over an old one. A path that ends in a separator names no file. -/
def write (tree : FileTree) (path : Path) (content : Bytes) : Except SystemError FileTree :=
  if path.endsInSeparator then
    match tree.resolveSteps false path path.names with
    | .ok _ => .error .isDirectory
    | .error error => .error error
  else
    match tree.resolve true path with
    | .ok (.found place (.file _ _ executable)) =>
      if place ∈ tree.fixed then .error .permissionDenied
      else .ok (tree.putFile place content executable)
    | .ok (.found _ _) => .error .isDirectory
    | .ok (.vacant directory name) => .ok (tree.putFile (name :: directory) content false)
    | .error error => .error error

def makeDirectory (tree : FileTree) (path : Path) : Except SystemError FileTree :=
  match tree.resolveSteps false path path.names with
  | .ok (.found _ _) => .error .exists_
  | .ok (.vacant directory name) => .ok (tree.put (name :: directory) .directory)
  | .error error => .error error

/-- Makes the first of the paths a directory, and those behind it where it has to stand in them. What
has been made stays when a later one is refused. -/
def makeAll : List Path → FileTree → FileTree × Option SystemError
  | [], tree => (tree, none)
  | path :: above, tree =>
    match tree.makeDirectory path with
    | .ok made => (made, none)
    | .error error =>
      if error = .notFound then
        match makeAll above tree with
        | (tree, some error) => (tree, some error)
        | (tree, none) =>
          match tree.makeDirectory path with
          | .ok made => (made, none)
          | .error error => (tree, if tree.isDirectory path then none else some error)
      else (tree, if tree.isDirectory path then none else some error)

def makeDirectories (tree : FileTree) (path : Path) : FileTree × Option SystemError :=
  makeAll path.ancestors tree

end FileTree

end TrpcRouters
