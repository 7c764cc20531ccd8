import TrpcRouters.FileTree.Walk

/-! Finding the definition files below a directory. -/

namespace TrpcRouters

namespace Path

def isProto (path : Path) : Bool :=
  path.extension? == some (RawString.ofText "proto")

/-- The path without one separator at its end; a lone separator stays. Where there is one to take away,
what is left is spelled by the text that is shown for it. -/
def withoutTrailing (path : Path) : Path :=
  match path.text.toList.reverse with
  | '/' :: c :: before => ofText (String.ofList (c :: before).reverse)
  | _ => path

end Path

namespace Discovery

def protoFiles (visited : List FileTree.Visited) : List FileTree.Visited :=
  (FileTree.files visited).filter (fun entry => entry.path.isProto)

/-- The definition files below a root, as absolute paths in the order of a walk. A root that is missing
has none. -/
def discover (tree : FileTree) (root : Path) : Except SystemError (List Path) := do
  let whole ← tree.absolute root.withoutTrailing
  return (protoFiles (tree.walk true whole)).map (fun entry => entry.path)

def namesBelow (root : Path) (files : List Path) : List String :=
  files.map fun file =>
    Text.joined '/' (((root.behind? file).getD file.components).map Component.text)

end Discovery

end TrpcRouters
