import TrpcRouters.Declaration.Adapt
import TrpcRouters.Failure
import TrpcRouters.FileTree.Walk
import TrpcRouters.FileTree.Write

/-! Adapting all declaration files below a directory. -/

namespace TrpcRouters.Declaration

/-- A declaration file of messages is told by the end of its name. -/
def isDeclaration (path : Path) : Bool :=
  match path.fileName? with
  | some name => "_pb.d.ts".toList.isSuffixOf name.text.toList
  | none => false

def adaptFile (tree : FileTree) (path : Path) : Except Failure (Bool × FileTree) :=
  match tree.read path with
  | .error error => .error (.system error)
  | .ok content =>
    match Text.decode? content with
    | none => .error (.system .notText)
    | some text =>
      if adapt text = text then .ok (false, tree)
      else
        match tree.write path (Text.encode (adapt text)) with
        | .error error => .error (.emission path error)
        | .ok tree => .ok (true, tree)

/-- Adapts the declaration files among the entries, in order, and lists those that changed. The first
that fails ends the pass; what was adapted before it stays. -/
def adaptEntries : List FileTree.Visited → FileTree → FileTree × Except Failure (List Path)
  | [], tree => (tree, .ok [])
  | entry :: rest, tree =>
    if entry.node.isFile && isDeclaration entry.path then
      match adaptFile tree entry.path with
      | .error failure => (tree, .error failure)
      | .ok (false, tree) => adaptEntries rest tree
      | .ok (true, tree) =>
        match adaptEntries rest tree with
        | (tree, .ok changed) => (tree, .ok (entry.path :: changed))
        | (tree, .error failure) => (tree, .error failure)
    else adaptEntries rest tree

def pass (root : Path) (tree : FileTree) : FileTree × Except Failure (List Path) :=
  adaptEntries (tree.walk false root) tree

end TrpcRouters.Declaration
