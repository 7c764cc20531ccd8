import TrpcRouters.Path.Basic
import TrpcRouters.SystemError
import TrpcRouters.Text.SortedSet
import TrpcRouters.Text.Utf8

/-! A file system as a value: what there is at each place, where relative paths start, and a clock that
stamps what is written. -/

namespace TrpcRouters

/-- The names on the way to an entry, the last one first. The root has none. -/
abbrev Place := List RawString

instance : LawfulBEq Place := inferInstance

inductive Node where
  | file (content : Bytes) (stamp : Nat) (executable : Bool)
  | directory
  | link (target : Path)
deriving DecidableEq, Inhabited, Repr

def Node.isFile : Node → Bool
  | .file _ _ _ => true
  | _ => false

structure FileTree where
  nodes : List (Place × Node)
  /-- Where relative paths start. -/
  workingDirectory : Place
  /-- The stamp of the last thing written. -/
  clock : Nat
  /-- Directories that may be passed through but not listed. -/
  closed : List Place := []
  /-- Files that may be read but not written. -/
  fixed : List Place := []
deriving DecidableEq, Inhabited, Repr

namespace FileTree

def node? (tree : FileTree) (place : Place) : Option Node :=
  if place = [] then some .directory else tree.nodes.lookup place

def setNode (place : Place) (node : Node) : List (Place × Node) → List (Place × Node)
  | [] => [(place, node)]
  | (other, old) :: rest =>
    if other = place then (other, node) :: rest else (other, old) :: setNode place node rest

def put (tree : FileTree) (place : Place) (node : Node) : FileTree :=
  { tree with nodes := setNode place node tree.nodes }

def remove (tree : FileTree) (place : Place) : FileTree :=
  { tree with nodes := tree.nodes.filter (fun entry => !(place.isSuffixOf entry.1)) }

def putFile (tree : FileTree) (place : Place) (content : Bytes) (executable : Bool) : FileTree :=
  { tree.put place (.file content (tree.clock + 1) executable) with clock := tree.clock + 1 }

def names (tree : FileTree) (directory : Place) : List RawString :=
  Text.sortedSet <| tree.nodes.filterMap fun
    | (name :: above, _) => if above = directory then some name else none
    | ([], _) => none

def pathOf (place : Place) : Path :=
  ⟨⟨if place = [] then [Path.slash] else place.reverse.flatMap fun name => Path.slash :: name.bytes⟩⟩

def absolute (tree : FileTree) (path : Path) : Except SystemError Path :=
  match path.absolute? (pathOf tree.workingDirectory) with
  | some whole => .ok whole
  | none => .error .emptyPath

theorem lookup_setNode (place other : Place) (node : Node) (nodes : List (Place × Node)) :
    (setNode place node nodes).lookup other =
      if other = place then some node else nodes.lookup other := by
  induction nodes with
  | nil =>
    by_cases same : other = place
    · simp [setNode, same]
    · have away : (other == place) = false := by simpa using same
      simp [setNode, List.lookup_cons, same, away]
  | cons entry rest found =>
    obtain ⟨first, old⟩ := entry
    by_cases here : first = place
    · by_cases same : other = place
      · simp [setNode, here, same]
      · have away : (other == place) = false := by simpa using same
        simp [setNode, here, same, List.lookup_cons, away]
    · by_cases same : other = first
      · subst same
        simp [setNode, here]
      · have away : (other == first) = false := by simpa using same
        simp [setNode, here, List.lookup_cons, away, found]

theorem node?_put (tree : FileTree) (place other : Place) (node : Node) (inside : place ≠ []) :
    (tree.put place node).node? other = if other = place then some node else tree.node? other := by
  by_cases root : other = []
  · have away : other ≠ place := fun same => inside (same ▸ root)
    simp [node?, root, Ne.symm inside]
  · simp [node?, root, put, lookup_setNode]

end FileTree

end TrpcRouters
