import TrpcRouters.FileTree.Resolve

/-! Visiting all that lies below a path, directories before their content and names in increasing order.
Everything is asked for by its whole path; what the system then refuses is passed over. So is a link to a
directory that is being visited already, and every visit ends. -/

namespace TrpcRouters.FileTree

structure Visited where
  /-- The path of the walk, continued by the names on the way. -/
  path : Path
  place : Place
  node : Node
deriving DecidableEq, Inhabited, Repr

/-- The entry at a place and all below it. Links are followed if `links`; `above` holds the directories
that are being visited. -/
def visit (tree : FileTree) (links : Bool) :
    (fuel : Nat) → (above : List Place) → Path → Place → Node → List Visited
  | 0, _, _, _, _ => []
  | fuel + 1, above, path, place, node =>
    ⟨path, place, node⟩ ::
      match node with
      | .directory =>
        if tree.opens path then
          (tree.names place).flatMap fun name =>
            match tree.node? (name :: place) with
            | none => []
            | some (.link target) =>
              if links then
                match tree.entry true (path.child name) with
                | .ok (reached, .directory) =>
                  if reached ∈ place :: above then []
                  else visit tree links fuel (place :: above) (path.child name) reached .directory
                | .ok (reached, inner) => [⟨path.child name, reached, inner⟩]
                | .error _ => []
              else [⟨path.child name, name :: place, .link target⟩]
            | some inner =>
              visit tree links fuel (place :: above) (path.child name) (name :: place) inner
        else []
      | _ => []

/-- A walk is never deeper than this: between two links it goes down through different directories, and
every link on the way leads to a directory that was not on it before. -/
def depthBound (tree : FileTree) : Nat :=
  (tree.nodes.length + 2) * (tree.nodes.length + 2)

/-- All entries below a path. A link at the path itself is followed in any case, if it leads to a
directory. -/
def walk (tree : FileTree) (links : Bool) (root : Path) : List Visited :=
  match tree.entry true root with
  | .error _ => []
  | .ok (place, node) =>
    if links then tree.visit links tree.depthBound [] root place node
    else
      match tree.entry false root, node with
      | .ok (_, .link _), .directory => tree.visit links tree.depthBound [] root place node
      | .ok (_, .link _), _ => []
      | _, _ => tree.visit links tree.depthBound [] root place node

def files (visited : List Visited) : List Visited :=
  visited.filter fun entry => entry.node.isFile

end TrpcRouters.FileTree
