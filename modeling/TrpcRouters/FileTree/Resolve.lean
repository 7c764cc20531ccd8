import TrpcRouters.FileTree.Basic

/-! Following a path through the tree, symbolic links included, and asking what is there. -/

namespace TrpcRouters

namespace Path

/-- The segments that a file system follows, `.` and `..` among them. -/
def names (path : Path) : List RawString :=
  (path.segments.filter (· ≠ [])).map RawString.mk

/-- The segments to follow for what a path denotes; a separator at the end asks for a directory. -/
def steps (path : Path) : List RawString :=
  if path.endsInSeparator then path.names ++ [RawString.ofText "."] else path.names

end Path

namespace FileTree

inductive Target where
  | found (place : Place) (node : Node)
  /-- A name that is free in an existing directory. -/
  | vacant (directory : Place) (name : RawString)
deriving DecidableEq, Inhabited, Repr

inductive Advance where
  | arrived (target : Target)
  | detour (place : Place) (steps : List RawString)

def nameLimit : Nat := 255

/-- The first length of a path, in bytes, that is too much. -/
def pathLimit : Nat := 4096

def linkLimit : Nat := 40

/-- Follows steps up to the first link. A link at the end is followed if `followLast`. -/
def advance (tree : FileTree) (followLast : Bool) :
    Place → List RawString → Except SystemError Advance
  | place, [] =>
    match tree.node? place with
    | some node => .ok (.arrived (.found place node))
    | none => .error .notFound
  | place, step :: rest =>
    match tree.node? place with
    | none => .error .notFound
    | some .directory =>
      if step = "." then advance tree followLast place rest
      else if step = ".." then advance tree followLast place.tail rest
      else if nameLimit < step.bytes.length then .error .nameTooLong
      else
        match tree.node? (step :: place) with
        | none => if rest = [] then .ok (.arrived (.vacant place step)) else .error .notFound
        | some (.link target) =>
          if rest = [] ∧ !followLast then .ok (.arrived (.found (step :: place) (.link target)))
          else if target.isEmpty then .error .notFound
          else .ok (.detour (if target.isAbsolute then [] else place) (target.steps ++ rest))
        | some _ => advance tree followLast (step :: place) rest
    | some _ => .error .notDirectory

def follow (tree : FileTree) (followLast : Bool) :
    (links : Nat) → Place → List RawString → Except SystemError Target
  | links, place, steps =>
    match tree.advance followLast place steps with
    | .error error => .error error
    | .ok (.arrived target) => .ok target
    | .ok (.detour place steps) =>
      match links with
      | 0 => .error .tooManyLinks
      | links + 1 => follow tree followLast links place steps

def start (tree : FileTree) (path : Path) : Place :=
  if path.isAbsolute then [] else tree.workingDirectory

def resolveSteps (tree : FileTree) (followLast : Bool) (path : Path) (steps : List RawString) :
    Except SystemError Target :=
  if path.raw.bytes.contains 0 then .error .nulInPath
  else if path.isEmpty then .error .notFound
  else if pathLimit ≤ path.raw.bytes.length then .error .nameTooLong
  else tree.follow followLast linkLimit (tree.start path) steps

def resolve (tree : FileTree) (followLast : Bool) (path : Path) : Except SystemError Target :=
  tree.resolveSteps followLast path path.steps

def entry (tree : FileTree) (followLast : Bool) (path : Path) : Except SystemError (Place × Node) :=
  match tree.resolve followLast path with
  | .ok (.found place node) => .ok (place, node)
  | .ok (.vacant _ _) => .error .notFound
  | .error error => .error error

def isDirectory (tree : FileTree) (path : Path) : Bool :=
  match tree.entry true path with
  | .ok (_, .directory) => true
  | _ => false

def list (tree : FileTree) (path : Path) : Except SystemError (List RawString) :=
  match tree.entry true path with
  | .ok (place, .directory) =>
    if place ∈ tree.closed then .error .permissionDenied else .ok (tree.names place)
  | .ok _ => .error .notDirectory
  | .error error => .error error

def opens (tree : FileTree) (path : Path) : Bool :=
  (tree.list path).toBool

def read (tree : FileTree) (path : Path) : Except SystemError Bytes :=
  match tree.entry true path with
  | .ok (_, .file content _ _) => .ok content
  | .ok (_, _) => .error .isDirectory
  | .error error => .error error

end FileTree

end TrpcRouters
