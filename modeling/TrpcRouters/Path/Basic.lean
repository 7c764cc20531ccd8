import TrpcRouters.Text.Raw
import TrpcRouters.Text.Split

/-! Paths as they are written, with their reading as a sequence of components. Repeated and trailing
separators and inner `.` segments carry no component; `..` is kept, because it may lead through a
symbolic link. -/

namespace TrpcRouters

inductive Component where
  /-- The separator that an absolute path begins with. -/
  | root
  /-- The `.` that a relative path may begin with. -/
  | current
  | up
  /-- The step into an entry of the given name. -/
  | name (raw : RawString)
deriving DecidableEq, Inhabited, Repr

namespace Component

def raw : Component → RawString
  | root => "/"
  | current => "."
  | up => ".."
  | name raw => raw

def text (component : Component) : String :=
  component.raw.text

end Component

structure Path where
  raw : RawString
deriving DecidableEq, Inhabited, Repr

namespace Path

@[match_pattern] abbrev slash : UInt8 := 0x2f

@[match_pattern] abbrev dot : UInt8 := 0x2e

def ofText (text : String) : Path := ⟨text⟩

def text (path : Path) : String :=
  path.raw.text

def empty : Path := ⟨⟨[]⟩⟩

def isEmpty (path : Path) : Bool :=
  path.raw.bytes.isEmpty

def isAbsolute (path : Path) : Bool :=
  path.raw.bytes.head? == some slash

def endsInSeparator (path : Path) : Bool :=
  path.raw.bytes.getLast? == some slash

/-- The pieces between separators, empty ones included. -/
def segments (path : Path) : List Bytes :=
  Text.cut slash path.raw.bytes

/-- The component that a segment behind the first position stands for. -/
def componentOf (segment : Bytes) : Option Component :=
  if segment = [] ∨ segment = [dot] then none
  else if segment = [dot, dot] then some .up
  else some (.name ⟨segment⟩)

/-- The component that a path begins with where an ordinary segment would give none. -/
def lead (path : Path) : List Component :=
  if path.isAbsolute then [.root]
  else if path.segments.head? = some [dot] then [.current]
  else []

def components (path : Path) : List Component :=
  path.lead ++ path.segments.filterMap componentOf

def same (left right : Path) : Bool :=
  left.components == right.components

/-- `path` continued by `tail`: an absolute tail replaces the path, any other is appended behind one
separator. -/
def join (path tail : Path) : Path :=
  if tail.isAbsolute then tail
  else if path.isEmpty || path.endsInSeparator then ⟨path.raw ++ tail.raw⟩
  else ⟨path.raw ++ ⟨[slash]⟩ ++ tail.raw⟩

def child (path : Path) (tail : RawString) : Path :=
  path.join ⟨tail⟩

/-- From the segments in reverse, drops those at the front that carry no component. The last of them,
the first of the path, carries one even if it is `.`. -/
def settle : List Bytes → List Bytes
  | [] => []
  | [first] => if first = [] then [] else [first]
  | segment :: before =>
    if segment = [] ∨ segment = [dot] then settle before else segment :: before

/-- The spelling up to the component before the last one. -/
def parent? (path : Path) : Option Path :=
  match settle path.segments.reverse with
  | [] => none
  | _ :: before =>
    match settle before with
    | [] => some (if path.isAbsolute then ⟨⟨[slash]⟩⟩ else empty)
    | kept => some ⟨⟨Text.glue slash kept.reverse⟩⟩

def fileName? (path : Path) : Option RawString :=
  match path.components.getLast? with
  | some (.name raw) => some raw
  | _ => none

/-- A file name cut at its last dot into stem and extension; a dot in front cuts nothing. -/
def cutExtension (fileName : RawString) : RawString × Option RawString :=
  let backwards := fileName.bytes.reverse
  match backwards.dropWhile (· ≠ dot) with
  | [] | [_] => (fileName, none)
  | _ :: stem => (⟨stem.reverse⟩, some ⟨(backwards.takeWhile (· ≠ dot)).reverse⟩)

def fileStem? (path : Path) : Option RawString :=
  path.fileName?.map (fun fileName => (cutExtension fileName).1)

def extension? (path : Path) : Option RawString :=
  path.fileName?.bind (fun fileName => (cutExtension fileName).2)

def behind? (base path : Path) : Option (List Component) :=
  if base.components.isPrefixOf path.components then
    some (path.components.drop base.components.length)
  else none

/-- The start of the absolute form of a path. Exactly two separators in front are kept as they are,
since a system may give them a meaning of their own. -/
def anchor (path workingDirectory : Path) : Path :=
  match path.raw.bytes with
  | [slash, slash] => ⟨⟨[slash, slash]⟩⟩
  | slash :: slash :: byte :: _ => if byte = slash then ⟨⟨[slash]⟩⟩ else ⟨⟨[slash, slash]⟩⟩
  | slash :: _ => ⟨⟨[slash]⟩⟩
  | _ => workingDirectory

/-- The absolute form: no repeated separators and no `.`, but `..` and a trailing separator stay. The
empty path has none. -/
def absolute? (path workingDirectory : Path) : Option Path :=
  if path.isEmpty then none
  else
    let steps := path.segments.filterMap componentOf
    let whole := steps.foldl (fun whole step => whole.child step.raw) (path.anchor workingDirectory)
    some (if path.endsInSeparator then whole.child ⟨[]⟩ else whole)

end Path

end TrpcRouters
