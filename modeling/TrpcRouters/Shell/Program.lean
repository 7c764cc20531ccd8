import TrpcRouters.Compiler.Config
import TrpcRouters.FileTree.Resolve
import TrpcRouters.Shell.Word

/-! Finding the program that a command names, and asking whether the system would start it. -/

namespace TrpcRouters.Shell

/-- What programs of the system begin with, as opposed to scripts. -/
def binaryMark : Bytes :=
  [0x7f, 0x45, 0x4c, 0x46]

structure Program where
  /-- The path by which it was found. -/
  path : Path
  place : Place
  content : Bytes
deriving DecidableEq, Inhabited, Repr

namespace Program

def isBinary (program : Program) : Bool :=
  binaryMark.isPrefixOf program.content

def name (program : Program) : String :=
  (program.place.head?.map Word.ofRaw).getD ""

def isSpace (c : Char) : Bool :=
  c = ' ' || c = '\t'

def interpreter? (program : Program) : Option (Path × List String) :=
  match program.content with
  | 0x23 :: 0x21 :: rest =>
    let line := (Word.ofBytes (rest.takeWhile (· ≠ 0x0a))).toList.dropWhile isSpace
    let path := line.takeWhile (fun c => !isSpace c)
    let behind := (line.drop path.length).dropWhile isSpace
    let argument := (behind.reverse.dropWhile isSpace).reverse
    if path.isEmpty then none
    else some (Word.path (String.ofList path), if argument.isEmpty then [] else [String.ofList argument])
  | _ => none

def atPath (tree : FileTree) (path : Path) : Except SystemError Program :=
  match tree.entry true path with
  | .ok (place, .file content _ true) => .ok ⟨path, place, content⟩
  | .ok _ => .error .permissionDenied
  | .error error => .error error

/-- The program at a path, if the system starts it: it is one of the system's own, or its first line
names an interpreter that there is. -/
def startable (tree : FileTree) (path : Path) : Except SystemError Program := do
  let program ← atPath tree path
  if program.isBinary then return program
  match program.interpreter? with
  | none => throw .notExecutable
  | some (interpreter, _) =>
    let _ ← atPath tree interpreter
    return program

/-- The program at a path, where a script without interpreter is left to the shell. -/
def runnable (tree : FileTree) (path : Path) : Except SystemError Program :=
  match startable tree path with
  | .error .notExecutable => atPath tree path
  | other => other

/-- The first program of a name in the directories of a search path. A directory that forbids it is
passed over, but remembered; any refusal that is not about the directory ends the search. -/
def search (attempt : Path → Except SystemError Program) (name : RawString) (refusal : SystemError) :
    List RawString → Except SystemError Program
  | [] => .error refusal
  | directory :: rest =>
    match attempt ⟨if directory.isEmpty then name else directory ++ ⟨[Path.slash]⟩ ++ name⟩ with
    | .ok program => .ok program
    | .error error =>
      if error = .permissionDenied then search attempt name .permissionDenied rest
      else if error = .notFound ∨ error = .notDirectory then
        search attempt name (if refusal = .permissionDenied then refusal else error) rest
      else .error error

/-- A command names its program by a path, which holds a separator, or by a name to search for. -/
def isPath (program : Path) : Bool :=
  program.raw.bytes.contains Path.slash

def find (attempt : Path → Except SystemError Program) (searchPath : RawString) (program : Path) :
    Except SystemError Program :=
  if program.isEmpty then .error .notFound
  else if isPath program then attempt program
  else if FileTree.nameLimit < program.raw.bytes.length then .error .nameTooLong
  else search attempt program.raw .notFound (CompilerConfig.splitSearchPath searchPath)

end Program

end TrpcRouters.Shell
