import TrpcRouters.Compiler.Config
import TrpcRouters.FileTree.Install
import TrpcRouters.Process.Status
import TrpcRouters.Shell.Script
import TrpcRouters.Shell.Word

/-! The state of a shell at work: its files, streams, variables and arguments. -/

namespace TrpcRouters.Shell

inductive Sink where
  | stdout
  | stderr
  | file (place : Place)
  | nowhere
deriving DecidableEq, Inhabited, Repr

inductive Flow where
  | next
  | exits
  | returns
  | killed (signal : Nat)
  | breaks (levels : Nat)
  | continues (levels : Nat)
deriving DecidableEq, Inhabited, Repr

structure Machine where
  tree : FileTree
  /-- The text of the script's own name. -/
  name : String
  /-- The number of lines of the script. -/
  lines : Nat
  /-- The line of the command at work. -/
  line : Nat
  arguments : List String
  values : List (String × String)
  exported : List String
  functions : List (String × Statement)
  status : Nat
  input : Bytes
  stdoutSink : Sink
  stderrSink : Sink
  stdout : Bytes
  stderr : Bytes
  /-- The number of loops around the command at work. -/
  loops : Nat
  /-- A command that fails ends the script. -/
  strict : Bool
  /-- A variable without value may not be used. -/
  needsValues : Bool
  /-- A word could not be expanded, which ends the script. -/
  broken : Bool
  /-- Commands that are carried out when the script ends. -/
  farewell : Option String
deriving Inhabited

namespace Machine

def processNumber : Nat := 4242

def send (machine : Machine) (sink : Sink) (content : Bytes) : Machine :=
  match sink with
  | .stdout => { machine with stdout := machine.stdout ++ content }
  | .stderr => { machine with stderr := machine.stderr ++ content }
  | .file place =>
    match machine.tree.node? place with
    | some (.file before _ executable) =>
      { machine with tree := machine.tree.putFile place (before ++ content) executable }
    | _ => machine
  | .nowhere => machine

def print (machine : Machine) (text : String) : Machine :=
  machine.send machine.stdoutSink (Word.bytes text)

def warn (machine : Machine) (text : String) : Machine :=
  machine.send machine.stderrSink (Word.bytes (text ++ "\n"))

def ends (machine : Machine) (status : Nat) : Machine :=
  { machine with status }

def complain (machine : Machine) (text : String) : Machine :=
  machine.warn (machine.name ++ ": " ++ toString machine.line ++ ": " ++ text)

def breaks (machine : Machine) (text : String) : Machine :=
  { machine.complain text with broken := true, status := 2 }

def separators (machine : Machine) : List Char :=
  match machine.values.lookup "IFS" with
  | some characters => characters.toList
  | none => [' ', '\t', '\n']

def assign (machine : Machine) (name value : String) : Machine :=
  { machine with
    values := (name, value) :: machine.values.filter (fun entry => entry.1 != name) }

def unset (machine : Machine) (name : String) : Machine :=
  { machine with values := machine.values.filter (fun entry => entry.1 != name) }

def exporting (machine : Machine) (name : String) : Machine :=
  if machine.exported.contains name then machine
  else { machine with exported := name :: machine.exported }

/-- The value of a parameter; of the list of arguments, all of them with blanks between. -/
def value? (machine : Machine) (name : String) : Option String :=
  match name with
  | "?" => some (toString machine.status)
  | "#" => some (toString machine.arguments.length)
  | "$" => some (toString processNumber)
  | "-" => some ((if machine.strict then "e" else "") ++ if machine.needsValues then "u" else "")
  | "@" | "*" =>
    if machine.arguments.isEmpty then none else some (" ".intercalate machine.arguments)
  | "0" => some machine.name
  | _ =>
    match name.toNat? with
    | some index => machine.arguments[index - 1]?
    | none => machine.values.lookup name

def handedOn (machine : Machine) : List (String × String) :=
  machine.values.filter (fun entry => machine.exported.contains entry.1)

def searchPath (machine : Machine) : RawString :=
  Word.raw ((machine.values.lookup "PATH").getD "")

/-- The variables of a script that inherits some: a search path is among them in any case. -/
def initialValues (inherited : List (String × String)) : List (String × String) :=
  match inherited.lookup "PATH" with
  | some _ => inherited
  | none => ("PATH", "/usr/local/sbin:/usr/local/bin:/usr/sbin:/usr/bin:/sbin:/bin") :: inherited

end Machine

end TrpcRouters.Shell
