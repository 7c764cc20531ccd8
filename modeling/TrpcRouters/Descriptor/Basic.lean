import TrpcRouters.Wire.Decode

/-! The part of a descriptor set that the generator reads. A field that was not set stays apart from
one that is set to nothing; both read alike. -/

namespace TrpcRouters.Descriptor

structure Method where
  name : Option String
  inputType : Option String
  outputType : Option String
  clientStreaming : Option Bool
  serverStreaming : Option Bool
deriving DecidableEq, Inhabited, Repr

structure Service where
  name : Option String
  methods : List Method
deriving DecidableEq, Inhabited, Repr

inductive Message where
  | declare (name : Option String) (nested : List Message)
deriving Inhabited, Repr

structure File where
  name : Option String
  package : Option String
  messages : List Message
  services : List Service
deriving Inhabited, Repr

abbrev FileSet := List File

/-- An unset name reads as the empty one. -/
def File.nameText (file : File) : String :=
  file.name.getD ""

def File.packageText (file : File) : String :=
  file.package.getD ""

section Reading
open Wire

def lastText (number : Nat) (entries : Entries) : Option String :=
  (entries.filterMap fun
    | (found, .text content) => if found = number then some content else none
    | _ => none).getLast?

def lastFlag (number : Nat) (entries : Entries) : Option Bool :=
  (entries.filterMap fun
    | (found, .flag isSet) => if found = number then some isSet else none
    | _ => none).getLast?

def submessages (number : Nat) (entries : Entries) : List Entries :=
  entries.filterMap fun
    | (found, .message inner) => if found = number then some inner else none
    | _ => none

def Method.ofEntries (entries : Entries) : Method where
  name := lastText 1 entries
  inputType := lastText 2 entries
  outputType := lastText 3 entries
  clientStreaming := lastFlag 5 entries
  serverStreaming := lastFlag 6 entries

def Service.ofEntries (entries : Entries) : Service where
  name := lastText 1 entries
  methods := (submessages 2 entries).map Method.ofEntries

mutual

/-- The messages that a field holds, in order, with those nested in them. -/
def Message.listOf (number : Nat) : Entries → List Message
  | [] => []
  | entry :: rest =>
    match Message.ofEntry number entry with
    | some message => message :: Message.listOf number rest
    | none => Message.listOf number rest

def Message.ofEntry (number : Nat) : Nat × Value → Option Message
  | (found, value) => if found = number then Message.ofValue value else none

def Message.ofValue : Value → Option Message
  | .message entries => some (.declare (lastText 1 entries) (Message.listOf 3 entries))
  | _ => none

end

def File.ofEntries (entries : Entries) : File where
  name := lastText 1 entries
  package := lastText 2 entries
  messages := Message.listOf 4 entries
  services := (submessages 6 entries).map Service.ofEntries

def FileSet.ofEntries (entries : Entries) : FileSet :=
  (submessages 1 entries).map File.ofEntries

def FileSet.decode (input : Bytes) : Except Fault FileSet :=
  (Wire.decode .fileDescriptorSet input).map FileSet.ofEntries

end Reading

end TrpcRouters.Descriptor
