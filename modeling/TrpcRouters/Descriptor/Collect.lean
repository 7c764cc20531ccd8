import TrpcRouters.Descriptor.Basic
import TrpcRouters.Service

/-! From the descriptor set of a compilation to the services of the files that were asked for. Message
references are resolved against all files of the set; one that names no message of the set is taken
to be declared beside the service. -/

namespace TrpcRouters.Descriptor

def qualify (scope name : String) : String :=
  if scope = "" then name else scope ++ "." ++ name

def nestLocal (outer name : String) : String :=
  if outer = "" then name else outer ++ "_" ++ name

structure Declared where
  fullName : String
  localName : String
  protoFile : String
deriving DecidableEq, Inhabited, Repr

mutual

/-- The declarations in a message, those nested in it first. -/
def Message.declared (file scope outer : String) : Message → List Declared
  | .declare name nested =>
    let full := qualify scope (name.getD "")
    let exported := nestLocal outer (name.getD "")
    Message.declaredAll file full exported nested ++ [⟨full, exported, file⟩]

def Message.declaredAll (file scope outer : String) : List Message → List Declared
  | [] => []
  | message :: rest =>
    Message.declared file scope outer message ++ Message.declaredAll file scope outer rest

end

def File.declared (file : File) : List Declared :=
  Message.declaredAll file.nameText file.packageText "" file.messages

def FileSet.declared (set : FileSet) : List Declared :=
  set.flatMap File.declared

/-- The last declaration of a full name. -/
def lookUp (declared : List Declared) (fullName : String) : Option Declared :=
  declared.reverse.find? (fun message => message.fullName == fullName)

def lastPart (name : String) : String :=
  String.ofList (name.toList.reverse.takeWhile (· ≠ '.')).reverse

def resolve (declared : List Declared) (reference file : String) : MessageRef :=
  let fullName := String.ofList (reference.toList.dropWhile (· = '.'))
  match lookUp declared fullName with
  | some message => ⟨fullName, message.localName, message.protoFile⟩
  | none => ⟨fullName, lastPart fullName, file⟩

def Method.resolved (declared : List Declared) (file : String) (method : Method) :
    TrpcRouters.Method where
  name := method.name.getD ""
  input := resolve declared (method.inputType.getD "") file
  output := resolve declared (method.outputType.getD "") file
  clientStreaming := method.clientStreaming.getD false
  serverStreaming := method.serverStreaming.getD false

def Service.resolved (declared : List Declared) (file : File) (service : Service) :
    TrpcRouters.Service where
  name := service.name.getD ""
  typeName := qualify file.packageText (service.name.getD "")
  protoFile := file.nameText
  methods := service.methods.map (Method.resolved declared file.nameText)

/-- The last file of a name. -/
def FileSet.file? (set : FileSet) (name : String) : Option File :=
  set.reverse.find? (fun file => file.nameText == name)

theorem FileSet.nameText_of_file? {set : FileSet} {name : String} {file : File}
    (found : set.file? name = some file) : file.nameText = name := by
  have spelled := List.find?_some found
  exact eq_of_beq spelled

def FileSet.services (set : FileSet) (requested : List String) : List TrpcRouters.Service :=
  let declared := set.declared
  requested.flatMap fun name =>
    match set.file? name with
    | some file => file.services.map (Service.resolved declared file)
    | none => []

def FileSet.missing (set : FileSet) (requested : List String) : List String :=
  requested.filter (fun name => (set.file? name).isNone)

end TrpcRouters.Descriptor
