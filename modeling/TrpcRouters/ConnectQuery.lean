import TrpcRouters.OutputTree
import TrpcRouters.Service
import TrpcRouters.Source.Statement

/-! The modules that export one method descriptor per call, one module for each definition file that
declares services. -/

namespace TrpcRouters.ConnectQuery
open Source

def uses (services : List Service) (client : String) : Nat :=
  (services.flatMap Service.methods).countP (fun method => Identifier.method method.name = client)

/-- The name under which a method is exported: its client name, behind that of its service if some
other method of the file has it too. -/
def exportName (services : List Service) (service : Service) (method : Method) : String :=
  let client := Identifier.method method.name
  if uses services client > 1 then service.name ++ "_" ++ client else Identifier.binding client

def descriptor (service : Service) (method : Method) : String :=
  "\x7b\n" ++
  "\t..." ++ service.name ++ ".methods." ++ Identifier.method method.name ++ ",\n" ++
  "\tservice: " ++ service.name ++ ",\n" ++
  "\x7d as const"

def statements (protoFile : String) (services : List Service) : List Statement :=
  [header, .importNames (services.map Service.name)
    ("./" ++ protoStem protoFile ++ "_connect.js")] ++
  services.flatMap fun service => service.methods.flatMap fun method =>
    [.blank, .exportConst (exportName services service method) (descriptor service method)]

def code (protoFile : String) (services : List Service) : String :=
  render (statements protoFile services)

def addToGroup (service : Service) : List (String × List Service) → List (String × List Service)
  | [] => [(service.protoFile, [service])]
  | (file, members) :: rest =>
    if file = service.protoFile then (file, members ++ [service]) :: rest
    else (file, members) :: addToGroup service rest

/-- The services by definition file, in the order of first mention. -/
def groups (services : List Service) : List (String × List Service) :=
  services.foldl (fun groups service => addToGroup service groups) []

def file (tree : OutputTree) (protoFile : String) : Path :=
  ⟨(generatedModule tree.connect protoFile "_connectquery").raw ++ RawString.ofText ".ts"⟩

def modules (tree : OutputTree) (services : List Service) : List (Path × String) :=
  (groups services).map fun entry => (file tree entry.1, code entry.1 entry.2)

end TrpcRouters.ConnectQuery
