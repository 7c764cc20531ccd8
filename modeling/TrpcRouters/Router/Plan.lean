import TrpcRouters.OutputTree
import TrpcRouters.Service
import TrpcRouters.Source.Statement
import TrpcRouters.Text.SortedSet
import TrpcRouters.Verbs

/-! What a service's router module says, before it becomes text: its procedures, and which message
types it imports from where. A message is imported under its local name unless the service uses that
name from several modules; then it is bound to its full name with underscores for dots. -/

namespace TrpcRouters

structure Procedure where
  /-- The key of the procedure, the declared name of the method. -/
  name : String
  /-- The call on the client that answers it. -/
  clientMethod : String
  inputType : String
  outputType : String
  kind : ProcedureKind
deriving DecidableEq, Inhabited, Repr

structure RouterPlan where
  serviceName : String
  routerIdent : String
  file : Path
  /-- The specifier of the module that exports the service. -/
  serviceImport : String
  /-- For each specifier in increasing order, the clauses imported from it in increasing order. -/
  typeImports : List (String × List Source.ImportClause)
  procedures : List Procedure
deriving DecidableEq, Inhabited, Repr

namespace RouterPlan
open Source

def specifierOf (tree : OutputTree) (message : MessageRef) : String :=
  Specifier.ofMessages tree.routers tree.connect message.protoFile

/-- Some message of the list has the local name of `message` and another specifier. -/
def isAmbiguous (tree : OutputTree) (messages : List MessageRef) (message : MessageRef) : Bool :=
  messages.any (fun other =>
    other.localName == message.localName && specifierOf tree other != specifierOf tree message)

def aliasOf (message : MessageRef) : String :=
  message.typeName.map (fun c => if c = '.' then '_' else c)

def clauseFor (tree : OutputTree) (messages : List MessageRef) (message : MessageRef) :
    ImportClause where
  name := message.localName
  renamed := if isAmbiguous tree messages message then some (aliasOf message) else none

/-- Clauses grouped by the specifier they come from, both in increasing order. -/
def group (imports : List (String × ImportClause)) : List (String × List ImportClause) :=
  (Text.sortedSet (imports.map Prod.fst)).map fun specifier =>
    (specifier, Text.sortedSetBy ImportClause.text
      ((imports.filter (fun entry => entry.1 = specifier)).map Prod.snd))

def procedureFor (tree : OutputTree) (rules : VerbRules) (messages : List MessageRef)
    (method : Method) : Procedure where
  name := method.name
  clientMethod := Identifier.method method.name
  inputType := (clauseFor tree messages method.input).bound
  outputType := (clauseFor tree messages method.output).bound
  kind := rules.classify method.name

def ofService (tree : OutputTree) (rules : VerbRules) (service : Service) : RouterPlan where
  serviceName := service.name
  routerIdent := Identifier.router service.name
  file := tree.routerFile service.name
  serviceImport := Specifier.ofServices tree.routers tree.connect service.protoFile
  typeImports := group (service.messages.map fun message =>
    (specifierOf tree message, clauseFor tree service.messages message))
  procedures := service.methods.map (procedureFor tree rules service.messages)

def procedureText (procedure : Procedure) : String :=
  "\t\t" ++ procedure.name ++ ": t.procedure\n" ++
  "\t\t\t.input(protobuf<" ++ procedure.inputType ++ ">())\n" ++
  "\t\t\t.output(protobuf<" ++ procedure.outputType ++ ">())\n" ++
  "\t\t\t." ++ procedure.kind.text ++ "(async (\x7b input \x7d) => client." ++
    procedure.clientMethod ++ "(input)),\n"

def routerValue (plan : RouterPlan) : String :=
  "(connectBaseUrl: string) => \x7b\n" ++
  "\tconst transport = createConnectTransport(\x7b baseUrl: connectBaseUrl \x7d);\n" ++
  "\tconst client = createClient(" ++ plan.serviceName ++ ", transport);\n\n" ++
  "\treturn t.router(\x7b\n" ++
  String.join (plan.procedures.map procedureText) ++
  "\t\x7d);\n" ++
  "\x7d"

def statements (plan : RouterPlan) : List Statement :=
  [header,
    .importNames ["createClient"] "@connectrpc/connect",
    .importNames ["createConnectTransport"] "@connectrpc/connect-web",
    .importNames ["t", "protobuf"] "../routerFactory",
    .importNames [plan.serviceName] plan.serviceImport] ++
  plan.typeImports.map (fun entry => .importTypes entry.2 entry.1) ++
  [.blank, .exportConst plan.routerIdent (routerValue plan)]

def code (plan : RouterPlan) : String :=
  render plan.statements

end RouterPlan

end TrpcRouters
