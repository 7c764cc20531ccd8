import TrpcRouters.OutputTree
import TrpcRouters.Service
import TrpcRouters.Source.Statement

/-! The module that joins the routers of all services under their short names, and the check that no
two services share a short name. -/

namespace TrpcRouters

structure WrittenRouter where
  name : String
  file : Path
  /-- The specifier by which modules in `trpc` import it. -/
  importPath : String
deriving DecidableEq, Inhabited, Repr

structure Duplicate where
  earlier : Service
  later : Service
  field : String
deriving DecidableEq, Inhabited, Repr

namespace Duplicate

def text (duplicate : Duplicate) : String :=
  duplicate.earlier.typeName ++ " (" ++ duplicate.earlier.protoFile ++ ") and " ++
  duplicate.later.typeName ++ " (" ++ duplicate.later.protoFile ++
  ") both map to router field '" ++ duplicate.field ++ "'"

end Duplicate

namespace Aggregate
open Source

/-- The first service behind `seen` whose short name occurs before it, with the one that has it. -/
def firstDuplicate (seen : List Service) : List Service → Option Duplicate
  | [] => none
  | service :: rest =>
    let field := Identifier.shortName service.name
    match seen.find? (fun earlier => Identifier.shortName earlier.name = field) with
    | some earlier => some ⟨earlier, service, field⟩
    | none => firstDuplicate (service :: seen) rest

def duplicate? (services : List Service) : Option Duplicate :=
  firstDuplicate [] services

def writtenRouter (tree : OutputTree) (service : String) : WrittenRouter where
  name := service
  file := tree.routerFile service
  importPath := Specifier.between tree.trpc (tree.routers.child (Identifier.router service))

def body (routers : List WrittenRouter) : String :=
  "\treturn t.router(\x7b\n" ++
  String.join (routers.map fun router =>
    "\t\t" ++ Identifier.shortName router.name ++ ": " ++ Identifier.router router.name ++
    "(connectBaseUrl),\n") ++
  "\t\x7d);\n"

def statements (routers : List WrittenRouter) : List Statement :=
  [header, .importNames ["t"] "./routerFactory"] ++
  routers.map (fun router => .importNames [Identifier.router router.name] router.importPath) ++
  [.blank, .exportFunction "createAppRouter" "(connectBaseUrl: string)" (body routers),
    .blank, .exportType "AppRouter" "ReturnType<typeof createAppRouter>"]

def code (routers : List WrittenRouter) : String :=
  render (statements routers)

def index : List Statement :=
  [header, .exportAll "./appRouter", .exportAll "./routerFactory"]

def indexCode : String :=
  render index

def packageMarker : String :=
  "\x7b\n\t\"type\": \"module\"\n\x7d"

end Aggregate

end TrpcRouters
