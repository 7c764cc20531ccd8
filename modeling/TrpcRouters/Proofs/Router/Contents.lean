import TrpcRouters.Proofs.Import.Relative
import TrpcRouters.Router.Aggregate
import TrpcRouters.Router.Plan

/-! What the router modules hold. The module of a service has a procedure for each method, and the joint module
an import and a field for each service, all of them in order. -/

namespace TrpcRouters

namespace RouterPlan
open Source

theorem code_ofService (tree : OutputTree) (rules : VerbRules) (service : Service) :
    (ofService tree rules service).code =
      header.text ++ "import \x7b createClient \x7d from \"@connectrpc/connect\";\n" ++
      "import \x7b createConnectTransport \x7d from \"@connectrpc/connect-web\";\n" ++
      "import \x7b t, protobuf \x7d from \"../routerFactory\";\n" ++
      ("import \x7b " ++ service.name ++ " \x7d from \"" ++
        Specifier.ofServices tree.routers tree.connect service.protoFile ++ "\";\n") ++
      String.join ((ofService tree rules service).typeImports.map fun entry =>
        "import type \x7b " ++ ", ".intercalate (entry.2.map ImportClause.text) ++ " \x7d from \"" ++
          entry.1 ++ "\";\n") ++
      ("\n" ++ ("export const " ++ Identifier.router service.name ++ " = " ++
        ("(connectBaseUrl: string) => \x7b\n" ++
          "\tconst transport = createConnectTransport(\x7b baseUrl: connectBaseUrl \x7d);\n" ++
          "\tconst client = createClient(" ++ service.name ++ ", transport);\n\n" ++
          "\treturn t.router(\x7b\n" ++
          String.join (service.methods.map fun method =>
            procedureText (procedureFor tree rules service.messages method)) ++
          "\t\x7d);\n" ++ "\x7d") ++ ";\n")) := by
  rw [code, statements, render_append, render_append, render_map]
  have procedures : (ofService tree rules service).procedures.map procedureText =
      service.methods.map fun method => procedureText (procedureFor tree rules service.messages method) :=
    List.map_map
  rw [← procedures]
  rfl

end RouterPlan

namespace Aggregate
open Identifier Source

theorem code_eq (routers : List WrittenRouter) :
    code routers = header.text ++ "import \x7b t \x7d from \"./routerFactory\";\n" ++
      String.join (routers.map fun written =>
        "import \x7b " ++ router written.name ++ " \x7d from \"" ++ written.importPath ++ "\";\n") ++
      ("\n" ++ ("export function createAppRouter(connectBaseUrl: string) \x7b\n" ++ body routers ++ "\x7d\n") ++
        "\n" ++ "export type AppRouter = ReturnType<typeof createAppRouter>;\n") := by
  rw [code, statements, render_append, render_append, render_map]
  rfl

theorem importPath_writtenRouter (output : OutputTree) {service : String} (whole : '/' ∉ service.toList) :
    (writtenRouter output service).importPath = "./" ++ ("routers/" ++ router service) := by
  have named : Path.IsName (.ofText (router service)) := by
    refine Path.isName_ofText_of_mem (c := 'R') ?_ (by decide) ?_
    · simp [router]
    · simp [router, whole]
  have below : (output.routers.child (router service)).components =
      output.trpc.components ++ [.name "routers", .name (.ofText (router service))] := by
    rw [Path.components_child named, output.components_routers, output.components_trpc, List.append_assoc,
      List.append_assoc]
    rfl
  have down : Text.joined '/' (Specifier.steps output.trpc.components
      (output.routers.child (router service)).components) = "routers/" ++ router service := by
    rw [below, Specifier.steps, Specifier.shared_self, List.drop_length, List.drop_left, ← String.toList_inj]
    simp [Text.joined, Text.glue, Component.text, Component.raw]
  have stays : ['.', '.'].isPrefixOf ("routers/" ++ router service).toList = false := by
    simp [List.isPrefixOf]
  unfold writtenRouter Specifier.between
  simp only [down, stays, Bool.false_eq_true, ↓reduceIte]

/-- The fields of services in the joint router, each with the router that it is for. -/
def keyed (keys : List String) (services : List Service) : String :=
  "\treturn t.router(\x7b\n" ++
  String.join (List.zipWith (fun key service =>
    "\t\t" ++ key ++ ": " ++ router service.name ++ "(connectBaseUrl),\n") keys services) ++
  "\t\x7d);\n"

theorem body_writtenRouters (output : OutputTree) (services : List Service) :
    body (services.map fun service => writtenRouter output service.name) =
      keyed (services.map fun service => shortName service.name) services := by
  have lines : List.zipWith (fun key service => "\t\t" ++ key ++ ": " ++ router service.name ++ "(connectBaseUrl),\n")
      (services.map fun service => shortName service.name) services =
        services.map fun service =>
          "\t\t" ++ shortName service.name ++ ": " ++ router service.name ++ "(connectBaseUrl),\n" := by
    rw [List.zipWith_map_left, List.zipWith_self]
  unfold body keyed
  rw [lines]
  congr 3
  exact List.map_map

def joint (services : List Service) : String :=
  header.text ++ "import \x7b t \x7d from \"./routerFactory\";\n" ++
  String.join (services.map fun service =>
    "import \x7b " ++ router service.name ++ " \x7d from \"" ++ ("./" ++ ("routers/" ++ router service.name)) ++
      "\";\n") ++
  ("\n" ++ ("export function createAppRouter(connectBaseUrl: string) \x7b\n" ++
    keyed (services.map fun service => shortName service.name) services ++ "\x7d\n") ++
    "\n" ++ "export type AppRouter = ReturnType<typeof createAppRouter>;\n")

/-- The routers of services whose names are no paths make up their joint module. -/
theorem code_writtenRouters (output : OutputTree) {services : List Service}
    (whole : ∀ service ∈ services, '/' ∉ service.name.toList) :
    code (services.map fun service => writtenRouter output service.name) = joint services := by
  have imports : (services.map fun service => writtenRouter output service.name).map (fun written =>
      "import \x7b " ++ router written.name ++ " \x7d from \"" ++ written.importPath ++ "\";\n") =
        services.map fun service => "import \x7b " ++ router service.name ++ " \x7d from \"" ++
          ("./" ++ ("routers/" ++ router service.name)) ++ "\";\n" := by
    refine List.map_map.trans (List.map_congr_left fun service member => ?_)
    rw [Function.comp_apply, importPath_writtenRouter output (whole service member)]
    rfl
  rw [code_eq, body_writtenRouters, imports, joint]

end Aggregate

end TrpcRouters
