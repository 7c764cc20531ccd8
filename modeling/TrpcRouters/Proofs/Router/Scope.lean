import TrpcRouters.Proofs.Generation.Routers
import TrpcRouters.Proofs.Identifier
import TrpcRouters.Proofs.Router.Contents

/-! What the joint module binds. Beside the router builder it imports a router for each service, and it
declares a function and a type of its own. The routers of services that pass the check are called apart
from each other, but the function and the type are called like routers too. -/

namespace TrpcRouters.Aggregate
open Identifier Source

theorem bound_statements (routers : List WrittenRouter) :
    bound (statements routers) =
      "t" :: (routers.map (fun written => router written.name) ++ ["createAppRouter", "AppRouter"]) := by
  have imports : routers.flatMap (fun written => [router written.name]) =
      routers.map fun written => router written.name := List.map_eq_flatMap.symm
  simp only [bound, statements, List.flatMap_append, List.flatMap_map, Statement.bound, imports]
  rfl

theorem router_ne_builder (service : String) : router service ≠ "t" := by
  intro same
  have size := congrArg (fun text : String => text.toList.length) same
  simp [router] at size

/-- Different services bind different names, apart from those that the module declares. -/
theorem nodup_bound_iff {names : List String} (distinct : names.Nodup) :
    ("t" :: (names.map router ++ ["createAppRouter", "AppRouter"])).Nodup ↔
      ∀ name ∈ names, name ≠ "App" ∧ name ≠ "createApp" := by
  have routers : (names.map router).Nodup := distinct.map fun _ _ => router_inj.mp
  -- The names of the module are those that two services would give to their routers.
  have own : ["createAppRouter", "AppRouter"] = ["createApp", "App"].map router := by decide
  have builder : "t" ∉ names.map router ++ ["createApp", "App"].map router := by
    rw [← List.map_append]
    rintro member
    obtain ⟨name, _, same⟩ := List.mem_map.mp member
    exact router_ne_builder name same
  rw [own, List.nodup_cons, List.nodup_append]
  constructor
  · rintro ⟨_, _, _, apart⟩ name member
    have away : ∀ other ∈ ["createApp", "App"], name ≠ other := fun other among same =>
      apart _ (List.mem_map_of_mem member) _ (List.mem_map_of_mem among) (congrArg router same)
    exact ⟨away "App" (by simp), away "createApp" (by simp)⟩
  · intro apart
    refine ⟨builder, routers, by decide, ?_⟩
    intro first member second among same
    obtain ⟨name, inside, rfl⟩ := List.mem_map.mp member
    obtain ⟨other, own, rfl⟩ := List.mem_map.mp among
    obtain rfl := router_inj.mp same
    rcases List.mem_cons.mp own with taken | taken
    · exact (apart name inside).2 taken
    · exact (apart name inside).1 (List.mem_singleton.mp taken)

/-- For services that pass the check, the module binds every name once, unless one of them is called `App`
or `createApp`. -/
theorem bound_once_iff {services : List Service} (accepted : duplicate? services = none)
    (output : OutputTree) :
    let routers := services.map fun service => writtenRouter output service.name
    (∀ rules before written after,
      Generation.emitRouters output rules services before = .ok written after → written = routers) ∧
    (code routers = header.text ++ "import \x7b t \x7d from \"./routerFactory\";\n" ++
      String.join (routers.map fun written =>
        "import \x7b " ++ router written.name ++ " \x7d from \"" ++ written.importPath ++ "\";\n") ++
      ("\n" ++ ("export function createAppRouter(connectBaseUrl: string) \x7b\n" ++ body routers ++ "\x7d\n") ++
        "\n" ++ "export type AppRouter = ReturnType<typeof createAppRouter>;\n")) ∧
    bound (statements routers) =
      "t" :: ((services.map fun service => router service.name) ++ ["createAppRouter", "AppRouter"]) ∧
    ((bound (statements routers)).Nodup ↔
      ∀ service ∈ services, service.name ≠ "App" ∧ service.name ≠ "createApp") := by
  intro routers
  have names : routers.map (fun written => router written.name) =
      (services.map Service.name).map router := by
    rw [List.map_map, List.map_map]
    rfl
  refine ⟨?_, code_eq routers, ?_, ?_⟩
  · intro rules before written after emitted
    rw [Generation.emitRouters_of_nodup (duplicate?_eq_none_iff.mp accepted), Job.bind_eq] at emitted
    split at emitted
    · cases emitted
      rfl
    · cases emitted
  · rw [bound_statements, names, List.map_map]
    rfl
  · rw [bound_statements, names, nodup_bound_iff (nodup_names accepted), List.forall_mem_map]

def depotServices : List Service :=
  [⟨"OrderService", "depot.OrderService", "orders.proto", []⟩, ⟨"AppService", "depot.AppService", "app.proto", []⟩]

theorem depotServices_bound_once :
    (bound (statements (depotServices.map fun service => writtenRouter ⟨⟨"/out"⟩⟩ service.name))).Nodup := by
  have accepted : duplicate? depotServices = none := by decide +kernel
  exact (bound_once_iff accepted ⟨⟨"/out"⟩⟩).2.2.2.mpr (by decide +kernel)

/-- Services whose routers are called like the type and the function. -/
def clashingServices : List Service :=
  [⟨"App", "depot.App", "app.proto", []⟩, ⟨"createApp", "depot.createApp", "app.proto", []⟩]

theorem clashingServices_bound_twice :
    duplicate? clashingServices = none ∧ (∀ service ∈ clashingServices, IsIdentifier service.name) ∧
      bound (statements (clashingServices.map fun service => writtenRouter ⟨⟨"/out"⟩⟩ service.name)) =
        ["t", "AppRouter", "createAppRouter", "createAppRouter", "AppRouter"] := by
  decide +kernel

end TrpcRouters.Aggregate
