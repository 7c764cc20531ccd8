import Mathlib.Data.List.Nodup
import TrpcRouters.ConnectQuery
import TrpcRouters.Proofs.Identifier
import TrpcRouters.Proofs.Text.Pieces

/-! What a connect-query module exports. There is one constant for each method, called after the
method's client name, and behind the service if the file has that client name twice. Within one service
the qualified names are still equal where the client names are. -/

namespace TrpcRouters.ConnectQuery
open Source

def constant? : Statement → Option (String × String)
  | .exportConst name value => some (name, value)
  | _ => none

def clients (service : Service) : List String :=
  service.methods.map fun method => Identifier.method method.name

def calls (services : List Service) : List (String × String) :=
  services.flatMap fun service => (clients service).map (Prod.mk service.name)

def exportOf (services : List Service) (call : String × String) : String :=
  if uses services call.2 > 1 then call.1 ++ "_" ++ call.2 else Identifier.binding call.2

theorem constants_statements (protoFile : String) (services : List Service) :
    (statements protoFile services).filterMap constant? =
      services.flatMap fun service => service.methods.map fun method =>
        (exportName services service method, descriptor service method) := by
  simp only [statements, header, List.cons_append, List.nil_append, List.filterMap_cons, constant?,
    List.filterMap_flatMap, List.filterMap_nil]
  congr 1
  funext service
  rw [List.map_eq_flatMap]

def declaration (constant : String × String) : String :=
  "\nexport const " ++ constant.1 ++ " = " ++ constant.2 ++ ";\n"

theorem text_exportConst (constant : String × String) :
    Statement.blank.text ++ (Statement.exportConst constant.1 constant.2).text = declaration constant := by
  have opening : "\n" ++ "export const " = "\nexport const " := rfl
  calc
    _ = "\n" ++ ("export const " ++ constant.1 ++ " = " ++ constant.2 ++ ";\n") := rfl
    _ = ("\n" ++ "export const ") ++ constant.1 ++ " = " ++ constant.2 ++ ";\n" := by
      simp only [String.append_assoc]
    _ = declaration constant :=
      congrArg (· ++ constant.1 ++ " = " ++ constant.2 ++ ";\n") opening

/-- A module is the import of its services, and behind it the declarations of its constants. -/
theorem code_eq_declarations (protoFile : String) (services : List Service) :
    code protoFile services =
      header.text ++ ("import \x7b " ++ ", ".intercalate (services.map Service.name) ++ " \x7d from \"" ++
        ("./" ++ protoStem protoFile ++ "_connect.js") ++ "\";\n") ++
      String.join (((statements protoFile services).filterMap constant?).map declaration) := by
  have exports : String.join ((services.flatMap fun service => service.methods.flatMap fun method =>
      [.blank, .exportConst (exportName services service method) (descriptor service method)]).map
        Statement.text) =
      String.join ((services.flatMap fun service => service.methods.map fun method =>
        (exportName services service method, descriptor service method)).map declaration) := by
    rw [← String.toList_inj, String.toList_join, String.toList_join, List.flatMap_map, List.flatMap_map,
      List.flatMap_assoc, List.flatMap_assoc]
    congr 1
    funext service
    rw [List.flatMap_assoc, List.flatMap_map]
    congr 1
    funext method
    rw [← text_exportConst, String.toList_append, List.flatMap_cons, List.flatMap_cons, List.flatMap_nil,
      List.append_nil]
  have opening (names : List String) (source : String) :
      render [header, .importNames names source] =
        header.text ++ (Statement.importNames names source).text := by
    rw [render_cons, render_cons]
    exact congrArg (header.text ++ ·) (String.append_empty ..)
  rw [constants_statements, ← exports, code, statements, render_append, opening]
  rfl

theorem exported_statements (protoFile : String) (services : List Service) :
    exported (statements protoFile services) = (calls services).map (exportOf services) := by
  simp only [exported, statements, header, List.cons_append, List.nil_append, List.flatMap_cons,
    Statement.exported, List.flatMap_assoc, List.flatMap_nil, List.append_nil, calls, clients,
    List.map_flatMap, List.map_map]
  congr 1
  funext service
  rw [List.map_eq_flatMap]
  rfl

theorem uses_eq_count (services : List Service) (client : String) :
    uses services client = ((calls services).map Prod.snd).count client := by
  simp only [uses, calls, clients, List.map_flatMap, List.map_map, List.count, List.countP_flatMap]
  congr 1
  apply List.map_congr_left
  intro service _
  rw [Function.comp, Function.comp, List.countP_map]
  rfl

theorem mem_calls {services : List Service} {call : String × String} :
    call ∈ calls services ↔ ∃ service ∈ services, ∃ method ∈ service.methods,
      call = (service.name, Identifier.method method.name) := by
  simp [calls, clients, eq_comm]

section Named
variable {services : List Service}

def Named (services : List Service) : Prop :=
  ∀ service ∈ services, IsIdentifier service.name ∧ ∀ method ∈ service.methods, IsIdentifier method.name

instance (services : List Service) : Decidable (Named services) :=
  inferInstanceAs (Decidable (∀ _ ∈ _, _ ∧ _))

theorem eq_of_uses_le_one {first second : String × String} (left : first ∈ calls services)
    (right : second ∈ calls services) (same : first.2 = second.2)
    (once : uses services first.2 ≤ 1) : first = second := by
  rw [uses_eq_count, List.count, List.countP_map, List.countP_eq_length_filter] at once
  have leftIn : first ∈ (calls services).filter ((· == first.2) ∘ Prod.snd) := by simp [left]
  have rightIn : second ∈ (calls services).filter ((· == first.2) ∘ Prod.snd) := by simp [right, same]
  generalize (calls services).filter _ = members at once leftIn rightIn
  match members, once with
  | [only], _ => rw [List.mem_singleton.mp leftIn, List.mem_singleton.mp rightIn]

theorem exportOf_injective (named : Named services) {first second : String × String}
    (left : first ∈ calls services) (right : second ∈ calls services)
    (same : exportOf services first = exportOf services second) : first = second := by
  obtain ⟨_, firstIn, method, methodIn, rfl⟩ := mem_calls.mp left
  obtain ⟨_, secondIn, other, otherIn, rfl⟩ := mem_calls.mp right
  have methodNamed := (named _ firstIn).2 method methodIn
  have otherNamed := (named _ secondIn).2 other otherIn
  have qualified : ∀ {service name client : String}, IsIdentifier name →
      service ++ "_" ++ client ≠ Identifier.binding (Identifier.method name) := by
    intro service name client identifier meets
    apply Identifier.underscore_notMem_binding identifier
    simp [← meets]
  unfold exportOf at same
  split at same
  next =>
    split at same
    next =>
      have letters := congrArg String.toList same
      simp only [String.toList_append, List.append_assoc] at letters
      obtain ⟨fronts, backs⟩ := Text.split_last (Identifier.method_spec methodNamed).1
        (Identifier.method_spec otherNamed).1 letters
      rw [String.toList_inj.mp fronts, String.toList_inj.mp backs]
    next => exact absurd same (qualified otherNamed)
  next once =>
    split at same
    next => exact absurd same.symm (qualified methodNamed)
    next =>
      have alike := Identifier.binding_method_injective methodNamed otherNamed same
      exact eq_of_uses_le_one left right alike (Nat.le_of_not_lt once)

theorem calls_nodup (distinct : (services.map Service.name).Nodup) :
    (calls services).Nodup ↔ ∀ service ∈ services, (clients service).Nodup := by
  rw [calls, List.nodup_flatMap]
  have inner : ∀ service : Service,
      ((clients service).map (Prod.mk service.name)).Nodup ↔ (clients service).Nodup := fun service =>
    List.nodup_map_iff fun _ _ same => (Prod.mk.inj same).2
  simp only [inner, and_iff_left_iff_imp]
  intro _
  rw [List.Nodup, List.pairwise_map] at distinct
  refine distinct.imp ?_
  intro first second apart call firstIn secondIn
  obtain ⟨_, _, rfl⟩ := List.mem_map.mp firstIn
  obtain ⟨_, _, same⟩ := List.mem_map.mp secondIn
  exact apart (Prod.ext_iff.mp same).1.symm

/-- No name is exported twice exactly if no service gives one client name to two methods. -/
theorem exports_nodup_iff (named : Named services) (distinct : (services.map Service.name).Nodup) :
    ((calls services).map (exportOf services)).Nodup ↔
      ∀ service ∈ services, (clients service).Nodup := by
  rw [← calls_nodup distinct]
  constructor
  · exact List.Nodup.of_map _
  · intro different
    exact different.map_on fun _ left _ right same => exportOf_injective named left right same

/-- No method's export is called like a service of the file. A client name used once is the export
unless it is reserved; any other is behind its service and an underscore. -/
def Clear (services : List Service) : Prop :=
  ∀ service ∈ services, ∀ client ∈ clients service,
    (uses services client ≤ 1 → client ∉ Identifier.reserved →
      client ∉ services.map Service.name) ∧
    (1 < uses services client → service.name ++ "_" ++ client ∉ services.map Service.name)

theorem exportOf_notMem_iff (named : Named services) (service : Service) (client : String) :
    exportOf services (service.name, client) ∉ services.map Service.name ↔
      (uses services client ≤ 1 → client ∉ Identifier.reserved →
        client ∉ services.map Service.name) ∧
      (1 < uses services client → service.name ++ "_" ++ client ∉ services.map Service.name) := by
  by_cases shared : uses services client > 1
  · have several : ¬uses services client ≤ 1 := by omega
    have qualified : exportOf services (service.name, client) = service.name ++ "_" ++ client :=
      if_pos shared
    rw [qualified]
    exact ⟨fun away => ⟨fun once => absurd once several, fun _ => away⟩, fun both => both.2 shared⟩
  · have once : uses services client ≤ 1 := by omega
    have plain : exportOf services (service.name, client) = Identifier.binding client := if_neg shared
    rw [plain]
    constructor
    · intro away
      refine ⟨fun _ free member => away ?_, fun several => absurd several shared⟩
      rwa [Identifier.binding, if_neg free]
    · intro both taken
      obtain ⟨other, inside, spelled⟩ := List.mem_map.mp taken
      obtain ⟨free, same⟩ := (Identifier.binding_eq_iff (named other inside).1).mp spelled.symm
      exact both.1 once free (same ▸ List.mem_map_of_mem inside)

theorem exports_disjoint_iff (named : Named services) :
    ((calls services).map (exportOf services)).Disjoint (services.map Service.name) ↔
      Clear services := by
  constructor
  · intro disjoint service inside client member
    rw [← exportOf_notMem_iff named]
    apply disjoint
    exact List.mem_map_of_mem (List.mem_flatMap.mpr ⟨service, inside, List.mem_map_of_mem member⟩)
  · intro clear name isExport taken
    obtain ⟨call, callIn, rfl⟩ := List.mem_map.mp isExport
    obtain ⟨service, inside, inner⟩ := List.mem_flatMap.mp callIn
    obtain ⟨client, member, rfl⟩ := List.mem_map.mp inner
    exact (exportOf_notMem_iff named service client).mpr (clear service inside client member) taken

theorem clear_of_capitals (named : Named services)
    (capitals : ∀ service ∈ services, '_' ∉ service.name.toList ∧
      ∀ c ∈ service.name.toList.head?, c.isUpper = true) : Clear services := by
  intro service inside client member
  obtain ⟨method, methodIn, rfl⟩ := List.mem_map.mp member
  constructor
  · intro _ _ taken
    obtain ⟨other, otherIn, spelled⟩ := List.mem_map.mp taken
    have front := (Identifier.method_spec ((named service inside).2 method methodIn)).2.1
    have some_ : other.name.toList ≠ [] := by simpa using (named other otherIn).1.1
    obtain ⟨first, rest, shape⟩ := List.exists_cons_of_ne_nil some_
    have capital := (capitals other otherIn).2 first (by simp [shape])
    rw [← spelled] at front
    rw [front first (by simp [shape])] at capital
    cases capital
  · intro _ taken
    obtain ⟨other, otherIn, spelled⟩ := List.mem_map.mp taken
    apply (capitals other otherIn).1
    simp [spelled]

end Named

/-- A module declares one constant for each method and nothing else. No name is exported twice exactly
if the client names within each service differ, and no export is called like an imported service
exactly if the names are clear of each other, as they are where service names begin with a capital
and hold no underscore. -/
theorem exports_distinct_iff (protoFile : String) {services : List Service} (named : Named services)
    (distinct : (services.map Service.name).Nodup) :
    let emitted := statements protoFile services
    (code protoFile services =
      header.text ++ ("import \x7b " ++ ", ".intercalate (services.map Service.name) ++ " \x7d from \"" ++
        ("./" ++ protoStem protoFile ++ "_connect.js") ++ "\";\n") ++
      String.join ((emitted.filterMap constant?).map declaration)) ∧
    (emitted.filterMap constant? =
        services.flatMap fun service => service.methods.map fun method =>
          (exportName services service method, descriptor service method)) ∧
      exported emitted = (emitted.filterMap constant?).map Prod.fst ∧
      ((exported emitted).Nodup ↔ ∀ service ∈ services, (clients service).Nodup) ∧
      ((exported emitted).Disjoint (services.map Service.name) ↔ Clear services) ∧
      ((∀ service ∈ services, '_' ∉ service.name.toList ∧
          ∀ c ∈ service.name.toList.head?, c.isUpper = true) →
        (exported emitted).Disjoint (services.map Service.name)) := by
  intro emitted
  have exports := exported_statements protoFile services
  refine ⟨code_eq_declarations protoFile services, constants_statements protoFile services, ?_, ?_, ?_, ?_⟩
  · rw [constants_statements, exports]
    simp only [calls, clients, List.map_flatMap, List.map_map]
    rfl
  · rw [exports]
    exact exports_nodup_iff named distinct
  · rw [exports]
    exact exports_disjoint_iff named
  · intro capitals
    rw [exports]
    exact (exports_disjoint_iff named).mpr (clear_of_capitals named capitals)

def itemService (name : String) (methods : List String) : Service :=
  ⟨name, "shop." ++ name, "shop.proto", methods.map fun method =>
    ⟨method, ⟨"shop.Item", "Item", "shop.proto"⟩, ⟨"shop.Item", "Item", "shop.proto"⟩, false, false⟩⟩

def shop : List Service :=
  [itemService "ItemService" ["Delete", "GetItem"], itemService "CartService" ["Delete", "New"]]

theorem shop_exports_distinct :
    Named shop ∧ (shop.map Service.name).Nodup ∧ (exported (statements "shop.proto" shop)).Nodup ∧
      (exported (statements "shop.proto" shop)).Disjoint (shop.map Service.name) := by
  have named : Named shop := by decide
  have distinct : (shop.map Service.name).Nodup := by decide
  have capitals : ∀ service ∈ shop, '_' ∉ service.name.toList ∧
      service.name.toList.head?.all Char.isUpper = true := by decide
  have whole := exports_distinct_iff "shop.proto" named distinct
  refine ⟨named, distinct, ?_, ?_⟩
  · exact whole.2.2.2.1.mpr (by decide +kernel)
  · apply whole.2.2.2.2.2
    intro service inside
    have plain := capitals service inside
    exact ⟨plain.1, (Option.all_eq_true _ _).mp plain.2⟩

/-- One service with two methods of one client name exports it twice behind its own name, and a service
called like the client name of its method is imported and exported under one name. -/
theorem twins_exported_twice :
    (Named [itemService "Shop" ["GetItem", "get_item"]] ∧
      exported (statements "shop.proto" [itemService "Shop" ["GetItem", "get_item"]]) =
        ["Shop_getItem", "Shop_getItem"]) ∧
    (Named [itemService "getItem" ["GetItem"]] ∧
      exported (statements "shop.proto" [itemService "getItem" ["GetItem"]]) =
        [itemService "getItem" ["GetItem"]].map Service.name) := by
  decide +kernel

end TrpcRouters.ConnectQuery
