import TrpcRouters.Proofs.Descriptor.Paths
import TrpcRouters.Router.Plan

/-! Which messages of a service share an identifier in its router. A message goes by its path with
underscores between the names, and by its package and path where another module exports that path too.
Two messages are confused exactly when the texts made so are equal. -/

namespace TrpcRouters.RouterPlan
open Descriptor

def types (plan : RouterPlan) : List String :=
  plan.procedures.flatMap fun procedure => [procedure.inputType, procedure.outputType]

/-- The service takes the local name of a message from another module as well. -/
def Shared (tree : OutputTree) (service : TrpcRouters.Service) (message : MessageRef) : Prop :=
  ∃ other ∈ service.messages, other.localName = message.localName ∧
    specifierOf tree other ≠ specifierOf tree message

/-- The identifier under which a router knows a message of its service. -/
def identifier (tree : OutputTree) (service : TrpcRouters.Service) (message : MessageRef) : String :=
  (clauseFor tree service.messages message).bound

theorem types_ofService (tree : OutputTree) (rules : VerbRules) (service : TrpcRouters.Service) :
    (ofService tree rules service).types = service.messages.map (identifier tree service) := by
  simp only [types, ofService, List.flatMap_map, TrpcRouters.Service.messages, List.map_flatMap]
  rfl

theorem isAmbiguous_iff (tree : OutputTree) (service : TrpcRouters.Service) (message : MessageRef) :
    isAmbiguous tree service.messages message = true ↔ Shared tree service message := by
  simp [isAmbiguous, Shared]

theorem identifier_of_shared {tree : OutputTree} {service : TrpcRouters.Service}
    {message : MessageRef} (shared : Shared tree service message) :
    identifier tree service message = aliasOf message := by
  rw [← isAmbiguous_iff] at shared
  simp [identifier, clauseFor, shared, Source.ImportClause.bound]

theorem identifier_of_not_shared {tree : OutputTree} {service : TrpcRouters.Service}
    {message : MessageRef} (own : ¬Shared tree service message) :
    identifier tree service message = message.localName := by
  rw [← isAmbiguous_iff] at own
  simp [identifier, clauseFor, own, Source.ImportClause.bound]

/-- An alias writes underscores between the parts of the package and the names of the path. -/
theorem aliasOf_fullName {file : File} {path : List String}
    (identifiers : ∀ part ∈ file.packageParts ++ path, IsIdentifier part) (exported from_ : String) :
    aliasOf ⟨file.fullName path, exported, from_⟩ =
      Text.joined '_' (file.packageParts ++ path) := by
  apply String.toList_inj.mp
  rw [aliasOf, String.toList_map, File.fullName, Text.joined, Text.joined, String.toList_ofList,
    String.toList_ofList, Text.glue_map, List.map_map]
  congr 1
  apply List.map_congr_left
  intro part member
  have plain : '.' ∉ part.toList := notMem_of_isIdentifier (identifiers part member) (by decide)
  rw [Function.comp, List.map_congr_left (g := id), List.map_id]
  intro c inside
  have other : c ≠ '.' := fun dot => plain (dot ▸ inside)
  exact if_neg other

section Declared
variable {set : FileSet} {requested : List String} {service : TrpcRouters.Service} {tree : OutputTree}
  {first second : File} {path other : List String} {x y : MessageRef}

theorem identifier_eq_iff (firstNames : ∀ part ∈ first.packageParts ++ path, IsIdentifier part)
    (secondNames : ∀ part ∈ second.packageParts ++ other, IsIdentifier part)
    (xIn : x ∈ service.messages) (yIn : y ∈ service.messages)
    (xIs : x = ⟨first.fullName path, Text.joined '_' path, first.nameText⟩)
    (yIs : y = ⟨second.fullName other, Text.joined '_' other, second.nameText⟩) :
    identifier tree service x = identifier tree service y ↔
      (¬Shared tree service x ∧ ¬Shared tree service y ∧ specifierOf tree x = specifierOf tree y ∧
        Text.joined '_' path = Text.joined '_' other) ∨
      (Shared tree service x ∧ Shared tree service y ∧
        Text.joined '_' (first.packageParts ++ path) =
          Text.joined '_' (second.packageParts ++ other)) ∨
      (Shared tree service x ∧ ¬Shared tree service y ∧ first.packageParts ≠ [] ∧
        Text.joined '_' (first.packageParts ++ path) = Text.joined '_' other) ∨
      (¬Shared tree service x ∧ Shared tree service y ∧ second.packageParts ≠ [] ∧
        Text.joined '_' path = Text.joined '_' (second.packageParts ++ other)) := by
  have xLocal : x.localName = Text.joined '_' path := by rw [xIs]
  have yLocal : y.localName = Text.joined '_' other := by rw [yIs]
  have xAlias : aliasOf x = Text.joined '_' (first.packageParts ++ path) := by
    rw [xIs, aliasOf_fullName firstNames]
  have yAlias : aliasOf y = Text.joined '_' (second.packageParts ++ other) := by
    rw [yIs, aliasOf_fullName secondNames]
  -- A message taken from one module only shares its local name with none from another module.
  have together : ∀ {a b : MessageRef}, a ∈ service.messages → ¬Shared tree service b →
      a.localName = b.localName → specifierOf tree a = specifierOf tree b := by
    intro a b member own same
    by_contra apart
    exact own ⟨a, member, same, apart⟩
  have packaged : ∀ {a b : MessageRef}, a ∈ service.messages → Shared tree service a →
      ¬Shared tree service b → a.localName ≠ b.localName := by
    rintro a b member ⟨third, thirdIn, alike, apart⟩ own same
    exact apart ((together thirdIn own (alike.trans same)).trans (together member own same).symm)
  by_cases xShared : Shared tree service x
  · by_cases yShared : Shared tree service y
    · rw [identifier_of_shared xShared, identifier_of_shared yShared, xAlias, yAlias]
      simp [xShared, yShared]
    · rw [identifier_of_shared xShared, identifier_of_not_shared yShared, xAlias, yLocal]
      have differ := packaged xIn xShared yShared
      rw [xLocal, yLocal] at differ
      have some_ : Text.joined '_' (first.packageParts ++ path) = Text.joined '_' other →
          first.packageParts ≠ [] := by
        intro same none_
        rw [none_, List.nil_append] at same
        exact differ same
      simpa [xShared, yShared] using some_
  · by_cases yShared : Shared tree service y
    · rw [identifier_of_not_shared xShared, identifier_of_shared yShared, xLocal, yAlias]
      have differ := packaged yIn yShared xShared
      rw [xLocal, yLocal] at differ
      have some_ : Text.joined '_' path = Text.joined '_' (second.packageParts ++ other) →
          second.packageParts ≠ [] := by
        intro same none_
        rw [none_, List.nil_append] at same
        exact differ same.symm
      simpa [xShared, yShared] using some_
    · rw [identifier_of_not_shared xShared, identifier_of_not_shared yShared]
      have alike := together xIn yShared
      rw [xLocal, yLocal] at alike ⊢
      simpa [xShared, yShared] using alike

theorem identifier_ne (firstNames : ∀ part ∈ first.packageParts ++ path, IsIdentifier part)
    (secondNames : ∀ part ∈ second.packageParts ++ other, IsIdentifier part)
    (xIn : x ∈ service.messages) (yIn : y ∈ service.messages)
    (xIs : x = ⟨first.fullName path, Text.joined '_' path, first.nameText⟩)
    (yIs : y = ⟨second.fullName other, Text.joined '_' other, second.nameText⟩)
    (unique : first.fullName path = second.fullName other → x = y)
    (apart : specifierOf tree x ≠ specifierOf tree y) (flat : path.length = 1)
    (otherFlat : other.length = 1)
    (plain : ∀ part ∈ first.packageParts ++ path ++ second.packageParts ++ other,
      '_' ∉ part.toList) :
    identifier tree service x ≠ identifier tree service y := by
  simp only [List.mem_append, or_assoc] at plain
  have firstPlain : ∀ part ∈ first.packageParts ++ path, '_' ∉ part.toList := by
    intro part member
    rcases List.mem_append.mp member with package | name
    · exact plain part (Or.inl package)
    · exact plain part (Or.inr (Or.inl name))
  have secondPlain : ∀ part ∈ second.packageParts ++ other, '_' ∉ part.toList := by
    intro part member
    rcases List.mem_append.mp member with package | name
    · exact plain part (Or.inr (Or.inr (Or.inl package)))
    · exact plain part (Or.inr (Or.inr (Or.inr name)))
  have some_ : path ≠ [] := List.ne_nil_of_length_eq_add_one flat
  have otherSome : other ≠ [] := List.ne_nil_of_length_eq_add_one otherFlat
  intro same
  rcases (identifier_eq_iff firstNames secondNames xIn yIn xIs yIs).mp same with
    ⟨_, _, together, _⟩ | ⟨_, _, joined⟩ | ⟨_, _, packaged, joined⟩ | ⟨_, _, packaged, joined⟩
  · exact apart together
  · have parts := Text.joined_injective (by simp [some_]) (by simp [otherSome]) firstPlain secondPlain
      joined
    have one : x = y := unique (by rw [File.fullName, File.fullName, parts])
    exact apart (by rw [one])
  · have parts := Text.joined_injective (by simp [some_]) otherSome firstPlain
      (fun part member => secondPlain part (List.mem_append_right _ member)) joined
    have lengths := congrArg List.length parts
    rw [List.length_append] at lengths
    exact packaged (List.length_eq_zero_iff.mp (by omega))
  · have parts := Text.joined_injective some_ (by simp [otherSome])
      (fun part member => firstPlain part (List.mem_append_right _ member)) secondPlain joined
    have lengths := congrArg List.length parts
    rw [List.length_append] at lengths
    exact packaged (List.length_eq_zero_iff.mp (by omega))

end Declared

/-- Two references of a service, spelled by package and path, get one identifier exactly if the texts
that stand for them are equal. A message whose path is taken from one module only goes by the path; any
other by package and path. Messages from different modules that are not nested and use no underscores
are never confused. -/
theorem types_eq_iff {set : FileSet} (named : set.Named) (distinct : set.Distinct)
    {requested : List String} {service : TrpcRouters.Service}
    (collected : service ∈ set.services requested) (tree : OutputTree) (rules : VerbRules)
    {first second : File} (firstIn : first ∈ set) (secondIn : second ∈ set)
    {path other : List String} (pathIn : path ∈ Message.pathsAll first.messages)
    (otherIn : other ∈ Message.pathsAll second.messages)
    {i j : Nat} {x y : MessageRef} (atFirst : service.messages[i]? = some x)
    (atSecond : service.messages[j]? = some y)
    (firstName : x.typeName = first.fullName path) (secondName : y.typeName = second.fullName other) :
    ((ofService tree rules service).types[i]? = (ofService tree rules service).types[j]? ↔
      (¬Shared tree service x ∧ ¬Shared tree service y ∧ specifierOf tree x = specifierOf tree y ∧
        Text.joined '_' path = Text.joined '_' other) ∨
      (Shared tree service x ∧ Shared tree service y ∧
        Text.joined '_' (first.packageParts ++ path) =
          Text.joined '_' (second.packageParts ++ other)) ∨
      (Shared tree service x ∧ ¬Shared tree service y ∧ first.packageParts ≠ [] ∧
        Text.joined '_' (first.packageParts ++ path) = Text.joined '_' other) ∨
      (¬Shared tree service x ∧ Shared tree service y ∧ second.packageParts ≠ [] ∧
        Text.joined '_' path = Text.joined '_' (second.packageParts ++ other))) ∧
    (specifierOf tree x ≠ specifierOf tree y → path.length = 1 → other.length = 1 →
      (∀ part ∈ first.packageParts ++ path ++ second.packageParts ++ other, '_' ∉ part.toList) →
      (ofService tree rules service).types[i]? ≠ (ofService tree rules service).types[j]?) := by
  have xIn := List.mem_of_getElem? atFirst
  have yIn := List.mem_of_getElem? atSecond
  have xIs := eq_of_typeName named distinct collected xIn firstIn pathIn firstName
  have yIs := eq_of_typeName named distinct collected yIn secondIn otherIn secondName
  have identifiers : ∀ {file : File}, file ∈ set → ∀ {path : List String},
      path ∈ Message.pathsAll file.messages → ∀ part ∈ file.packageParts ++ path,
        IsIdentifier part := by
    intro file inSet path declared part member
    rcases List.mem_append.mp member with package | name
    · exact (named file inSet).1 part package
    · exact (named file inSet).2 path declared part name
  have firstNames := identifiers firstIn pathIn
  have secondNames := identifiers secondIn otherIn
  have left : (ofService tree rules service).types[i]? = some (identifier tree service x) := by
    rw [types_ofService, List.getElem?_map, atFirst]
    rfl
  have right : (ofService tree rules service).types[j]? = some (identifier tree service y) := by
    rw [types_ofService, List.getElem?_map, atSecond]
    rfl
  rw [left, right, Option.some_inj]
  refine ⟨identifier_eq_iff firstNames secondNames xIn yIn xIs yIs, fun apart flat otherFlat plain =>
    fun same => identifier_ne firstNames secondNames xIn yIn xIs yIs ?_ apart flat otherFlat plain
      (Option.some_inj.mp same)⟩
  intro spelled
  rw [eq_of_typeName named distinct collected yIn firstIn pathIn (secondName.trans spelled.symm)]
  exact xIs

/-- A service that takes messages of one name from two files. -/
def statusService : TrpcRouters.Service :=
  ⟨"OrderService", "orders.v1.OrderService", "orders/v1/order.proto",
    [⟨"SetStatus", ⟨"orders.v1.Status", "Status", "orders/v1/order.proto"⟩,
      ⟨"common.v1.Status", "Status", "common/v1/status.proto"⟩, false, false⟩]⟩

def statusSet : FileSet :=
  [⟨some "common/v1/status.proto", some "common.v1", [.declare (some "Status") []], []⟩,
    ⟨some "orders/v1/order.proto", some "orders.v1", [.declare (some "Status") []],
      [⟨some "OrderService",
        [⟨some "SetStatus", some ".orders.v1.Status", some ".common.v1.Status", none, none⟩]⟩]⟩]

theorem statusService_types_ne :
    statusSet.Named ∧ statusSet.Distinct ∧ statusService ∈ statusSet.services ["orders/v1/order.proto"] ∧
      (ofService ⟨⟨"/out"⟩⟩ .default statusService).types[0]? ≠
        (ofService ⟨⟨"/out"⟩⟩ .default statusService).types[1]? := by
  have named : statusSet.Named := by decide
  have distinct : statusSet.Distinct := by decide
  have collected : statusService ∈ statusSet.services ["orders/v1/order.proto"] := by decide
  have orders : statusSet[1] ∈ statusSet := by simp
  have common : statusSet[0] ∈ statusSet := by simp
  have ordersPath : ["Status"] ∈ Message.pathsAll statusSet[1].messages := by decide
  have commonPath : ["Status"] ∈ Message.pathsAll statusSet[0].messages := by decide
  refine ⟨named, distinct, collected, ?_⟩
  exact (types_eq_iff named distinct collected ⟨⟨"/out"⟩⟩ .default orders common ordersPath commonPath
    (i := 0) (j := 1) rfl rfl (by decide) (by decide)).2 (by decide +kernel) rfl rfl (by decide)

/-- Two packages that differ in a dot and an underscore, each with a message of one name, and a service
that takes both. -/
def confusedSet : FileSet :=
  [⟨some "x.proto", some "a.b", [.declare (some "C") []],
      [⟨some "S", [⟨some "M", some ".a.b.C", some ".a_b.C", none, none⟩]⟩]⟩,
    ⟨some "y.proto", some "a_b", [.declare (some "C") []], []⟩]

/-- Two messages from different files that are bound to one identifier. -/
theorem confusedSet_types_eq :
    confusedSet.Named ∧ confusedSet.Distinct ∧
      ∃ service ∈ confusedSet.services ["x.proto"],
        service.messages = [⟨"a.b.C", "C", "x.proto"⟩, ⟨"a_b.C", "C", "y.proto"⟩] ∧
        (ofService ⟨⟨"/out"⟩⟩ .default service).types = ["a_b_C", "a_b_C"] := by
  decide +kernel

end TrpcRouters.RouterPlan
