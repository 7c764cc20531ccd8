import TrpcRouters.Proofs.Router.Identity
import TrpcRouters.Proofs.Text.SortedSet

/-! What a router imports for its messages. Below each specifier stands a set of clauses, as texts, and
the sets hold exactly the clauses that the methods ask for; nothing in them depends on the order of the
methods. -/

namespace TrpcRouters.RouterPlan

def writtenImports (plan : RouterPlan) : List (String × List String) :=
  plan.typeImports.map fun entry => (entry.1, entry.2.map Source.ImportClause.text)

/-- The clause for a message, as it is written, and the identifier that it binds: the local name for
both, or the alias if the service takes that local name from another module as well. -/
def Worded (tree : OutputTree) (service : TrpcRouters.Service) (message : MessageRef)
    (text bound : String) : Prop :=
  (¬Shared tree service message ∧ text = message.localName ∧ bound = message.localName) ∨
    (Shared tree service message ∧ text = message.localName ++ " as " ++ aliasOf message ∧
      bound = aliasOf message)

/-- The plan imports the message, under its specifier, by the clause that binds `bound`. -/
def Binds (tree : OutputTree) (service : TrpcRouters.Service) (plan : RouterPlan)
    (message : MessageRef) (bound : String) : Prop :=
  ∃ clauses text, (specifierOf tree message, clauses) ∈ plan.writtenImports ∧ text ∈ clauses ∧
    Worded tree service message text bound

/-- A local name is shared if it is that of two messages of the service with different specifiers. -/
theorem shared_iff {tree : OutputTree} {service : TrpcRouters.Service} {message : MessageRef}
    (mentioned : message ∈ service.messages) :
    Shared tree service message ↔ ∃ first ∈ service.messages, ∃ second ∈ service.messages,
      first.localName = message.localName ∧ second.localName = message.localName ∧
        specifierOf tree first ≠ specifierOf tree second := by
  constructor
  · rintro ⟨other, listed, same, apart⟩
    exact ⟨other, listed, message, mentioned, same, rfl, apart⟩
  · rintro ⟨first, firstIn, second, secondIn, firstSame, secondSame, apart⟩
    -- The message can have the specifier of one of the two at most.
    by_cases alike : specifierOf tree first = specifierOf tree message
    · exact ⟨second, secondIn, secondSame, fun equal => apart (alike.trans equal.symm)⟩
    · exact ⟨first, firstIn, firstSame, alike⟩

section Group
variable {imports others : List (String × Source.ImportClause)}

def textsFrom (imports : List (String × Source.ImportClause)) (specifier : String) : List String :=
  (imports.filter (fun entry => entry.1 = specifier)).map fun entry => entry.2.text

theorem mem_textsFrom {specifier text : String} :
    text ∈ textsFrom imports specifier ↔
      ∃ clause, (specifier, clause) ∈ imports ∧ clause.text = text := by
  simp [textsFrom]

theorem map_group :
    (group imports).map (fun entry => (entry.1, entry.2.map Source.ImportClause.text)) =
      (Text.sortedSet (imports.map Prod.fst)).map fun specifier =>
        (specifier, Text.sortedSet (textsFrom imports specifier)) := by
  simp only [group, List.map_map]
  refine List.map_congr_left fun specifier _ => ?_
  rw [Function.comp, Text.map_sortedSetBy, List.map_map]
  rfl

end Group

section Plan
variable {tree : OutputTree} {rules : VerbRules} {service : TrpcRouters.Service}

def wanted (tree : OutputTree) (messages : List MessageRef) : List (String × Source.ImportClause) :=
  messages.map fun message => (specifierOf tree message, clauseFor tree messages message)

theorem writtenImports_ofService :
    (ofService tree rules service).writtenImports =
      (Text.sortedSet ((wanted tree service.messages).map Prod.fst)).map fun specifier =>
        (specifier, Text.sortedSet (textsFrom (wanted tree service.messages) specifier)) :=
  map_group

theorem mem_writtenImports {specifier : String} {clauses : List String} :
    (specifier, clauses) ∈ (ofService tree rules service).writtenImports ↔
      (∃ message ∈ service.messages, specifierOf tree message = specifier) ∧
        clauses = Text.sortedSet (textsFrom (wanted tree service.messages) specifier) := by
  rw [writtenImports_ofService]
  simp only [List.mem_map, Text.mem_sortedSet_iff, wanted, Prod.mk.injEq]
  constructor
  · rintro ⟨source, ⟨_, ⟨message, mentioned, rfl⟩, rfl⟩, rfl, rfl⟩
    exact ⟨⟨message, mentioned, rfl⟩, rfl⟩
  · rintro ⟨⟨message, mentioned, same⟩, rfl⟩
    exact ⟨specifier, ⟨_, ⟨message, mentioned, rfl⟩, same⟩, rfl, rfl⟩

theorem mem_textsFrom_wanted {specifier text : String} :
    text ∈ textsFrom (wanted tree service.messages) specifier ↔
      ∃ message ∈ service.messages, specifierOf tree message = specifier ∧
        (clauseFor tree service.messages message).text = text := by
  simp [mem_textsFrom, wanted, and_assoc]

theorem worded_clauseFor (message : MessageRef) :
    Worded tree service message (clauseFor tree service.messages message).text
      (identifier tree service message) := by
  by_cases shared : Shared tree service message
  · refine Or.inr ⟨shared, ?_, identifier_of_shared shared⟩
    simp [clauseFor, (isAmbiguous_iff ..).mpr shared, Source.ImportClause.text]
  · refine Or.inl ⟨shared, ?_, identifier_of_not_shared shared⟩
    rw [← isAmbiguous_iff] at shared
    simp [clauseFor, shared, Source.ImportClause.text]

theorem binds_identifier {message : MessageRef} (mentioned : message ∈ service.messages) :
    Binds tree service (ofService tree rules service) message (identifier tree service message) := by
  refine ⟨_, _, mem_writtenImports.mpr ⟨⟨message, mentioned, rfl⟩, rfl⟩, ?_, worded_clauseFor message⟩
  exact Text.mem_sortedSet_iff.mpr (mem_textsFrom_wanted.mpr ⟨message, mentioned, rfl, rfl⟩)

theorem asked_of_mem_writtenImports {specifier : String} {clauses : List String}
    (member : (specifier, clauses) ∈ (ofService tree rules service).writtenImports) :
    clauses ≠ [] ∧ ∀ text ∈ clauses, ∃ method ∈ service.methods,
      ∃ message ∈ [method.input, method.output], specifierOf tree message = specifier ∧
        ∃ bound, Worded tree service message text bound := by
  obtain ⟨⟨message, mentioned, same⟩, rfl⟩ := mem_writtenImports.mp member
  constructor
  · exact List.ne_nil_of_mem (Text.mem_sortedSet_iff.mpr
      (mem_textsFrom_wanted.mpr ⟨message, mentioned, same, rfl⟩))
  · intro text inside
    rw [Text.mem_sortedSet_iff, mem_textsFrom_wanted] at inside
    obtain ⟨asking, askingIn, source, rfl⟩ := inside
    obtain ⟨method, methodIn, inMethod⟩ := List.mem_flatMap.mp askingIn
    exact ⟨method, methodIn, asking, inMethod, source, _, worded_clauseFor asking⟩

theorem increasing_writtenImports :
    (ofService tree rules service).writtenImports.Pairwise (fun first second => first.1 < second.1) ∧
      ∀ entry ∈ (ofService tree rules service).writtenImports, entry.2.Pairwise (· < ·) := by
  constructor
  · rw [writtenImports_ofService, List.pairwise_map]
    exact Text.increasing_sortedSet _
  · intro entry member
    rw [(mem_writtenImports.mp member).2]
    exact Text.increasing_sortedSet _

end Plan

section Reordered
variable {tree : OutputTree} {messages others : List MessageRef}

theorem clauseFor_congr (same : ∀ message, message ∈ messages ↔ message ∈ others) :
    clauseFor tree messages = clauseFor tree others := by
  have alike : isAmbiguous tree messages = isAmbiguous tree others := by
    funext message
    rw [isAmbiguous, isAmbiguous, Bool.eq_iff_iff, List.any_eq_true, List.any_eq_true]
    simp only [same]
  funext message
  rw [clauseFor, clauseFor, alike]

theorem mem_wanted_congr (tree : OutputTree) (same : ∀ message, message ∈ messages ↔ message ∈ others)
    (entry : String × Source.ImportClause) :
    entry ∈ wanted tree messages ↔ entry ∈ wanted tree others := by
  simp only [wanted, List.mem_map, same, clauseFor_congr same]

/-- The imports of a service depend on the messages that it mentions, but not on their order. -/
theorem writtenImports_congr {rules : VerbRules} {first second : TrpcRouters.Service}
    (same : ∀ message, message ∈ first.messages ↔ message ∈ second.messages) :
    (ofService tree rules first).writtenImports = (ofService tree rules second).writtenImports := by
  have alike := mem_wanted_congr tree same
  rw [writtenImports_ofService, writtenImports_ofService]
  have specifiers : Text.sortedSet ((wanted tree first.messages).map Prod.fst) =
      Text.sortedSet ((wanted tree second.messages).map Prod.fst) := by
    refine Text.sortedSet_congr fun specifier => ?_
    simp only [List.mem_map, alike]
  have clauses : ∀ specifier, Text.sortedSet (textsFrom (wanted tree first.messages) specifier) =
      Text.sortedSet (textsFrom (wanted tree second.messages) specifier) := by
    intro specifier
    refine Text.sortedSet_congr fun text => ?_
    simp only [mem_textsFrom, alike]
  simp only [specifiers, clauses]

end Reordered

/-- The procedures of a plan are the methods of its service in their order, and each is typed by names
that its imports bind to the messages of the method: to a message whose local name comes from one module
only by that name, to any other by its alias. Every specifier and every clause is there for some message
of some method, once. Methods in another order have the same imports and the same procedures. -/
theorem imports_what_methods_use (tree : OutputTree) (rules : VerbRules)
    (service : TrpcRouters.Service) :
    ((ofService tree rules service).procedures.length = service.methods.length ∧
      ∀ (i : Nat) (method : Method), service.methods[i]? = some method →
        ∃ procedure, (ofService tree rules service).procedures[i]? = some procedure ∧
          procedure.name = method.name ∧ procedure.kind = rules.classify method.name ∧
          Binds tree service (ofService tree rules service) method.input procedure.inputType ∧
          Binds tree service (ofService tree rules service) method.output procedure.outputType) ∧
    (∀ message ∈ service.messages, (Shared tree service message ↔
      ∃ first ∈ service.messages, ∃ second ∈ service.messages,
        first.localName = message.localName ∧ second.localName = message.localName ∧
          specifierOf tree first ≠ specifierOf tree second)) ∧
    (∀ entry ∈ (ofService tree rules service).writtenImports, entry.2 ≠ [] ∧
      ∀ text ∈ entry.2, ∃ method ∈ service.methods, ∃ message ∈ [method.input, method.output],
        specifierOf tree message = entry.1 ∧ ∃ bound, Worded tree service message text bound) ∧
    ((ofService tree rules service).writtenImports.Pairwise (fun first second => first.1 < second.1) ∧
      ∀ entry ∈ (ofService tree rules service).writtenImports, entry.2.Pairwise (· < ·)) ∧
    ∀ methods : List Method, methods.Perm service.methods →
      (ofService tree rules { service with methods }).writtenImports =
        (ofService tree rules service).writtenImports ∧
      (ofService tree rules { service with methods }).procedures.length = methods.length ∧
      ∀ i j : Nat, i < methods.length → methods[i]? = service.methods[j]? →
        (ofService tree rules { service with methods }).procedures[i]? =
          (ofService tree rules service).procedures[j]? := by
  refine ⟨⟨List.length_map .., ?_⟩, fun message => shared_iff, fun _ => asked_of_mem_writtenImports,
    increasing_writtenImports, ?_⟩
  · intro i method found
    have mentioned : ∀ message ∈ method.messages, message ∈ service.messages := fun message listed =>
      List.mem_flatMap.mpr ⟨method, List.mem_of_getElem? found, listed⟩
    refine ⟨procedureFor tree rules service.messages method, ?_, rfl, rfl,
      binds_identifier (mentioned method.input (by simp [Method.messages])),
      binds_identifier (mentioned method.output (by simp [Method.messages]))⟩
    rw [ofService, List.getElem?_map, found]
    rfl
  · intro methods reordered
    have same : ∀ message, message ∈ TrpcRouters.Service.messages { service with methods } ↔
        message ∈ service.messages := fun message => (reordered.flatMap_right _).mem_iff
    refine ⟨writtenImports_congr same, List.length_map .., ?_⟩
    intro i j _ found
    simp only [ofService, List.getElem?_map, found]
    rw [show procedureFor tree rules (TrpcRouters.Service.messages { service with methods }) =
      procedureFor tree rules service.messages by
        funext method
        rw [procedureFor, procedureFor, clauseFor_congr same]]

/-- A service that takes one local name from two files and well-known messages from two more. -/
def clockService : TrpcRouters.Service :=
  ⟨"ClockService", "clock.v1.ClockService", "clock/v1/clock.proto",
    [⟨"GetTime", ⟨"google.protobuf.Empty", "Empty", "google/protobuf/empty.proto"⟩,
      ⟨"google.protobuf.Timestamp", "Timestamp", "google/protobuf/timestamp.proto"⟩, false, false⟩,
      ⟨"SetStatus", ⟨"clock.v1.Status", "Status", "clock/v1/clock.proto"⟩,
        ⟨"common.v1.Status", "Status", "common/v1/status.proto"⟩, false, false⟩]⟩

theorem clockService_imports_reordered :
    clockService.methods.reverse.Perm clockService.methods ∧
      (ofService ⟨⟨"/out"⟩⟩ .default
        { clockService with methods := clockService.methods.reverse }).writtenImports =
          [("../../connect/clock/v1/clock_pb.js", ["Status as clock_v1_Status"]),
            ("../../connect/common/v1/status_pb.js", ["Status as common_v1_Status"]),
            ("@bufbuild/protobuf", ["Empty", "Timestamp"])] ∧
      (ofService ⟨⟨"/out"⟩⟩ .default
        { clockService with methods := clockService.methods.reverse }).procedures[1]? =
          (ofService ⟨⟨"/out"⟩⟩ .default clockService).procedures[0]? := by
  have reordered : clockService.methods.reverse.Perm clockService.methods := List.reverse_perm _
  have same := (imports_what_methods_use ⟨⟨"/out"⟩⟩ .default clockService).2.2.2.2 _ reordered
  refine ⟨reordered, same.1.trans (by decide +kernel), same.2.2 1 0 (by decide) rfl⟩

end TrpcRouters.RouterPlan
