import TrpcRouters.Proofs.Descriptor.Resolution
import TrpcRouters.Proofs.Router.Identity
import TrpcRouters.Proofs.Text.SortedSet

/-! Which names of a router module its messages take away. A module binds the names that it needs to build
the router, the service, and the router itself; a message that goes by one of these names is bound to
it too. Only messages from several modules are renamed, and only apart from each other. -/

namespace TrpcRouters

namespace Source.ImportClause

def Plain (clause : ImportClause) : Prop :=
  ' ' ∉ clause.name.toList ∧ ∀ bound ∈ clause.renamed, ' ' ∉ bound.toList

/-- Clauses that are written alike bind the same name. -/
theorem bound_eq_of_text_eq {first second : ImportClause} (left : first.Plain) (right : second.Plain)
    (same : first.text = second.text) : first.bound = second.bound := by
  obtain ⟨name, renamed⟩ := first
  obtain ⟨other, otherRenamed⟩ := second
  have letters := congrArg String.toList same
  cases renamed with
  | none =>
    cases otherRenamed with
    | none => exact same
    | some bound =>
      have blank : ' ' ∈ name.toList := by
        rw [show name.toList = _ from letters]
        simp [text]
      exact absurd blank left.1
  | some bound =>
    cases otherRenamed with
    | none =>
      have blank : ' ' ∈ other.toList := by
        rw [show other.toList = _ from letters.symm]
        simp [text]
      exact absurd blank right.1
    | some otherBound =>
      have split : (name.toList ++ [' ', 'a', 's']) ++ ' ' :: bound.toList =
          (other.toList ++ [' ', 'a', 's']) ++ ' ' :: otherBound.toList := by
        simpa [text] using letters
      exact String.toList_inj.mp (Text.split_last (left.2 bound rfl) (right.2 otherBound rfl) split).2

end Source.ImportClause

namespace Descriptor

def File.serviceNames (file : File) : List String :=
  file.services.map fun service => qualify file.packageText (service.name.getD "")

/-- A set as a compiler leaves it: all names are identifiers, no two messages or services have one full
name, and every reference of a method spells a message of the set. -/
structure FileSet.Accepted (set : FileSet) : Prop where
  named : set.Named
  services : ∀ file ∈ set, ∀ service ∈ file.services, IsIdentifier (service.name.getD "") ∧
    ∀ method ∈ service.methods, IsIdentifier (method.name.getD "")
  distinct : (set.declared.map Declared.fullName ++ set.flatMap File.serviceNames).Nodup
  resolved : ∀ file ∈ set, ∀ service ∈ file.services, ∀ reference ∈ service.references,
    ∃ source ∈ set, ∃ path ∈ Message.pathsAll source.messages,
      reference = "." ++ source.fullName path

instance (set : FileSet) : Decidable set.Accepted :=
  decidable_of_iff
    (set.Named ∧
      (∀ file ∈ set, ∀ service ∈ file.services, IsIdentifier (service.name.getD "") ∧
        ∀ method ∈ service.methods, IsIdentifier (method.name.getD "")) ∧
      (set.declared.map Declared.fullName ++ set.flatMap File.serviceNames).Nodup ∧
      ∀ file ∈ set, ∀ service ∈ file.services, ∀ reference ∈ service.references,
        ∃ source ∈ set, ∃ path ∈ Message.pathsAll source.messages,
          reference = "." ++ source.fullName path)
    ⟨fun ⟨named, services, distinct, resolved⟩ => ⟨named, services, distinct, resolved⟩,
      fun accepted => ⟨accepted.named, accepted.services, accepted.distinct, accepted.resolved⟩⟩

theorem File.packageParts_eq_nil_iff (file : File) : file.packageParts = [] ↔ file.packageText = "" := by
  unfold File.packageParts
  split
  next empty => simp [empty]
  next some_ => simp [some_, Text.pieces, Text.cut_ne_nil]

theorem FileSet.Accepted.apart {set : FileSet} (accepted : set.Accepted) : set.Distinct :=
  (List.nodup_append.mp accepted.distinct).1

end Descriptor

namespace RouterPlan
open Descriptor

/-- The names that a router module binds besides those of its messages. -/
def ownNames (service : TrpcRouters.Service) : List String :=
  ["createClient", "createConnectTransport", "t", "protobuf", service.name,
    Identifier.router service.name]

def importedNames (plan : RouterPlan) : List String :=
  plan.typeImports.flatMap fun entry => entry.2.map Source.ImportClause.bound

theorem bound_statements (tree : OutputTree) (rules : VerbRules) (service : TrpcRouters.Service) :
    (Source.bound (ofService tree rules service).statements).Perm
      (ownNames service ++ importedNames (ofService tree rules service)) := by
  have split : Source.bound (ofService tree rules service).statements =
      ["createClient", "createConnectTransport", "t", "protobuf", service.name] ++
        importedNames (ofService tree rules service) ++ [Identifier.router service.name] := by
    simp only [Source.bound, statements, List.flatMap_append, List.flatMap_map]
    rfl
  rw [split, List.append_assoc]
  exact (List.perm_append_comm.append_left _).trans (.of_eq (by simp [ownNames]))

section
variable {tree : OutputTree} {rules : VerbRules} {service : TrpcRouters.Service}

/-- What a module binds to messages are the identifiers of the messages, if these hold no blanks. -/
theorem mem_importedNames_iff (plain : ∀ message ∈ service.messages,
      (clauseFor tree service.messages message).Plain) {name : String} :
    name ∈ importedNames (ofService tree rules service) ↔
      ∃ message ∈ service.messages, identifier tree service message = name := by
  let imports := service.messages.map fun message =>
    (specifierOf tree message, clauseFor tree service.messages message)
  have clauses : ∀ {specifier : String} {clause : Source.ImportClause},
      clause ∈ (imports.filter fun entry => entry.1 = specifier).map Prod.snd →
        ∃ message ∈ service.messages, clauseFor tree service.messages message = clause := by
    intro specifier clause member
    obtain ⟨entry, inside, rfl⟩ := List.mem_map.mp member
    obtain ⟨message, mentioned, rfl⟩ := List.mem_map.mp (List.mem_filter.mp inside).1
    exact ⟨message, mentioned, rfl⟩
  constructor
  · intro member
    obtain ⟨entry, listed, bound⟩ := List.mem_flatMap.mp member
    obtain ⟨specifier, _, rfl⟩ := List.mem_map.mp listed
    obtain ⟨clause, inside, rfl⟩ := List.mem_map.mp bound
    obtain ⟨message, mentioned, rfl⟩ := clauses (Text.mem_sortedSetBy inside)
    exact ⟨message, mentioned, rfl⟩
  · rintro ⟨message, mentioned, rfl⟩
    have listed : specifierOf tree message ∈ Text.sortedSet (imports.map Prod.fst) := by
      rw [Text.mem_sortedSet_iff, List.map_map]
      exact List.mem_map.mpr ⟨message, mentioned, rfl⟩
    have inside : clauseFor tree service.messages message ∈
        (imports.filter fun entry => entry.1 = specifierOf tree message).map Prod.snd := by
      have listed : (specifierOf tree message, clauseFor tree service.messages message) ∈ imports :=
        List.mem_map.mpr ⟨message, mentioned, rfl⟩
      exact List.mem_map.mpr ⟨_, List.mem_filter.mpr ⟨listed, by simp⟩, rfl⟩
    obtain ⟨kept, keptIn, written⟩ : ∃ kept ∈ Text.sortedSetBy Source.ImportClause.text _, _ = _ :=
      Text.exists_key_sortedSetBy inside
    obtain ⟨other, otherIn, rfl⟩ := clauses (Text.mem_sortedSetBy keptIn)
    refine List.mem_flatMap.mpr ⟨_, List.mem_map.mpr ⟨_, listed, rfl⟩, List.mem_map.mpr ⟨_, keptIn, ?_⟩⟩
    exact Source.ImportClause.bound_eq_of_text_eq (plain other otherIn) (plain message mentioned) written

end

section Accepted
variable {set : FileSet} {requested : List String} {service : TrpcRouters.Service} {tree : OutputTree}

theorem exists_path (accepted : set.Accepted) (collected : service ∈ set.services requested)
    {message : MessageRef} (mentioned : message ∈ service.messages) :
    ∃ source ∈ set, ∃ path ∈ Message.pathsAll source.messages,
      message = ⟨source.fullName path, Text.joined '_' path, source.nameText⟩ := by
  obtain ⟨_, _, file, inSet, _, declaration, among, rfl⟩ := exists_declaration collected
  rw [messages_resolved] at mentioned
  obtain ⟨reference, inside, rfl⟩ := List.mem_map.mp mentioned
  obtain ⟨source, sourceIn, path, declared, rfl⟩ :=
    accepted.resolved file inSet declaration among reference inside
  exact ⟨source, sourceIn, path, declared,
    resolve_fullName accepted.named accepted.apart sourceIn declared _⟩

/-- What a message of a path goes by: its path, and its package and path if the service takes that path
from several modules. -/
theorem identifier_eq_text_iff (accepted : set.Accepted) (tree : OutputTree)
    (service : TrpcRouters.Service) {source : File} (sourceIn : source ∈ set) {path : List String}
    (declared : path ∈ Message.pathsAll source.messages) {message : MessageRef}
    (spelled : message = ⟨source.fullName path, Text.joined '_' path, source.nameText⟩) (name : String) :
    identifier tree service message = name ↔
      (¬Shared tree service message ∧ Text.joined '_' path = name) ∨
        (Shared tree service message ∧ Text.joined '_' (source.packageParts ++ path) = name) := by
  by_cases shared : Shared tree service message
  · have text : identifier tree service message = Text.joined '_' (source.packageParts ++ path) := by
      rw [identifier_of_shared shared, spelled]
      exact aliasOf_fullName (accepted.named.parts sourceIn declared) _ _
    simp [shared, text]
  · have text : identifier tree service message = Text.joined '_' path := by
      rw [identifier_of_not_shared shared, spelled]
    simp [shared, text]

/-- A name stands for a message of the service: one whose path it spells, if the service takes that path
from one module, and one whose package and path it spells otherwise. -/
def StandsFor (set : FileSet) (tree : OutputTree) (service : TrpcRouters.Service) (name : String) :
    Prop :=
  ∃ source ∈ set, ∃ path ∈ Message.pathsAll source.messages, ∃ message ∈ service.messages,
    message.typeName = source.fullName path ∧
      ((¬Shared tree service message ∧ Text.joined '_' path = name) ∨
        (Shared tree service message ∧ Text.joined '_' (source.packageParts ++ path) = name))

theorem plain_clauseFor (accepted : set.Accepted) (collected : service ∈ set.services requested)
    {message : MessageRef} (mentioned : message ∈ service.messages) :
    (clauseFor tree service.messages message).Plain := by
  obtain ⟨source, sourceIn, path, declared, spelled⟩ := exists_path accepted collected mentioned
  have parts : ∀ part ∈ source.packageParts ++ path, ' ' ∉ part.toList := fun part member =>
    notMem_of_isIdentifier (accepted.named.parts sourceIn declared part member) (by decide)
  constructor
  · show ' ' ∉ message.localName.toList
    rw [spelled]
    exact Text.notMem_joined (by decide) fun part member => parts part (List.mem_append_right _ member)
  · intro bound renamed
    have alias_ : aliasOf message = bound := by
      simp only [clauseFor] at renamed
      split at renamed
      · exact Option.some.inj renamed
      · cases renamed
    rw [← alias_, spelled, aliasOf_fullName (accepted.named.parts sourceIn declared)]
    exact Text.notMem_joined (by decide) parts

theorem mem_importedNames_iff_standsFor (accepted : set.Accepted)
    (collected : service ∈ set.services requested) (tree : OutputTree) (rules : VerbRules)
    (name : String) :
    name ∈ importedNames (ofService tree rules service) ↔ StandsFor set tree service name := by
  rw [mem_importedNames_iff fun message mentioned => plain_clauseFor accepted collected mentioned]
  constructor
  · rintro ⟨message, mentioned, goes⟩
    obtain ⟨source, sourceIn, path, declared, spelled⟩ := exists_path accepted collected mentioned
    exact ⟨source, sourceIn, path, declared, message, mentioned, by rw [spelled],
      (identifier_eq_text_iff accepted tree service sourceIn declared spelled name).mp goes⟩
  · rintro ⟨source, sourceIn, path, declared, message, mentioned, full, goes⟩
    have spelled := eq_of_typeName accepted.named accepted.apart collected mentioned sourceIn declared full
    exact ⟨message, mentioned,
      (identifier_eq_text_iff accepted tree service sourceIn declared spelled name).mpr goes⟩

/-- A name without underscores spells a path of one name only, and no package with it. -/
theorem joined_eq_iff_of_plain {parts : List String} (some_ : parts ≠ []) {name : String}
    (plain : '_' ∉ name.toList) :
    Text.joined '_' parts = name ↔ parts = [name] := by
  constructor
  · intro spelled
    obtain ⟨first, rest, rfl⟩ := List.exists_cons_of_ne_nil some_
    cases rest with
    | nil => rw [← spelled, Text.joined_single]
    | cons next others =>
      rw [← spelled] at plain
      exact absurd (by simp [Text.joined, Text.glue]) plain
  · rintro rfl
    exact Text.joined_single '_' name

/-- A name without underscores stands for a message that is not nested, and not renamed for its package. -/
theorem standsFor_iff_of_plain {name : String} (plain : '_' ∉ name.toList) :
    StandsFor set tree service name ↔
      ∃ source ∈ set, [name] ∈ Message.pathsAll source.messages ∧ ∃ message ∈ service.messages,
        message.typeName = source.fullName [name] ∧
          (Shared tree service message → source.packageText = "") := by
  constructor
  · rintro ⟨source, sourceIn, path, declared, message, mentioned, full, goes⟩
    have some_ := ne_nil_of_mem_pathsAll declared
    rcases goes with ⟨own, spelled⟩ | ⟨shared, spelled⟩
    · obtain rfl := (joined_eq_iff_of_plain some_ plain).mp spelled
      exact ⟨source, sourceIn, declared, message, mentioned, full, fun shared => absurd shared own⟩
    · have whole := (joined_eq_iff_of_plain (by simp [some_]) plain).mp spelled
      obtain ⟨first, rest, rfl⟩ := List.exists_cons_of_ne_nil some_
      have lengths := congrArg List.length whole
      rw [List.length_append, List.length_cons, List.length_singleton] at lengths
      have bare : source.packageParts = [] := List.length_eq_zero_iff.mp (by omega)
      rw [bare, List.nil_append] at whole
      rw [whole] at declared full
      exact ⟨source, sourceIn, declared, message, mentioned, full,
        fun _ => source.packageParts_eq_nil_iff.mp bare⟩
  · rintro ⟨source, sourceIn, declared, message, mentioned, full, bare⟩
    refine ⟨source, sourceIn, [name], declared, message, mentioned, full, ?_⟩
    by_cases shared : Shared tree service message
    · right
      rw [source.packageParts_eq_nil_iff.mpr (bare shared), List.nil_append, Text.joined_single]
      exact ⟨shared, rfl⟩
    · exact Or.inl ⟨shared, Text.joined_single '_' name⟩

theorem typeName_ne_service (accepted : set.Accepted) (collected : service ∈ set.services requested)
    {message : MessageRef} (mentioned : message ∈ service.messages) :
    message.typeName ≠ service.typeName := by
  obtain ⟨source, sourceIn, path, declared, rfl⟩ := exists_path accepted collected mentioned
  obtain ⟨_, _, file, inSet, _, declaration, among, rfl⟩ := exists_declaration collected
  intro same
  have message : source.fullName path ∈ set.declared.map Declared.fullName :=
    List.mem_map.mpr ⟨_, (mem_declared_iff accepted.named).mpr ⟨source, sourceIn, path, declared, rfl⟩, rfl⟩
  have service : source.fullName path ∈ set.flatMap File.serviceNames :=
    List.mem_flatMap.mpr ⟨file, inSet, List.mem_map.mpr ⟨declaration, among, same.symm⟩⟩
  exact (List.nodup_append.mp accepted.distinct).2.2 _ message _ service rfl

/-- A router module binds one of its own names to a message exactly if the name stands for a message
that the service takes or gives. A name without underscores does so for a message that stands outside
of all others and is not renamed for its package; the name of the service, for one of another package. -/
theorem own_names_captured_iff (accepted : set.Accepted) (collected : service ∈ set.services requested)
    (tree : OutputTree) (rules : VerbRules) :
    (ofService tree rules service).code = Source.render (ofService tree rules service).statements ∧
      (Source.bound (ofService tree rules service).statements).Perm
        (ownNames service ++ importedNames (ofService tree rules service)) ∧
      (∀ name ∈ ownNames service,
        (name ∈ importedNames (ofService tree rules service) ↔ StandsFor set tree service name) ∧
        ('_' ∉ name.toList → (name ∈ importedNames (ofService tree rules service) ↔
          ∃ source ∈ set, [name] ∈ Message.pathsAll source.messages ∧ ∃ message ∈ service.messages,
            message.typeName = source.fullName [name] ∧
              (Shared tree service message → source.packageText = "")))) ∧
      ∀ message ∈ service.messages, message.typeName ≠ service.typeName := by
  refine ⟨rfl, bound_statements tree rules service, fun name _ => ?_, fun message mentioned =>
    typeName_ne_service accepted collected mentioned⟩
  have stands := mem_importedNames_iff_standsFor accepted collected tree rules name
  exact ⟨stands, fun plain => stands.trans (standsFor_iff_of_plain plain)⟩

end Accepted

/-- A service that takes messages of its own package and of another, one of them from two files. -/
def parcelSet : FileSet :=
  [⟨some "common/status.proto", some "common", [.declare (some "Status") []], []⟩,
    ⟨some "parcel.proto", some "parcel",
      [.declare (some "Status") [], .declare (some "Client") [.declare (some "t") []]],
      [⟨some "ParcelService",
        [⟨some "Track", some ".parcel.Client.t", some ".common.Status", none, none⟩,
          ⟨some "Return", some ".parcel.Client", some ".parcel.Status", none, none⟩]⟩]⟩]

theorem parcelSet_captures_nothing :
    parcelSet.Accepted ∧ ∃ service ∈ parcelSet.services ["parcel.proto"],
      ∀ name ∈ ownNames service,
        name ∉ importedNames (ofService ⟨⟨"/out"⟩⟩ .default service) := by
  have accepted : parcelSet.Accepted := by decide +kernel
  let service := Service.resolved parcelSet.declared parcelSet[1] ⟨some "ParcelService",
        [⟨some "Track", some ".parcel.Client.t", some ".common.Status", none, none⟩,
          ⟨some "Return", some ".parcel.Client", some ".parcel.Status", none, none⟩]⟩
  have collected : service ∈ parcelSet.services ["parcel.proto"] := by decide +kernel
  have plain : ∀ name ∈ ownNames service, '_' ∉ name.toList ∧
      ∀ source ∈ parcelSet, [name] ∉ Message.pathsAll source.messages := by decide +kernel
  refine ⟨accepted, service, collected, fun name own captured => ?_⟩
  obtain ⟨_, _, names, _⟩ := own_names_captured_iff accepted collected ⟨⟨"/out"⟩⟩ .default
  obtain ⟨source, sourceIn, declared, _⟩ := ((names name own).2 (plain name own).1).mp captured
  exact (plain name own).2 source sourceIn declared

/-- A message called `t`, and one called like the service that takes it. -/
def capturingSet : FileSet :=
  [⟨some "legacy.proto", some "legacy", [.declare (some "Orders") []], []⟩,
    ⟨some "orders.proto", some "orders", [.declare (some "t") []],
      [⟨some "Orders", [⟨some "Get", some ".orders.t", some ".legacy.Orders", none, none⟩]⟩]⟩]

/-- Messages take the names of the router builder and of the service. -/
theorem capturingSet_captures :
    capturingSet.Accepted ∧ ∃ service ∈ capturingSet.services ["orders.proto"],
      "t" ∈ ownNames service ∧ service.name ∈ ownNames service ∧
        importedNames (ofService ⟨⟨"/out"⟩⟩ .default service) = ["Orders", "t"] := by
  decide +kernel

end RouterPlan

end TrpcRouters
