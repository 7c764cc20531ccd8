import Mathlib.Data.List.Forall2
import Mathlib.Data.List.Nodup
import TrpcRouters.Proofs.Descriptor.Resolution

/-! The services of a set in whatever order its files stand. Files and messages are looked up by name, the
last one of a name first; where no two have one name, each look-up has one answer only, and the services
depend on the files that were asked for and on the messages that these refer to. -/

namespace TrpcRouters.Descriptor

/-- The full name that a reference spells. -/
def spelledName (reference : String) : String :=
  String.ofList (reference.toList.dropWhile (· = '.'))

section Looking
variable {α : Type} {key : α → String}

theorem find?_reverse_perm {items others : List α} (distinct : (items.map key).Nodup)
    (same : items.Perm others) (wanted : String) :
    others.reverse.find? (fun item => key item == wanted) =
      items.reverse.find? (fun item => key item == wanted) := by
  have distinct' : (others.map key).Nodup := (same.map key).nodup_iff.mp distinct
  refine Option.ext fun item => ?_
  rw [find?_reverse_eq_some_iff distinct, find?_reverse_eq_some_iff distinct', same.mem_iff]

theorem find?_reverse_insert {front middle back : List α} {wanted : String}
    (others : ∀ item ∈ middle, key item ≠ wanted) :
    (front ++ (middle ++ back)).reverse.find? (fun item => key item == wanted) =
      (front ++ back).reverse.find? (fun item => key item == wanted) := by
  have none_ : middle.reverse.find? (fun item => key item == wanted) = none := by
    rw [List.find?_eq_none]
    intro item member
    simpa using others item (List.mem_reverse.mp member)
  simp only [List.reverse_append, List.find?_append, none_, Option.or_none]

end Looking

section Permuting
variable {set other : FileSet}

theorem FileSet.Distinct.lookUp_perm (distinct : set.Distinct) (same : set.Perm other) (name : String) :
    lookUp other.declared name = lookUp set.declared name :=
  find?_reverse_perm distinct (same.flatMap_right _) name

theorem FileSet.services_congr {requested : List String}
    (files : ∀ name ∈ requested, other.file? name = set.file? name)
    (messages : ∀ name ∈ requested, ∀ file, set.file? name = some file → ∀ service ∈ file.services,
      ∀ reference ∈ service.references,
        lookUp other.declared (spelledName reference) = lookUp set.declared (spelledName reference)) :
    other.services requested = set.services requested := by
  unfold services
  refine List.flatMap_congr fun name asked => ?_
  rw [files name asked]
  cases found : set.file? name with
  | none => rfl
  | some file =>
    refine List.map_congr_left fun service inFile => ?_
    have resolved : ∀ reference ∈ service.references,
        resolve other.declared reference file.nameText = resolve set.declared reference file.nameText := by
      intro reference mentioned
      have same := messages name asked file found service inFile reference mentioned
      rw [spelledName] at same
      simp only [resolve, same]
    have methods : ∀ method ∈ service.methods,
        Method.resolved other.declared file.nameText method =
          Method.resolved set.declared file.nameText method := by
      intro method inService
      have input := resolved _ (List.mem_flatMap.mpr ⟨method, inService, List.mem_cons_self ..⟩)
      have output := resolved _
        (List.mem_flatMap.mpr ⟨method, inService, List.mem_cons_of_mem _ (List.mem_cons_self ..)⟩)
      rw [Method.resolved, Method.resolved, input, output]
    rw [Service.resolved, Service.resolved, List.map_congr_left methods]

theorem FileSet.services_perm (files : (set.map File.nameText).Nodup) (distinct : set.Distinct)
    (same : set.Perm other) (requested : List String) :
    other.services requested = set.services requested :=
  services_congr (fun name _ => find?_reverse_perm files same name)
    fun _ _ _ _ _ _ _ _ => distinct.lookUp_perm same _

/-- A file that was not asked for does not matter, if no file that was refers to a message of it. -/
theorem FileSet.services_insert {front back : FileSet} {extra : File} {requested : List String}
    (notAsked : extra.nameText ∉ requested)
    (notMeant : ∀ message ∈ extra.declared, ∀ file ∈ front ++ back, file.nameText ∈ requested →
      ∀ service ∈ file.services, ∀ reference ∈ service.references,
        spelledName reference ≠ message.fullName) :
    FileSet.services (front ++ extra :: back) requested = FileSet.services (front ++ back) requested := by
  refine services_congr (fun name asked => ?_) fun name asked file found service inFile reference mentioned => ?_
  · have other : ∀ file ∈ [extra], file.nameText ≠ name := by
      rintro file member rfl
      rw [List.mem_singleton.mp member] at asked
      exact notAsked asked
    exact find?_reverse_insert other
  · have inSet : file ∈ front ++ back := List.mem_reverse.mp (List.mem_of_find?_eq_some found)
    have named : file.nameText = name := by simpa using List.find?_some found
    have other : ∀ message ∈ extra.declared, message.fullName ≠ spelledName reference :=
      fun message member => (notMeant message member file inSet (named ▸ asked) service inFile reference
        mentioned).symm
    have declared : FileSet.declared (front ++ extra :: back) =
        FileSet.declared front ++ (extra.declared ++ FileSet.declared back) := by
      simp [FileSet.declared]
    rw [lookUp, lookUp, declared, find?_reverse_insert other, FileSet.declared, FileSet.declared,
      FileSet.declared, List.flatMap_append]

end Permuting

section Keeping

/-- A method as its file declares it, with its own name, messages and flags. -/
structure Method.IsKept (declaration : Method) (method : TrpcRouters.Method) : Prop where
  name : method.name = declaration.name.getD ""
  input : method.input.typeName = spelledName (declaration.inputType.getD "")
  output : method.output.typeName = spelledName (declaration.outputType.getD "")
  clientStreaming : method.clientStreaming = declaration.clientStreaming.getD false
  serverStreaming : method.serverStreaming = declaration.serverStreaming.getD false

/-- A service as its file declares it, named by the package of the file, with its methods in their order. -/
structure Service.IsKept (file : File) (declaration : Service) (service : TrpcRouters.Service) : Prop where
  name : service.name = declaration.name.getD ""
  bare : file.packageText = "" → service.typeName = service.name
  packaged : file.packageText ≠ "" → service.typeName = file.packageText ++ "." ++ service.name
  protoFile : service.protoFile = file.nameText
  methods : List.Forall₂ Method.IsKept declaration.methods service.methods

theorem typeName_resolve (declared : List Declared) (reference file : String) :
    (resolve declared reference file).typeName = spelledName reference := by
  rw [resolve, spelledName]
  cases lookUp declared (String.ofList (reference.toList.dropWhile (· = '.'))) <;> rfl

theorem Method.isKept_resolved (declared : List Declared) (file : String) (declaration : Method) :
    declaration.IsKept (Method.resolved declared file declaration) where
  name := rfl
  input := typeName_resolve declared _ file
  output := typeName_resolve declared _ file
  clientStreaming := rfl
  serverStreaming := rfl

theorem Service.isKept_resolved (declared : List Declared) (file : File) (declaration : Service) :
    declaration.IsKept file (Service.resolved declared file declaration) where
  name := rfl
  bare := fun empty => if_pos empty
  packaged := fun some_ => if_neg some_
  protoFile := rfl
  methods := by
    rw [Service.resolved, List.forall₂_map_right_iff, List.forall₂_same]
    exact fun method _ => method.isKept_resolved declared file.nameText

end Keeping

def FileSet.servicesOf (set : FileSet) (name : String) : List TrpcRouters.Service :=
  match set.file? name with
  | some file => file.services.map (Service.resolved set.declared file)
  | none => []

/-- If neither two files nor two messages have one name, the services of a set are those of the files that
were asked for, one file after the other as they were asked for, and they stay the same if the files of
the set are put into another order, or if a file is added that was neither asked for nor referred to. -/
theorem services_of_requested {set : FileSet} (files : (set.map File.nameText).Nodup)
    (distinct : set.Distinct) (requested : List String) :
    (∃ parts : String → List TrpcRouters.Service, set.services requested = requested.flatMap parts ∧
      (∀ file ∈ set, List.Forall₂ (Service.IsKept file) file.services (parts file.nameText)) ∧
      ∀ name, (∀ file ∈ set, file.nameText ≠ name) → parts name = []) ∧
    (∀ other : FileSet, set.Perm other → other.services requested = set.services requested) ∧
    ∀ (front back : FileSet) (extra : File), set = front ++ back → extra.nameText ∉ requested →
      (∀ message ∈ extra.declared, ∀ file ∈ set, file.nameText ∈ requested →
        ∀ service ∈ file.services, ∀ reference ∈ service.references,
          spelledName reference ≠ message.fullName) →
      FileSet.services (front ++ extra :: back) requested = set.services requested := by
  refine ⟨⟨set.servicesOf, rfl, fun file member => ?_, fun name absent => ?_⟩, fun other same => ?_, ?_⟩
  · have found : set.file? file.nameText = some file := (find?_reverse_eq_some_iff files).mpr ⟨member, rfl⟩
    simp only [FileSet.servicesOf, found]
    rw [List.forall₂_map_right_iff, List.forall₂_same]
    exact fun declaration _ => declaration.isKept_resolved set.declared file
  · have missing : set.file? name = none := by
      rw [FileSet.file?, List.find?_eq_none]
      intro file member
      simpa using absent file (List.mem_reverse.mp member)
    simp only [FileSet.servicesOf, missing]
  · exact FileSet.services_perm files distinct same requested
  · rintro front back extra rfl notAsked notMeant
    exact FileSet.services_insert notAsked notMeant

/-- A file that nothing refers to, with a message of the name that a reference falls back to. -/
def shelfFile : File :=
  ⟨some "shelf.proto", some "shelf", [.declare (some "Row") []], [⟨some "Shelves", []⟩]⟩

/-- From the end to the beginning, and with another file in the middle, the library has the same services. -/
theorem librarySet_reordered :
    FileSet.services librarySet.reverse ["library.proto", "box.proto"] =
      librarySet.services ["library.proto", "box.proto"] ∧
    FileSet.services (librarySet.take 1 ++ shelfFile :: librarySet.drop 1) ["library.proto", "box.proto"] =
      librarySet.services ["library.proto", "box.proto"] ∧
    (librarySet.services ["library.proto", "box.proto"]).map TrpcRouters.Service.typeName =
      ["library.Library"] := by
  have files : (librarySet.map File.nameText).Nodup := by decide
  have distinct : librarySet.Distinct := by decide
  obtain ⟨_, reordered, added⟩ := services_of_requested files distinct ["library.proto", "box.proto"]
  refine ⟨reordered _ (List.reverse_perm _).symm, ?_, by decide⟩
  exact added (librarySet.take 1) (librarySet.drop 1) shelfFile rfl (by decide) (by decide)

end TrpcRouters.Descriptor
