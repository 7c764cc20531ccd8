import TrpcRouters.Proofs.Descriptor.Paths

/-! What the references of a service's methods resolve to: a reference that spells a message of the set
to that message, from whatever file, and any other to its last part in the file of the service. -/

namespace TrpcRouters.Descriptor

/-- The references of a method, that to its input first. -/
def Method.references (method : Method) : List String :=
  [method.inputType.getD "", method.outputType.getD ""]

def Service.references (service : Service) : List String :=
  service.methods.flatMap Method.references

theorem messages_resolved (declared : List Declared) (file : File) (service : Service) :
    (Service.resolved declared file service).messages =
      service.references.map fun reference => resolve declared reference file.nameText := by
  simp only [TrpcRouters.Service.messages, Service.resolved, Service.references, List.flatMap_map,
    List.map_flatMap]
  rfl

theorem exists_declaration {set : FileSet} {requested : List String} {service : TrpcRouters.Service}
    (collected : service ∈ set.services requested) :
    ∃ name ∈ requested, ∃ file ∈ set, set.file? name = some file ∧
      ∃ declaration ∈ file.services, service = Service.resolved set.declared file declaration := by
  obtain ⟨name, asked, inside⟩ := List.mem_flatMap.mp collected
  cases found : set.file? name with
  | none => simp [found] at inside
  | some file =>
    rw [found] at inside
    obtain ⟨declaration, among, rfl⟩ := List.mem_map.mp inside
    exact ⟨name, asked, file, List.mem_reverse.mp (List.mem_of_find?_eq_some found), found,
      declaration, among, rfl⟩

theorem ne_nil_of_mem_pathsAll {messages : List Message} {path : List String}
    (member : path ∈ Message.pathsAll messages) : path ≠ [] := by
  induction messages with
  | nil => simp [Message.pathsAll] at member
  | cons message rest ih =>
    obtain ⟨name, nested⟩ := message
    rw [Message.pathsAll, Message.paths] at member
    rcases List.mem_append.mp member with here | later
    · rcases List.mem_append.mp here with inner | own
      · obtain ⟨_, _, rfl⟩ := List.mem_map.mp inner
        exact List.cons_ne_nil _ _
      · rw [List.mem_singleton.mp own]
        exact List.cons_ne_nil _ _
    · exact ih later

theorem mem_declared_iff {set : FileSet} (named : set.Named) {message : Declared} :
    message ∈ set.declared ↔ ∃ file ∈ set, ∃ path ∈ Message.pathsAll file.messages,
      message = ⟨file.fullName path, Text.joined '_' path, file.nameText⟩ := by
  rw [FileSet.declared, List.mem_flatMap]
  refine exists_congr fun file => and_congr_right fun inSet => ?_
  rw [File.declared_eq (named file inSet).2, List.mem_map]
  exact exists_congr fun path => and_congr_right fun _ => eq_comm

theorem FileSet.Named.parts {set : FileSet} (named : set.Named) {file : File} (inSet : file ∈ set)
    {path : List String} (declared : path ∈ Message.pathsAll file.messages) :
    ∀ part ∈ file.packageParts ++ path, IsIdentifier part := by
  intro part member
  rcases List.mem_append.mp member with package | inside
  · exact (named file inSet).1 part package
  · exact (named file inSet).2 path declared part inside

/-- A full name begins with a letter or an underscore, so a dot in front of it is no part of it. -/
theorem dropWhile_fullName {file : File} {path : List String} (some_ : path ≠ [])
    (identifiers : ∀ part ∈ file.packageParts ++ path, IsIdentifier part) :
    String.ofList (("." ++ file.fullName path).toList.dropWhile (· = '.')) = file.fullName path := by
  have begins : ∀ c ∈ (file.fullName path).toList.head?, ¬c = '.' := by
    obtain ⟨first, rest, shape⟩ := List.exists_cons_of_ne_nil (l := file.packageParts ++ path)
      (by simp [some_])
    rw [shape] at identifiers
    have identifier := identifiers first (List.mem_cons_self ..)
    obtain ⟨head, tail, letters⟩ := List.exists_cons_of_ne_nil (l := first.toList) fun empty =>
      identifier.1 (String.toList_inj.mp empty)
    have other : head ≠ '.' := by
      rintro rfl
      have member : '.' ∈ first.toList := by simp [letters]
      exact notMem_of_isIdentifier identifier (by decide) member
    intro c front
    have same : head = c := by
      cases rest <;> simpa [File.fullName, Text.joined, Text.glue, shape, letters] using front
    exact same ▸ other
  rw [String.toList_append, show ".".toList = ['.'] from rfl, List.singleton_append,
    List.dropWhile_cons_of_pos (by simp)]
  cases letters : (file.fullName path).toList with
  | nil => exact String.toList_inj.mp (by simp [letters])
  | cons head tail =>
    rw [letters] at begins
    rw [List.dropWhile_cons_of_neg (by simpa using begins), ← letters, String.ofList_toList]

/-- A reference to a message that a path leads to resolves to it, from whatever file. -/
theorem resolve_fullName {set : FileSet} (named : set.Named) (distinct : set.Distinct) {source : File}
    (sourceIn : source ∈ set) {path : List String} (declared : path ∈ Message.pathsAll source.messages)
    (from_ : String) :
    resolve set.declared ("." ++ source.fullName path) from_ =
      ⟨source.fullName path, Text.joined '_' path, source.nameText⟩ := by
  have inside := (mem_declared_iff named).mpr ⟨source, sourceIn, path, declared, rfl⟩
  refine resolve_of_mem distinct inside ?_
  rw [resolve, dropWhile_fullName (ne_nil_of_mem_pathsAll declared) (named.parts sourceIn declared)]
  split <;> rfl

/-- A reference that names no declared message is read as its last part. -/
theorem resolve_of_notMem {declared : List Declared} {reference from_ : String}
    (absent : ∀ message ∈ declared,
      message.fullName ≠ String.ofList (reference.toList.dropWhile (· = '.'))) :
    (Text.pieces '.' reference).getLast? = some (resolve declared reference from_).localName ∧
      (resolve declared reference from_).protoFile = from_ := by
  have missing : lookUp declared (String.ofList (reference.toList.dropWhile (· = '.'))) = none := by
    rw [lookUp, List.find?_eq_none]
    intro message member
    simpa using absent message (List.mem_reverse.mp member)
  simp only [resolve, missing, and_true]
  rw [Text.pieces, List.getLast?_map, ← Text.getLast?_cut_dropWhile, Text.getLast?_cut]
  simp [lastPart]

/-- Every reference of a collected service resolves, in the order of mention. The reference to a
message that a path leads to, however deep and in whichever file, gives the message's full name, the
path with underscores and the file; a reference to none gives its last part and the service's file. -/
theorem references_resolved {set : FileSet} (named : set.Named) (distinct : set.Distinct)
    {requested : List String} {service : TrpcRouters.Service}
    (collected : service ∈ set.services requested) :
    ∃ name ∈ requested, ∃ file ∈ set, set.file? name = some file ∧
      ∃ declaration ∈ file.services, service.name = declaration.name.getD "" ∧
        service.protoFile = file.nameText ∧
        service.methods.map TrpcRouters.Method.name =
          declaration.methods.map (fun method => method.name.getD "") ∧
        service.messages.length = declaration.references.length ∧
        ∀ (i : Nat) (reference : String) (message : MessageRef),
          declaration.references[i]? = some reference → service.messages[i]? = some message →
          (∀ source ∈ set, ∀ path ∈ Message.pathsAll source.messages,
            reference = "." ++ source.fullName path →
            message = ⟨source.fullName path, Text.joined '_' path, source.nameText⟩) ∧
          ((∀ source ∈ set, ∀ path ∈ Message.pathsAll source.messages,
            String.ofList (reference.toList.dropWhile (· = '.')) ≠ source.fullName path) →
            (Text.pieces '.' reference).getLast? = some message.localName ∧
              message.protoFile = service.protoFile) := by
  obtain ⟨name, asked, file, inSet, found, declaration, among, rfl⟩ := exists_declaration collected
  refine ⟨name, asked, file, inSet, found, declaration, among, rfl, rfl, ?_, ?_, ?_⟩
  · simp only [Service.resolved, List.map_map]
    rfl
  · rw [messages_resolved, List.length_map]
  intro i reference message atReference atMessage
  rw [messages_resolved, List.getElem?_map, atReference, Option.map_some, Option.some_inj] at atMessage
  subst atMessage
  constructor
  · rintro source sourceIn path declared rfl
    exact resolve_fullName named distinct sourceIn declared _
  · intro unknown
    apply resolve_of_notMem
    intro message member
    obtain ⟨source, sourceIn, path, declared, rfl⟩ := (mem_declared_iff named).mp member
    exact (unknown source sourceIn path declared).symm

/-- A message three levels down in an imported file, one outside of all packages, and a reference to
nothing. -/
def libraryService : Service :=
  ⟨some "Library", [⟨some "Open", some ".shelf.v1.Box.Row.Book", some ".Receipt", none, none⟩,
    ⟨some "Close", some ".shelf.v1.Row", some ".shelf.v1.Box", none, none⟩]⟩

def librarySet : FileSet :=
  [⟨some "shelf/v1/box.proto", some "shelf.v1",
      [.declare (some "Box") [.declare (some "Row") [.declare (some "Book") []]]], []⟩,
    ⟨some "receipt.proto", none, [.declare (some "Receipt") []], []⟩,
    ⟨some "library.proto", some "library", [], [libraryService]⟩]

theorem librarySet_resolved :
    librarySet.Named ∧ librarySet.Distinct ∧
      ∃ service ∈ librarySet.services ["library.proto"],
        service.messages[0]? = some ⟨"shelf.v1.Box.Row.Book", "Box_Row_Book", "shelf/v1/box.proto"⟩ ∧
        service.messages[1]? = some ⟨"Receipt", "Receipt", "receipt.proto"⟩ ∧
        ∃ message, service.messages[2]? = some message ∧ message.localName = "Row" ∧
          message.protoFile = "library.proto" := by
  have named : librarySet.Named := by decide
  have distinct : librarySet.Distinct := by decide
  let service := Service.resolved librarySet.declared librarySet[2] libraryService
  have collected : service ∈ librarySet.services ["library.proto"] := by decide
  obtain ⟨name, asked, file, _, found, declaration, among, _, own, _, length, resolves⟩ :=
    references_resolved named distinct collected
  obtain rfl := List.mem_singleton.mp asked
  obtain rfl : librarySet[2] = file := Option.some.inj found
  obtain rfl := List.mem_singleton.mp among
  refine ⟨named, distinct, service, collected, ?_, ?_, _, rfl, ?_⟩
  · have book : ["Box", "Row", "Book"] ∈ Message.pathsAll librarySet[0].messages := by decide
    exact congrArg some ((resolves 0 _ _ rfl rfl).1 _ (by simp) _ book (by decide))
  · have receipt : ["Receipt"] ∈ Message.pathsAll librarySet[1].messages := by decide
    exact congrArg some ((resolves 1 _ _ rfl rfl).1 _ (by simp) _ receipt (by decide))
  · have unknown := (resolves 2 _ _ rfl rfl).2 (by decide)
    exact ⟨(Option.some.inj unknown.1).symm, unknown.2⟩

end TrpcRouters.Descriptor
