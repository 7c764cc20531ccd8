import TrpcRouters.Proofs.Descriptor.Paths
import TrpcRouters.Proofs.Job
import TrpcRouters.Proofs.Wire.RoundTrip
import TrpcRouters.Generation

/-! Descriptor sets in their standard encoding. Every field goes into an entry of its own, in the order
of the field numbers, and is found there again; the set takes one level of messages for
a file and one for each name on its longest path, so that paths of up to ninety-nine names are read. -/

namespace TrpcRouters.Descriptor
open Wire

section Writing

def textEntry (number : Nat) (content : Option String) : Entries :=
  content.toList.map fun text => (number, .text text)

def flagEntry (number : Nat) (content : Option Bool) : Entries :=
  content.toList.map fun isSet => (number, .flag isSet)

def messageEntries (number : Nat) (messages : List Entries) : Entries :=
  messages.map fun entries => (number, .message entries)

def Method.toEntries (method : Method) : Entries :=
  textEntry 1 method.name ++ textEntry 2 method.inputType ++ textEntry 3 method.outputType ++
    flagEntry 5 method.clientStreaming ++ flagEntry 6 method.serverStreaming

def Service.toEntries (service : Service) : Entries :=
  textEntry 1 service.name ++ messageEntries 2 (service.methods.map Method.toEntries)

mutual

def Message.toEntries : Message → Entries
  | .declare name nested => textEntry 1 name ++ Message.entriesOf 3 nested

def Message.entriesOf (number : Nat) : List Message → Entries
  | [] => []
  | message :: rest => (number, .message (Message.toEntries message)) :: Message.entriesOf number rest

end

def File.toEntries (file : File) : Entries :=
  textEntry 1 file.name ++ textEntry 2 file.package ++ Message.entriesOf 4 file.messages ++
    messageEntries 6 (file.services.map Service.toEntries)

def FileSet.toEntries (set : FileSet) : Entries :=
  messageEntries 1 (set.map File.toEntries)

def FileSet.encode (set : FileSet) : Bytes :=
  set.toEntries.encode

end Writing

section Reading
variable (number found : Nat)

@[simp] theorem lastText_append (first second : Entries) :
    lastText number (first ++ second) = (lastText number second).or (lastText number first) := by
  rw [lastText, List.filterMap_append, List.getLast?_append]
  rfl

@[simp] theorem lastText_textEntry (content : Option String) :
    lastText number (textEntry found content) = if found = number then content else none := by
  cases content <;> by_cases same : found = number <;> simp [lastText, textEntry, same]

@[simp] theorem lastText_flagEntry (content : Option Bool) :
    lastText number (flagEntry found content) = none := by
  cases content <;> rfl

@[simp] theorem lastText_messageEntries (messages : List Entries) :
    lastText number (messageEntries found messages) = none := by
  simp [lastText, messageEntries, List.filterMap_map]

@[simp] theorem lastFlag_append (first second : Entries) :
    lastFlag number (first ++ second) = (lastFlag number second).or (lastFlag number first) := by
  rw [lastFlag, List.filterMap_append, List.getLast?_append]
  rfl

@[simp] theorem lastFlag_textEntry (content : Option String) :
    lastFlag number (textEntry found content) = none := by
  cases content <;> rfl

@[simp] theorem lastFlag_flagEntry (content : Option Bool) :
    lastFlag number (flagEntry found content) = if found = number then content else none := by
  cases content <;> by_cases same : found = number <;> simp [lastFlag, flagEntry, same]

@[simp] theorem submessages_append (first second : Entries) :
    submessages number (first ++ second) = submessages number first ++ submessages number second :=
  List.filterMap_append

@[simp] theorem submessages_textEntry (content : Option String) :
    submessages number (textEntry found content) = [] := by
  cases content <;> rfl

@[simp] theorem submessages_messageEntries (messages : List Entries) :
    submessages number (messageEntries found messages) = if found = number then messages else [] := by
  by_cases same : found = number <;>
    simp [submessages, messageEntries, List.filterMap_map, same]

end Reading

@[simp] theorem Method.ofEntries_toEntries (method : Method) : ofEntries method.toEntries = method := by
  simp [ofEntries, toEntries]

@[simp] theorem Service.ofEntries_toEntries (service : Service) :
    ofEntries service.toEntries = service := by
  simp [ofEntries, toEntries, Function.comp_def]

theorem Message.entriesOf_eq (number : Nat) (messages : List Message) :
    entriesOf number messages = messageEntries number (messages.map toEntries) := by
  induction messages with
  | nil => rfl
  | cons message rest ih =>
    rw [entriesOf, ih]
    rfl

section Messages
variable (number : Nat)

@[simp] theorem Message.listOf_append (first second : Entries) :
    listOf number (first ++ second) = listOf number first ++ listOf number second := by
  induction first with
  | nil => rfl
  | cons entry rest ih =>
    rw [List.cons_append, listOf, listOf, ih]
    cases ofEntry number entry <;> rfl

@[simp] theorem Message.listOf_textEntry (found : Nat) (content : Option String) :
    listOf number (textEntry found content) = [] := by
  cases content with
  | none => rfl
  | some text => by_cases same : found = number <;> simp [textEntry, listOf, ofEntry, ofValue, same]

@[simp] theorem Message.listOf_messageEntries_of_ne {found : Nat} (other : found ≠ number)
    (messages : List Entries) : listOf number (messageEntries found messages) = [] := by
  induction messages with
  | nil => rfl
  | cons message rest ih => simpa [messageEntries, listOf, ofEntry, other] using ih

mutual

theorem Message.ofValue_toEntries : (message : Message) →
    ofValue (.message message.toEntries) = some message
  | .declare name nested => by
    have inner := Message.listOf_entriesOf 3 nested
    have apart : lastText 1 (entriesOf 3 nested) = none := by simp [entriesOf_eq]
    simp [ofValue, toEntries, inner, apart]

theorem Message.listOf_entriesOf (number : Nat) : (messages : List Message) →
    listOf number (entriesOf number messages) = messages
  | [] => rfl
  | message :: rest => by
    have first := Message.ofValue_toEntries message
    have others := Message.listOf_entriesOf number rest
    simp [entriesOf, listOf, ofEntry, first, others]

end

end Messages

@[simp] theorem File.ofEntries_toEntries (file : File) : ofEntries file.toEntries = file := by
  have messages := Message.listOf_entriesOf 4 file.messages
  have name : lastText 1 (Message.entriesOf 4 file.messages) = none := by simp [Message.entriesOf_eq]
  have package : lastText 2 (Message.entriesOf 4 file.messages) = none := by simp [Message.entriesOf_eq]
  have services : submessages 6 (Message.entriesOf 4 file.messages) = [] := by
    simp [Message.entriesOf_eq]
  simp [ofEntries, toEntries, messages, name, package, services, Function.comp_def]

theorem FileSet.ofEntries_toEntries (set : FileSet) : ofEntries set.toEntries = set := by
  simp [ofEntries, toEntries, Function.comp_def]

section Fitting
variable {type : MessageType} {number : Nat}

@[simp] theorem fit_append {first second : Entries} :
    Entries.Fit type (first ++ second) ↔ Entries.Fit type first ∧ Entries.Fit type second := by
  simp only [Entries.fit_iff, List.forall_mem_append]

theorem fit_textEntry {field : Field} (known : type.field? number = some field)
    (text : field.type = .text) (content : Option String) :
    Entries.Fit type (textEntry number content) := by
  cases content with
  | none => trivial
  | some content => exact ⟨⟨field, known, text⟩, trivial⟩

theorem fit_flagEntry {field : Field} (known : type.field? number = some field)
    (flag : field.type = .flag) (content : Option Bool) :
    Entries.Fit type (flagEntry number content) := by
  cases content with
  | none => trivial
  | some content => exact ⟨⟨field, known, flag⟩, trivial⟩

theorem fit_messageEntries {field : Field} {inner : MessageType}
    (known : type.field? number = some field) (message : field.type = .message inner)
    {messages : List Entries} (fit : ∀ entries ∈ messages, Entries.Fit inner entries) :
    Entries.Fit type (messageEntries number messages) := by
  rw [Entries.fit_iff]
  intro entry member
  obtain ⟨entries, inside, rfl⟩ := List.mem_map.mp member
  exact ⟨field, known, inner, message, fit entries inside⟩

theorem Method.fit_toEntries (method : Method) :
    Entries.Fit .methodDescriptorProto method.toEntries := by
  simp only [toEntries, fit_append]
  exact ⟨⟨⟨⟨fit_textEntry rfl rfl _, fit_textEntry rfl rfl _⟩, fit_textEntry rfl rfl _⟩,
    fit_flagEntry rfl rfl _⟩, fit_flagEntry rfl rfl _⟩

theorem Service.fit_toEntries (service : Service) :
    Entries.Fit .serviceDescriptorProto service.toEntries := by
  refine fit_append.mpr ⟨fit_textEntry rfl rfl _, fit_messageEntries rfl rfl ?_⟩
  simp only [List.forall_mem_map]
  exact fun method _ => method.fit_toEntries

mutual

theorem Message.fit_toEntries : (message : Message) →
    Entries.Fit .descriptorProto message.toEntries
  | .declare _ nested => fit_append.mpr
    ⟨fit_textEntry rfl rfl _, Message.fit_entriesOf rfl rfl nested⟩

theorem Message.fit_entriesOf {type : MessageType} {number : Nat} {field : Field}
    (known : type.field? number = some field) (message : field.type = .message .descriptorProto) :
    (messages : List Message) → Entries.Fit type (entriesOf number messages)
  | [] => trivial
  | first :: rest => ⟨⟨field, known, _, message, Message.fit_toEntries first⟩,
    Message.fit_entriesOf known message rest⟩

end

theorem File.fit_toEntries (file : File) : Entries.Fit .fileDescriptorProto file.toEntries := by
  simp only [toEntries, fit_append]
  refine ⟨⟨⟨fit_textEntry rfl rfl _, fit_textEntry rfl rfl _⟩, Message.fit_entriesOf rfl rfl _⟩,
    fit_messageEntries rfl rfl ?_⟩
  simp only [List.forall_mem_map]
  exact fun service _ => service.fit_toEntries

theorem FileSet.fit_toEntries (set : FileSet) : Entries.Fit .fileDescriptorSet set.toEntries := by
  refine fit_messageEntries rfl rfl ?_
  simp only [List.forall_mem_map]
  exact fun file _ => file.fit_toEntries

end Fitting

section Depth
variable {number levels : Nat}

@[simp] theorem depth_textEntry (content : Option String) :
    Entries.depth (textEntry number content) = 0 := by
  cases content <;> rfl

@[simp] theorem depth_flagEntry (content : Option Bool) :
    Entries.depth (flagEntry number content) = 0 := by
  cases content <;> rfl

theorem depth_messageEntries_le_iff {messages : List Entries} :
    Entries.depth (messageEntries number messages) ≤ levels ↔
      ∀ entries ∈ messages, Entries.depth entries + 1 ≤ levels := by
  rw [Entries.depth_le_iff, messageEntries, List.forall_mem_map]
  rfl

theorem Service.depth_toEntries_le (service : Service) : Entries.depth service.toEntries ≤ 1 := by
  have methods : Entries.depth (messageEntries 2 (service.methods.map Method.toEntries)) ≤ 1 := by
    rw [depth_messageEntries_le_iff, List.forall_mem_map]
    simp [Method.toEntries]
  simpa [toEntries] using methods

mutual

/-- A message takes as many levels as the longest path to a declaration in it has names. -/
theorem Message.depth_toEntries_lt_iff : (message : Message) → (levels : Nat) →
    (Entries.depth message.toEntries < levels ↔ ∀ path ∈ Message.paths message, path.length ≤ levels)
  | .declare name nested, 0 => by simp [paths]
  | .declare name nested, levels + 1 => by
    have inner := Message.depth_entriesOf_le_iff 3 nested levels
    rw [toEntries, Entries.depth_append, depth_textEntry, Nat.zero_max, Nat.lt_succ_iff, inner, paths,
      List.forall_mem_append, List.forall_mem_map]
    simp

theorem Message.depth_entriesOf_le_iff (number : Nat) : (messages : List Message) → (levels : Nat) →
    (Entries.depth (entriesOf number messages) ≤ levels ↔
      ∀ path ∈ Message.pathsAll messages, path.length ≤ levels)
  | [], levels => by simp [entriesOf, Entries.depth, pathsAll]
  | message :: rest, levels => by
    have first := Message.depth_toEntries_lt_iff message levels
    have others := Message.depth_entriesOf_le_iff number rest levels
    rw [pathsAll, List.forall_mem_append, ← first, ← others]
    exact Nat.max_le

end

/-- A set takes one level for a file and one for each name on its longest path; services take two. -/
theorem FileSet.depth_toEntries_le_iff {set : FileSet} {levels : Nat} (two : 2 ≤ levels) :
    Entries.depth set.toEntries ≤ levels + 1 ↔
      ∀ file ∈ set, ∀ path ∈ Message.pathsAll file.messages, path.length ≤ levels := by
  rw [toEntries, depth_messageEntries_le_iff, List.forall_mem_map]
  refine forall₂_congr fun file _ => ?_
  have services : Entries.depth (messageEntries 6 (file.services.map Service.toEntries)) ≤ 2 := by
    refine depth_messageEntries_le_iff.mpr (List.forall_mem_map.mpr fun service _ => ?_)
    exact Nat.succ_le_succ service.depth_toEntries_le
  rw [← Message.depth_entriesOf_le_iff 4 file.messages, File.toEntries]
  simp only [Entries.depth_append, depth_textEntry]
  omega

end Depth

section Decoding
variable {set : FileSet}

theorem FileSet.decode_encode (short : set.encode.length < 2 ^ 63)
    (shallow : ∀ file ∈ set, ∀ path ∈ Message.pathsAll file.messages, path.length ≤ 99) :
    FileSet.decode set.encode = .ok set := by
  have room : Entries.depth set.toEntries ≤ maxDepth := (depth_toEntries_le_iff (by decide)).mpr shallow
  have fits : (Entries.encode set.toEntries).length < 2 ^ 64 := Nat.lt_trans short (by decide)
  rw [FileSet.decode, encode, Wire.decode_encode set.fit_toEntries fits room]
  exact congrArg Except.ok (ofEntries_toEntries set)

example : FileSet.encode [⟨some "a", some "b", [.declare (some "C") [.declare none []]], []⟩] =
    [0x0a, 0x0d, 0x0a, 0x01, 0x61, 0x12, 0x01, 0x62, 0x22, 0x05, 0x0a, 0x01, 0x43, 0x1a, 0x00] := by
  decide +kernel

theorem FileSet.decode_tooDeep (short : set.encode.length < 2 ^ 63)
    (deep : ∃ file ∈ set, ∃ path ∈ Message.pathsAll file.messages, 99 < path.length) :
    ∃ trail, FileSet.decode set.encode = .error ⟨.tooDeep, trail⟩ := by
  have beyond : maxDepth < Entries.depth set.toEntries := by
    rw [← Nat.not_le]
    intro room
    have shallow := (depth_toEntries_le_iff (by decide : 2 ≤ 99)).mp room
    obtain ⟨file, inSet, path, declared, long⟩ := deep
    exact absurd (shallow file inSet path declared) (Nat.not_le_of_lt long)
  have fits : (Entries.encode set.toEntries).length < 2 ^ 64 := Nat.lt_trans short (by decide)
  obtain ⟨trail, stopped⟩ := Wire.decode_tooDeep set.fit_toEntries fits beyond
  exact ⟨trail, by rw [FileSet.decode, encode, stopped]; rfl⟩

end Decoding

end TrpcRouters.Descriptor

namespace TrpcRouters.Generation
open Descriptor

theorem loadServices_eq (file : Path) (requested : List String) (world : World) :
    loadServices file requested world =
      match FileSet.load world.tree file with
      | .ok set => .ok (set.services requested)
          { world with log := world.log ++ (set.missing requested).map .missing }
      | .error error => .error error.failure world := by
  rw [loadServices, Job.bind_eq, Job.ask_eq]
  simp only [Job.bind_eq, Job.ofExcept_eq]
  cases FileSet.load world.tree file with
  | error error => rfl
  | ok set =>
    simp only [Job.forM_report]
    rfl

/-- The services of a set are loaded from a file with its standard encoding, if no message of the set
stands in ninety-nine others, whether its file was asked for or not; otherwise none are. -/
theorem loadServices_encode {set : FileSet} (short : set.encode.length < 2 ^ 63) {file : Path}
    {world : World} (held : world.tree.read file = .ok set.encode) (requested : List String) :
    ((∀ source ∈ set, ∀ path ∈ Message.pathsAll source.messages, path.length ≤ 99) →
      loadServices file requested world = .ok (set.services requested)
        { world with log := world.log ++ (set.missing requested).map .missing }) ∧
    ((∃ source ∈ set, ∃ path ∈ Message.pathsAll source.messages, 99 < path.length) →
      ∃ trail, loadServices file requested world = .error (.descriptor
        ("Failed to decode " ++ file.text ++ ": " ++ Wire.Fault.text ⟨.tooDeep, trail⟩)) world) := by
  have loaded : FileSet.load world.tree file = FileSet.ofBytes file set.encode := by
    rw [FileSet.load, held]
  constructor
  · intro shallow
    rw [loadServices_eq, loaded, FileSet.ofBytes, FileSet.decode_encode short shallow]
    rfl
  · intro deep
    obtain ⟨trail, refused⟩ := FileSet.decode_tooDeep short deep
    refine ⟨trail, ?_⟩
    rw [loadServices_eq, loaded, FileSet.ofBytes, refused]
    rfl

def nest : Nat → List Message
  | 0 => []
  | depth + 1 => [.declare (some "M") (nest depth)]

def nestedSet (depth : Nat) : FileSet :=
  [⟨some "nested.proto", none, nest depth, []⟩,
    ⟨some "shop.proto", some "shop", [],
      [⟨some "Shop", [⟨some "Buy", some ".M.M", some ".M", none, some true⟩]⟩]⟩]

def nestedWorld (depth : Nat) : World :=
  ⟨⟨[(["set"], .file (nestedSet depth).encode 1 false)], [], 1, [], []⟩, []⟩

/-- Ninety-nine levels are loaded, and one more is refused, though only the other file is asked for. -/
theorem nestedSet_loaded :
    (∃ world, loadServices ⟨"/set"⟩ ["shop.proto"] (nestedWorld 99) =
      .ok ((nestedSet 99).services ["shop.proto"]) world) ∧
    ∃ reason, loadServices ⟨"/set"⟩ ["shop.proto"] (nestedWorld 100) =
      .error (.descriptor reason) (nestedWorld 100) := by
  have fits : (nestedSet 99).encode.length < 2 ^ 63 := by decide +kernel
  have held : (nestedWorld 99).tree.read ⟨"/set"⟩ = .ok (nestedSet 99).encode := rfl
  have more : (nestedSet 100).encode.length < 2 ^ 63 := by decide +kernel
  have there : (nestedWorld 100).tree.read ⟨"/set"⟩ = .ok (nestedSet 100).encode := rfl
  obtain ⟨loads, _⟩ := loadServices_encode fits held ["shop.proto"]
  obtain ⟨_, refuses⟩ := loadServices_encode more there ["shop.proto"]
  obtain ⟨trail, refused⟩ := refuses (by decide +kernel)
  exact ⟨⟨_, loads (by decide +kernel)⟩, _, refused⟩

end TrpcRouters.Generation
