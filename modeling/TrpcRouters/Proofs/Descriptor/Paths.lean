import Mathlib.Data.List.Nodup
import TrpcRouters.Descriptor.Collect
import TrpcRouters.Proofs.Identifier
import TrpcRouters.Proofs.Text.Pieces

/-! Messages by the path of names that leads to them. The full name of a declared message is its package
and path with dots between, its exported name the path with underscores between; a reference that
spells a full name resolves to the message of that name. -/

namespace TrpcRouters.Text

theorem glue_map (f : Char → Char) (separator : Char) (pieces : List (List Char)) :
    (glue separator pieces).map f = glue (f separator) (pieces.map (List.map f)) := by
  induction pieces with
  | nil => rfl
  | cons piece rest ih =>
    cases rest with
    | nil => rfl
    | cons next others => simpa [glue] using ih

theorem foldl_scope (separator : Char) (inside : String → String → String)
    (inside_eq : ∀ scope name, inside scope name =
      if scope = "" then name else scope ++ String.singleton separator ++ name)
    {path : List String} (named : ∀ name ∈ path, name ≠ "") {scope : List String}
    (open_ : scope = [] ∨ joined separator scope ≠ "") :
    path.foldl inside (joined separator scope) = joined separator (scope ++ path) := by
  induction path generalizing scope with
  | nil => simp
  | cons name rest ih =>
    have later : ∀ other ∈ rest, other ≠ "" := fun other member =>
      named other (List.mem_cons_of_mem _ member)
    have extended : inside (joined separator scope) name = joined separator (scope ++ [name]) := by
      rcases open_ with rfl | open_
      · rw [inside_eq, if_pos (joined_nil separator), List.nil_append, joined_single]
      · have some_ : scope ≠ [] := by
          rintro rfl
          exact open_ rfl
        rw [inside_eq, if_neg open_, joined_concat separator some_]
    have still : joined separator (scope ++ [name]) ≠ "" := by
      intro empty
      rw [← extended, inside_eq] at empty
      split at empty
      · exact named name (List.mem_cons_self ..) empty
      · have letters := congrArg String.toList empty
        simp at letters
    rw [List.foldl_cons, extended, ih later (Or.inr still), List.append_assoc]
    rfl

end TrpcRouters.Text

namespace TrpcRouters.Descriptor

mutual

/-- The paths of names to a message and to those nested in it. -/
def Message.paths : Message → List (List String)
  | .declare name nested =>
    (Message.pathsAll nested).map (fun path => name.getD "" :: path) ++ [[name.getD ""]]

def Message.pathsAll : List Message → List (List String)
  | [] => []
  | message :: rest => Message.paths message ++ Message.pathsAll rest

end

/-- The parts of a package name; the empty package has none. -/
def File.packageParts (file : File) : List String :=
  if file.packageText = "" then [] else Text.pieces '.' file.packageText

/-- The full name of the message that a path leads to in a file. -/
def File.fullName (file : File) (path : List String) : String :=
  Text.joined '.' (file.packageParts ++ path)

/-- All names that a set gives to packages and messages are identifiers. -/
def FileSet.Named (set : FileSet) : Prop :=
  ∀ file ∈ set, (∀ part ∈ file.packageParts, IsIdentifier part) ∧
    ∀ path ∈ Message.pathsAll file.messages, ∀ name ∈ path, IsIdentifier name

/-- No two messages of a set have one full name. -/
def FileSet.Distinct (set : FileSet) : Prop :=
  (set.declared.map Declared.fullName).Nodup

instance (set : FileSet) : Decidable set.Named :=
  inferInstanceAs (Decidable (∀ file ∈ set, _ ∧ _))

instance (set : FileSet) : Decidable set.Distinct :=
  inferInstanceAs (Decidable (List.Nodup _))

mutual

theorem Message.declared_eq (file scope outer : String) : (message : Message) →
    Message.declared file scope outer message = (Message.paths message).map fun path =>
      ⟨path.foldl qualify scope, path.foldl nestLocal outer, file⟩
  | .declare name nested => by
    rw [Message.declared, Message.paths, Message.declaredAll_eq]
    simp

theorem Message.declaredAll_eq (file scope outer : String) : (messages : List Message) →
    Message.declaredAll file scope outer messages = (Message.pathsAll messages).map fun path =>
      ⟨path.foldl qualify scope, path.foldl nestLocal outer, file⟩
  | [] => rfl
  | message :: rest => by
    rw [Message.declaredAll, Message.pathsAll, Message.declared_eq file scope outer message,
      Message.declaredAll_eq file scope outer rest, List.map_append]

end

theorem joined_packageParts (file : File) :
    Text.joined '.' file.packageParts = file.packageText := by
  unfold File.packageParts
  split
  next empty => rw [empty, Text.joined_nil]
  · rw [Text.joined, Text.pieces, List.map_map]
    have letters : (String.toList ∘ String.ofList) = id := by
      funext piece
      simp
    rw [letters, List.map_id, Text.glue_cut, String.ofList_toList]

theorem File.declared_eq {file : File}
    (named : ∀ path ∈ Message.pathsAll file.messages, ∀ name ∈ path, IsIdentifier name) :
    file.declared = (Message.pathsAll file.messages).map fun path =>
      ⟨file.fullName path, Text.joined '_' path, file.nameText⟩ := by
  rw [File.declared, Message.declaredAll_eq]
  apply List.map_congr_left
  intro path member
  have notEmpty : ∀ name ∈ path, name ≠ "" := fun name inside => (named path member name inside).1
  have full : path.foldl qualify file.packageText = file.fullName path := by
    rw [File.fullName, ← joined_packageParts]
    apply Text.foldl_scope '.' qualify (fun scope name => rfl) notEmpty
    by_cases empty : file.packageText = ""
    · exact Or.inl (if_pos empty)
    · exact Or.inr (by rwa [joined_packageParts])
  have exported : path.foldl nestLocal "" = Text.joined '_' path := by
    have folded := Text.foldl_scope '_' nestLocal (fun scope name => rfl) notEmpty (Or.inl rfl)
    rwa [Text.joined_nil, List.nil_append] at folded
  rw [full, exported]

theorem find?_reverse_eq_some_iff {α : Type} {key : α → String} {items : List α}
    (distinct : (items.map key).Nodup) {wanted : String} {item : α} :
    items.reverse.find? (fun other => key other == wanted) = some item ↔
      item ∈ items ∧ key item = wanted := by
  constructor
  · intro found
    exact ⟨List.mem_reverse.mp (List.mem_of_find?_eq_some found), by simpa using List.find?_some found⟩
  · rintro ⟨member, rfl⟩
    cases found : items.reverse.find? (fun other => key other == key item) with
    | none =>
      have absent := List.find?_eq_none.mp found item (List.mem_reverse.mpr member)
      simp at absent
    | some other =>
      have same : key other = key item := by simpa using List.find?_some found
      have inside : other ∈ items := List.mem_reverse.mp (List.mem_of_find?_eq_some found)
      rw [List.inj_on_of_nodup_map distinct inside member same]

theorem lookUp_of_mem {declared : List Declared} (distinct : (declared.map Declared.fullName).Nodup)
    {message : Declared} (member : message ∈ declared) :
    lookUp declared message.fullName = some message :=
  (find?_reverse_eq_some_iff distinct).mpr ⟨member, rfl⟩

/-- A reference that spells the full name of a declared message resolves to it, whichever file it is
seen from. -/
theorem resolve_of_mem {declared : List Declared} (distinct : (declared.map Declared.fullName).Nodup)
    {message : Declared} (member : message ∈ declared) {reference from_ : String}
    (spelled : (resolve declared reference from_).typeName = message.fullName) :
    resolve declared reference from_ =
      ⟨message.fullName, message.localName, message.protoFile⟩ := by
  have full : String.ofList (reference.toList.dropWhile (· = '.')) = message.fullName := by
    rw [← spelled]
    simp only [resolve]
    split <;> rfl
  simp only [resolve, full, lookUp_of_mem distinct member]

theorem mem_messages {set : FileSet} {requested : List String} {service : TrpcRouters.Service}
    (collected : service ∈ set.services requested) {message : MessageRef}
    (member : message ∈ service.messages) :
    ∃ reference from_, message = resolve set.declared reference from_ := by
  simp only [FileSet.services, List.mem_flatMap] at collected
  obtain ⟨name, _, inside⟩ := collected
  split at inside
  next file found =>
    obtain ⟨declaration, _, rfl⟩ := List.mem_map.mp inside
    simp only [TrpcRouters.Service.messages, Service.resolved, List.mem_flatMap, List.mem_map] at member
    obtain ⟨_, ⟨method, _, rfl⟩, which⟩ := member
    simp only [TrpcRouters.Method.messages, Method.resolved, List.mem_cons, List.not_mem_nil,
      or_false] at which
    rcases which with rfl | rfl
    · exact ⟨_, _, rfl⟩
    · exact ⟨_, _, rfl⟩
  · simp at inside

theorem eq_of_typeName {set : FileSet} (named : set.Named) (distinct : set.Distinct)
    {requested : List String} {service : TrpcRouters.Service}
    (collected : service ∈ set.services requested) {message : MessageRef}
    (member : message ∈ service.messages) {file : File} (inSet : file ∈ set) {path : List String}
    (declared : path ∈ Message.pathsAll file.messages)
    (spelled : message.typeName = file.fullName path) :
    message = ⟨file.fullName path, Text.joined '_' path, file.nameText⟩ := by
  obtain ⟨reference, from_, rfl⟩ := mem_messages collected member
  have inside : (⟨file.fullName path, Text.joined '_' path, file.nameText⟩ : Declared) ∈
      set.declared := by
    refine List.mem_flatMap.mpr ⟨file, inSet, ?_⟩
    rw [File.declared_eq (named file inSet).2]
    exact List.mem_map.mpr ⟨path, declared, rfl⟩
  exact resolve_of_mem distinct inside spelled

end TrpcRouters.Descriptor
