import Mathlib.Data.List.Induction
import TrpcRouters.ConnectQuery
import TrpcRouters.Proofs.OutputTree
import TrpcRouters.Proofs.Path.Names

/-! The connect-query modules to be written. Each definition file that declares services has one, for
exactly these services in their order, beside the compiler's modules of the same file. -/

namespace TrpcRouters.ConnectQuery

theorem lookup_addToGroup (service : Service) (groups : List (String × List Service))
    (file : String) :
    (addToGroup service groups).lookup file =
      if file = service.protoFile then some ((groups.lookup file).getD [] ++ [service])
      else groups.lookup file := by
  induction groups with
  | nil =>
    by_cases same : file = service.protoFile
    · simp [addToGroup, same]
    · have away : (file == service.protoFile) = false := by simpa using same
      simp [addToGroup, List.lookup_cons, same, away]
  | cons group rest ih =>
    obtain ⟨first, members⟩ := group
    by_cases here : first = service.protoFile
    · by_cases same : file = service.protoFile
      · simp [addToGroup, here, same]
      · have away : (file == service.protoFile) = false := by simpa using same
        simp [addToGroup, here, List.lookup_cons, same, away]
    · by_cases same : file = first
      · subst same
        simp [addToGroup, here]
      · have away : (file == first) = false := by simpa using same
        simp [addToGroup, here, List.lookup_cons, away, ih]

/-- A file has a group if it declares a service, and then the group is all of them. -/
theorem lookup_groups (services : List Service) (file : String) :
    (groups services).lookup file =
      if services.any (fun service => service.protoFile = file) then
        some (services.filter (fun service => service.protoFile = file))
      else none := by
  induction services using List.reverseRecOn with
  | nil => rfl
  | append_singleton front last ih =>
    have fold : groups (front ++ [last]) = addToGroup last (groups front) := by
      rw [groups, List.foldl_append]
      rfl
    rw [fold, lookup_addToGroup, ih]
    by_cases same : file = last.protoFile
    · subst same
      by_cases earlier : front.any (fun service => service.protoFile = last.protoFile) = true
      · simp [earlier]
      · have none_ : front.filter (fun service => service.protoFile = last.protoFile) = [] := by
          simpa using earlier
        simp [earlier, none_]
    · have other : ¬last.protoFile = file := fun equal => same equal.symm
      simp [same, other]

theorem mem_groups {services : List Service} {service : Service} (member : service ∈ services) :
    (service.protoFile, services.filter (fun other => other.protoFile = service.protoFile)) ∈
      groups services := by
  have present : services.any (fun other => other.protoFile = service.protoFile) = true :=
    List.any_eq_true.mpr ⟨service, member, by simp⟩
  have found := lookup_groups services service.protoFile
  rw [if_pos present] at found
  obtain ⟨front, rest, whole, _⟩ := List.lookup_eq_some_iff.mp found
  rw [whole]
  simp

theorem exists_of_mem_groups {services : List Service} {group : String × List Service}
    (member : group ∈ groups services) : ∃ service ∈ services, service.protoFile = group.1 := by
  have present : (groups services).lookup group.1 ≠ none := by
    intro absent
    rw [List.lookup_eq_none_iff] at absent
    simpa using absent group member
  rw [lookup_groups] at present
  split at present
  next some_ =>
    obtain ⟨service, inside, same⟩ := List.any_eq_true.mp some_
    exact ⟨service, inside, of_decide_eq_true same⟩
  next => exact absurd rfl present

theorem isName_module (protoFile : String) :
    Path.IsName (.ofText (protoStem protoFile ++ "_connectquery")) :=
  isName_generated protoFile (by decide)

theorem isName_moduleFile (protoFile : String) :
    Path.IsName (.ofText (protoStem protoFile ++ "_connectquery" ++ ".ts")) := by
  rw [String.append_assoc]
  exact isName_generated protoFile (by decide)

theorem file_eq_child (tree : OutputTree) (protoFile : String) :
    file tree protoFile = (tree.connect.join ((Path.ofText protoFile).parent?.getD Path.empty)).child
      (.ofText (protoStem protoFile ++ "_connectquery" ++ ".ts")) := by
  rw [file, generatedModule, Path.child_append (isName_module protoFile), ← RawString.ofText_append]

theorem parent?_file (tree : OutputTree) {protoFile : String} (definition : IsDefinition protoFile) :
    ∃ folder, (file tree protoFile).parent? = some folder ∧
      folder.components = tree.connect.components ++ folderOf protoFile := by
  obtain ⟨folder, parent, components, bare⟩ := folder_spec definition
  obtain ⟨above, found, same⟩ :=
    Path.parent?_child (tree.connect.join folder) (isName_moduleFile protoFile)
  refine ⟨above, by rw [file_eq_child, parent, Option.getD_some, found], ?_⟩
  rw [same, Path.components_join bare, components]

theorem file_below {tree : OutputTree} (tidy : tree.root.Tidy) {names : List String}
    (named : ∀ name ∈ names, Path.IsName (.ofText name)) :
    tree.root.Below (file tree (Text.joined '/' names))
      (RawString.ofText "connect" :: (names.dropLast.map RawString.ofText ++
        [.ofText (protoStem (Text.joined '/' names) ++ "_connectquery" ++ ".ts")])) := by
  have start : tree.root.Below tree.connect ["connect"] := .start tidy (by decide)
  have named' : ∀ name ∈ names.map RawString.ofText, Path.IsName name := List.forall_mem_map.mpr named
  have folder : ∃ folder, (Path.ofText (Text.joined '/' names)).parent?.getD Path.empty = folder ∧
      folder.isAbsolute = false ∧ folder.names = names.dropLast.map RawString.ofText := by
    refine ⟨_, rfl, ?_⟩
    rw [Path.ofText_joined]
    obtain rfl | ⟨front, last, shape⟩ := List.eq_nil_or_concat names
    · decide
    · rw [List.concat_eq_append] at shape
      subst shape
      rw [List.map_append, List.map_singleton] at named' ⊢
      have front_ : ∀ name ∈ front.map RawString.ofText, Path.IsName name := fun name member =>
        named' name (List.mem_append_left _ member)
      rw [Path.parent?_joined named', Option.getD_some, List.dropLast_concat]
      exact ⟨Path.isAbsolute_joined front_, Path.names_joined front_⟩
  obtain ⟨folder, whole, relative, spelled⟩ := folder
  have some_ := Path.isEmpty_of_isAbsolute start.tidy.1
  have moved := (isName_moduleFile (Text.joined '/' names)).isMove
  have inner : ∀ name ∈ names.dropLast.map RawString.ofText, Path.IsName name :=
    List.forall_mem_map.mpr fun name member => named name (List.dropLast_subset names member)
  have joined : (tree.connect.join folder).Tidy := by
    refine ⟨by rw [Path.isAbsolute_join relative some_, start.tidy.1], ?_⟩
    rw [Path.names_join relative some_, spelled, List.mem_append, not_or]
    exact ⟨start.tidy.2, fun dot => (inner _ dot).2.1 rfl⟩
  rw [file_eq_child, whole]
  constructor
  case tidy => exact joined.child moved
  case ends => exact Path.endsInSeparator_child moved
  case names =>
    rw [Path.names_child (Path.isEmpty_of_isAbsolute joined.1) moved,
      Path.names_join relative some_, spelled, start.names]
    simp
  case named =>
    intro name member
    rcases List.mem_cons.mp member with rfl | rest
    · decide
    · rcases List.mem_append.mp rest with ahead | last
      · exact inner name ahead
      · rw [List.mem_singleton.mp last]
        exact isName_moduleFile _
  case some_ => simp

end TrpcRouters.ConnectQuery
