import TrpcRouters.Proofs.ConnectQuery.Exports
import TrpcRouters.Proofs.FileTree.Written
import TrpcRouters.Proofs.Generation.Emitted

/-! How the connect-query modules divide the services. Each definition file has one module, in the order of
first mention, for exactly its own services, and none of them is written where a module of the compiler
is. -/

namespace TrpcRouters.ConnectQuery
open Source FileTree

def files (services : List Service) : List String :=
  (services.map Service.protoFile).eraseDups

def members (services : List Service) (file : String) : List Service :=
  services.filter fun service => service.protoFile = file

section Grouping
variable {services : List Service}

theorem mem_files {file : String} :
    file ∈ files services ↔ ∃ service ∈ services, service.protoFile = file := by
  rw [files, List.mem_eraseDups, List.mem_map]

theorem map_fst_groups (services : List Service) : (groups services).map Prod.fst = files services := by
  induction services using List.reverseRecOn with
  | nil => rfl
  | append_singleton front last ih =>
    have fold : groups (front ++ [last]) = addToGroup last (groups front) := by
      rw [groups, List.foldl_append]
      rfl
    rw [fold, map_fst_addToGroup, ih, files, files, List.map_append, List.eraseDups_append]
    simp only [List.mem_eraseDups, List.map_singleton]
    split
    next old =>
      rw [List.mem_map] at old
      simp [List.removeAll, old]
    next new =>
      rw [List.mem_map] at new
      simp [List.removeAll, new, List.eraseDups_cons]

theorem nodup_files (services : List Service) : (files services).Nodup :=
  map_fst_groups services ▸ nodup_groups services

theorem groups_eq (services : List Service) :
    groups services = (files services).map fun file => (file, members services file) := by
  rw [← map_fst_groups, List.map_map]
  refine (List.map_id _).symm.trans (List.map_congr_left fun group member => ?_)
  obtain ⟨service, among, file⟩ := exists_of_mem_groups member
  have whole := mem_groups among
  rw [file] at whole
  exact List.inj_on_of_nodup_map (nodup_groups services) member whole rfl

theorem modules_eq (tree : OutputTree) (services : List Service) :
    modules tree services =
      (files services).map fun name => (file tree name, code name (members services name)) := by
  rw [modules, groups_eq, List.map_map]
  rfl

theorem perm_flatMap_filter {α κ : Type} [DecidableEq κ] {key : α → κ} {keys : List κ}
    (distinct : keys.Nodup) {elements : List α} (covered : ∀ element ∈ elements, key element ∈ keys) :
    (keys.flatMap fun k => elements.filter fun element => key element = k).Perm elements := by
  induction keys generalizing elements with
  | nil =>
    have none_ : elements = [] :=
      List.eq_nil_iff_forall_not_mem.mpr fun element member => by simpa using covered element member
    simp [none_]
  | cons first rest ih =>
    obtain ⟨absent, distinct'⟩ := List.nodup_cons.mp distinct
    -- The later parts are parts of what the first one leaves.
    have later : (rest.flatMap fun k => elements.filter fun element => key element = k) =
        rest.flatMap fun k => (elements.filter fun element => key element ≠ first).filter
          fun element => key element = k := by
      refine List.flatMap_congr fun k member => ?_
      rw [List.filter_filter]
      refine List.filter_congr fun element _ => ?_
      have other : k ≠ first := fun same => absent (same ▸ member)
      by_cases here : key element = k
      · simp [here, other]
      · simp [here]
    have covered' : ∀ element ∈ elements.filter fun element => key element ≠ first, key element ∈ rest := by
      intro element member
      obtain ⟨inside, other⟩ := List.mem_filter.mp member
      exact (List.mem_cons.mp (covered element inside)).resolve_left (of_decide_eq_true other)
    have split := ih distinct' covered'
    rw [List.flatMap_cons, later]
    refine (split.append_left _).trans ?_
    have parts := List.filter_append_perm (fun element => decide (key element = first)) elements
    simpa using parts

theorem perm_members (services : List Service) :
    ((files services).flatMap (members services)).Perm services :=
  perm_flatMap_filter (nodup_files services) fun service member => mem_files.mpr ⟨service, member, rfl⟩

end Grouping

section Statements
variable {protoFile : String} {services : List Service}

/-- The names that a statement imports, and the module that they come from. -/
def imported? : Statement → Option (List String × String)
  | .importNames names source => some (names, source)
  | _ => none

theorem imports_statements (protoFile : String) (services : List Service) :
    (statements protoFile services).filterMap imported? =
      [(services.map Service.name, "./" ++ protoStem protoFile ++ "_connect.js")] := by
  simp only [statements, header, List.cons_append, List.nil_append, List.filterMap_cons, imported?,
    List.filterMap_flatMap, List.filterMap_nil]
  simp

end Statements

section Places
variable {tree : OutputTree} {protoFile other : String}

theorem components_file (tree : OutputTree) (definition : IsDefinition protoFile) :
    (file tree protoFile).components = tree.connect.components ++ folderOf protoFile ++
      [.name (.ofText (protoStem protoFile ++ "_connectquery" ++ ".ts"))] := by
  obtain ⟨folder, parent, components, bare⟩ := folder_spec definition
  rw [file_eq_child, parent, Option.getD_some, Path.components_child (isName_moduleFile protoFile),
    Path.components_join bare, components]

theorem components_definition (definition : IsDefinition protoFile) :
    (Path.ofText protoFile).components =
      folderOf protoFile ++ [.name (.ofText (protoStem protoFile ++ ".proto"))] := by
  have extension := definition.2
  cases found : (Path.ofText protoFile).fileName? with
  | none => simp [Path.extension?, found] at extension
  | some name =>
    have whole := Path.fileName?_eq_some found
    have last : name = .ofText (protoStem protoFile ++ ".proto") := by
      rw [Path.extension?, found, Option.bind_some] at extension
      have stem : protoStem protoFile = (Path.cutExtension name).1.text := by
        rw [protoStem, Path.fileStem?, found]
        rfl
      have spelled : name = (Path.cutExtension name).1 ++ RawString.ofText ".proto" :=
        RawString.ext (Path.bytes_of_cutExtension extension).1
      have text : name.IsText := Path.isText_of_mem_components (whole ▸ List.mem_append_right _ (by simp))
      have shown : name.text = (Path.cutExtension name).1.text ++ ".proto" :=
        (congrArg RawString.text spelled).trans
          (RawString.text_append_ofText _ (c := '.') (by decide) "proto".toList)
      rw [stem, ← shown]
      exact text.symm
    rw [folderOf, ← last]
    exact whole

/-- Two definition files have one module exactly if they are spellings of one path. -/
theorem components_file_inj (tree : OutputTree) (definition : IsDefinition protoFile)
    (definition' : IsDefinition other) :
    (file tree protoFile).components = (file tree other).components ↔
      (Path.ofText protoFile).components = (Path.ofText other).components := by
  rw [components_file tree definition, components_file tree definition',
    components_definition definition, components_definition definition', List.append_assoc,
    List.append_assoc, List.append_cancel_left_eq]
  constructor
  · intro same
    obtain ⟨folder, last⟩ := List.append_inj' same rfl
    rw [folder]
    simpa using last
  · intro same
    obtain ⟨folder, last⟩ := List.append_inj' same rfl
    rw [folder]
    simpa using last

theorem components_file_ne (tree : OutputTree) (definition : IsDefinition protoFile) (source : String)
    {suffix extension : String} (made : suffix ∈ ["_pb", "_connect"])
    (script : extension ∈ ["ts", "js", "d.ts"]) :
    (file tree protoFile).components ≠
      (Path.mk ((generatedModule tree.connect source suffix).raw ++ .ofText ("." ++ extension))).components := by
  have ends : ∀ suffix ∈ ["_pb", "_connect"], ∀ extension ∈ ["ts", "js", "d.ts"],
      IsSuffix suffix ∧ IsSuffix (suffix ++ ("." ++ extension)) ∧
      ¬(suffix ++ ("." ++ extension)).toList.reverse <+: ("_connectquery" ++ ".ts").toList.reverse ∧
      ¬("_connectquery" ++ ".ts").toList.reverse <+: (suffix ++ ("." ++ extension)).toList.reverse := by
    decide
  obtain ⟨plain, whole, shorter, longer⟩ := ends suffix made extension script
  have generated : Path.mk ((generatedModule tree.connect source suffix).raw ++ .ofText ("." ++ extension)) =
      (tree.connect.join ((Path.ofText source).parent?.getD Path.empty)).child
        (.ofText (protoStem source ++ (suffix ++ ("." ++ extension)))) := by
    rw [generatedModule, Path.child_append (isName_generated source plain), ← RawString.ofText_append,
      String.append_assoc]
  intro same
  rw [components_file tree definition, generated,
    Path.components_child (isName_generated source whole)] at same
  have last := (List.append_inj' same rfl).2
  rw [List.singleton_inj, Component.name.injEq, RawString.ofText_inj, String.append_assoc] at last
  have letters : ("_connectquery" ++ ".ts").toList.reverse ++ (protoStem protoFile).toList.reverse =
      (suffix ++ ("." ++ extension)).toList.reverse ++ (protoStem source).toList.reverse := by
    rw [← List.reverse_append, ← List.reverse_append, ← String.toList_append, ← String.toList_append, last]
  -- Of two texts in front of one, one is in front of the other.
  rcases List.prefix_or_prefix_of_prefix (List.prefix_append ..)
    (letters ▸ List.prefix_append ..) with front | front
  · exact shorter front
  · exact longer front

theorem exists_names_file (tree : OutputTree) (definition : IsDefinition protoFile) :
    ∃ names : List RawString, (∀ name ∈ names, Path.IsName name) ∧
      (file tree protoFile).components = tree.connect.components ++ names.map .name := by
  have plain : ∀ component ∈ folderOf protoFile, component = .name component.raw ∧
      Path.IsName component.raw := by
    intro component member
    have inside := List.dropLast_subset _ member
    obtain ⟨name, rfl⟩ := definition.1 component inside
    exact ⟨rfl, Path.isName_of_mem_components inside⟩
  refine ⟨(folderOf protoFile).map Component.raw ++ [.ofText (protoStem protoFile ++ "_connectquery" ++ ".ts")],
    ?_, ?_⟩
  · intro name member
    rcases List.mem_append.mp member with inner | last
    · obtain ⟨component, listed, rfl⟩ := List.mem_map.mp inner
      exact (plain component listed).2
    · rw [List.mem_singleton.mp last]
      exact isName_moduleFile protoFile
  · have folder : ((folderOf protoFile).map Component.raw).map .name = folderOf protoFile := by
      rw [List.map_map]
      exact (List.map_congr_left fun component member => (plain component member).1.symm).trans
        (List.map_id _)
    rw [components_file tree definition, List.map_append, folder, List.append_assoc]
    rfl

end Places

/-- The services' definition files are spelled in one way each. -/
def SpelledOnce (services : List Service) : Prop :=
  ∀ first ∈ services, ∀ second ∈ services,
    (Path.ofText first.protoFile).components = (Path.ofText second.protoFile).components →
      first.protoFile = second.protoFile

instance (services : List Service) : Decidable (SpelledOnce services) :=
  inferInstanceAs (Decidable (∀ _ ∈ _, ∀ _ ∈ _, _ → _))

section Emission
variable {tree : OutputTree} {services : List Service} {world after : World} {paths : List Path}

theorem definition_of_mem_files (definitions : ∀ service ∈ services, IsDefinition service.protoFile)
    {name : String} (member : name ∈ files services) : IsDefinition name := by
  obtain ⟨service, among, rfl⟩ := mem_files.mp member
  exact definitions service among

theorem nodup_components_iff (tree : OutputTree)
    (definitions : ∀ service ∈ services, IsDefinition service.protoFile) :
    ((files services).map fun name => (file tree name).components).Nodup ↔ SpelledOnce services := by
  rw [List.nodup_map_iff_inj_on (nodup_files services)]
  constructor
  · intro apart first firstIn second secondIn same
    refine apart _ (mem_files.mpr ⟨first, firstIn, rfl⟩) _ (mem_files.mpr ⟨second, secondIn, rfl⟩) ?_
    exact (components_file_inj tree (definitions first firstIn) (definitions second secondIn)).mpr same
  · intro once name nameIn other otherIn same
    rw [components_file_inj tree (definition_of_mem_files definitions nameIn)
      (definition_of_mem_files definitions otherIn)] at same
    obtain ⟨first, firstIn, rfl⟩ := mem_files.mp nameIn
    obtain ⟨second, secondIn, rfl⟩ := mem_files.mp otherIn
    exact once first firstIn second secondIn same

theorem written_of_emitConnectQueries (sound : world.tree.Sound)
    (definitions : ∀ service ∈ services, IsDefinition service.protoFile)
    (result : Generation.emitConnectQueries tree services world = .ok paths after) :
    paths = (modules tree services).map Prod.fst ∧
      Written (modules tree services) world.tree after.tree := by
  have nested : ∀ entry ∈ modules tree services, ∃ above, entry.1.parent? = some above := by
    intro entry member
    rw [modules_eq] at member
    obtain ⟨name, listed, rfl⟩ := List.mem_map.mp member
    obtain ⟨above, up, _⟩ := parent?_file tree (definition_of_mem_files definitions listed)
    exact ⟨above, up⟩
  have meets : Job.Meets (fun start => start = world) (Generation.emitConnectQueries tree services)
      (fun paths after => paths = (modules tree services).map Prod.fst ∧
        Written (modules tree services) world.tree after.tree) (fun _ _ => True) := by
    unfold Generation.emitConnectQueries
    exact .bind _ (Job.forM_emit_written sound nested) fun _ => .pure fun _ written => ⟨rfl, written⟩
  have ended := meets.run world rfl
  rwa [result] at ended

theorem read_of_emitConnectQueries (sound : world.tree.Sound) (free : world.tree.LinkFree [])
    (definitions : ∀ service ∈ services, IsDefinition service.protoFile) (once : SpelledOnce services)
    (result : Generation.emitConnectQueries tree services world = .ok paths after)
    {entry : Path × String} (member : entry ∈ modules tree services) :
    after.tree.read entry.1 = .ok (Text.encode entry.2) := by
  obtain ⟨_, written⟩ := written_of_emitConnectQueries sound definitions result
  have free' := free.grows written.overlaid.grows
  refine written.read ?_ member
  intro first firstIn second secondIn same
  obtain ⟨_, entered⟩ := written.entered first firstIn
  obtain ⟨_, entered'⟩ := written.entered second secondIn
  rw [same] at entered
  rw [modules_eq] at firstIn secondIn
  obtain ⟨name, listed, rfl⟩ := List.mem_map.mp firstIn
  obtain ⟨other, listed', rfl⟩ := List.mem_map.mp secondIn
  obtain ⟨names, named, spelled⟩ :=
    exists_names_file tree (definition_of_mem_files definitions listed)
  obtain ⟨names', named', spelled'⟩ :=
    exists_names_file tree (definition_of_mem_files definitions listed')
  have places := (place_below free' spelled named entered).symm.trans
    (place_below free' spelled' named' entered')
  have alike : (file tree name).components = (file tree other).components := by
    rw [spelled, spelled', List.reverse_inj.mp (List.append_cancel_right places)]
  rw [List.inj_on_of_nodup_map ((nodup_components_iff tree definitions).mpr once) listed listed' alike]

end Emission

/-- Connect-query modules divide the services. There is one module for each definition file, in the order of
first mention; it imports the services of its file, in their order, and exports their methods; and put
together these are all the services. No module has the path of one that the compiler makes from any source.
Two modules have one path exactly where a definition file is spelled in two ways. When all are written, each
path leads to a place, and nothing but these modules, in this order, was written at these places; in a tree
without links, and if each definition file is spelled in one way, every path leads to its module. -/
theorem services_divided (tree : OutputTree) {services : List Service}
    (definitions : ∀ service ∈ services, IsDefinition service.protoFile) :
    ∃ files : List String, ∃ members : String → List Service,
      files = (services.map Service.protoFile).eraseDups ∧ files.Nodup ∧
      (∀ name, name ∈ files ↔ ∃ service ∈ services, service.protoFile = name) ∧
      modules tree services = files.map (fun name =>
        (file tree name, render (statements name (members name)))) ∧
      (∀ name ∈ files,
        (statements name (members name)).filterMap imported? =
          [((members name).map Service.name, "./" ++ protoStem name ++ "_connect.js")] ∧
        (statements name (members name)).filterMap constant? =
          (members name).flatMap fun service => service.methods.map fun method =>
            (exportName (members name) service method, descriptor service method)) ∧
      (files.flatMap members).Perm services ∧
      (∀ name ∈ files, members name ≠ [] ∧ (members name).Sublist services ∧
        ∀ service ∈ services, service ∈ members name ↔ service.protoFile = name) ∧
      ((files.map fun name => (file tree name).components).Nodup ↔ SpelledOnce services) ∧
      (∀ name ∈ files, ∀ source, ∀ suffix ∈ ["_pb", "_connect"], ∀ extension ∈ ["ts", "js", "d.ts"],
        (file tree name).components ≠
          (Path.mk ((generatedModule tree.connect source suffix).raw ++ .ofText ("." ++ extension))).components) ∧
      ∀ (world after : World) (paths : List Path), world.tree.Sound →
        Generation.emitConnectQueries tree services world = .ok paths after →
          paths = files.map (file tree) ∧ Written (modules tree services) world.tree after.tree ∧
          (SpelledOnce services → world.tree.LinkFree [] → ∀ entry ∈ modules tree services,
            after.tree.read entry.1 = .ok (Text.encode entry.2)) := by
  refine ⟨files services, members services, rfl, nodup_files services, fun _ => mem_files,
    modules_eq tree services, fun name _ => ⟨imports_statements _ _, constants_statements _ _⟩,
    perm_members services, ?_, nodup_components_iff tree definitions, ?_, ?_⟩
  · intro name listed
    refine ⟨?_, List.filter_sublist, ?_⟩
    · obtain ⟨service, among, same⟩ := mem_files.mp listed
      exact List.ne_nil_of_mem (List.mem_filter.mpr ⟨among, decide_eq_true same⟩)
    · intro service among
      simp [members, among]
  · intro name listed source suffix made extension script
    exact components_file_ne tree (definition_of_mem_files definitions listed) source made script
  · intro world after paths sound result
    obtain ⟨whole, written⟩ := written_of_emitConnectQueries sound definitions result
    refine ⟨?_, written, fun once free entry member =>
      read_of_emitConnectQueries sound free definitions once result member⟩
    rw [whole, modules_eq, List.map_map]
    rfl

def marketServices : List Service :=
  [⟨"Basket", "market.Basket", "market/v1.x_pb.proto", []⟩, ⟨"Clock", "Clock", "clock.proto", []⟩,
    ⟨"Till", "market.Till", "market/v1.x_pb.proto", []⟩]

def emptyTree : FileTree :=
  ⟨[], [], 0, [], []⟩

theorem marketServices_divided :
    (∀ service ∈ marketServices, IsDefinition service.protoFile) ∧
    ∃ after, Generation.emitConnectQueries ⟨⟨"/gen"⟩⟩ marketServices ⟨emptyTree, []⟩ =
        .ok [⟨"/gen/connect/market/v1.x_pb_connectquery.ts"⟩, ⟨"/gen/connect/clock_connectquery.ts"⟩] after ∧
      ∀ entry ∈ modules ⟨⟨"/gen"⟩⟩ marketServices,
        after.tree.read entry.1 = .ok (Text.encode entry.2) := by
  have definitions : ∀ service ∈ marketServices, IsDefinition service.protoFile := by decide
  have sound : emptyTree.Sound := by decide
  have free : emptyTree.LinkFree [] := .of_nodes (by simp [emptyTree]) []
  obtain ⟨paths, after, result⟩ : ∃ paths after,
      Generation.emitConnectQueries ⟨⟨"/gen"⟩⟩ marketServices ⟨emptyTree, []⟩ = .ok paths after := by
    have succeeds : (match Generation.emitConnectQueries ⟨⟨"/gen"⟩⟩ marketServices ⟨emptyTree, []⟩ with
        | .ok _ _ => true
        | .error _ _ => false) = true := by
      decide +kernel
    split at succeeds
    next paths after result => exact ⟨paths, after, result⟩
    next => cases succeeds
  obtain ⟨files, _, rfl, _, _, _, _, _, _, _, _, emission⟩ :=
    services_divided ⟨⟨"/gen"⟩⟩ definitions
  obtain ⟨whole, _, reads⟩ := emission ⟨emptyTree, []⟩ after paths sound result
  refine ⟨definitions, after, ?_, reads (by decide) free⟩
  rw [result, whole]
  exact congrArg (EStateM.Result.ok · after) (by decide +kernel)

def twiceSpelled : List Service :=
  [⟨"A", "A", "a/b.proto", []⟩, ⟨"B", "B", "a//b.proto", []⟩]

/-- One path is written twice, and only the module that was written last is there. -/
theorem twiceSpelled_overwritten :
    (∀ service ∈ twiceSpelled, IsDefinition service.protoFile) ∧
    (modules ⟨⟨"/gen"⟩⟩ twiceSpelled).map Prod.fst =
      [⟨"/gen/connect/a/b_connectquery.ts"⟩, ⟨"/gen/connect/a/b_connectquery.ts"⟩] ∧
    (match Generation.emitConnectQueries ⟨⟨"/gen"⟩⟩ twiceSpelled ⟨emptyTree, []⟩ with
      | .ok _ after => after.tree.read ⟨"/gen/connect/a/b_connectquery.ts"⟩
      | .error _ _ => .error .notFound) = .ok (Text.encode (code "a//b.proto" [twiceSpelled[1]])) := by
  decide +kernel

end TrpcRouters.ConnectQuery
