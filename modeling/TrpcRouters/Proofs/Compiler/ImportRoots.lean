import TrpcRouters.Proofs.Compiler.Arguments
import TrpcRouters.Proofs.FileTree.Spelling
import TrpcRouters.Proofs.FileTree.Visit
import TrpcRouters.Proofs.Generation.Call
import TrpcRouters.Proofs.Path.Order

/-! The import roots that the compiler is called with. A candidate is compared as it is written with the
absolute first root and with the candidates kept before it, so one directory is passed as often as it is
spelled differently. -/

namespace TrpcRouters

namespace FileTree
variable {tree : FileTree}

def denoted (tree : FileTree) (path : Path) : Except SystemError (List Component) :=
  (tree.absolute path).map Path.components

theorem isAbsolute_pathOf (place : Place) : (pathOf place).isAbsolute = true := by
  cases shape : place.reverse with
  | nil =>
    rw [List.reverse_eq_nil_iff.mp shape]
    rfl
  | cons first rest =>
    have some_ : place ≠ [] := by
      rintro rfl
      cases shape
    simp [pathOf, some_, shape, Path.isAbsolute]

theorem isAbsolute_absolute {path whole : Path} (found : tree.absolute path = .ok whole) :
    whole.isAbsolute = true := by
  have home := Path.isAbsolute_iff_root_mem.mp (isAbsolute_pathOf tree.workingDirectory)
  rw [Path.isAbsolute_iff_root_mem, Path.components_of_absolute? (absolute?_of_absolute found)]
  split
  · exact List.mem_cons_self ..
  · exact List.mem_append_left _ home

theorem denoted_congr {first second : Path} (some_ : first.isEmpty = false)
    (some' : second.isEmpty = false) (same : first.components = second.components) :
    tree.denoted first = tree.denoted second := by
  obtain ⟨whole, found⟩ := exists_absolute tree some_
  obtain ⟨whole', found'⟩ := exists_absolute tree some'
  rw [denoted, denoted, found, found', Except.map, Except.map,
    components_absolute_congr found' found same]

theorem denoted_of_isAbsolute {path : Path} (absolute_ : path.isAbsolute = true) :
    tree.denoted path = .ok path.components := by
  obtain ⟨whole, found⟩ := exists_absolute tree (Path.isEmpty_of_isAbsolute absolute_)
  rw [denoted, found, Except.map,
    Path.components_absolute? absolute_ (absolute?_of_absolute found)]

theorem isEmpty_of_isDirectory {path : Path} (directory : tree.isDirectory path = true) :
    path.isEmpty = false := by
  obtain ⟨place, entered⟩ := entry_of_isDirectory directory
  exact isEmpty_of_entry entered

end FileTree

/-- Where a list has a representative of every element, up to a fine key, and one only, it has one only up
to a coarser key exactly if the elements that share the coarser key share the fine one. -/
theorem nodup_map_iff {α β γ : Type} {fine : α → β} {coarse : α → γ} {kept all : List α}
    (factors : ∀ x ∈ all, ∀ y ∈ all, fine x = fine y → coarse x = coarse y)
    (part : ∀ x ∈ kept, x ∈ all) (distinct : (kept.map fine).Nodup)
    (complete : ∀ x ∈ all, ∃ y ∈ kept, fine x = fine y) :
    (kept.map coarse).Nodup ↔ ∀ x ∈ all, ∀ y ∈ all, coarse x = coarse y → fine x = fine y := by
  constructor
  · intro apart x xIn y yIn same
    obtain ⟨v, vIn, vSame⟩ := complete x xIn
    obtain ⟨w, wIn, wSame⟩ := complete y yIn
    have alike : coarse v = coarse w :=
      (factors x xIn v (part v vIn) vSame).symm.trans (same.trans (factors y yIn w (part w wIn) wSame))
    rw [vSame, wSame, List.inj_on_of_nodup_map apart vIn wIn alike]
  · intro fine_
    refine (List.Nodup.of_map fine distinct).map_on fun v vIn w wIn same => ?_
    exact List.inj_on_of_nodup_map distinct vIn wIn (fine_ v (part v vIn) w (part w wIn) same)

namespace CompilerConfig
variable {tree : FileTree} {primary : Path} {kept : List Path}

theorem skipped_iff {candidate : Path} :
    (candidate.same primary || kept.any candidate.same || !tree.isDirectory candidate) = true ↔
      candidate.components = primary.components ∨
        (∃ root ∈ kept, candidate.components = root.components) ∨
          tree.isDirectory candidate = false := by
  simp [Path.same, or_assoc]

theorem keepNew_append (front back : List Path) :
    keepNew tree primary kept (front ++ back) =
      keepNew tree primary (keepNew tree primary kept front) back := by
  induction front generalizing kept with
  | nil => rfl
  | cons candidate rest ih =>
    rw [List.cons_append, keepNew, keepNew]
    split <;> exact ih

theorem keepNew_extends (tree : FileTree) (primary : Path) (kept candidates : List Path) :
    ∃ added, keepNew tree primary kept candidates = kept ++ added ∧ added.Sublist candidates := by
  induction candidates generalizing kept with
  | nil => exact ⟨[], (List.append_nil _).symm, .slnil⟩
  | cons candidate rest ih =>
    rw [keepNew]
    split
    · obtain ⟨added, whole, part⟩ := ih kept
      exact ⟨added, whole, part.cons _⟩
    · obtain ⟨added, whole, part⟩ := ih (kept ++ [candidate])
      exact ⟨candidate :: added, by rw [whole, List.append_assoc]; rfl, part.cons_cons _⟩

/-- Some of the candidates, in their order: directories, none spelled like the first root or like another of
them, and one for the spelling of every directory. -/
structure Chosen (tree : FileTree) (primary : Path) (candidates roots : List Path) : Prop where
  part : roots.Sublist candidates
  directory : ∀ root ∈ roots, tree.isDirectory root = true
  distinct : ((primary :: roots).map Path.components).Nodup
  complete : ∀ candidate ∈ candidates, tree.isDirectory candidate = true →
    ∃ root ∈ primary :: roots, candidate.components = root.components

theorem chosen_keepNew (tree : FileTree) (primary : Path) (candidates : List Path) :
    Chosen tree primary candidates (keepNew tree primary [] candidates) := by
  induction candidates using List.reverseRecOn with
  | nil => exact ⟨.slnil, by simp [keepNew], by simp [keepNew], by simp⟩
  | append_singleton front last ih =>
    rw [keepNew_append, keepNew, keepNew, keepNew]
    split
    next skipped =>
      refine ⟨ih.part.trans (List.sublist_append_left ..), ih.directory, ih.distinct, ?_⟩
      intro candidate member held
      rcases List.mem_append.mp member with before | here
      · exact ih.complete candidate before held
      · rw [List.mem_singleton.mp here] at held ⊢
        rcases skipped_iff.mp skipped with same | ⟨root, inside, same⟩ | absent
        · exact ⟨primary, List.mem_cons_self .., same⟩
        · exact ⟨root, List.mem_cons_of_mem _ inside, same⟩
        · rw [held] at absent
          cases absent
    next kept =>
      rw [skipped_iff, not_or, not_or] at kept
      obtain ⟨other, unlike, held⟩ := kept
      refine ⟨ih.part.append (List.Sublist.refl _), ?_, ?_, ?_⟩
      · intro root member
        rcases List.mem_append.mp member with before | here
        · exact ih.directory root before
        · rw [List.mem_singleton.mp here]
          simpa using held
      · rw [← List.cons_append, List.map_append, List.nodup_append]
        refine ⟨ih.distinct, List.nodup_singleton _, ?_⟩
        rintro spelled member _ here rfl
        obtain rfl := List.mem_singleton.mp here
        obtain ⟨root, inside, same⟩ := List.mem_map.mp member
        rcases List.mem_cons.mp inside with rfl | before
        · exact other same.symm
        · exact unlike ⟨root, before, same.symm⟩
      · intro candidate member isDirectory
        rcases List.mem_append.mp member with before | here
        · obtain ⟨root, inside, same⟩ := ih.complete candidate before isDirectory
          refine ⟨root, ?_, same⟩
          rw [← List.cons_append]
          exact List.mem_append_left _ inside
        · exact ⟨last, by simp, by rw [List.mem_singleton.mp here]⟩

theorem keepNew_first {front back : List Path} {candidate : Path}
    (held : tree.isDirectory candidate = true) (other : candidate.components ≠ primary.components)
    (new : ∀ earlier ∈ front, tree.isDirectory earlier = true →
      candidate.components ≠ earlier.components) :
    ∃ before after, keepNew tree primary [] (front ++ candidate :: back) = before ++ candidate :: after ∧
      before.Sublist front ∧ after.Sublist back := by
  have chosen := chosen_keepNew tree primary front
  have taken : ¬(candidate.same primary || (keepNew tree primary [] front).any candidate.same ||
      !tree.isDirectory candidate) = true := by
    rw [skipped_iff, not_or, not_or]
    refine ⟨other, ?_, by simp [held]⟩
    rintro ⟨root, inside, same⟩
    exact new root (chosen.part.subset inside) (chosen.directory root inside) same
  obtain ⟨after, whole, part⟩ := keepNew_extends tree primary
    (keepNew tree primary [] front ++ [candidate]) back
  refine ⟨keepNew tree primary [] front, after, ?_, chosen.part, part⟩
  rw [keepNew_append, keepNew, if_neg taken, whole, List.append_assoc]
  rfl

/-- One path is never passed twice exactly if the first root and the candidates that exist spell no path in
two ways. -/
theorem Chosen.nodup_denoted_iff {candidates roots : List Path}
    (chosen : Chosen tree primary candidates roots) (absolute : primary.isAbsolute = true) :
    ((primary :: roots).map tree.denoted).Nodup ↔
      ∀ x ∈ primary :: candidates.filter tree.isDirectory,
        ∀ y ∈ primary :: candidates.filter tree.isDirectory,
          tree.denoted x = tree.denoted y → x.components = y.components := by
  have some_ : ∀ x ∈ primary :: candidates.filter tree.isDirectory, x.isEmpty = false := by
    intro x member
    rcases List.mem_cons.mp member with rfl | further
    · exact Path.isEmpty_of_isAbsolute absolute
    · exact FileTree.isEmpty_of_isDirectory (List.mem_filter.mp further).2
  refine nodup_map_iff (fun x xIn y yIn => FileTree.denoted_congr (some_ x xIn) (some_ y yIn)) ?_
    chosen.distinct ?_
  · intro x member
    rcases List.mem_cons.mp member with rfl | further
    · exact List.mem_cons_self ..
    · exact List.mem_cons_of_mem _
        (List.mem_filter.mpr ⟨chosen.part.subset further, chosen.directory x further⟩)
  · intro x member
    rcases List.mem_cons.mp member with rfl | further
    · exact ⟨x, List.mem_cons_self .., rfl⟩
    · obtain ⟨listed, held⟩ := List.mem_filter.mp further
      exact chosen.complete x listed held

def installed (tree : FileTree) (modules : Path) : List RawString :=
  (tree.list (releases modules)).toOption.getD []

theorem dependencyRoots_eq (tree : FileTree) (modules : Path) :
    dependencyRoots tree modules = modules.child "google-proto-files" ::
      (installed tree modules).map fun release => ((releases modules).child release).child "include" := by
  rw [dependencyRoots, installed]
  cases tree.list (releases modules) <;> rfl

theorem mem_installed_iff {modules : Path} {name : RawString} :
    name ∈ installed tree modules ↔ ∃ place node,
      tree.entry true (releases modules) = .ok (place, .directory) ∧ place ∉ tree.closed ∧
        tree.node? (name :: place) = some node := by
  unfold installed FileTree.list
  rcases entered : tree.entry true (releases modules) with error | ⟨place, node⟩
  · simp [Except.toOption]
  cases node with
  | directory =>
    by_cases shut : place ∈ tree.closed
    · simp [shut, Except.toOption]
    · simp [shut, Except.toOption, FileTree.mem_names_iff]
  | file content stamp executable => simp [Except.toOption]
  | link target => simp [Except.toOption]

theorem increasing_installed (tree : FileTree) (modules : Path) :
    (installed tree modules).Pairwise (· < ·) := by
  unfold installed FileTree.list
  rcases tree.entry true (releases modules) with error | ⟨place, node⟩
  · exact .nil
  cases node with
  | directory =>
    by_cases shut : place ∈ tree.closed
    · simp [shut, Except.toOption]
    · simp only [if_neg shut]
      exact Text.increasing_sortedSet _
  | file content stamp executable => exact .nil
  | link target => exact .nil

end CompilerConfig

namespace Compiler

theorem of_prepared {config : CompilerConfig} {request : CompileRequest} {tree made : FileTree}
    {command : Command} (result : prepared config request tree = (made, .ok command)) :
    ∃ output primary, tree.makeDirectories request.output = (made, none) ∧
      made.absolute request.protoRoot = .ok primary ∧
      command = Compiler.command config made { request with output, protoRoot := primary } := by
  unfold prepared at result
  rcases first : tree.makeDirectories request.output with ⟨after, _ | error⟩
  · rw [first] at result
    simp only at result
    split at result
    · cases result
    next output outputFound =>
      split at result
      · cases result
      next primary found =>
        cases result
        exact ⟨output, primary, rfl, found, rfl⟩
  · rw [first] at result
    cases result

def callsAfter : Job.Outcome → List Command
  | .ok _ world | .error _ world => world.calls

theorem prepared_of_mem_calls {executor : Executor} {config : CompilerConfig} {request : CompileRequest}
    {tree : FileTree} {command : Command}
    (called : command ∈ callsAfter (run executor config request ⟨tree, []⟩)) :
    ∃ made, prepared config request tree = (made, .ok command) := by
  cases some_ : request.protoFiles.isEmpty with
  | true =>
    rw [run, some_, if_pos rfl] at called
    cases called
  | false =>
    rw [run_eq executor config some_] at called
    rcases prepares : prepared config request tree with ⟨made, failure | other⟩
    · simp only [prepares] at called
      cases called
    · simp only [prepares] at called
      have same : command ∈ [other] := by
        rcases answer : executor other made with ⟨after, error | finished⟩
        · simp only [answer, answered] at called
          exact called
        · simp only [answer, answered] at called
          split at called <;> exact called
      rw [List.mem_singleton.mp same]
      exact ⟨made, rfl⟩

/-- The import roots of a command that is carried out: the absolute first root, and of the candidates those
that are directories, each where it first occurs, unless it is spelled like the first root. The candidates
are the roots of the configuration, the one beside the bundled programs, and those of the dependencies with
the releases in increasing order. No two roots have the same components; that no two lead back to one path
when they are made absolute takes that the first root and the existing candidates spell no path in two ways,
as when all candidates are absolute. -/
theorem roots_of_called {executor : Executor} {config : CompilerConfig} {request : CompileRequest}
    {tree : FileTree} {command : Command}
    (called : command ∈ callsAfter (run executor config request ⟨tree, []⟩)) :
    ∃ made primary roots options, tree.makeDirectories request.output = (made, none) ∧
      made.absolute request.protoRoot = .ok primary ∧ primary.isAbsolute = true ∧
      command.arguments = options ++ request.protoFiles.map Path.text ∧
      optionValues "--proto_path=" options = (primary :: roots).map Path.text ∧
      (∃ bundled bundles, config.candidateRoots made = config.includes ++ bundled ++ bundles ∧
        bundled = ((config.bundled.bind Path.parent?).map fun above => above.child "include").toList ∧
        (config.dependencies.bind Path.parent? = none → bundles = []) ∧
        ∀ modules, config.dependencies.bind Path.parent? = some modules →
          ∃ names : List RawString, names.Pairwise (· < ·) ∧
            (∀ name, name ∈ names ↔ ∃ place node,
              made.entry true (CompilerConfig.releases modules) = .ok (place, .directory) ∧
                place ∉ made.closed ∧ made.node? (name :: place) = some node) ∧
            bundles = modules.child "google-proto-files" :: names.map fun name =>
              ((CompilerConfig.releases modules).child name).child "include") ∧
      roots.Sublist (config.candidateRoots made) ∧
      (∀ root ∈ roots, made.isDirectory root = true) ∧
      (∀ front candidate back, config.candidateRoots made = front ++ candidate :: back →
        made.isDirectory candidate = true → candidate.components ≠ primary.components →
        (∀ earlier ∈ front, made.isDirectory earlier = true →
          candidate.components ≠ earlier.components) →
        ∃ before after, roots = before ++ candidate :: after ∧ before.Sublist front ∧
          after.Sublist back) ∧
      ((primary :: roots).map Path.components).Nodup ∧
      (((primary :: roots).map made.denoted).Nodup ↔
        ∀ x ∈ primary :: (config.candidateRoots made).filter made.isDirectory,
          ∀ y ∈ primary :: (config.candidateRoots made).filter made.isDirectory,
            made.denoted x = made.denoted y → x.components = y.components) ∧
      ((∀ candidate ∈ config.candidateRoots made, made.isDirectory candidate = true →
        candidate.isAbsolute = true) → ((primary :: roots).map made.denoted).Nodup) := by
  obtain ⟨made, prepares⟩ := prepared_of_mem_calls called
  obtain ⟨output, primary, makes, found, rfl⟩ := of_prepared prepares
  have absolute := FileTree.isAbsolute_absolute found
  have chosen := CompilerConfig.chosen_keepNew made primary (config.candidateRoots made)
  have exact_ := chosen.nodup_denoted_iff absolute
  refine ⟨made, primary, config.importRoots made primary, _, makes, found, absolute,
    CompileRequest.arguments_eq _ _, CompileRequest.roots_of_options _ _, ?_, chosen.part,
    chosen.directory, ?_, chosen.distinct, exact_, fun rooted => exact_.mpr ?_⟩
  · refine ⟨_, _, rfl, rfl, ?_, ?_⟩
    · intro absent
      rw [absent]
    · intro modules above
      rw [above]
      exact ⟨_, CompilerConfig.increasing_installed made modules,
        fun _ => CompilerConfig.mem_installed_iff, CompilerConfig.dependencyRoots_eq made modules⟩
  · intro front candidate back shape held other new
    rw [CompilerConfig.importRoots, shape]
    exact CompilerConfig.keepNew_first held other new
  · have rooted' : ∀ x ∈ primary :: (config.candidateRoots made).filter made.isDirectory,
        x.isAbsolute = true := by
      intro x member
      rcases List.mem_cons.mp member with rfl | further
      · exact absolute
      · obtain ⟨listed, held⟩ := List.mem_filter.mp further
        exact rooted x listed held
    intro x xIn y yIn same
    rw [FileTree.denoted_of_isAbsolute (rooted' x xIn), FileTree.denoted_of_isAbsolute (rooted' y yIn)] at same
    exact Except.ok.inj same

def libraryTree : FileTree where
  nodes := [(["workspace"], .directory), (["proto", "workspace"], .directory),
    (["a.proto", "proto", "workspace"], .file [] 1 false), (["lib", "workspace"], .directory)]
  workingDirectory := ["workspace"]
  clock := 1

def accepting : Executor := fun _ tree => (tree, .ok ⟨.exited 0, [], []⟩)

def libraryRequest : CompileRequest :=
  ⟨[⟨"/workspace/proto/a.proto"⟩], ⟨"gen"⟩, ⟨"proto"⟩, none⟩

def libraryCall (roots : List String) : Command :=
  ⟨⟨"protoc"⟩, ["--connect-es_out=/workspace/gen", "--es_out=/workspace/gen",
    "--proto_path=/workspace/proto"] ++ roots.map ("--proto_path=" ++ ·) ++
    ["--experimental_allow_proto3_optional", "/workspace/proto/a.proto"], none⟩

theorem libraryCall_roots_distinct :
    libraryCall ["/workspace/lib"] ∈ callsAfter (run accepting
      { CompilerConfig.none with
        includes := [⟨"/workspace//proto/"⟩, ⟨"/workspace/lib"⟩, ⟨"/none"⟩, ⟨"/workspace/lib/."⟩] }
      libraryRequest ⟨libraryTree, []⟩) ∧
    ∃ made primary roots options, (libraryTree.makeDirectories ⟨"gen"⟩) = (made, none) ∧
      (libraryCall ["/workspace/lib"]).arguments = options ++ ["/workspace/proto/a.proto"] ∧
      optionValues "--proto_path=" options = (primary :: roots).map Path.text ∧
      ((primary :: roots).map made.denoted).Nodup := by
  have called : libraryCall ["/workspace/lib"] ∈ callsAfter (run accepting
      { CompilerConfig.none with
        includes := [⟨"/workspace//proto/"⟩, ⟨"/workspace/lib"⟩, ⟨"/none"⟩, ⟨"/workspace/lib/."⟩] }
      libraryRequest ⟨libraryTree, []⟩) := by
    decide +kernel
  obtain ⟨made, primary, roots, options, makes, _, _, whole, values, _, _, _, _, _, _, distinct⟩ :=
    roots_of_called called
  refine ⟨called, made, primary, roots, options, makes, whole, values, distinct ?_⟩
  intro candidate member _
  change candidate ∈ [_, _, _, _] at member
  simp only [List.mem_cons, List.not_mem_nil, or_false] at member
  rcases member with rfl | rfl | rfl | rfl <;> decide

/-- The first root given again as it was typed is passed again. -/
theorem libraryCall_root_repeated :
    libraryCall ["proto"] ∈ callsAfter (run accepting
      { CompilerConfig.none with includes := [⟨"proto"⟩] } libraryRequest ⟨libraryTree, []⟩) ∧
    libraryTree.denoted ⟨"proto"⟩ = libraryTree.denoted ⟨"/workspace/proto"⟩ := by
  decide +kernel

end Compiler

end TrpcRouters
