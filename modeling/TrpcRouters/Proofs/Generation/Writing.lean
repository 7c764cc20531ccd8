import TrpcRouters.Proofs.FileTree.Folder
import TrpcRouters.Proofs.Generation.Emitted
import TrpcRouters.Proofs.Generation.Scene

/-! What the stages behind the compiler's call leave if all of them end well: the files that the compiler
left, the declaration files among them adapted, and over them the files that are written stage by
stage. -/

namespace TrpcRouters
open FileTree

theorem Job.emit_overlaid {world : World} (sound : world.tree.Sound) {root path : Path}
    {rest : List RawString} {place : Place} (leads : world.tree.Leads [] root.names place)
    (free : world.tree.LinkFree place) (below : root.Below path rest) (content : String) :
    Job.Meets (fun start => start = world) (Job.emit path content)
      (fun _ after => Fits path ∧ Short rest ∧
        Overlaid (.single (rest.reverse ++ place) (Text.encode content)) world.tree after.tree)
      (fun _ _ => True) := by
  obtain ⟨above, up, _⟩ := below.parent
  refine .weaken (Job.emit_written sound up content) ?_
  rintro _ after ⟨middle, overlaid, written⟩
  obtain ⟨fits, short, late⟩ := Overlaid.of_write_below overlaid.sound (leads.grows overlaid.grows)
    (free.grows overlaid.grows) below written
  have whole := overlaid.trans late
  rw [Files.atop_empty] at whole
  exact ⟨fits, short, whole⟩

theorem FileTree.eq_of_read_child {tree : FileTree} {path : Path} {place : Place} {name : RawString}
    (some_ : path.isEmpty = false) (named : Path.IsName name)
    (leads : tree.Leads (tree.start path) path.names place) {content read : Bytes}
    (held : tree.file? (name :: place) = some content)
    (result : tree.read (path.child name) = .ok read) : read = content := by
  obtain ⟨stamp, executable, node⟩ := file?_eq_some_iff.mp held
  have plain : ∀ target, tree.node? (name :: place) ≠ some (.link target) := by
    intro target link
    rw [node] at link
    cases link
  have inside := leads.inside (proper_names path) named plain
  rw [node] at inside
  unfold FileTree.read entry at result
  cases reached : tree.resolve true (path.child name) with
  | error error => simp [reached] at result
  | ok target =>
    have followed := follow_of_resolveSteps reached
    rw [steps_child some_ named, start_child tree some_ named, inside] at followed
    split at followed
    · cases followed
    · cases followed
      rw [reached] at result
      cases result
      rfl

theorem Descriptor.FileSet.eq_of_load {tree : FileTree} {path : Path} {place : Place} {name : RawString}
    (some_ : path.isEmpty = false) (named : Path.IsName name)
    (leads : tree.Leads (tree.start path) path.names place) {content : Bytes}
    (held : tree.file? (name :: place) = some content) {set loaded : FileSet}
    (decoded : FileSet.decode content = .ok set)
    (result : FileSet.load tree (path.child name) = .ok loaded) : loaded = set := by
  unfold load at result
  cases read : tree.read (path.child name) with
  | error error => simp [read] at result
  | ok bytes =>
    rw [read] at result
    obtain rfl := eq_of_read_child some_ named leads held read
    simp only [ofBytes] at result
    rw [decoded] at result
    exact (Except.ok.inj (show Except.ok set = Except.ok loaded from result)).symm

namespace Generation.Scene
variable {scene : Scene} {done : List (Path × String)}

/-- The files that the stages leave so far. -/
structure Laid (scene : Scene) (done : List (Path × String)) (world : World) : Prop where
  overlaid : Overlaid ((laid scene.output.root scene.place done).atop
    (Declaration.adaptation scene.output.connect scene.connect scene.tree)) scene.tree world.tree
  fits : ∀ entry ∈ done, Fits entry.1 ∧ Short (entry.1.names.drop scene.output.root.names.length)

theorem say_laid (line : String) {failing : Failure → World → Prop} :
    Job.Meets (scene.Laid done) (Job.say line) (fun _ => scene.Laid done) failing :=
  Job.Meets.report fun _ laid => ⟨laid.overlaid, laid.fits⟩

variable {services : List Service} {rules : VerbRules} {content : Bytes} {set : Descriptor.FileSet}

theorem emit_laid (free : scene.tree.LinkFree scene.place) {stage : Stage} {path : Path}
    (target : stage.Target scene.output path) (content : String) :
    Job.Meets (scene.Laid done) (Job.emit path content) (fun _ => scene.Laid (done ++ [(path, content)]))
      (fun _ _ => True) := by
  obtain ⟨rest, _, below⟩ := target.below scene.tidy
  constructor
  intro world before
  have grows := before.overlaid.grows
  have emitted := (Job.emit_overlaid before.overlaid.sound (scene.leads.grows grows) (free.grows grows)
    below content).run world rfl
  cases result : Job.emit path content world with
  | error failure after => trivial
  | ok value after =>
    rw [result] at emitted
    obtain ⟨fits, short, overlaid⟩ := emitted
    refine ⟨?_, fun entry member => ?_⟩
    · rw [laid_concat, spot_eq below, Files.atop_assoc]
      exact before.overlaid.trans overlaid
    · rcases List.mem_append.mp member with earlier | here
      · exact before.fits entry earlier
      · rw [List.mem_singleton.mp here]
        refine ⟨fits, ?_⟩
        rw [below.names, List.drop_left]
        exact short

theorem adapt_laid (fits : Fits scene.output.connect) :
    Job.Meets (fun world => world.tree = scene.tree ∧ scene.tree.Sound)
      (adaptDeclarations scene.output.connect)
      (fun _ world => scene.Laid [] world ∧ ∀ place,
        Declaration.Reaches scene.tree.closed scene.output.connect scene.connect place →
          ∀ content, scene.tree.file? place = some content → (Declaration.rewritten? content).isSome = true)
      (fun _ _ => True) := by
  have below := scene.connect_below
  have entered := entry_of_fits fits below.tidy below.ends scene.connectLeads
  unfold adaptDeclarations
  refine .bind (fun result world => scene.tree.Sound ∧
    Declaration.pass scene.output.connect scene.tree = (world.tree, result)) (.change ?_) fun result => ?_
  · rintro world ⟨same, sound⟩
    exact ⟨sound, by rw [same]⟩
  · refine .ofExcept (fun changed found world => ?_) fun _ _ _ _ => trivial
    rintro ⟨sound, passed⟩
    rw [found] at passed
    obtain ⟨overlaid, texts⟩ := Declaration.overlaid_pass sound entered passed
    exact ⟨⟨overlaid, by simp⟩, texts⟩

theorem load_laid (held : scene.tree.file? (.ofText "descriptors.binpb" :: scene.opened) = some content)
    (decoded : Descriptor.FileSet.decode content = .ok set) (requested : List String) :
    Job.Meets (scene.Laid []) (loadServices (scene.scratch.child "descriptors.binpb") requested)
      (fun services world => scene.Laid [] world ∧ services = set.services requested)
      (fun _ _ => True) := by
  unfold loadServices
  refine .bind _ .ask fun loaded => ?_
  refine .bind (fun found world => scene.Laid [] world ∧ found = set) (.ofExcept ?_ fun _ _ _ _ => trivial)
    fun found => ?_
  · rintro found result world ⟨before, whole⟩
    refine ⟨before, ?_⟩
    rw [result] at whole
    have grows := before.overlaid.grows
    have leads := scene.scratchLeads.grows grows
    rw [← grows.alike.start] at leads
    have there : world.tree.file? (.ofText "descriptors.binpb" :: scene.opened) = some content := by
      rw [before.overlaid.file?, held]
      have away : ¬Declaration.Reaches scene.tree.closed scene.output.connect scene.connect
          (.ofText "descriptors.binpb" :: scene.opened) := by
        rintro ⟨⟨declaration, _⟩, _⟩
        revert declaration
        decide
      simp [Files.atop, laid, Files.ofList, Declaration.adaptation, away]
    exact Descriptor.FileSet.eq_of_load scene.scratchSome (by decide) leads there decoded whole.symm
  · refine .bind (fun _ world => scene.Laid [] world ∧ found = set) (.forM fun name _ => .report ?_)
      fun _ => .pure ?_
    · rintro world ⟨before, same⟩
      exact ⟨⟨before.overlaid, before.fits⟩, same⟩
    · rintro world ⟨before, same⟩
      exact ⟨before, by rw [same]⟩

theorem forM_laid (free : scene.tree.LinkFree scene.place) {stage : Stage} {α : Type}
    (elements : List α) (entry : α → Path × String) (done : List (Path × String))
    (target : ∀ element ∈ elements, stage.Target scene.output (entry element).1) :
    Job.Meets (scene.Laid done) (elements.forM fun element => Job.emit (entry element).1 (entry element).2)
      (fun _ => scene.Laid (done ++ elements.map entry)) (fun _ _ => True) := by
  induction elements generalizing done with
  | nil => exact .pure fun _ held => by rwa [List.map_nil, List.append_nil]
  | cons first rest ih =>
    rw [List.forM]
    refine .bind _ (emit_laid free (target first (List.mem_cons_self ..)) _) fun _ => ?_
    have later := ih (done ++ [entry first]) fun element member =>
      target element (List.mem_cons_of_mem _ member)
    rwa [List.append_assoc] at later

theorem connectQueries_laid (free : scene.tree.LinkFree scene.place) (placeable : Placeable services)
    (done : List (Path × String)) :
    Job.Meets (scene.Laid done) (emitConnectQueries scene.output services)
      (fun _ => scene.Laid (done ++ ConnectQuery.modules scene.output services)) (fun _ _ => True) := by
  have written := forM_laid free _ id done fun entry member => target_of_mem_modules placeable member
  rw [List.map_id] at written
  exact .bind _ written fun _ => .pure fun _ held => held

theorem distinct_laid (services : List Service) (done : List (Path × String)) :
    Job.Meets (scene.Laid done) (requireDistinct services)
      (fun _ world => scene.Laid done world ∧ Aggregate.duplicate? services = none)
      (fun _ _ => True) := by
  unfold requireDistinct
  cases Aggregate.duplicate? services with
  | none => exact .pure fun _ held => ⟨held, rfl⟩
  | some duplicate => exact .throw fun _ _ => trivial

theorem routers_laid (free : scene.tree.LinkFree scene.place) (placeable : Placeable services)
    (rules : VerbRules) (done : List (Path × String)) :
    Job.Meets (scene.Laid done) (emitRouters scene.output rules services)
      (fun written world =>
        scene.Laid (done ++ services.map (routerEntry scene.output rules)) world ∧
        written = services.map fun service => Aggregate.writtenRouter scene.output service.name)
      (fun _ _ => True) := by
  have target : ∀ service ∈ services,
      Stage.routers.Target scene.output (routerEntry scene.output rules service).1 := by
    intro service member
    rw [fst_routerEntry]
    exact .router (placeable service member).1
  have written := forM_laid free services (routerEntry scene.output rules) done target
  have body : (fun service => Job.emit (routerEntry scene.output rules service).1
      (routerEntry scene.output rules service).2) = fun service =>
        Job.emit (RouterPlan.ofService scene.output rules service).file
          (RouterPlan.ofService scene.output rules service).code := by
    funext service
    rw [routerEntry]
  rw [body] at written
  unfold emitRouters
  refine .bind _ (distinct_laid services done) fun _ => .assume fun _ => ?_
  exact .bind _ written fun _ => .pure fun _ held => ⟨held, rfl⟩

theorem routerTree_laid (free : scene.tree.LinkFree scene.place) (placeable : Placeable services)
    (rules : VerbRules) (done : List (Path × String)) :
    Job.Meets (scene.Laid done) (emitRouterTree scene.output rules services)
      (fun _ world => scene.Laid (done ++
          [Stage.factory, .routers, .aggregate, .index].flatMap
            (Stage.entries scene.output rules services)) world ∧
        Aggregate.duplicate? services = none)
      (fun _ _ => True) := by
  unfold emitRouterTree
  refine .bind _ (distinct_laid services done) fun _ => .assume fun distinct => ?_
  refine .bind _ (say_laid _) fun _ => ?_
  refine .bind _ (emit_laid free .factory _) fun _ => ?_
  refine .bind _ (say_laid _) fun _ => ?_
  refine .bind _ (routers_laid free placeable rules _) fun routers => .assume fun written => ?_
  subst written
  refine .bind _ (say_laid _) fun _ => ?_
  refine .bind _ (emit_laid free .aggregate _) fun _ => ?_
  refine .bind _ (say_laid _) fun _ => ?_
  refine .weaken (emit_laid free .index _) fun _ world held => ⟨?_, distinct⟩
  have stages : [Stage.factory, .routers, .aggregate, .index].flatMap
      (Stage.entries scene.output rules services) =
        Stage.entries scene.output rules services .factory ++
          (services.map (routerEntry scene.output rules) ++
            (Stage.entries scene.output rules services .aggregate ++
              Stage.entries scene.output rules services .index)) := by
    simp [Stage.entries]
  rw [stages, ← List.append_assoc, ← List.append_assoc, ← List.append_assoc]
  exact held

/-- The stages leave the files of the compiler, the declaration files adapted, and what they write for the
services of the requested files. -/
theorem emitAll_laid (free : scene.tree.LinkFree scene.place) (fits : Fits scene.output.connect)
    (held : scene.tree.file? (.ofText "descriptors.binpb" :: scene.opened) = some content)
    (decoded : Descriptor.FileSet.decode content = .ok set) {options : Options}
    (full : options.connectOnly = false) {files : List Path}
    (placeable : Placeable (set.services (Discovery.namesBelow scene.protoRoot files))) :
    Job.Meets (fun world => world.tree = scene.tree ∧ scene.tree.Sound)
      (emitAll options scene.protoRoot scene.output files (scene.scratch.child "descriptors.binpb"))
      (fun _ world =>
        scene.Laid (emitted scene.output options.rules
          (set.services (Discovery.namesBelow scene.protoRoot files))) world ∧
        Aggregate.duplicate? (set.services (Discovery.namesBelow scene.protoRoot files)) = none ∧
        ∀ place, Declaration.Reaches scene.tree.closed scene.output.connect scene.connect place → ∀ content,
          scene.tree.file? place = some content → (Declaration.rewritten? content).isSome = true)
      (fun _ _ => True) := by
  unfold emitAll
  have start : Job.Meets (fun world => world.tree = scene.tree ∧ scene.tree.Sound)
      (Job.say "Post-processing protobuf declaration files...")
      (fun _ world => world.tree = scene.tree ∧ scene.tree.Sound) (fun _ _ => True) :=
    .report fun _ held => held
  refine .bind _ start fun _ => ?_
  refine .bind _ (adapt_laid fits) fun _ => .assume fun texts => ?_
  refine .bind _ (say_laid _) fun _ => ?_
  refine .bind _ (load_laid held decoded _) fun services => .assume fun loaded => ?_
  subst loaded
  refine .bind _ (say_laid _) fun _ => ?_
  refine .bind _ (connectQueries_laid free placeable _) fun _ => ?_
  rw [full, if_neg Bool.false_ne_true]
  refine .bind _ (routerTree_laid free placeable options.rules _) fun _ => .assume fun distinct => ?_
  refine .bind _ (say_laid _) fun _ => ?_
  refine .bind _ (emit_laid free .marker _) fun _ => ?_
  refine .weaken (say_laid _) fun _ world held => ⟨?_, distinct, texts⟩
  simpa [emitted, Stage.all, Stage.entries] using held

end Generation.Scene

end TrpcRouters
