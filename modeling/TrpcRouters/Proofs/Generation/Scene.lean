import TrpcRouters.Proofs.FileTree.Scratch
import TrpcRouters.Proofs.Generation.Stages

/-! The stages behind the compiler's call. Each begins with its line and touches only places of its own,
so the tree differs from the one that the compiler left only where stages have been that have begun. -/

namespace TrpcRouters.Generation
open FileTree

/-- What the stages behind the compiler's call start from. -/
structure Scene where
  connectOnly : Bool
  protoRoot : Path
  output : OutputTree
  scratch : Path
  command : Command
  /-- What the compiler left. -/
  tree : FileTree
  /-- Where the output root leads. -/
  place : Place
  /-- Where the compiler's output directory is. -/
  connect : Place
  /-- Where the scratch directory is. -/
  opened : Place
  tidy : output.root.Tidy
  leads : tree.Leads [] output.root.names place
  connectLeads : tree.Leads [] output.connect.names connect
  scratchLeads : tree.Leads (tree.start scratch) scratch.names opened
  scratchSome : scratch.isEmpty = false
  plain : ∀ target, tree.node? (.ofText "descriptors.binpb" :: opened) ≠ some (.link target)
  named : ∀ set, Descriptor.FileSet.load tree (scratch.child "descriptors.binpb") = .ok set →
    ∀ file ∈ set, ∀ service ∈ file.services, '/' ∉ (service.name.getD "").toList

namespace Scene
variable {scene : Scene}

theorem connect_below (scene : Scene) : scene.output.root.Below scene.output.connect ["connect"] :=
  .start scene.tidy (by decide)

theorem connect_eq (scene : Scene) (free : scene.tree.LinkFree scene.place) :
    scene.connect = .ofText "connect" :: scene.place :=
  scene.leads.below free scene.connect_below scene.connectLeads

/-- What holds in a stage of a world that grew from what the compiler left. -/
structure Kept (scene : Scene) (stage : Stage) (world : World) : Prop where
  calls : world.calls = [scene.command]
  grows : Grows scene.tree world.tree
  sound : world.tree.Sound
  place : scene.tree.LinkFree scene.place → ∀ other,
    world.tree.node? other = scene.tree.node? other ∨
      ∃ earlier names, earlier ≤ stage ∧ earlier.Touches names ∧
        other = names.reverse ++ scene.place
  descriptor : stage ≤ .loading → world.tree.node? (.ofText "descriptors.binpb" :: scene.opened) =
    scene.tree.node? (.ofText "descriptors.binpb" :: scene.opened)

/-- A stage has begun, and its line is the last one reported. -/
structure Reached (scene : Scene) (stage : Stage) (world : World) : Prop extends
    Kept scene stage world where
  lines : world.lines = stage.heard scene.connectOnly scene.protoRoot

def Failed (scene : Scene) (failure : Failure) (world : World) : Prop :=
  ∃ stage, .compilation ≤ stage ∧ scene.Reached stage world ∧ stage.Raises scene.output failure

theorem Kept.later {earlier later : Stage} {world : World} (kept : scene.Kept earlier world)
    (order : earlier ≤ later) : scene.Kept later world where
  calls := kept.calls
  grows := kept.grows
  sound := kept.sound
  place free other := by
    refine (kept.place free other).imp_right ?_
    rintro ⟨stage, names, before, rest⟩
    exact ⟨stage, names, Nat.le_trans before order, rest⟩
  descriptor early := kept.descriptor (Nat.le_trans order early)

theorem Kept.report {stage : Stage} {world : World} (kept : scene.Kept stage world) {event : Event}
    (quiet : event.command? = none) :
    scene.Kept stage { world with log := world.log ++ [event] } where
  calls := by
    have calls := kept.calls
    unfold World.calls at calls ⊢
    rw [List.filterMap_append, calls]
    simp [quiet]
  grows := kept.grows
  sound := kept.sound
  place := kept.place
  descriptor := kept.descriptor

theorem lines_report (world : World) (event : Event) :
    World.lines { world with log := world.log ++ [event] } = world.lines ++ event.line?.toList := by
  rw [World.lines, List.filterMap_append]
  cases line : event.line? <;> simp [World.lines, line]

theorem Reached.said {earlier : Stage} {world : World} (reached : scene.Reached earlier world)
    (later : Stage) {line : String} (next : later.rank = earlier.rank + 1)
    (only : later.lines scene.connectOnly scene.protoRoot = [line]) :
    scene.Reached later { world with log := world.log ++ [.progress line] } := by
  have order : earlier ≤ later := Nat.le_of_lt (next ▸ Nat.lt_succ_self _)
  refine ⟨(reached.toKept.later order).report rfl, ?_⟩
  rw [lines_report, reached.lines, Stage.heard_next next, only]
  rfl

theorem say_meets {earlier : Stage} (later : Stage) {line : String}
    (next : later.rank = earlier.rank + 1)
    (only : later.lines scene.connectOnly scene.protoRoot = [line])
    {failing : Failure → World → Prop} :
    Job.Meets (scene.Reached earlier) (Job.say line) (fun _ => scene.Reached later) failing :=
  Job.Meets.report fun _ reached => reached.said later next only

theorem Reached.silent {earlier : Stage} {world : World} (reached : scene.Reached earlier world)
    (later : Stage) (next : later.rank = earlier.rank + 1)
    (quiet : later.lines scene.connectOnly scene.protoRoot = []) : scene.Reached later world := by
  have order : earlier ≤ later := Nat.le_of_lt (next ▸ Nat.lt_succ_self _)
  refine ⟨reached.toKept.later order, ?_⟩
  rw [reached.lines, Stage.heard_next next, quiet, List.append_nil]

theorem emit_meets {stage : Stage} (late : .loading < stage) {path : Path} {content : String}
    (target : stage.Target scene.output path) :
    Job.Meets (scene.Reached stage) (Job.emit path content) (fun _ => scene.Reached stage)
      scene.Failed := by
  obtain ⟨rest, writes, below⟩ := target.below scene.tidy
  have away : stage ≠ .adaptation := by
    rintro rfl
    exact absurd late (by decide)
  have step : ∀ before after, scene.Reached stage before → Emitted path before after →
      scene.Reached stage after := by
    intro before after reached emitted
    refine ⟨⟨?_, reached.grows.trans emitted.grows, emitted.sound, ?_, ?_⟩, ?_⟩
    · rw [World.calls, emitted.log]
      exact reached.calls
    · intro free other
      rcases emitted.place below (scene.leads.grows reached.grows) (free.grows reached.grows) other with
        kept | ⟨inner, some_, short, there⟩
      · rw [kept]
        exact reached.place free other
      · exact Or.inr ⟨stage, inner, Nat.le_refl _,
          ⟨rest, writes, some_, short, fun same => absurd same away⟩, there⟩
    · exact fun early => absurd early (Nat.not_le_of_lt late)
    · rw [World.lines, emitted.log]
      exact reached.lines
  constructor
  intro before reached
  have emitted := (Job.emit_meets reached.sound path content).run before rfl
  cases result : Job.emit path content before with
  | ok value after =>
    rw [result] at emitted
    exact step before after reached emitted
  | error failure after =>
    rw [result] at emitted
    obtain ⟨emitted, named, error, rfl, blamed⟩ := emitted
    exact ⟨stage, Nat.le_trans (by decide) (Nat.le_of_lt late), step before after reached emitted,
      Or.inr (Or.inr ⟨away, path, target, named, error, rfl, blamed⟩)⟩

theorem adapt_meets :
    Job.Meets (scene.Reached .adaptation) (adaptDeclarations scene.output.connect)
      (fun _ => scene.Reached .adaptation) scene.Failed := by
  unfold adaptDeclarations
  apply Job.Meets.bind (fun changed world => scene.Reached .adaptation world ∧
    ∀ failure, changed = .error failure → Stage.adaptation.Raises scene.output failure)
  · apply Job.Meets.change
    intro world reached
    have below := scene.connect_below
    have only : ∀ place node, world.tree.entry true scene.output.connect = .ok (place, node) →
        place = scene.connect ∧ node = .directory := fun place node entered =>
      entry_of_leads below.tidy below.ends (scene.connectLeads.grows reached.grows) entered
    obtain ⟨grows, sound, changed⟩ := Declaration.pass_spec reached.sound only
    refine ⟨⟨⟨reached.calls, reached.grows.trans grows, sound, ?_, ?_⟩, reached.lines⟩, ?_⟩
    · intro free other
      rcases changed other with kept | ⟨name, front, declaration, there⟩
      · rw [kept]
        exact reached.place free other
      · refine Or.inr ⟨.adaptation, .ofText "connect" :: (front.reverse ++ [name]), Nat.le_refl _, ?_, ?_⟩
        · exact ⟨_, .declaration declaration, by simp, List.prefix_refl _, fun _ => rfl⟩
        · rw [there, scene.connect_eq free]
          simp
    · intro early
      rw [← reached.descriptor early]
      rcases changed (.ofText "descriptors.binpb" :: scene.opened) with kept | ⟨name, front, declaration, there⟩
      · exact kept
      · have other : ¬Declaration.IsDeclarationName "descriptors.binpb" := by
          rw [Declaration.IsDeclarationName, RawString.text_ofText]
          decide
        rw [← (List.cons.inj there).1] at declaration
        exact absurd declaration other
    · intro failure failed
      obtain ⟨error, rfl | ⟨front, last, front_, last_, declaration, rfl⟩⟩ :=
        Declaration.failure_pass reached.sound only failed
      · exact Or.inr (Or.inr (Or.inr rfl))
      · exact Or.inr (Or.inl ⟨rfl, .declaration front_ last_ declaration⟩)
  · intro changed
    apply Job.Meets.ofExcept
    · exact fun _ _ _ reached => reached.1
    · exact fun error failed world reached => ⟨.adaptation, by decide, reached.1, reached.2 error failed⟩

/-- The services that are read are called by plain names, and their files were asked for. -/
def Loaded (requested : List String) (services : List Service) : Prop :=
  ∀ service ∈ services, '/' ∉ service.name.toList ∧ service.protoFile ∈ requested

theorem loaded_services {set : Descriptor.FileSet}
    (named : ∀ file ∈ set, ∀ service ∈ file.services, '/' ∉ (service.name.getD "").toList)
    (requested : List String) : Loaded requested (set.services requested) := by
  intro service member
  obtain ⟨name, asked, inside⟩ := List.mem_flatMap.mp member
  cases found : set.file? name with
  | none => simp [found] at inside
  | some file =>
    rw [found] at inside
    obtain ⟨declared, among, rfl⟩ := List.mem_map.mp inside
    have fileIn : file ∈ set := List.mem_reverse.mp (List.mem_of_find?_eq_some found)
    refine ⟨named file fileIn declared among, ?_⟩
    rw [show (Descriptor.Service.resolved _ file declared).protoFile = file.nameText from rfl,
      Descriptor.FileSet.nameText_of_file? found]
    exact asked

/-- As long as the descriptor set is there as the compiler left it, it is read as before. -/
theorem read_eq (scene : Scene) {later : FileTree} (grows : Grows scene.tree later)
    (same : later.node? (.ofText "descriptors.binpb" :: scene.opened) =
      scene.tree.node? (.ofText "descriptors.binpb" :: scene.opened)) :
    later.read (scene.scratch.child "descriptors.binpb") =
      scene.tree.read (scene.scratch.child "descriptors.binpb") := by
  have leads := scene.scratchLeads.grows grows
  rw [← grows.alike.start] at leads
  unfold FileTree.read
  rw [entry_child_congr scene.scratchSome (by decide) leads scene.scratchLeads
    (fun target => same ▸ scene.plain target) same]

theorem load_eq {stage : Stage} (early : stage ≤ .loading) {world : World}
    (reached : scene.Reached stage world) :
    Descriptor.FileSet.load world.tree (scene.scratch.child "descriptors.binpb") =
      Descriptor.FileSet.load scene.tree (scene.scratch.child "descriptors.binpb") := by
  unfold Descriptor.FileSet.load
  rw [scene.read_eq reached.grows (reached.descriptor early)]

theorem load_meets (requested : List String) :
    Job.Meets (scene.Reached .loading)
      (loadServices (scene.scratch.child "descriptors.binpb") requested)
      (fun services world => scene.Reached .loading world ∧ Loaded requested services)
      scene.Failed := by
  unfold loadServices
  apply Job.Meets.bind _ Job.Meets.ask
  intro loaded
  apply Job.Meets.bind (fun set world => scene.Reached .loading world ∧
    Loaded requested (set.services requested))
  · apply Job.Meets.ofExcept
    · rintro set found world ⟨reached, whole⟩
      rw [found, load_eq (by decide) reached] at whole
      exact ⟨reached, loaded_services (scene.named set whole.symm) requested⟩
    · rintro error _ world ⟨reached, _⟩
      exact ⟨.loading, by decide, reached, rfl⟩
  · intro set
    apply Job.Meets.bind (fun _ world => scene.Reached .loading world ∧
      Loaded requested (set.services requested))
    · apply Job.Meets.forM
      intro name _
      apply Job.Meets.report
      rintro world ⟨reached, loaded⟩
      refine ⟨⟨reached.toKept.report rfl, ?_⟩, loaded⟩
      rw [lines_report, reached.lines]
      exact List.append_nil _
    · intro _
      exact Job.Meets.pure fun _ held => held

section Services
variable {requested : List String} {services : List Service}

theorem connectQueries_meets (loaded : Loaded requested services)
    (asked : ∀ name ∈ requested, ∃ names, (∀ part ∈ names, Path.IsName (.ofText part)) ∧
      name = Text.joined '/' names) :
    Job.Meets (scene.Reached .connectQueries) (emitConnectQueries scene.output services)
      (fun _ => scene.Reached .connectQueries) scene.Failed := by
  unfold emitConnectQueries
  apply Job.Meets.bind (fun _ => scene.Reached .connectQueries)
  · apply Job.Meets.forM
    intro entry member
    obtain ⟨group, inside, rfl⟩ := List.mem_map.mp member
    obtain ⟨service, among, file⟩ := ConnectQuery.exists_of_mem_groups inside
    obtain ⟨names, named, spelled⟩ := asked _ (loaded service among).2
    have target : Stage.Target scene.output .connectQueries (ConnectQuery.file scene.output group.1) := by
      rw [← file, spelled]
      exact .module named
    exact emit_meets (by decide) target
  · intro _
    exact Job.Meets.pure fun _ reached => reached

theorem distinct_meets (full : scene.connectOnly = false) :
    Job.Meets (scene.Reached .connectQueries) (requireDistinct services)
      (fun _ world => scene.Reached .distinctness world ∧ Aggregate.duplicate? services = none)
      scene.Failed := by
  have next : ∀ world, scene.Reached .connectQueries world → scene.Reached .distinctness world :=
    fun world reached => reached.silent .distinctness rfl (by rw [full]; rfl)
  unfold requireDistinct
  cases found : Aggregate.duplicate? services with
  | none => exact Job.Meets.pure fun world reached => ⟨next world reached, rfl⟩
  | some duplicate =>
    exact Job.Meets.throw fun world reached => ⟨.distinctness, by decide, next world reached, rfl⟩

theorem routers_meets (loaded : Loaded requested services)
    (distinct : Aggregate.duplicate? services = none) (rules : VerbRules) :
    Job.Meets (scene.Reached .routers) (emitRouters scene.output rules services)
      (fun _ => scene.Reached .routers) scene.Failed := by
  have passed : requireDistinct services = pure () := by
    rw [requireDistinct, distinct]
  unfold emitRouters
  rw [passed]
  apply Job.Meets.bind (fun _ => scene.Reached .routers)
    (Job.Meets.pure fun _ reached => reached)
  intro _
  apply Job.Meets.bind (fun _ => scene.Reached .routers)
  · apply Job.Meets.forM
    intro service member
    exact emit_meets (by decide) (.router (loaded service member).1)
  · intro _
    exact Job.Meets.pure fun _ reached => reached

theorem routerTree_meets (full : scene.connectOnly = false) (loaded : Loaded requested services)
    (rules : VerbRules) :
    Job.Meets (scene.Reached .connectQueries) (emitRouterTree scene.output rules services)
      (fun _ => scene.Reached .index) scene.Failed := by
  unfold emitRouterTree
  apply Job.Meets.bind _ (distinct_meets full)
  intro _
  apply Job.Meets.assume
  intro distinct
  apply Job.Meets.bind _ (say_meets .factory rfl (by rw [full]; rfl))
  intro _
  apply Job.Meets.bind (fun _ => scene.Reached .factory)
  · unfold emitFactory
    exact emit_meets (by decide) .factory
  intro _
  apply Job.Meets.bind _ (say_meets .routers rfl (by rw [full]; rfl))
  intro _
  apply Job.Meets.bind _ (routers_meets loaded distinct rules)
  intro written
  apply Job.Meets.bind _ (say_meets .aggregate rfl (by rw [full]; rfl))
  intro _
  apply Job.Meets.bind (fun _ => scene.Reached .aggregate)
  · unfold emitAggregate
    exact emit_meets (by decide) .aggregate
  intro _
  apply Job.Meets.bind _ (say_meets .index rfl (by rw [full]; rfl))
  intro _
  unfold emitIndex
  exact emit_meets (by decide) .index

end Services

def Finished (scene : Scene) (world : World) : Prop :=
  scene.Kept .marker world ∧ world.lines = script scene.connectOnly scene.protoRoot

/-- The stages behind the compiler's call end well with all of their lines, or one of them fails. -/
theorem emitAll_meets (scene : Scene) {options : Options} {files : List Path}
    (mode : options.connectOnly = scene.connectOnly)
    (asked : ∀ name ∈ Discovery.namesBelow scene.protoRoot files,
      ∃ names, (∀ part ∈ names, Path.IsName (.ofText part)) ∧ name = Text.joined '/' names) :
    Job.Meets (scene.Reached .compilation)
      (emitAll options scene.protoRoot scene.output files (scene.scratch.child "descriptors.binpb"))
      (fun _ => scene.Finished) scene.Failed := by
  unfold emitAll
  apply Job.Meets.bind _ (say_meets .adaptation rfl rfl)
  intro _
  apply Job.Meets.bind _ adapt_meets
  intro _
  apply Job.Meets.bind _ (say_meets .loading rfl rfl)
  intro _
  apply Job.Meets.bind _ (load_meets _)
  intro services
  apply Job.Meets.assume
  intro loaded
  apply Job.Meets.bind _ (say_meets .connectQueries rfl rfl)
  intro _
  apply Job.Meets.bind _ (connectQueries_meets loaded asked)
  intro _
  have ending : Job.Meets (scene.Reached .index) (do
      Job.say "Emitting package.json..."
      emitPackageMarker scene.output
      Job.say "Code generation complete.") (fun _ => scene.Finished) scene.Failed := by
    apply Job.Meets.bind _ (say_meets .marker rfl rfl)
    intro _
    apply Job.Meets.bind (fun _ => scene.Reached .marker)
    · unfold emitPackageMarker
      exact emit_meets (by decide) .marker
    intro _
    apply Job.Meets.report
    intro world reached
    refine ⟨reached.toKept.report rfl, ?_⟩
    rw [lines_report, reached.lines]
    rfl
  cases only : options.connectOnly with
  | false =>
    rw [mode] at only
    exact .bind _ (routerTree_meets only loaded options.rules) fun _ => ending
  | true =>
    rw [mode] at only
    have skipping : Job.Meets (scene.Reached .connectQueries)
        (Job.say "Skipping tRPC generation (--connect-only)") (fun _ => scene.Reached .index)
        scene.Failed := by
      apply Job.Meets.report
      intro world reached
      have distinctness := reached.said .distinctness rfl (by rw [only]; rfl)
      have factory := distinctness.silent .factory rfl (by rw [only]; rfl)
      have routers := factory.silent .routers rfl (by rw [only]; rfl)
      have aggregate := routers.silent .aggregate rfl (by rw [only]; rfl)
      exact aggregate.silent .index rfl (by rw [only]; rfl)
    exact .bind _ skipping fun _ => ending

end Scene

end TrpcRouters.Generation
