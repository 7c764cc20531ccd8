import TrpcRouters.Proofs.Generation.Composition
import TrpcRouters.Proofs.Router.Contents

/-! What a run that ends well leaves: every file that is to be generated, the declaration files adapted, and
all others as the compiler left them. A further run leaves the same. -/

namespace TrpcRouters.Generation
open FileTree

section
variable {options : Options} {executor : Executor} {scratch : Path} {delivery : Delivery}
  {set : Descriptor.FileSet} {tree : FileTree} {world : World}

/-- What a run leaves that ends well: the generated files for its services, the declaration files adapted,
and every other file as it was behind the compiler's call. -/
structure Settled (output : OutputTree) (rules : VerbRules) (services : List Service) (place : Place)
    (left after : FileTree) : Prop where
  sound : after.Sound
  leads : after.Leads [] output.root.names place
  free : after.LinkFree place
  router : ∀ service ∈ services, after.read (output.routerFile service.name) =
    .ok (Text.encode (RouterPlan.ofService output rules service).code)
  module : ∀ service ∈ services, after.read (ConnectQuery.file output service.protoFile) =
    .ok (Text.encode (ConnectQuery.code service.protoFile
      (services.filter fun other => other.protoFile = service.protoFile)))
  factory : after.read (output.trpcFile "routerFactory") = .ok (Text.encode (Factory.code rules))
  aggregate : after.read (output.trpcFile "appRouter") = .ok (Text.encode (Aggregate.joint services))
  index : after.read (output.trpcFile "index") = .ok (Text.encode Aggregate.indexCode)
  marker : after.read output.packageMarker = .ok (Text.encode Aggregate.packageMarker)
  declaration (there : Place) (content : Bytes) :
    Declaration.Reaches left.closed output.connect (.ofText "connect" :: place) there →
      left.file? there = some content → ∃ text, Text.decode? content = some text ∧
        after.file? there = some (Text.encode (Declaration.adapt text))
  other (there : Place) :
    ¬Declaration.Reaches left.closed output.connect (.ofText "connect" :: place) there →
    (∀ entry ∈ emitted output rules services, spot output.root place entry.1 ≠ there) →
    after.file? there = left.file? there

theorem mem_emitted {output : OutputTree} {rules : VerbRules} {services : List Service}
    {entry : Path × String} {stage : Stage} (member : entry ∈ stage.entries output rules services) :
    entry ∈ emitted output rules services :=
  List.mem_flatMap.mpr ⟨stage, List.mem_of_getElem? (Stage.getElem?_rank stage), member⟩

theorem Composed.settled {after compiled : FileTree} {place opened : Place}
    (run : Composed options executor scratch delivery set tree after place opened compiled) :
    Settled (options.generated tree) options.rules (set.services (options.requested tree)) place
      (Generation.left options executor scratch tree) after := by
  have read : ∀ stage path content, (path, content) ∈ Stage.entries (options.generated tree) options.rules
      (set.services (options.requested tree)) stage → after.read path = .ok (Text.encode content) := by
    intro stage path content member
    refine run.read (path, content) ?_
    rw [Options.emitted]
    exact mem_emitted member
  have shut : (Generation.left options executor scratch tree).closed = tree.closed :=
    (congrArg FileTree.closed run.left).trans run.delivered.grows.closed
  constructor
  case sound => exact run.overlaid.sound
  case leads => exact run.leads
  case free => exact run.free
  case router =>
    intro service member
    rw [← fst_routerEntry _ options.rules]
    refine read .routers _ _ ?_
    rw [Stage.entries]
    exact List.mem_map_of_mem member
  case module =>
    intro service member
    refine read .connectQueries _ _ ?_
    rw [Stage.entries]
    exact ConnectQuery.mem_modules _ member
  case factory =>
    refine read .factory _ _ ?_
    rw [Stage.entries]
    exact List.mem_singleton_self _
  case aggregate =>
    rw [← Aggregate.code_writtenRouters (options.generated tree) fun service member =>
      (run.placeable service member).1]
    refine read .aggregate _ _ ?_
    rw [Stage.entries]
    exact List.mem_singleton_self _
  case index =>
    refine read .index _ _ ?_
    rw [Stage.entries]
    exact List.mem_singleton_self _
  case marker =>
    refine read .marker _ _ ?_
    rw [Stage.entries]
    exact List.mem_singleton_self _
  case declaration =>
    intro there content reaches held
    rw [shut] at reaches
    rw [run.left, file?_remove _ run.inside] at held
    split at held
    · cases held
    next apart =>
      obtain ⟨rewritten, new⟩ := Option.isSome_iff_exists.mp (run.texts there reaches content held)
      obtain ⟨text, decoded, same⟩ := Option.map_eq_some_iff.mp new
      have nothing : laid (options.generated tree).root place (options.emitted set tree) there = none :=
        laid_of_declares run.tidy run.placeable reaches.1
      refine ⟨text, decoded, ?_⟩
      rw [run.file?, if_neg apart, nothing, Option.none_or, if_pos reaches, held, Option.bind_some, new,
        same]
  case other =>
    intro there away unwritten
    rw [shut] at away
    have nothing : laid (options.generated tree).root place (options.emitted set tree) there = none :=
      laid_eq_none_iff.mpr unwritten
    rw [run.left, file?_remove _ run.inside, run.file?, nothing, Option.none_or, if_neg away]

/-- A run that ends well leaves the generated files for the services of the requested files, the
declaration files adapted and the others as the compiler left them. So what it generates depends on
nothing but the options, the set and the requested files; and a further run that asks for the same files,
as it does unless a link that led nowhere leads somewhere now, leaves all files as they are. -/
theorem run_settles (full : options.connectOnly = false)
    (named : ∀ file ∈ set, ∀ service ∈ file.services, '/' ∉ (service.name.getD "").toList)
    (plain : ∀ file ∈ delivery.files, ∀ last, file.1.getLast? = some last → ¬Discovery.IsProtoName last)
    (success : Success options executor scratch delivery set tree world) :
    (∃ place, Settled (options.generated tree) options.rules (set.services (options.requested tree)) place
      (left options executor scratch tree) world.tree) ∧
    (∀ executor' scratch' delivery' tree' world',
      Success options executor' scratch' delivery' set tree' world' →
      options.generated tree' = options.generated tree →
      options.requested tree' = options.requested tree →
      ∀ entry ∈ options.emitted set tree, world'.tree.read entry.1 = world.tree.read entry.1) ∧
    (∀ executor' scratch' world',
      Success options executor' scratch' delivery set world.tree world' →
      options.requested world.tree = options.requested tree →
      ∀ there, world'.tree.file? there = world.tree.file? there) ∧
    ((∀ directory name target, tree.node? (name :: directory) = some (.link target) →
        tree.Dangles directory name → world.tree.Dangles directory name) →
      options.requested world.tree = options.requested tree) := by
  obtain ⟨place, opened, compiled, run⟩ := success.exists_composed full named
  refine ⟨⟨place, run.settled⟩, ?_, ?_, run.requested_eq plain⟩
  · intro executor' scratch' delivery' tree' world' success' output_ same entry member
    obtain ⟨_, _, _, run'⟩ := success'.exists_composed full named
    have member' : entry ∈ options.emitted set tree' := by
      rwa [Options.emitted, output_, same]
    rw [run'.read entry member', run.read entry member]
  · intro executor' scratch' world' success' same
    obtain ⟨_, _, _, run'⟩ := success'.exists_composed full named
    exact run.again run' same

end

/-- Writes the files of a delivery into `/gen/connect`, and its descriptor set into `/scratch`. -/
def supplying (delivery : Delivery) : Executor := fun _ tree =>
  (tree.putFiles (delivery.entries ["connect", "gen"] ["scratch"]), .ok ⟨.exited 0, [], []⟩)

def depotOptions : Options :=
  ⟨⟨"/p"⟩, ⟨"/gen"⟩, .default, .none, false⟩

def depotRun (delivery : Delivery) (tree : FileTree) : Job.Outcome :=
  run depotOptions (supplying delivery) ⟨"/scratch"⟩ ⟨tree, []⟩

def calledTree? (tree : FileTree) : Option FileTree :=
  (call? depotOptions ⟨"/scratch"⟩ tree).map Prod.snd

/-- The calling tree takes the delivery, and the run ends well. -/
def Suits (delivery : Delivery) (set : Descriptor.FileSet) (tree : FileTree) : Prop :=
  (∀ made ∈ calledTree? tree, made.Sound ∧
    (∀ entry ∈ delivery.entries ["connect", "gen"] ["scratch"], made.Takes entry.1) ∧
    made.Leads [] ["gen"] ["gen"] ∧ made.Leads (made.start ⟨"/scratch"⟩) ["scratch"] ["scratch"] ∧
    (made.remove ["scratch"]).Leads [] ["gen"] ["gen"]) ∧
  (depotOptions.definitions tree).Strippable ∧ depotOptions.generated tree = ⟨⟨"/gen"⟩⟩ ∧
  (∀ entry ∈ depotOptions.emitted set tree, ¬[RawString.ofText "scratch"] <:+ spot ⟨"/gen"⟩ ["gen"] entry.1) ∧
  (∀ file ∈ delivery.files, ¬[RawString.ofText "scratch"] <:+ file.1.reverse ++ [RawString.ofText "connect", "gen"]) ∧
  Job.failure? (depotRun delivery tree) = none

instance (delivery : Delivery) (set : Descriptor.FileSet) (tree : FileTree) :
    Decidable (Suits delivery set tree) :=
  inferInstanceAs (Decidable (_ ∧ _ ∧ _ ∧ _ ∧ _ ∧ _))

theorem Suits.success {delivery : Delivery} {set : Descriptor.FileSet} {tree : FileTree}
    (suits : Suits delivery set tree) (sound : tree.Sound) (free : tree.LinkFree ["gen"])
    (decoded : Descriptor.FileSet.decode delivery.set = .ok set) :
    ∃ world, Success depotOptions (supplying delivery) ⟨"/scratch"⟩ delivery set tree world ∧
      world.tree = Job.treeAfter (depotRun delivery tree) := by
  obtain ⟨called, strippable, output_, spared, spared', ended⟩ := suits
  have gen : (Path.mk "/gen").names = [RawString.ofText "gen"] := by decide
  have scratch : (Path.mk "/scratch").names = [RawString.ofText "scratch"] := by decide
  cases outcome : depotRun delivery tree with
  | error failure world =>
    rw [outcome] at ended
    cases ended
  | ok value world =>
    refine ⟨world, ⟨sound, strippable, decoded, ?_, ?_, outcome⟩, rfl⟩
    · intro command made call place leads
      obtain ⟨_, _, gen', _⟩ := called made (by simp [calledTree?, call])
      rw [output_, gen] at leads
      cases leads.symm.trans gen'
      exact free
    · intro command made call place opened leads scratchLeads
      obtain ⟨sound', takes, gen', scratch', aside⟩ := called made (by simp [calledTree?, call])
      rw [output_, gen] at leads
      rw [scratch] at scratchLeads
      cases leads.symm.trans gen'
      cases scratchLeads.symm.trans scratch'
      rw [output_]
      refine ⟨?_, ?_, spared, spared'⟩
      · rw [delivery.whole_eq]
        exact .of_putFiles sound' takes
      · rw [gen]
        exact aside

def depotTree : FileTree where
  nodes := [(["p"], .directory), (["a.proto", "p"], .file [] 0 false), (["gen"], .directory),
    (["connect", "gen"], .directory), (["a_pb.d.ts", "connect", "gen"], .file [] 0 false)]
  workingDirectory := []
  clock := 0

/-- A descriptor set in which `a.proto` declares the service `A`, and a declaration file. -/
def depotDelivery : Delivery where
  set := Text.encode "\n\x0e\n\x07a.proto2\x03\n\x01A"
  files := [(["a_pb.d.ts"],
    Text.encode "import \x7b Message, proto3 \x7d from \"@bufbuild/protobuf\";")]

def depotSet : Descriptor.FileSet :=
  [⟨some "a.proto", none, [], [⟨some "A", []⟩]⟩]

set_option maxRecDepth 10000 in
theorem depot_suits : Suits depotDelivery depotSet depotTree ∧
    Suits depotDelivery depotSet (Job.treeAfter (depotRun depotDelivery depotTree)) ∧
    (Job.treeAfter (depotRun depotDelivery depotTree)).Leads [] ["gen"] ["gen"] := by
  decide +kernel

theorem depot_settles :
    ∃ world, Success depotOptions (supplying depotDelivery) ⟨"/scratch"⟩ depotDelivery depotSet depotTree
        world ∧
      (∃ place, Settled ⟨⟨"/gen"⟩⟩ .default (depotSet.services ["a.proto"]) place
        (left depotOptions (supplying depotDelivery) ⟨"/scratch"⟩ depotTree) world.tree) ∧
      ∃ world', Success depotOptions (supplying depotDelivery) ⟨"/scratch"⟩ depotDelivery depotSet
          world.tree world' ∧
        ∀ there, world'.tree.file? there = world.tree.file? there := by
  have sound : depotTree.Sound := by decide
  have free : ∀ place, depotTree.LinkFree place := LinkFree.of_nodes (by simp [depotTree])
  have decoded : Descriptor.FileSet.decode depotDelivery.set = .ok depotSet := rfl
  have named : ∀ file ∈ depotSet, ∀ service ∈ file.services, '/' ∉ (service.name.getD "").toList := by
    decide
  have plain : ∀ file ∈ depotDelivery.files, ∀ last, file.1.getLast? = some last →
      ¬Discovery.IsProtoName last := by
    rintro file member last ends
    cases List.mem_singleton.mp member
    cases ends
    decide
  have requested : depotOptions.requested depotTree = ["a.proto"] := by decide +kernel
  obtain ⟨suits, suits', gen⟩ := depot_suits
  obtain ⟨world, success, after⟩ := suits.success sound (free _) decoded
  obtain ⟨⟨place, settled⟩, _, rerun, again⟩ := run_settles rfl named plain success
  obtain ⟨_, _, output_, _⟩ := suits
  rw [output_, requested] at settled
  rw [← after] at suits' gen
  have leads := settled.leads
  rw [show (Path.mk "/gen").names = [RawString.ofText "gen"] by decide] at leads
  cases leads.symm.trans gen
  obtain ⟨world', success', _⟩ := suits'.success settled.sound settled.free decoded
  refine ⟨world, success, ⟨_, settled⟩, world', success', rerun _ _ _ success' (again ?_)⟩
  intro directory name target held
  exact absurd held (free (name :: directory) [] target)

/-- A link that leads to where a run writes. -/
def danglingTree : FileTree where
  nodes := [(["p"], .directory), (["a.proto", "p"], .file [] 0 false),
    (["x.proto", "p"], .link ⟨"../gen/package.json"⟩)]
  workingDirectory := []
  clock := 0

/-- A descriptor set in which `a.proto` declares the service `A` and `x.proto` the service `X`. -/
def pairDelivery : Delivery where
  set := Text.encode "\n\x0e\n\x07a.proto2\x03\n\x01A\n\x0e\n\x07x.proto2\x03\n\x01X"
  files := []

def pairSet : Descriptor.FileSet :=
  [⟨some "a.proto", none, [], [⟨some "A", []⟩]⟩, ⟨some "x.proto", none, [], [⟨some "X", []⟩]⟩]

set_option maxRecDepth 10000 in
theorem pair_seen :
    let after := Job.treeAfter (depotRun pairDelivery danglingTree)
    Suits pairDelivery pairSet danglingTree ∧ Suits pairDelivery pairSet after ∧
      after.Leads [] ["gen"] ["gen"] ∧ depotOptions.requested danglingTree = ["a.proto"] ∧
      depotOptions.requested after = ["a.proto", "x.proto"] ∧
      (Job.treeAfter (depotRun pairDelivery after)).read ⟨"/gen/trpc/appRouter.ts"⟩ ≠
        after.read ⟨"/gen/trpc/appRouter.ts"⟩ := by
  decide +kernel

/-- A definition file by two ways, in a directory that is called as one without a text is shown. -/
def twofoldTree : FileTree where
  nodes := [(["\ufffd"], .directory), (["d", "\ufffd"], .directory),
    (["a.proto", "d", "\ufffd"], .file [] 0 false), (["e", "\ufffd"], .link ⟨"d"⟩)]
  workingDirectory := []
  clock := 0

/-- A descriptor set in which the file declares the service `A` by the one way and `B` by the other. -/
def twofoldDelivery : Delivery where
  set := Text.encode
    "\n\x16\n\x0f//\ufffd/d/a.proto2\x03\n\x01A\n\x16\n\x0f//\ufffd/e/a.proto2\x03\n\x01B"
  files := []

def twofoldSet : Descriptor.FileSet :=
  [⟨some "//\ufffd/d/a.proto", none, [], [⟨some "A", []⟩]⟩,
    ⟨some "//\ufffd/e/a.proto", none, [], [⟨some "B", []⟩]⟩]

def twofoldOptions : Options :=
  { depotOptions with protoRoot := ⟨⟨[Path.slash, 0xff, Path.slash]⟩⟩ }

set_option maxRecDepth 10000 in
theorem twofold_seen :
    let outcome := run twofoldOptions (supplying twofoldDelivery) ⟨"/scratch"⟩ ⟨twofoldTree, []⟩
    Job.failure? outcome = none ∧
      twofoldOptions.requested twofoldTree = ["//\ufffd/d/a.proto", "//\ufffd/e/a.proto"] ∧
      (Job.treeAfter outcome).read (ConnectQuery.file ⟨⟨"/gen"⟩⟩ "//\ufffd/d/a.proto") ≠
        .ok (Text.encode (ConnectQuery.code "//\ufffd/d/a.proto"
          (twofoldSet.services ["//\ufffd/d/a.proto"]))) := by
  decide +kernel

/-- A link that led nowhere is a definition file after the first run, and the second one generates more.
Files that are called by their whole paths may have their modules in one place. -/
theorem rerun_generates_more :
    (∃ world, Success depotOptions (supplying pairDelivery) ⟨"/scratch"⟩ pairDelivery pairSet danglingTree
        world ∧
      ∃ world', Success depotOptions (supplying pairDelivery) ⟨"/scratch"⟩ pairDelivery pairSet world.tree
          world' ∧
        depotOptions.requested danglingTree = ["a.proto"] ∧
        depotOptions.requested world.tree = ["a.proto", "x.proto"] ∧
        world'.tree.read ⟨"/gen/trpc/appRouter.ts"⟩ ≠ world.tree.read ⟨"/gen/trpc/appRouter.ts"⟩) ∧
    ∃ world, run twofoldOptions (supplying twofoldDelivery) ⟨"/scratch"⟩ ⟨twofoldTree, []⟩ = .ok () world ∧
      Descriptor.FileSet.decode twofoldDelivery.set = .ok twofoldSet ∧
      twofoldOptions.requested twofoldTree = ["//\ufffd/d/a.proto", "//\ufffd/e/a.proto"] ∧
      world.tree.read (ConnectQuery.file ⟨⟨"/gen"⟩⟩ "//\ufffd/d/a.proto") ≠
        .ok (Text.encode (ConnectQuery.code "//\ufffd/d/a.proto"
          (twofoldSet.services ["//\ufffd/d/a.proto"]))) := by
  refine ⟨?again, ?twofold⟩
  case twofold =>
    obtain ⟨ended, asked, other⟩ := twofold_seen
    cases outcome : run twofoldOptions (supplying twofoldDelivery) ⟨"/scratch"⟩ ⟨twofoldTree, []⟩ with
    | error failure world =>
      rw [outcome] at ended
      cases ended
    | ok value world =>
      rw [outcome] at other
      exact ⟨world, rfl, rfl, asked, other⟩
  have sound : danglingTree.Sound := by decide
  have free : danglingTree.LinkFree ["gen"] := by
    intro front target held
    rw [sound.none_below (by decide)] at held
    cases held
  have decoded : Descriptor.FileSet.decode pairDelivery.set = .ok pairSet := rfl
  have named : ∀ file ∈ pairSet, ∀ service ∈ file.services, '/' ∉ (service.name.getD "").toList := by
    decide
  obtain ⟨suits, suits', gen, first, second, different⟩ := pair_seen
  obtain ⟨world, success, after⟩ := suits.success sound free decoded
  obtain ⟨place, _, _, composed⟩ := success.exists_composed rfl named
  obtain ⟨_, _, output_, _⟩ := suits
  rw [← after] at suits' gen second different
  have leads := composed.leads
  rw [output_, show (Path.mk "/gen").names = [RawString.ofText "gen"] by decide] at leads
  cases leads.symm.trans gen
  obtain ⟨world', success', after'⟩ := suits'.success composed.overlaid.sound composed.free decoded
  rw [← after'] at different
  exact ⟨world, success, world', success', first, second, different⟩

end TrpcRouters.Generation
