import TrpcRouters.Proofs.Generation.Placement
import TrpcRouters.Proofs.Generation.Scene

/-! What a failed run leaves alone: the files of the stages that it does not get to. -/

namespace TrpcRouters.Generation
open FileTree

/-- A call of the compiler that changes files and directories, but no links, and these only at the
descriptor set or below the output directory, which stays as does the scratch directory. It names
services in one word. -/
structure Confined (executor : Executor) (command : Command) (tree : FileTree)
    (connect scratch : Path) : Prop where
  alike : Alike tree (executor command tree).1
  sound : (executor command tree).1.Sound
  output : ∃ place, (executor command tree).1.Leads [] connect.names place
  aside : ∃ place, (executor command tree).1.Leads (tree.start scratch) scratch.names place
  place (place : Place) : (executor command tree).1.node? place = tree.node? place ∨
    tree.place? (descriptorSet scratch) = some place ∨
    ∃ directory front, tree.Leads [] connect.names directory ∧ place = front ++ directory
  named : ∀ set, Descriptor.FileSet.load (executor command tree).1 (descriptorSet scratch) = .ok set →
    ∀ file ∈ set, ∀ service ∈ file.services, '/' ∉ (service.name.getD "").toList

/-- The stages behind a call that is confined, with what they do not see: the scratch directory and the
initial tree. -/
structure Setting {options : Options} {scratch : Path} {tree : FileTree} (executor : Executor)
    (call : Call options scratch tree) (scene : Scene) : Prop where
  mode : scene.connectOnly = options.connectOnly
  definitions : scene.protoRoot = call.protoRoot
  generated : scene.output = ⟨call.root⟩
  aside : scene.scratch = scratch
  asks : scene.command = call.command
  answers : scene.tree = (executor call.command call.made).1
  inside : scene.opened ≠ []
  reached : scene.Reached .compilation ⟨scene.tree, call.log⟩
  gone : ∀ later, Grows scene.tree later → later.uninstall scratch = later.remove scene.opened
  free : (scene.tree.remove scene.opened).Leads [] scene.output.root.names scene.place →
    scene.tree.LinkFree scene.place
  outside : ∀ path rest, scene.output.root.Below path rest → (∀ more, rest ≠ .ofText "connect" :: more) →
    (scene.tree.remove scene.opened).at? path = tree.at? path

section
variable {options : Options} {scratch : Path} {tree : FileTree} {executor : Executor}

namespace Placed
variable {call : Call options scratch tree} {place connect opened : Place}

theorem leads_after (placed : Placed call place connect opened)
    (confined : Confined executor call.command call.made (OutputTree.mk call.root).connect scratch)
    (start : call.root.Below (OutputTree.mk call.root).connect ["connect"]) :
    (executor call.command call.made).1.Leads [] call.root.names place ∧
      (executor call.command call.made).1.Leads [] (OutputTree.mk call.root).connect.names connect ∧
      (executor call.command call.made).1.Leads (call.made.start scratch) scratch.names opened := by
  obtain ⟨_, connectAfter⟩ := confined.output
  obtain rfl := confined.alike.leads placed.connectLeads connectAfter
  obtain ⟨_, scratchAfter⟩ := confined.aside
  obtain rfl := confined.alike.leads placed.scratchLeads scratchAfter
  refine ⟨?_, connectAfter, scratchAfter⟩
  have further := connectAfter
  rw [start.names] at further
  obtain ⟨other, leads⟩ := exists_leads (proper_names call.root) (List.cons_ne_nil _ _) further
  obtain rfl := confined.alike.leads placed.leads leads
  exact leads

theorem outside (placed : Placed call place connect opened)
    (confined : Confined executor call.command call.made (OutputTree.mk call.root).connect scratch)
    (some_ : scratch.isEmpty = false)
    (start : call.root.Below (OutputTree.mk call.root).connect ["connect"])
    (free : (call.made.remove opened).Leads [] call.root.names place → call.made.LinkFree place)
    {path : Path} {rest : List RawString} (below : call.root.Below path rest)
    (away : ∀ more, rest ≠ .ofText "connect" :: more) :
    ((executor call.command call.made).1.remove opened).at? path =
      (call.made.remove opened).at? path := by
  apply at?_remove_of_alike below placed.sound confined.sound confined.alike placed.opens.inside
    placed.leads (placed.leads_after confined start).1 free
  intro madeFree
  rcases confined.place (rest.reverse ++ place) with kept | set | ⟨directory, front, led, there⟩
  · exact Or.inr kept
  · rw [place?_child some_ (by decide) placed.scratchLeads placed.plain set]
    exact Or.inl (List.suffix_cons _ _)
  · rw [placed.leads.below madeFree start led, ← List.append_assoc] at there
    have spelled := congrArg List.reverse (List.append_cancel_right there)
    simp only [List.reverse_reverse, List.reverse_append] at spelled
    exact absurd spelled (away front.reverse)

end Placed

theorem exists_setting (call : Call options scratch tree) (sound : tree.Sound)
    (grounded : tree.Grounded call.root.names)
    (free : ∀ place, tree.Leads [] call.root.names place → tree.LinkFree place)
    (confined : Confined executor call.command call.made (OutputTree.mk call.root).connect scratch) :
    ∃ scene, Setting executor call scene := by
  have tidy := sound.tidy_absolute call.generated
  have start : call.root.Below (OutputTree.mk call.root).connect ["connect"] :=
    .start tidy (by decide)
  obtain ⟨some_, place, connect, opened, placed⟩ := call.exists_placed sound
  obtain ⟨leads, connectLeads, scratchLeads⟩ := placed.leads_after confined start
  have madeFree : (call.made.remove opened).Leads [] call.root.names place →
      call.made.LinkFree place :=
    placed.opens.linkFree_of_leads start grounded free call.makes
  let scene : Scene :=
    { connectOnly := options.connectOnly
      protoRoot := call.protoRoot
      output := ⟨call.root⟩
      scratch
      command := call.command
      tree := (executor call.command call.made).1
      place, connect, opened, tidy, leads, connectLeads
      scratchLeads := by
        rw [confined.alike.start]
        exact scratchLeads
      scratchSome := some_
      plain := fun target held => placed.plain target (confined.alike.link.mp held)
      named := confined.named }
  refine ⟨scene, rfl, rfl, rfl, rfl, rfl, rfl, placed.opens.inside, ?_, ?_, ?_, ?_⟩
  case refine_1 =>
    exact ⟨⟨rfl, Grows.refl _, confined.sound, fun _ _ => Or.inl rfl, fun _ => rfl⟩, rfl⟩
  case refine_2 =>
    intro later more
    refine placed.gone later (confined.alike.trans more.alike) ⟨opened, ?_⟩
    rw [more.alike.start, confined.alike.start]
    exact scratchLeads.grows more
  case refine_3 =>
    intro leads
    have free := madeFree (confined.alike.symm.leads_remove placed.opens.inside placed.leads leads)
    exact free.alike confined.alike
  case refine_4 =>
    intro path rest below away
    have single : rest ≠ ["connect"] := away []
    rw [← placed.opens.at?_remove start grounded free call.makes below single]
    exact placed.outside confined some_ start madeFree below away

theorem Setting.unchanged {call : Call options scratch tree} {scene : Scene}
    (setting : Setting executor call scene) {stage : Stage} {world : World}
    (reached : scene.Reached stage world) {path : Path} {rest : List RawString}
    (below : scene.output.root.Below path rest)
    (untouched : ∀ earlier ≤ stage, ¬earlier.Touches rest) :
    (world.tree.uninstall scratch).at? path = (scene.tree.uninstall scratch).at? path := by
  rw [setting.gone world.tree reached.grows, setting.gone scene.tree (Grows.refl _)]
  apply at?_remove_of_alike below setting.reached.sound reached.sound reached.grows.alike
    setting.inside scene.leads (scene.leads.grows reached.grows) setting.free
  intro free
  rcases reached.place free (rest.reverse ++ scene.place) with kept | ⟨earlier, names, order, touches, there⟩
  · exact Or.inr kept
  · rw [← List.reverse_inj.mp (List.append_cancel_right there)] at touches
    exact absurd touches (untouched earlier order)

/-- What holds of a run that fails in a stage. -/
structure Contained (options : Options) (executor : Executor) (scratch : Path) (tree : FileTree)
    (stage : Stage) (failure : Failure) (world : World) : Prop where
  raises : stage.Raises (options.generated tree) failure
  lines : world.lines = stage.heard options.connectOnly (options.definitions tree)
  later (later : Stage) (path : Path) : stage < later →
    later.Target (options.generated tree) path →
    world.tree.at? path = (left options executor scratch tree).at? path
  trpc : stage ≤ .distinctness → ∀ path more,
    (options.generated tree).root.Below path (.ofText "trpc" :: more) →
    world.tree.at? path = tree.at? path
  marker : stage < .marker →
    world.tree.at? (options.generated tree).packageMarker =
      tree.at? (options.generated tree).packageMarker
  idle : stage ≤ .discovery → world.tree = tree ∧ world.calls = []

theorem Stage.Writes.ne_connect {stage : Stage} {rest : List RawString} (writes : stage.Writes rest) :
    rest ≠ [RawString.ofText "connect"] := by
  cases writes <;> simp

theorem Aborted.contained (sound : tree.Sound)
    (grounded : tree.Grounded (options.generated tree).root.names)
    (free : ∀ place, tree.Leads [] (options.generated tree).root.names place → tree.LinkFree place)
    (none_ : call? options scratch tree = none) {stage : Stage} {failure : Failure} {world : World}
    (aborted : Aborted options scratch tree stage failure world) :
    Contained options executor scratch tree stage failure world := by
  have left_ : left options executor scratch tree = tree := by
    rw [left, none_]
  have quiet : stage ≤ .discovery → world.tree = tree := by
    intro early
    rcases aborted.tree with idle | ⟨rfl, _⟩
    · exact idle
    · exact absurd early (by decide)
  have same : world.tree = tree ∨ (options.generated tree).root.Tidy ∧
      ∀ path rest, (options.generated tree).root.Below path rest → rest ≠ ["connect"] →
        world.tree.at? path = tree.at? path := by
    rcases aborted.tree with idle | ⟨_, root, opened, made, error, generated, opens, makes, tree_⟩
    · exact Or.inl idle
    · rw [Options.generated_eq generated] at grounded free ⊢
      have tidy := sound.tidy_absolute generated
      obtain ⟨_, scratch_, opens, scratchLeads, gone⟩ := Opens.of_makeDirectory sound opens
      have start : root.Below (OutputTree.mk root).connect ["connect"] := .start tidy (by decide)
      refine Or.inr ⟨tidy, fun path rest below other => ?_⟩
      have grows := (makeDirectories_grows opens.sound' makes).1
      have scratchMade : made.Leads (made.start scratch) scratch.names scratch_ := by
        rw [grows.alike.start]
        exact scratchLeads.grows grows
      rw [tree_, gone made grows.alike ⟨scratch_, scratchMade⟩]
      exact opens.at?_remove start grounded free makes below other
  refine ⟨aborted.raises, aborted.lines, ?_, ?_, ?_, fun early => ⟨quiet early, aborted.calls⟩⟩
  · intro later path _ target
    rw [left_]
    rcases same with idle | ⟨tidy, same⟩
    · rw [idle]
    · obtain ⟨rest, writes, below⟩ := target.below tidy
      exact same path rest below writes.ne_connect
  · intro _ path more below
    rcases same with idle | ⟨_, same⟩
    · rw [idle]
    · exact same path _ below (by simp)
  · intro _
    rcases same with idle | ⟨tidy, same⟩
    · rw [idle]
    · exact same _ ["package.json"] (.start tidy (by decide)) (by simp)

theorem Setting.contained {call : Call options scratch tree} {scene : Scene}
    (setting : Setting executor call scene)
    (called : call? options scratch tree = some (call.command, call.made)) {stage : Stage}
    {failure : Failure} {world : World} (late : .compilation ≤ stage)
    (reached : scene.Reached stage world) (raises : stage.Raises scene.output failure) :
    Contained options executor scratch tree stage failure
      { world with tree := world.tree.uninstall scratch } := by
  have output_ : options.generated tree = scene.output :=
    (Options.generated_eq call.generated).trans setting.generated.symm
  have definitions_ : options.definitions tree = scene.protoRoot :=
    (Options.definitions_eq call.definitions).trans setting.definitions.symm
  have left_ : left options executor scratch tree = scene.tree.uninstall scratch := by
    rw [left, called, setting.answers]
  have outside : ∀ path rest, scene.output.root.Below path rest →
      (∀ more, rest ≠ .ofText "connect" :: more) → (∀ earlier ≤ stage, ¬earlier.Touches rest) →
      (world.tree.uninstall scratch).at? path = tree.at? path := by
    intro path rest below away untouched
    rw [setting.unchanged reached below untouched, setting.gone scene.tree (Grows.refl _)]
    exact setting.outside path rest below away
  constructor
  case raises => rwa [output_]
  case lines =>
    rw [definitions_, ← setting.mode]
    exact reached.lines
  case later =>
    intro later path order target
    rw [output_] at target
    rw [left_]
    obtain ⟨rest, writes, below⟩ := target.below scene.tidy
    exact setting.unchanged reached below fun earlier before =>
      Stage.not_touches (Nat.lt_of_le_of_lt before order) writes
  case trpc =>
    intro early path more below
    rw [output_] at below
    refine outside path _ below (by simp) fun earlier before touches => ?_
    obtain ⟨names, shape⟩ := Stage.names_of_touches (Nat.le_trans before early) touches
    simp at shape
  case marker =>
    intro order
    rw [output_]
    exact outside _ ["package.json"] (.start scene.tidy (by decide)) (by simp) fun earlier before =>
      Stage.not_touches (Nat.lt_of_le_of_lt before order) .marker
  case idle =>
    intro early
    exact absurd (Nat.le_trans late early) (by decide)

theorem Setting.finish {call : Call options scratch tree} {scene : Scene}
    (setting : Setting executor call scene) (sound : tree.Sound) (strippable : call.protoRoot.Strippable) :
    ∃ result, call.finish (executor call.command call.made) = closed scratch result ∧
      match result with
      | .ok _ world => scene.Finished world
      | .error failure world => scene.Failed failure world := by
  have absolute := (sound.tidy_absolute call.definitions).1
  have asked : ∀ name ∈ Discovery.namesBelow scene.protoRoot call.files,
      ∃ names, (∀ part ∈ names, Path.IsName (.ofText part)) ∧ name = Text.joined '/' names := by
    rw [setting.definitions]
    exact Discovery.names_of_mem_namesBelow sound absolute strippable call.found
  have meets := scene.emitAll_meets setting.mode.symm asked
  rw [setting.definitions, setting.generated, setting.aside] at meets
  have reached := setting.reached
  refine ⟨_, rfl, ?_⟩
  have answers := setting.answers
  unfold Compiler.answered
  rcases answer : executor call.command call.made with ⟨after, error | finished⟩
  · rw [answer] at answers
    rw [answers] at reached
    exact ⟨.compilation, by decide, reached, rfl⟩
  · rw [answer] at answers
    rw [answers] at reached
    by_cases succeeded : finished.status.succeeded = true
    · have ended := meets.run ⟨after, call.log⟩ reached
      simp only [succeeded, ↓reduceIte, descriptorSet]
      cases result : emitAll options call.protoRoot ⟨call.root⟩ call.files
        (scratch.child "descriptors.binpb") ⟨after, call.log⟩ with
      | ok value world =>
        rw [result] at ended
        exact ended
      | error failure world =>
        rw [result] at ended
        exact ended
    · simp only [succeeded]
      refine ⟨.compilation, by decide, reached, ?_⟩
      unfold Compiler.rejection
      simp only
      split <;> rfl

/-- What the kind of a failure tells of the stage, and so of the files. -/
theorem Contained.of_failure {stage : Stage} {failure : Failure} {world : World}
    (contained : Contained options executor scratch tree stage failure world)
    (tidy : stage ≤ .compilation ∨ (options.generated tree).root.Tidy) :
    (∀ root, failure = .noInput root → world.tree = tree ∧ world.calls = []) ∧
    (∀ text, failure = .compiler text ∨ failure = .descriptor text ∨
      failure = .duplicateService text →
      (∀ path more, (options.generated tree).root.Below path (.ofText "trpc" :: more) →
        world.tree.at? path = tree.at? path) ∧
      world.tree.at? (options.generated tree).packageMarker =
        tree.at? (options.generated tree).packageMarker) ∧
    (∀ path error more, failure = .emission path error →
      path.names = (options.generated tree).root.names ++ .ofText "trpc" :: more →
      world.tree.at? (options.generated tree).packageMarker =
        tree.at? (options.generated tree).packageMarker) := by
  have raises := contained.raises
  refine ⟨?_, ?_, ?_⟩
  · rintro root rfl
    have here : stage = .discovery := raises
    exact contained.idle (by rw [here]; decide)
  · intro text kind
    have early : stage ≤ .distinctness := by
      rcases kind with rfl | rfl | rfl
      · rw [show stage = .compilation from raises]
        decide
      · rw [show stage = .loading from raises]
        decide
      · rw [show stage = .distinctness from raises]
        decide
    exact ⟨contained.trpc early, contained.marker (Nat.lt_of_le_of_lt early (by decide))⟩
  · rintro path error more rfl inside
    rcases tidy with early | tidy
    · exact contained.marker (Nat.lt_of_le_of_lt early (by decide))
    · exact contained.marker (Stage.lt_marker_of_raises tidy raises inside)

/-- Stage containment. A run depends on the compiler through the answer to one call, if it gets there. It
reports a part of what a whole run reports, and if it fails in a stage, the files of the later stages
are as the initial tree and the compiler left them. -/
theorem run_contained (sound : tree.Sound)
    (grounded : tree.Grounded (options.generated tree).root.names)
    (free : ∀ place, tree.Leads [] (options.generated tree).root.names place → tree.LinkFree place)
    (strippable : (options.definitions tree).Strippable)
    (confined : ∀ command made, call? options scratch tree = some (command, made) →
      Confined executor command made (options.generated tree).connect scratch) :
    (∃ finish : Option Compiler.Answer → Job.Outcome, ∀ other : Executor,
      run options other scratch ⟨tree, []⟩ =
        finish ((call? options scratch tree).map fun call => other call.1 call.2)) ∧
    match run options executor scratch ⟨tree, []⟩ with
    | .ok _ world =>
      world.calls = ((call? options scratch tree).map Prod.fst).toList ∧
      world.lines = script options.connectOnly (options.definitions tree)
    | .error failure world =>
      world.calls = ((call? options scratch tree).map Prod.fst).toList ∧
      world.lines <+: script options.connectOnly (options.definitions tree) ∧
      (∃ stage, Contained options executor scratch tree stage failure world) ∧
      (∀ root, failure = .noInput root → world.tree = tree ∧ world.calls = []) ∧
      (∀ text, failure = .compiler text ∨ failure = .descriptor text ∨
        failure = .duplicateService text →
        (∀ path more, (options.generated tree).root.Below path (.ofText "trpc" :: more) →
          world.tree.at? path = tree.at? path) ∧
        world.tree.at? (options.generated tree).packageMarker =
          tree.at? (options.generated tree).packageMarker) ∧
      (∀ path error more, failure = .emission path error →
        path.names = (options.generated tree).root.names ++ .ofText "trpc" :: more →
        world.tree.at? (options.generated tree).packageMarker =
          tree.at? (options.generated tree).packageMarker) := by
  cases run_course options scratch tree with
  | aborts stage failure world none_ aborted same =>
    refine ⟨⟨fun _ => .error failure world, fun other => same other⟩, ?_⟩
    have contained : Contained options executor scratch tree stage failure world :=
      aborted.contained sound grounded free none_
    rw [same executor, none_]
    refine ⟨aborted.calls, ?_, ⟨stage, contained⟩, contained.of_failure (Or.inl aborted.early)⟩
    rw [aborted.lines]
    exact heard_prefix_script _ _ _
  | calls call called same =>
    refine ⟨⟨fun answer => (answer.map call.finish).getD (.ok () ⟨tree, []⟩), fun other => ?_⟩, ?_⟩
    · rw [same other, called]
      rfl
    have output_ := Options.generated_eq call.generated
    have limits := confined call.command call.made called
    rw [output_] at grounded free limits
    obtain ⟨scene, setting⟩ := exists_setting call sound grounded free limits
    rw [Options.definitions_eq call.definitions] at strippable
    obtain ⟨result, finish, ends⟩ := setting.finish sound strippable
    rw [same executor, finish, called]
    cases result with
    | ok value world =>
      obtain ⟨kept, lines⟩ := ends
      refine ⟨kept.calls.trans (by rw [setting.asks]; rfl), lines.trans ?_⟩
      rw [setting.mode, setting.definitions, Options.definitions_eq call.definitions]
    | error failure world =>
      obtain ⟨stage, late, reached, raises⟩ := ends
      have contained := setting.contained called late reached raises
      have tidy : (options.generated tree).root.Tidy := by
        rw [output_]
        exact sound.tidy_absolute call.generated
      refine ⟨reached.calls.trans (by rw [setting.asks]; rfl), ?_, ⟨stage, contained⟩,
        contained.of_failure (Or.inr tidy)⟩
      rw [contained.lines]
      exact heard_prefix_script _ _ _

end

def plainOptions (output : String) : Options :=
  ⟨⟨"/p"⟩, ⟨output⟩, .default, .none, false⟩

def markedTree : FileTree where
  nodes := [(["p"], .directory), (["a.proto", "p"], .file [] 0 false), (["gen"], .directory),
    (["package.json", "gen"], .file [] 0 false)]
  workingDirectory := []
  clock := 0

/-- Writes a module, but no descriptor set. -/
def forgetful : Executor := fun _ tree =>
  (tree.putFile ["a_pb.js", "connect", "gen"] [] false, .ok ⟨.exited 0, [], []⟩)

def calledTree : FileTree :=
  (markedTree.put ["scratch"] .directory).put ["connect", "gen"] .directory

theorem forgetful_confined (command : Command) :
    Confined forgetful command calledTree (OutputTree.mk ⟨"/gen"⟩).connect ⟨"/scratch"⟩ where
  alike := by
    have vacant : calledTree.node? ["a_pb.js", "connect", "gen"] = none := by decide
    exact (grows_putFile (List.cons_ne_nil _ _) _ _ (by simp [vacant])).alike
  sound := by
    simp only [forgetful]
    decide
  output := by
    simp only [forgetful]
    exact ⟨["connect", "gen"], by decide +kernel⟩
  aside := by
    simp only [forgetful]
    exact ⟨["scratch"], by decide +kernel⟩
  place place := by
    simp only [forgetful, node?_putFile _ _ _ _ (List.cons_ne_nil _ _)]
    split
    next here => exact Or.inr (Or.inr ⟨["connect", "gen"], ["a_pb.js"], by decide +kernel, here⟩)
    next => exact Or.inl rfl
  named set loaded := by
    have missing : (Descriptor.FileSet.load (forgetful command calledTree).1
        (descriptorSet ⟨"/scratch"⟩)).toOption = none := by
      simp only [forgetful]
      decide +kernel
    rw [loaded] at missing
    cases missing

theorem forgetful_contained :
    markedTree.Sound ∧ markedTree.Grounded ["gen"] ∧ (∀ place, markedTree.LinkFree place) ∧
    ∃ text world,
      run (plainOptions "/gen") forgetful ⟨"/scratch"⟩ ⟨markedTree, []⟩ =
        .error (.descriptor text) world ∧
      world.calls.length = 1 ∧ world.tree.at? ⟨"/gen/package.json"⟩ = some (.file [] 0 false) ∧
      ∀ path more, (Path.mk "/gen").Below path (.ofText "trpc" :: more) →
        world.tree.at? path = markedTree.at? path := by
  have sound : markedTree.Sound := by decide
  have output_ : (plainOptions "/gen").generated markedTree = ⟨⟨"/gen"⟩⟩ := by decide +kernel
  have grounded : markedTree.Grounded ["gen"] := by
    intro front climbs
    have member : RawString.ofText ".." ∈ [RawString.ofText "gen"] := climbs.subset (by simp)
    simp at member
  have free : ∀ place, markedTree.LinkFree place := LinkFree.of_nodes (by simp [markedTree])
  have called : (call? (plainOptions "/gen") ⟨"/scratch"⟩ markedTree).map Prod.snd =
      some calledTree := by
    decide +kernel
  have failed : Job.failure? (run (plainOptions "/gen") forgetful ⟨"/scratch"⟩ ⟨markedTree, []⟩) =
      some (.descriptor
        "Failed to read /scratch/descriptors.binpb: No such file or directory (os error 2)") := by
    decide +kernel
  have names : (Path.mk "/gen").names = ["gen"] := by decide
  have confined : ∀ command made,
      call? (plainOptions "/gen") ⟨"/scratch"⟩ markedTree = some (command, made) →
      Confined forgetful command made ((plainOptions "/gen").generated markedTree).connect
        ⟨"/scratch"⟩ := by
    intro command made calls
    rw [calls] at called
    have made_ : made = calledTree := Option.some.inj called
    rw [output_, made_]
    exact forgetful_confined command
  have contained := (run_contained sound (by rw [output_, names]; exact grounded)
    (fun place _ => free place) (by decide +kernel) confined).2
  refine ⟨sound, grounded, free, ?_⟩
  cases outcome : run (plainOptions "/gen") forgetful ⟨"/scratch"⟩ ⟨markedTree, []⟩ with
  | ok value world =>
    rw [outcome] at failed
    cases failed
  | error failure world =>
    rw [outcome] at failed contained
    obtain ⟨calls, _, _, _, described, _⟩ := contained
    have kind : failure = .descriptor _ := Option.some.inj failed
    obtain ⟨trpc, marker⟩ := described _ (Or.inr (Or.inl kind))
    rw [output_] at trpc marker
    refine ⟨_, world, by rw [kind], ?_, ?_, trpc⟩
    · have once := congrArg Option.isSome called
      rw [Option.isSome_map] at once
      obtain ⟨call, there⟩ := Option.isSome_iff_exists.mp once
      rw [calls, there]
      rfl
    · have before : markedTree.at? ⟨"/gen/package.json"⟩ = some (.file [] 0 false) := by
        decide +kernel
      exact marker.trans before

def bareTree : FileTree where
  nodes := [(["p"], .directory), (["a.proto", "p"], .file [] 0 false)]
  workingDirectory := []
  clock := 0

def refusing : Executor := fun _ tree =>
  (tree, .error (.described "refused"))

/-- A tree in which the router of the service `B` cannot be written. -/
def obstructedTree : FileTree where
  nodes := [(["p"], .directory), (["a.proto", "p"], .file [] 0 false), (["gen"], .directory),
    (["trpc", "gen"], .directory), (["routers", "trpc", "gen"], .directory),
    (["BRouter.ts", "routers", "trpc", "gen"], .directory)]
  workingDirectory := []
  clock := 0

/-- Leaves a descriptor set in which `a.proto` declares the services `../app` and `B`. -/
def straying : Executor := fun _ tree =>
  (tree.putFile ["descriptors.binpb", "scratch"]
    (Text.encode "\n\x18\n\x07a.proto2\x08\n\x06../app2\x03\n\x01B") false, .ok ⟨.exited 0, [], []⟩)

def nestedTree : FileTree where
  nodes := [(["p"], .directory), (["q", "p"], .directory), (["a.proto", "q", "p"], .file [] 0 false),
    (["gen"], .directory), (["trpc", "gen"], .directory)]
  workingDirectory := []
  clock := 0

/-- Links the folder `q` to the routers, and leaves a descriptor set in which `q/a.proto` declares the
services `A` and `AService`. -/
def linking : Executor := fun _ tree =>
  ((tree.put ["q", "connect", "gen"] (.link ⟨"../trpc"⟩)).putFile ["descriptors.binpb", "scratch"]
    (Text.encode "\n\x1c\n\tq/a.proto2\x03\n\x01A2\n\n\x08AService") false,
    .ok ⟨.exited 0, [], []⟩)

/-- A definition file among the routers, in a directory that is called as one without a text is shown. -/
def shownTree : FileTree where
  nodes := [(["gen"], .directory), (["trpc", "gen"], .directory), (["\ufffd", "trpc", "gen"], .directory),
    (["a.proto", "\ufffd", "trpc", "gen"], .file [] 0 false)]
  workingDirectory := []
  clock := 0

def shownOptions : Options :=
  { plainOptions "/gen" with protoRoot := ⟨⟨Text.encode "/gen/trpc/" ++ [0xff, Path.slash]⟩⟩ }

/-- Leaves a descriptor set in which a definition file that is called by its whole path declares the services
`A` and `AService`. -/
def naming : Executor := fun _ tree =>
  (tree.putFile ["descriptors.binpb", "scratch"]
    (Text.encode "\n)\n\x16//gen/trpc/\ufffd/a.proto2\x03\n\x01A2\n\n\x08AService") false,
    .ok ⟨.exited 0, [], []⟩)

set_option maxRecDepth 10000 in
/-- Files of later stages are touched if the output path climbs out of a directory that is not there, if
a service is called by a path, if the compiler makes links, and if the root of the definition files has no
text and ends in a separator. -/
theorem later_files_touched :
    (Job.failure? (run (plainOptions "/gen/package.json/..") refusing ⟨"/scratch"⟩ ⟨bareTree, []⟩) =
        some Compiler.notStarted ∧
      bareTree.at? ⟨"/gen/package.json"⟩ = none ∧
      (Job.treeAfter (run (plainOptions "/gen/package.json/..") refusing ⟨"/scratch"⟩
        ⟨bareTree, []⟩)).at? ⟨"/gen/package.json"⟩ = some .directory) ∧
    (Job.failure? (run (plainOptions "/gen") straying ⟨"/scratch"⟩ ⟨obstructedTree, []⟩) =
        some (.emission ⟨"/gen/trpc/routers/BRouter.ts"⟩ .isDirectory) ∧
      (left (plainOptions "/gen") straying ⟨"/scratch"⟩ obstructedTree).at?
        ⟨"/gen/trpc/appRouter.ts"⟩ = none ∧
      ((Job.treeAfter (run (plainOptions "/gen") straying ⟨"/scratch"⟩ ⟨obstructedTree, []⟩)).at?
        ⟨"/gen/trpc/appRouter.ts"⟩).isSome = true) ∧
    ((Job.failure? (run (plainOptions "/gen") linking ⟨"/scratch"⟩ ⟨nestedTree, []⟩)).map Failure.text =
        some ("Duplicate service name: A (q/a.proto) and AService (q/a.proto) " ++
          "both map to router field 'A'") ∧
      nestedTree.at? ⟨"/gen/trpc/a_connectquery.ts"⟩ = none ∧
      ((Job.treeAfter (run (plainOptions "/gen") linking ⟨"/scratch"⟩ ⟨nestedTree, []⟩)).at?
        ⟨"/gen/trpc/a_connectquery.ts"⟩).isSome = true) ∧
    ((Job.failure? (run shownOptions naming ⟨"/scratch"⟩ ⟨shownTree, []⟩)).map Failure.text =
        some ("Duplicate service name: A (//gen/trpc/\ufffd/a.proto) and " ++
          "AService (//gen/trpc/\ufffd/a.proto) both map to router field 'A'") ∧
      shownTree.at? ⟨"/gen/trpc/\ufffd/a_connectquery.ts"⟩ = none ∧
      ((Job.treeAfter (run shownOptions naming ⟨"/scratch"⟩ ⟨shownTree, []⟩)).at?
        ⟨"/gen/trpc/\ufffd/a_connectquery.ts"⟩).isSome = true) := by
  decide +kernel

end TrpcRouters.Generation
