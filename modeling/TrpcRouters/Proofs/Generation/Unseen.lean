import TrpcRouters.Proofs.Generation.Call
import TrpcRouters.Proofs.Undisturbed

/-! A run leaves the definition files alone, whether it ends well or fails: all that it writes itself is
called otherwise, so a watcher sees no more than what the compiler does to them. -/

namespace TrpcRouters

namespace Path

theorem exists_fileName {path : Path} {ending : Bytes} (ends : ending <:+ path.raw.bytes)
    (whole : slash ∉ ending) {byte : UInt8} (closed : ending.getLast? = some byte) (other : byte ≠ dot) :
    ∃ name, path.fileName? = some name ∧ ending <:+ name.bytes := by
  obtain ⟨front, bytes⟩ := ends
  let name : RawString := ⟨(front.reverse.takeWhile (· ≠ slash)).reverse ++ ending⟩
  have last : (Text.cut slash path.raw.bytes).getLast? = some name.bytes := by
    rw [Text.getLast?_cut, ← bytes, List.reverse_append, List.takeWhile_append_of_pos, List.reverse_append,
      List.reverse_reverse]
    intro byte member
    simpa using ne_of_mem_of_not_mem (List.mem_reverse.mp member) whole
  obtain ⟨before, segments⟩ := List.getLast?_eq_some_iff.mp last
  have named : IsName name :=
    isName_of_mem (List.mem_append_right _ (List.mem_of_getLast? closed)) other
      (Text.notMem_of_mem_cut (List.mem_of_getLast? last))
  refine ⟨name, ?_, List.suffix_append _ _⟩
  have components : path.components = path.lead ++ before.filterMap componentOf ++ [.name name] := by
    rw [components, Path.segments, segments, List.filterMap_append, List.append_assoc]
    simp [componentOf_toList named]
  rw [fileName?, components, List.getLast?_concat]

theorem suffix_child (path : Path) (name : RawString) : name.bytes <:+ (path.child name).raw.bytes := by
  unfold child join
  split
  · exact List.suffix_refl _
  · split
    · exact ⟨path.raw.bytes, by simp⟩
    · exact ⟨path.raw.bytes ++ [slash], by simp⟩

/-- The path of a file that is none of the definition files. -/
def IsOther (path : Path) : Prop :=
  ∃ name, path.fileName? = some name ∧ ¬Discovery.IsProtoName name

theorem IsOther.of_suffix {path : Path} {ending : Bytes} (ends : ending <:+ path.raw.bytes)
    (whole : slash ∉ ending) (byte : UInt8) (closed : ending.getLast? = some byte)
    (other : byte ≠ dot ∧ byte ≠ 0x6f) : path.IsOther := by
  obtain ⟨name, called, front, spelled⟩ := exists_fileName ends whole closed other.1
  refine ⟨name, called, Discovery.not_isProtoName_of_getLast? ?_ other.2⟩
  rw [← spelled, List.getLast?_append, closed]
  rfl

theorem IsOther.of_module {path : Path} (ends : (RawString.ofText ".ts").bytes <:+ path.raw.bytes) :
    path.IsOther :=
  .of_suffix ends (by decide) 0x73 (by decide) (by decide)

theorem isOther_module_child (path : Path) (stem : String) : (path.child (.ofText (stem ++ ".ts"))).IsOther := by
  have ends : (RawString.ofText ".ts").bytes <:+ (RawString.ofText (stem ++ ".ts")).bytes := by
    rw [RawString.ofText_append]
    exact List.suffix_append _ _
  exact .of_module (ends.trans (suffix_child _ _))

theorem isOther_trpcFile (output : OutputTree) (stem : String) : (output.trpcFile stem).IsOther :=
  isOther_module_child _ stem

theorem isOther_routerFile (output : OutputTree) (service : String) : (output.routerFile service).IsOther :=
  isOther_module_child _ (Identifier.router service)

theorem isOther_module (output : OutputTree) (protoFile : String) :
    (ConnectQuery.file output protoFile).IsOther :=
  .of_module (List.suffix_append _ _)

theorem isOther_packageMarker (output : OutputTree) : output.packageMarker.IsOther :=
  .of_suffix (suffix_child _ "package.json") (by decide) 0x6e (by decide) (by decide)

end Path

namespace Generation
open FileTree Discovery

abbrev Keeps {α : Type} (kept : List Place) (tree : FileTree) (job : Job α) : Prop :=
  Job.Meets (fun world => Undisturbed kept tree world.tree) job
    (fun _ world => Undisturbed kept tree world.tree) (fun _ world => Undisturbed kept tree world.tree)

namespace Keeps
variable {α β : Type} {kept : List Place} {tree : FileTree}

theorem pure (value : α) : Keeps kept tree (Pure.pure value) :=
  Job.Meets.pure fun _ undisturbed => undisturbed

theorem bind {job : Job α} {next : α → Job β} (first : Keeps kept tree job)
    (second : ∀ value, Keeps kept tree (next value)) : Keeps kept tree (job >>= next) :=
  Job.Meets.bind _ first second

theorem report (event : Event) : Keeps kept tree (Job.report event) :=
  Job.Meets.report fun _ undisturbed => undisturbed

theorem say (line : String) : Keeps kept tree (Job.say line) :=
  report (.progress line)

theorem ask (question : FileTree → α) : Keeps kept tree (Job.ask question) :=
  Job.Meets.ask.weaken fun _ _ asked => asked.1

theorem ofExcept {ε : Type} (explain : ε → Failure) (result : Except ε α) :
    Keeps kept tree (Job.ofExcept explain result) :=
  Job.Meets.ofExcept (fun _ _ _ undisturbed => undisturbed) fun _ _ _ undisturbed => undisturbed

theorem forM {elements : List α} {body : α → Job Unit} (step : ∀ element, Keeps kept tree (body element)) :
    Keeps kept tree (elements.forM body) :=
  Job.Meets.forM fun element _ => step element

theorem makeDirectories (path : Path) : Keeps kept tree (Job.makeDirectories path) := by
  constructor
  intro world undisturbed
  rw [Job.makeDirectories_eq]
  rcases made : world.tree.makeDirectories path with ⟨after, _ | error⟩
  · exact undisturbed.trans (.of_makeDirectories undisturbed.sound undisturbed.free made)
  · exact undisturbed.trans (.of_makeDirectories undisturbed.sound undisturbed.free made)

theorem write {path : Path} (other : path.IsOther) (content : String) :
    Keeps kept tree (Job.write path content) := by
  obtain ⟨name, called, other⟩ := other
  refine Job.Meets.bind (fun value world => Undisturbed kept tree world.tree ∧ value = world)
    ⟨fun _ undisturbed => ⟨undisturbed, rfl⟩⟩ fun world => ⟨?_⟩
  rintro _ ⟨undisturbed, rfl⟩
  cases written : world.tree.write path (Text.encode content) with
  | ok after => exact undisturbed.trans (.of_write undisturbed.sound undisturbed.free called other written)
  | error error => exact undisturbed

theorem emit {path : Path} (other : path.IsOther) (content : String) :
    Keeps kept tree (Job.emit path content) := by
  rw [Job.emit_eq]
  cases path.parent? with
  | none => exact write other content
  | some above => exact (makeDirectories above).bind fun _ => write other content

theorem adaptDeclarations (root : Path) : Keeps kept tree (adaptDeclarations root) := by
  unfold Generation.adaptDeclarations
  refine bind (Job.Meets.change fun world undisturbed => ?_) fun changed => ofExcept _ changed
  exact undisturbed.trans (.of_pass undisturbed.sound undisturbed.free root)

theorem loadServices (file : Path) (requested : List String) :
    Keeps kept tree (loadServices file requested) := by
  unfold Generation.loadServices
  refine bind (ask _) fun loaded => bind (ofExcept _ loaded) fun set => ?_
  exact bind (forM fun name => report (.missing name)) fun _ => pure _

theorem emitConnectQueries (output : OutputTree) (services : List Service) :
    Keeps kept tree (emitConnectQueries output services) := by
  unfold Generation.emitConnectQueries
  refine bind (Job.Meets.forM fun entry member => ?_) fun _ => pure _
  obtain ⟨group, _, rfl⟩ := List.mem_map.mp member
  exact emit (Path.isOther_module output group.1) _

theorem requireDistinct (services : List Service) : Keeps kept tree (requireDistinct services) := by
  unfold Generation.requireDistinct
  split
  · exact Job.Meets.throw fun _ undisturbed => undisturbed
  · exact pure ()

theorem emitRouters (output : OutputTree) (rules : VerbRules) (services : List Service) :
    Keeps kept tree (emitRouters output rules services) := by
  unfold Generation.emitRouters
  refine bind (requireDistinct services) fun _ => bind (forM fun service => ?_) fun _ => pure _
  exact emit (Path.isOther_routerFile output service.name) _

theorem emitRouterTree (output : OutputTree) (rules : VerbRules) (services : List Service) :
    Keeps kept tree (emitRouterTree output rules services) := by
  unfold Generation.emitRouterTree emitFactory emitAggregate emitIndex
  refine bind (requireDistinct services) fun _ => bind (say _) fun _ => ?_
  refine bind (emit (Path.isOther_trpcFile output _) _) fun _ => bind (say _) fun _ => ?_
  refine bind (emitRouters output rules services) fun written => bind (say _) fun _ => ?_
  refine bind (emit (Path.isOther_trpcFile output _) _) fun _ => bind (say _) fun _ => ?_
  exact emit (Path.isOther_trpcFile output _) _

theorem emitAll (options : Options) (protoRoot : Path) (output : OutputTree) (files : List Path)
    (descriptorSet : Path) : Keeps kept tree (emitAll options protoRoot output files descriptorSet) := by
  have ending : Keeps kept tree (do
      Job.say "Emitting package.json..."
      emitPackageMarker output
      Job.say "Code generation complete.") :=
    bind (say _) fun _ => bind (emit (Path.isOther_packageMarker output) _) fun _ => say _
  unfold Generation.emitAll
  refine bind (say _) fun _ => bind (adaptDeclarations output.connect) fun _ => bind (say _) fun _ => ?_
  refine bind (loadServices descriptorSet _) fun services => bind (say _) fun _ => ?_
  refine bind (emitConnectQueries output services) fun _ => ?_
  cases options.connectOnly with
  | true => exact bind (say _) fun _ => ending
  | false => exact bind (emitRouterTree output options.rules services) fun _ => ending

end Keeps

/-- The places that the root of the definition files leads past. -/
def Options.way (options : Options) (tree : FileTree) : List Place :=
  trail [] (options.definitions tree).steps

theorem treeAfter_closed (scratch : Path) (outcome : Job.Outcome) :
    Job.treeAfter (closed scratch outcome) = (Job.treeAfter outcome).uninstall scratch := by
  cases outcome <;> rfl

theorem treeAfter_answered (answer : Compiler.Answer) (log : List Event) :
    Job.treeAfter (Compiler.answered answer log) = answer.1 := by
  rcases answer with ⟨tree, error | finished⟩
  · rfl
  · unfold Compiler.answered
    simp only
    split <;> rfl

theorem meets_iff {before : World → Prop} {job : Job Unit} {holds : FileTree → Prop} :
    Job.Meets before job (fun _ world => holds world.tree) (fun _ world => holds world.tree) ↔
      ∀ world, before world → holds (Job.treeAfter (job world)) := by
  constructor
  · intro meets world start
    have ended := meets.run world start
    cases result : job world <;> rw [result] at ended <;> exact ended
  · refine fun held => ⟨fun world start => ?_⟩
    have ended := held world start
    cases result : job world <;> rw [result] at ended <;> exact ended

section Run
variable {options : Options} {executor : Executor} {scratch : Path} {tree : FileTree} {kept : List Place}

theorem undisturbed_prepared (sound : tree.Sound) (free : tree.LinkFree []) {opened made : FileTree}
    (opens : tree.makeDirectory scratch = .ok opened) {config : CompilerConfig} {request : CompileRequest}
    {outcome : Except Failure Command}
    (prepares : Compiler.prepared config request opened = (made, outcome)) : Undisturbed kept tree made := by
  have opening : Undisturbed kept tree opened := .of_makeDirectory sound free opens
  obtain ⟨error, makes, _⟩ := Compiler.prepared_spec prepares
  exact opening.trans (.of_makeDirectories opening.sound opening.free makes)

/-- A run that fails before it makes its scratch directory changes nothing. -/
theorem treeAfter_run (options : Options) (executor : Executor) (scratch : Path) (tree : FileTree) :
    Job.treeAfter (run options executor scratch ⟨tree, []⟩) = tree ∨
      ∃ protoRoot root files, tree.absolute options.protoRoot = .ok protoRoot ∧
        tree.absolute options.output = .ok root ∧ discover tree protoRoot = .ok files ∧
        files.isEmpty = false := by
  cases definitions : tree.absolute options.protoRoot with
  | error error =>
    left
    simp only [run, Job.bind_eq, Job.absolute_eq, definitions]
    rfl
  | ok protoRoot =>
  cases generated : tree.absolute options.output with
  | error error =>
    left
    simp only [run, Job.bind_eq, Job.absolute_eq, definitions, generated]
    rfl
  | ok root =>
  cases found : discover tree protoRoot with
  | error error =>
    left
    simp only [run, Job.bind_eq, Job.absolute_eq, definitions, generated, Job.say, Job.report_eq,
      Job.ask_eq, Job.ofExcept_eq, found]
    rfl
  | ok files =>
  cases some_ : files.isEmpty with
  | true =>
    left
    simp only [run, Job.bind_eq, Job.absolute_eq, definitions, generated, Job.say, Job.report_eq,
      Job.ask_eq, Job.ofExcept_eq, found, some_]
    rfl
  | false => exact .inr ⟨protoRoot, root, files, rfl, rfl, found, some_⟩

theorem undisturbed_run (sound : tree.Sound) (free : tree.LinkFree []) {protoRoot root : Path}
    {files : List Path} (definitions : tree.absolute options.protoRoot = .ok protoRoot)
    (generated : tree.absolute options.output = .ok root) (found : discover tree protoRoot = .ok files)
    (some_ : files.isEmpty = false)
    (quiet : ∀ command made, call? options scratch tree = some (command, made) →
      Undisturbed kept made (executor command made).1) :
    Undisturbed kept tree (Job.treeAfter (run options executor scratch ⟨tree, []⟩)) := by
  have calling := call?_of_files scratch definitions generated found some_
  rw [run_of_files scratch definitions generated found some_, withScratch_eq]
  cases opens : tree.makeDirectory scratch with
  | error error => exact .refl kept sound free
  | ok opened =>
    simp only [opens] at calling
    rw [treeAfter_closed]
    refine Undisturbed.uninstall ?_ sound free opens
    have compiles : Job.Meets (fun world => world.tree = opened)
        (Compiler.run executor options.compiler (request protoRoot root scratch files))
        (fun _ world => Undisturbed kept tree world.tree)
        (fun _ world => Undisturbed kept tree world.tree) := by
      refine meets_iff.mpr fun world same => ?_
      rw [Compiler.run_eq _ _ some_, same]
      rcases prepares : Compiler.prepared options.compiler (request protoRoot root scratch files) opened with
        ⟨made, failure | command⟩
      · exact undisturbed_prepared sound free opens prepares
      · rw [prepares] at calling
        simp only [treeAfter_answered]
        exact (undisturbed_prepared sound free opens prepares).trans (quiet command made calling)
    exact meets_iff.mp (compiles.bind _ fun _ => Keeps.emitAll options protoRoot ⟨root⟩ files
      (descriptorSet scratch)) _ rfl

theorem undisturbed_called (sound : tree.Sound) (free : tree.LinkFree []) {command : Command}
    {made : FileTree} (called : call? options scratch tree = some (command, made)) :
    Undisturbed kept tree made := by
  cases run_course options scratch tree with
  | aborts _ _ _ none_ => rw [none_] at called; cases called
  | calls call same =>
    rw [same] at called
    cases called
    have opening : Undisturbed kept tree call.opened := .of_makeDirectory sound free call.opens
    exact opening.trans (.of_makeDirectories opening.sound opening.free call.makes)

/-- A run does not bring about another one. Whether it ends well or fails at any stage, wherever its output
goes, a poll and a discovery find after it what they found before, if there are no links and the compiler
makes none, makes, changes and takes away no definition file, and keeps the directories that the path of
their root leads past. -/
theorem run_unseen (sound : tree.Sound) (free : tree.LinkFree [])
    (strippable : options.protoRoot.Strippable) (strippable' : (options.definitions tree).Strippable)
    (quiet : ∀ command made, call? options scratch tree = some (command, made) →
      Undisturbed (options.way tree) made (executor command made).1) :
    let after := Job.treeAfter (run options executor scratch ⟨tree, []⟩)
    Watch.capture after options.protoRoot = Watch.capture tree options.protoRoot ∧
      discover after options.protoRoot = discover tree options.protoRoot ∧
      ∀ watcher : Watch.Watcher, watcher.root = options.protoRoot →
        ((watcher.poll tree).2.poll after).1 = false := by
  intro after
  suffices seen : Watch.capture after options.protoRoot = Watch.capture tree options.protoRoot ∧
      discover after options.protoRoot = discover tree options.protoRoot by
    refine ⟨seen.1, seen.2, fun watcher watched => ?_⟩
    simp [Watch.Watcher.poll, watched, seen.1]
  rcases treeAfter_run options executor scratch tree with same | ⟨protoRoot, root, files, definitions,
    generated, found, some_⟩
  · rw [show after = tree from same]
    exact ⟨rfl, rfl⟩
  · rw [Options.way, Options.definitions_eq definitions] at quiet
    rw [Options.definitions_eq definitions] at strippable'
    have undisturbed := undisturbed_run sound free definitions generated found some_ quiet
    exact undisturbed.sees sound free strippable strippable' definitions found some_

end Run

def nearTree : FileTree where
  nodes := [(["p"], .directory), (["a.proto", "p"], .file [] 0 false)]
  workingDirectory := ["p"]
  clock := 0

def nearFiles : List (Place × Bytes) :=
  [(["descriptors.binpb", "scratch"], Text.encode "\n\x0e\n\x07a.proto2\x03\n\x01A"),
    (["a_pb.d.ts", "connect", "p"],
      Text.encode "import \x7b Message, proto3 \x7d from \"@bufbuild/protobuf\";")]

def nearOptions : Options :=
  ⟨⟨"."⟩, ⟨"."⟩, .default, .none, false⟩

def supplyingNear : Executor := fun _ tree =>
  (tree.putFiles nearFiles, .ok ⟨.exited 0, [], []⟩)

theorem near_takes : ∀ answer ∈ call? nearOptions ⟨"/scratch"⟩ nearTree,
    ∀ entry ∈ nearFiles, answer.2.Takes entry.1 := by
  decide +kernel

theorem near_unseen :
    let outcome := run nearOptions supplyingNear ⟨"/scratch"⟩ ⟨nearTree, []⟩
    Job.failure? outcome = none ∧ ((Job.treeAfter outcome).at? ⟨"/p/trpc/index.ts"⟩).isSome = true ∧
      Watch.capture nearTree ⟨"."⟩ = [⟨⟨"./a.proto"⟩, some 0, 0⟩] ∧
      Watch.capture (Job.treeAfter outcome) ⟨"."⟩ = Watch.capture nearTree ⟨"."⟩ ∧
      discover (Job.treeAfter outcome) ⟨"."⟩ = discover nearTree ⟨"."⟩ := by
  intro outcome
  have sound : nearTree.Sound := by decide
  have free : nearTree.LinkFree [] := LinkFree.of_nodes (by simp [nearTree]) []
  have quiet : ∀ command made, call? nearOptions ⟨"/scratch"⟩ nearTree = some (command, made) →
      Undisturbed (nearOptions.way nearTree) made (supplyingNear command made).1 := by
    intro command made called
    have undisturbed : Undisturbed (nearOptions.way nearTree) nearTree made :=
      undisturbed_called sound free called
    refine .of_overlaid undisturbed.free (.of_putFiles undisturbed.sound (near_takes _ called)) ?_
    intro name above proto
    refine Files.ofList_eq_none_iff.mpr fun entry member here => ?_
    have other : ∀ entry ∈ nearFiles, ∀ last ∈ entry.1.head?, ¬IsProtoName last := by decide
    exact other entry member name (by rw [here]; rfl) proto
  obtain ⟨same, found, _⟩ := run_unseen sound free (by decide) (by decide +kernel) quiet
  refine ⟨?_, ?_, by decide +kernel, same, found⟩ <;> decide +kernel

/-- The second tree has no definition file that the first has not. -/
def MakesNone (before after : FileTree) : Prop :=
  ∀ name above content stamp executable, IsProtoName name →
    after.node? (name :: above) = some (.file content stamp executable) →
      before.node? (name :: above) = some (.file content stamp executable)

theorem makesNone_put (tree : FileTree) {place : Place} (inside : place ≠ []) {node : Node}
    (way : node.IsWay) : MakesNone tree (tree.put place node) := by
  intro name above content stamp executable _ held
  rw [node?_put _ _ _ _ inside] at held
  split at held
  · cases held
    exact absurd way (Node.not_isWay_file _ _ _)
  · exact held

theorem makesNone_remove (tree : FileTree) {place : Place} (inside : place ≠ []) :
    MakesNone tree (tree.remove place) := by
  intro name above content stamp executable _ held
  rw [node?_remove _ inside] at held
  split at held
  · cases held
  · exact held

/-- A compiler that makes and changes no definition file, but a watcher sees its run. -/
structure Seen (root output : String) (edit : FileTree → FileTree) (tree : FileTree) : Prop where
  sound : tree.Sound
  free : tree.LinkFree []
  makesNone (made : FileTree) : MakesNone made (edit made)
  seen : let after := Job.treeAfter (run ⟨⟨root⟩, ⟨output⟩, .default, .none, false⟩
      (fun _ made => (edit made, .ok ⟨.exited 0, [], []⟩)) ⟨"/scratch"⟩ ⟨tree, []⟩)
    (((Watch.Watcher.ofRoot ⟨root⟩).poll tree).2.poll after).1 = true ∧
      discover after ⟨root⟩ ≠ discover tree ⟨root⟩

/-- Two directories with definition files. -/
def linkedTree : FileTree where
  nodes := [(["p"], .directory), (["a.proto", "p"], .file [] 0 false), (["other"], .directory),
    (["x.proto", "other"], .file [] 0 false)]
  workingDirectory := []
  clock := 0

/-- A definition file, and an empty directory beside it. -/
def passedTree : FileTree where
  nodes := [(["p"], .directory), (["a.proto", "p"], .file [] 0 false), (["sub", "p"], .directory)]
  workingDirectory := []
  clock := 0

/-- A working directory without a text, and beside it a directory that is called as it is shown. -/
def illegibleHome : FileTree where
  nodes := [([⟨[0xff]⟩], .directory), (["p", ⟨[0xff]⟩], .directory),
    (["a.proto", "p", ⟨[0xff]⟩], .file [] 0 false), (["\ufffd"], .directory), (["new", "\ufffd"], .directory),
    (["p", "\ufffd"], .directory), (["a.proto", "p", "\ufffd"], .file [] 0 false)]
  workingDirectory := [⟨[0xff]⟩]
  clock := 0

/-- A run is seen if the compiler makes a link to other definition files, takes a definition file away,
takes away a directory that the path of their root leads past, or shuts one of theirs; and if the absolute
form of their root has no text and ends in a separator. -/
theorem runs_seen :
    Seen "/p" "/p" (fun tree => tree.put ["q", "connect", "p"] (.link ⟨"../../other"⟩)) linkedTree ∧
    Seen "/p" "/gen" (fun tree => tree.remove ["a.proto", "p"]) passedTree ∧
    Seen "/p/sub/.." "/gen" (fun tree => tree.remove ["sub", "p"]) passedTree ∧
    Seen "/p" "/gen" (fun tree => { tree with closed := [["p"]] }) passedTree ∧
    Seen "new/../p/" "new/x" id illegibleHome := by
  have linkFree : linkedTree.LinkFree [] := LinkFree.of_nodes (by simp [linkedTree]) []
  have passedFree : passedTree.LinkFree [] := LinkFree.of_nodes (by simp [passedTree]) []
  have homeFree : illegibleHome.LinkFree [] := LinkFree.of_nodes (by simp [illegibleHome]) []
  refine ⟨⟨by decide, linkFree, fun made => makesNone_put made (by simp) (by simp [Node.IsWay]), ?_⟩,
    ⟨by decide, passedFree, fun made => makesNone_remove made (by simp), ?_⟩,
    ⟨by decide, passedFree, fun made => makesNone_remove made (by simp), ?_⟩,
    ⟨by decide, passedFree, fun _ _ _ _ _ _ _ held => held, ?_⟩,
    ⟨by decide, homeFree, fun _ _ _ _ _ _ _ held => held, ?_⟩⟩ <;> decide +kernel

end Generation

end TrpcRouters
