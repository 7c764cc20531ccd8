import TrpcRouters.Proofs.Generation.Placement
import TrpcRouters.Proofs.Generation.Writing
import TrpcRouters.Proofs.Rediscovery

/-! How the tree that a run leaves is composed, if it ends well: the generated files over the adapted
declaration files over what the compiler delivers over the initial tree. A further run finds the same
definition files and composes the same tree. -/

namespace TrpcRouters.Generation
open FileTree

/-- What the compiler leaves whenever it is called. -/
structure Delivery where
  /-- The content of the descriptor set. -/
  set : Bytes
  /-- The files below its output directory, each with the names on the way to it. -/
  files : List (List RawString × Bytes)
deriving DecidableEq, Inhabited, Repr

namespace Delivery

def modules (delivery : Delivery) (connect : Place) : Files :=
  .ofList (delivery.files.map fun file => (file.1.reverse ++ connect, file.2))

theorem modules_eq_none_iff {delivery : Delivery} {connect there : Place} :
    delivery.modules connect there = none ↔
      ∀ file ∈ delivery.files, file.1.reverse ++ connect ≠ there :=
  Files.ofList_map_eq_none_iff

/-- All files, the descriptor set in the scratch directory among them. -/
def whole (delivery : Delivery) (connect opened : Place) : Files :=
  (Files.single (.ofText "descriptors.binpb" :: opened) delivery.set).atop (delivery.modules connect)

def entries (delivery : Delivery) (connect opened : Place) : List (Place × Bytes) :=
  delivery.files.map (fun file => (file.1.reverse ++ connect, file.2)) ++
    [(.ofText "descriptors.binpb" :: opened, delivery.set)]

theorem whole_eq (delivery : Delivery) (connect opened : Place) :
    delivery.whole connect opened = .ofList (delivery.entries connect opened) :=
  (Files.ofList_concat _ _ _).symm

theorem whole_of_apart (delivery : Delivery) {connect opened place : Place} (apart : ¬opened <:+ place) :
    delivery.whole connect opened place = delivery.modules connect place := by
  have other : place ≠ .ofText "descriptors.binpb" :: opened := by
    rintro rfl
    exact apart (List.suffix_cons _ _)
  rw [whole, Files.atop, Files.single, if_neg other, Option.none_or]

end Delivery

def Options.requested (options : Options) (tree : FileTree) : List String :=
  Discovery.namesBelow (options.definitions tree)
    ((Discovery.discover tree (options.definitions tree)).toOption.getD [])

def Options.emitted (options : Options) (set : Descriptor.FileSet) (tree : FileTree) :
    List (Path × String) :=
  Generation.emitted (options.generated tree) options.rules (set.services (options.requested tree))

/-- A call of the compiler that leaves what is to be delivered and makes directories at most. The scratch
directory is away from the generated files. -/
structure Supplied (executor : Executor) (delivery : Delivery) (root : Path)
    (entries : List (Path × String)) (command : Command) (made : FileTree) (place opened : Place) :
    Prop where
  overlaid : Overlaid (delivery.whole (.ofText "connect" :: place) opened) made (executor command made).1
  aside : (made.remove opened).Leads [] root.names place
  spared : ∀ entry ∈ entries, ¬opened <:+ spot root place entry.1
  spared' : ∀ file ∈ delivery.files, ¬opened <:+ file.1.reverse ++ .ofText "connect" :: place

/-- A run that ends well, with a compiler that delivers, and without links in the tree of generated
files. -/
structure Success (options : Options) (executor : Executor) (scratch : Path) (delivery : Delivery)
    (set : Descriptor.FileSet) (tree : FileTree) (world : World) : Prop where
  sound : tree.Sound
  strippable : (options.definitions tree).Strippable
  decoded : Descriptor.FileSet.decode delivery.set = .ok set
  free : ∀ command made, call? options scratch tree = some (command, made) →
    ∀ place, made.Leads [] (options.generated tree).root.names place → tree.LinkFree place
  supplied : ∀ command made, call? options scratch tree = some (command, made) →
    ∀ place opened, made.Leads [] (options.generated tree).root.names place →
      made.Leads (made.start scratch) scratch.names opened →
      Supplied executor delivery (options.generated tree).root (options.emitted set tree) command made
        place opened
  ended : run options executor scratch ⟨tree, []⟩ = .ok () world

/-- The files that a run leaves outside its scratch directory, over those that it starts from. -/
def composed (delivery : Delivery) (output : OutputTree) (entries : List (Path × String))
    (compiled : FileTree) (place opened : Place) : Files :=
  fun there => if opened <:+ there then none else
    ((laid output.root place entries).atop
      ((Declaration.adaptation output.connect (.ofText "connect" :: place) compiled).atop
        (delivery.whole (.ofText "connect" :: place) opened))) there

structure Composed (options : Options) (executor : Executor) (scratch : Path) (delivery : Delivery)
    (set : Descriptor.FileSet) (tree : FileTree) (after : FileTree) (place opened : Place)
    (compiled : FileTree) : Prop where
  sound : tree.Sound
  tidy : (options.generated tree).root.Tidy
  found : ∃ paths, paths ≠ [] ∧ Discovery.discover tree (options.definitions tree) = .ok paths
  inside : opened ≠ []
  vacant : tree.node? opened = none
  delivered : Overlaid (delivery.whole (.ofText "connect" :: place) opened) tree compiled
  left : left options executor scratch tree = compiled.remove opened
  overlaid : Overlaid (composed delivery (options.generated tree) (options.emitted set tree)
    compiled place opened) tree after
  gone : after.node? opened = none
  leads : after.Leads [] (options.generated tree).root.names place
  free : after.LinkFree place
  texts : ∀ there, Declaration.Reaches tree.closed (options.generated tree).connect
    (.ofText "connect" :: place) there → ∀ content, compiled.file? there = some content →
      (Declaration.rewritten? content).isSome = true
  fits : ∀ entry ∈ options.emitted set tree,
    Fits entry.1 ∧ Short (entry.1.names.drop (options.generated tree).root.names.length)
  placeable : Placeable (set.services (options.requested tree))
  distinct : Aggregate.duplicate? (set.services (options.requested tree)) = none
  spared : ∀ entry ∈ options.emitted set tree, ¬opened <:+ spot (options.generated tree).root place entry.1
  spared' : ∀ file ∈ delivery.files, ¬opened <:+ file.1.reverse ++ .ofText "connect" :: place

section
variable {options : Options} {executor : Executor} {scratch : Path} {delivery : Delivery}
  {set : Descriptor.FileSet} {tree : FileTree} {world : World}

theorem placeable_services (named : ∀ file ∈ set, ∀ service ∈ file.services,
      '/' ∉ (service.name.getD "").toList) {requested : List String}
    (asked : ∀ name ∈ requested, ∃ names, Discovery.Requested name names) :
    Placeable (set.services requested) := by
  intro service member
  obtain ⟨whole, inside⟩ := Scene.loaded_services named requested service member
  exact ⟨whole, asked _ inside⟩

theorem Options.requested_eq (call : Call options scratch tree) :
    options.requested tree = Discovery.namesBelow call.protoRoot call.files := by
  rw [requested, Options.definitions_eq call.definitions, call.found]
  rfl

theorem Call.files_ne_nil (call : Call options scratch tree)
    (called : call? options scratch tree = some (call.command, call.made)) : call.files ≠ [] := by
  intro none_
  have found := call.found
  rw [none_] at found
  simp [call?, call.definitions, call.generated, found, Except.toOption] at called

theorem Call.exists_of_finish {call : Call options scratch tree} {answer : Compiler.Answer}
    (ended : call.finish answer = .ok () world) :
    ∃ last, emitAll options call.protoRoot ⟨call.root⟩ call.files (descriptorSet scratch)
        ⟨answer.1, call.log⟩ = .ok () last ∧
      world = { last with tree := last.tree.uninstall scratch } := by
  obtain ⟨after, error | finished⟩ := answer
  · cases ended
  · unfold finish Compiler.answered at ended
    by_cases succeeded : finished.status.succeeded = true
    · simp only [succeeded, ↓reduceIte] at ended
      cases result : emitAll options call.protoRoot ⟨call.root⟩ call.files (descriptorSet scratch)
        ⟨after, call.log⟩ with
      | error failure last =>
        rw [result] at ended
        cases ended
      | ok value last =>
        rw [result] at ended
        cases ended
        exact ⟨last, rfl, rfl⟩
    · simp only [succeeded] at ended
      cases ended

structure Delivered (executor : Executor) (delivery : Delivery) (entries : List (Path × String))
    (call : Call options scratch tree) (place opened : Place) : Prop where
  placed : Placed call place (.ofText "connect" :: place) opened
  supplied : Supplied executor delivery call.root entries call.command call.made place opened
  free : call.made.LinkFree place

theorem Success.exists_delivered (success : Success options executor scratch delivery set tree world)
    (call : Call options scratch tree)
    (called : call? options scratch tree = some (call.command, call.made)) :
    scratch.isEmpty = false ∧ ∃ place opened,
      Delivered executor delivery (options.emitted set tree) call place opened := by
  have output_ := Options.generated_eq call.generated
  obtain ⟨some_, place, connect, opened, placed⟩ := call.exists_placed success.sound
  have leads : call.made.Leads [] (options.generated tree).root.names place := by
    rw [output_]
    exact placed.leads
  have supplied := success.supplied _ _ called place opened leads placed.scratchLeads
  rw [output_] at supplied
  have free := (success.free _ _ called place leads).grows placed.overlaid.grows
  obtain rfl : connect = .ofText "connect" :: place :=
    placed.leads.below free (.start (success.sound.tidy_absolute call.generated) (by decide))
      placed.connectLeads
  exact ⟨some_, place, opened, placed, supplied, free⟩

theorem Success.placeable (success : Success options executor scratch delivery set tree world)
    (call : Call options scratch tree)
    (named : ∀ file ∈ set, ∀ service ∈ file.services, '/' ∉ (service.name.getD "").toList) :
    Placeable (set.services (options.requested tree)) := by
  have strippable := success.strippable
  rw [Options.definitions_eq call.definitions] at strippable
  refine placeable_services named ?_
  rw [Options.requested_eq call]
  exact Discovery.requested_of_mem_namesBelow success.sound (success.sound.tidy_absolute call.definitions).1
    strippable call.found

namespace Delivered
variable {entries : List (Path × String)} {call : Call options scratch tree} {place opened : Place}

theorem grows (delivered : Delivered executor delivery entries call place opened) :
    Grows call.made (executor call.command call.made).1 :=
  delivered.supplied.overlaid.grows

theorem compiled (delivered : Delivered executor delivery entries call place opened) :
    Overlaid (delivery.whole (.ofText "connect" :: place) opened) tree (executor call.command call.made).1 := by
  have compiled := delivered.placed.overlaid.trans delivered.supplied.overlaid
  rwa [Files.atop_empty] at compiled

theorem held (delivered : Delivered executor delivery entries call place opened) :
    (executor call.command call.made).1.file? (.ofText "descriptors.binpb" :: opened) = some delivery.set := by
  apply delivered.supplied.overlaid.held
  simp [Delivery.whole, Files.atop, Files.single]

theorem scratchLeads (delivered : Delivered executor delivery entries call place opened) {later : FileTree}
    (grows : Grows (executor call.command call.made).1 later) :
    later.Leads (later.start scratch) scratch.names opened := by
  have whole := delivered.grows.trans grows
  rw [whole.alike.start]
  exact delivered.placed.scratchLeads.grows whole

theorem gone (delivered : Delivered executor delivery entries call place opened) {later : FileTree}
    (grows : Grows (executor call.command call.made).1 later) :
    later.uninstall scratch = later.remove opened :=
  delivered.placed.gone later (delivered.grows.trans grows).alike
    ⟨opened, delivered.scratchLeads grows⟩

def scene (delivered : Delivered executor delivery entries call place opened) (tidy : call.root.Tidy)
    (some_ : scratch.isEmpty = false)
    (decoded : Descriptor.FileSet.decode delivery.set = .ok set)
    (named : ∀ file ∈ set, ∀ service ∈ file.services, '/' ∉ (service.name.getD "").toList) : Scene where
  connectOnly := options.connectOnly
  protoRoot := call.protoRoot
  output := ⟨call.root⟩
  scratch
  command := call.command
  tree := (executor call.command call.made).1
  place
  connect := .ofText "connect" :: place
  opened
  tidy
  leads := delivered.placed.leads.grows delivered.grows
  connectLeads := delivered.placed.connectLeads.grows delivered.grows
  scratchLeads := delivered.scratchLeads (.refl _)
  scratchSome := some_
  plain := fun target link => delivered.placed.plain target (delivered.grows.link link)
  named := fun loaded result => by
    rw [Descriptor.FileSet.eq_of_load some_ (by decide) (delivered.scratchLeads (.refl _)) delivered.held
      decoded result]
    exact named

end Delivered

/-- What a run that ends well leaves is composed of what the compiler left and what the stages wrote. -/
theorem Success.exists_composed (success : Success options executor scratch delivery set tree world)
    (full : options.connectOnly = false)
    (named : ∀ file ∈ set, ∀ service ∈ file.services, '/' ∉ (service.name.getD "").toList) :
    ∃ place opened compiled,
      Composed options executor scratch delivery set tree world.tree place opened compiled := by
  have ended := success.ended
  have sound := success.sound
  cases run_course options scratch tree with
  | aborts stage failure world none_ aborted same =>
    rw [same executor] at ended
    cases ended
  | calls call called same =>
    rw [same executor] at ended
    have tidy := sound.tidy_absolute call.generated
    have output_ := Options.generated_eq call.generated
    have requested_ := Options.requested_eq call
    obtain ⟨some_, place, opened, delivered⟩ := success.exists_delivered call called
    have opens := delivered.placed.opens
    have placeable := success.placeable call named
    let scene := delivered.scene tidy some_ success.decoded named
    have free : scene.tree.LinkFree place := delivered.free.grows delivered.grows
    -- The stages start with what the compiler left, and end with what is laid over it.
    obtain ⟨last, finished, rfl⟩ := call.exists_of_finish ended
    have stages := (scene.emitAll_laid free delivered.placed.fits delivered.held success.decoded full
      (by rwa [requested_] at placeable)).run ⟨scene.tree, call.log⟩ ⟨rfl, delivered.supplied.overlaid.sound⟩
    rw [show emitAll options scene.protoRoot scene.output call.files
      (scene.scratch.child "descriptors.binpb") ⟨scene.tree, call.log⟩ = .ok () last from finished] at stages
    obtain ⟨laid, distinct, texts⟩ := stages
    have entries : Generation.emitted ⟨call.root⟩ options.rules
        (set.services (Discovery.namesBelow call.protoRoot call.files)) = options.emitted set tree := by
      rw [Options.emitted, output_, requested_]
    have after := laid.overlaid.grows
    have gone := delivered.gone after
    have whole := (delivered.compiled.trans laid.overlaid).remove sound opens.inside opens.vacant
    rw [Files.atop_assoc] at whole
    refine ⟨place, opened, scene.tree, sound, ?tidy, ?found, opens.inside, opens.vacant, delivered.compiled, ?left,
      ?overlaid, ?gone, ?leads, ?free, ?texts, ?fits, placeable, ?distinct, ?spared,
      delivered.supplied.spared'⟩
    case tidy =>
      rw [output_]
      exact tidy
    case found =>
      refine ⟨call.files, call.files_ne_nil called, ?_⟩
      rw [Options.definitions_eq call.definitions]
      exact call.found
    case left =>
      rw [left, called]
      exact delivered.gone (.refl _)
    case overlaid =>
      rw [gone, ← entries, output_]
      exact whole
    case gone =>
      rw [gone, node?_remove _ opens.inside, if_pos (List.suffix_refl _)]
    case leads =>
      rw [gone, output_]
      exact (delivered.grows.trans after).alike.leads_remove opens.inside (scene.leads.grows after)
        delivered.supplied.aside
    case free =>
      rw [gone]
      exact (free.grows after).remove opens.inside
    case texts =>
      rw [output_, ← delivered.compiled.grows.closed]
      exact texts
    case fits =>
      rw [← entries, output_]
      exact laid.fits
    case distinct =>
      rw [requested_]
      exact distinct
    case spared =>
      rw [output_]
      exact delivered.supplied.spared

namespace Composed
variable {after compiled : FileTree} {place opened : Place}

theorem file? (run : Composed options executor scratch delivery set tree after place opened compiled)
    (there : Place) :
    after.file? there = if opened <:+ there then none else
      (laid (options.generated tree).root place (options.emitted set tree) there).or
        (if Declaration.Reaches tree.closed (options.generated tree).connect (.ofText "connect" :: place)
            there then (compiled.file? there).bind Declaration.rewritten?
        else compiled.file? there) := by
  rw [run.overlaid.file?, composed]
  split
  next below =>
    obtain ⟨front, rfl⟩ := below
    rw [Option.none_or, FileTree.file?, run.sound.none_below run.vacant]
  next apart =>
    rw [Files.atop, Files.atop, Option.or_assoc, Option.or_assoc, ← run.delivered.file?,
      Declaration.adaptation, run.delivered.grows.closed]
    congr 1
    split
    next reaches =>
      cases held : compiled.file? there with
      | none => rfl
      | some content =>
        obtain ⟨rewritten, new⟩ := Option.isSome_iff_exists.mp (run.texts there reaches content held)
        rw [Option.bind_some, new, Option.some_or]
    next => rfl

theorem read (run : Composed options executor scratch delivery set tree after place opened compiled)
    (entry : Path × String) (member : entry ∈ options.emitted set tree) :
    after.read entry.1 = .ok (Text.encode entry.2) := by
  obtain ⟨_, rest, _, _, _, below⟩ := exists_stage_of_mem_emitted run.tidy run.placeable member
  obtain ⟨fits, short⟩ := run.fits entry member
  rw [below.names, List.drop_left] at short
  have whole : laid (options.generated tree).root place (options.emitted set tree)
      (spot (options.generated tree).root place entry.1) = some (Text.encode entry.2) :=
    laid_emitted run.tidy run.placeable run.distinct place member
  have there := run.file? (spot (options.generated tree).root place entry.1)
  rw [if_neg (run.spared entry member), whole, Option.some_or, spot_eq below] at there
  exact read_below run.overlaid.sound run.leads run.free below fits short there

theorem not_isProtoName
    (run : Composed options executor scratch delivery set tree after place opened compiled)
    (plain : ∀ file ∈ delivery.files, ∀ last, file.1.getLast? = some last → ¬Discovery.IsProtoName last)
    {name : RawString} {above : Place}
    (written : composed delivery (options.generated tree) (options.emitted set tree) compiled place
      opened (name :: above) ≠ none) : ¬Discovery.IsProtoName name := by
  unfold composed at written
  split at written
  · exact absurd rfl written
  next apart =>
    unfold Files.atop at written
    cases upper : laid (options.generated tree).root place (options.emitted set tree) (name :: above) with
    | some content =>
      have present : laid (options.generated tree).root place (options.emitted set tree)
          (name :: above) ≠ none := by simp [upper]
      exact not_isProtoName_of_laid run.tidy run.placeable present
    | none =>
      rw [upper, Option.none_or] at written
      by_cases reaches : Declaration.Reaches compiled.closed (options.generated tree).connect
        (.ofText "connect" :: place) (name :: above)
      · exact Stage.not_isProtoName_of_script (List.IsSuffix.trans (by decide) reaches.1.1)
      · rw [Declaration.adaptation, if_neg reaches, Option.none_or,
          delivery.whole_of_apart apart] at written
        obtain ⟨content, found⟩ := Option.ne_none_iff_exists'.mp written
        obtain ⟨file, member, same⟩ := List.mem_map.mp (Files.exists_of_ofList found)
        have there := congrArg Prod.fst same
        simp only at there
        obtain nothing | ⟨front, last, shape⟩ := List.eq_nil_or_concat file.1
        · rw [nothing, List.reverse_nil, List.nil_append] at there
          rw [← (List.cons.inj there).1]
          decide
        · rw [List.concat_eq_append] at shape
          rw [shape, List.reverse_concat, List.cons_append] at there
          rw [← (List.cons.inj there).1]
          exact plain file member last (by rw [shape, List.getLast?_concat])

theorem generated_eq (run : Composed options executor scratch delivery set tree after place opened compiled) :
    options.generated after = options.generated tree := by
  rw [Options.generated, Options.generated, FileTree.absolute, FileTree.absolute, run.overlaid.grows.home]

/-- If every link that led nowhere does so still, a further run asks for the same definition files. -/
theorem requested_eq (run : Composed options executor scratch delivery set tree after place opened compiled)
    (plain : ∀ file ∈ delivery.files, ∀ last, file.1.getLast? = some last → ¬Discovery.IsProtoName last)
    (links : ∀ directory name target, tree.node? (name :: directory) = some (.link target) →
      tree.Dangles directory name → after.Dangles directory name) :
    options.requested after = options.requested tree := by
  have definitions : options.definitions after = options.definitions tree := by
    rw [Options.definitions, Options.definitions, FileTree.absolute, FileTree.absolute,
      run.overlaid.grows.home]
  have spares : Discovery.Spares _ tree after :=
    { overlaid := run.overlaid
      sound := run.sound
      plain := run.not_isProtoName plain
      links := fun link => links _ _ _ link }
  obtain ⟨paths, some_, found⟩ := run.found
  rw [Options.requested, Options.requested, definitions, found, spares.discover_eq found some_]

theorem again {options : Options} {executor executor' : Executor} {scratch scratch' : Path}
    {tree after after' compiled compiled' : FileTree} {place place' opened opened' : Place}
    (run : Composed options executor scratch delivery set tree after place opened compiled)
    (run' : Composed options executor' scratch' delivery set after after' place' opened' compiled')
    (same : options.requested after = options.requested tree) (there : Place) :
    after'.file? there = after.file? there := by
  have output_ := run.generated_eq
  have entries : options.emitted set after = options.emitted set tree := by
    rw [Options.emitted, Options.emitted, output_, same]
  obtain rfl : place = place' := by
    have leads := run'.leads
    rw [output_] at leads
    have led := (run.leads.grows run'.overlaid.grows).symm.trans leads
    cases led
    rfl
  rw [run'.file?, entries, output_, run.overlaid.grows.closed]
  have first := run.file? there
  by_cases late : opened' <:+ there
  · obtain ⟨front, rfl⟩ := late
    rw [if_pos (List.suffix_append _ _), FileTree.file?, run'.sound.none_below run'.vacant]
  rw [if_neg late, run'.delivered.file?, delivery.whole_of_apart late]
  by_cases early : opened <:+ there
  · have nothing : laid (options.generated tree).root place (options.emitted set tree) there = none := by
      rw [laid_eq_none_iff]
      rintro entry member rfl
      exact run.spared entry member early
    have none_ : delivery.modules (.ofText "connect" :: place) there = none := by
      rw [Delivery.modules_eq_none_iff]
      rintro file member rfl
      exact run.spared' file member early
    rw [if_pos early] at first
    simp [first, nothing, none_]
  rw [if_neg early, run.delivered.file?, delivery.whole_of_apart early] at first
  cases upper : laid (options.generated tree).root place (options.emitted set tree) there with
  | some content => rw [first, upper, Option.some_or, Option.some_or]
  | none =>
    rw [upper, Option.none_or] at first
    rw [Option.none_or]
    -- What the compiler writes is the same in both runs, and what it does not is adapted already.
    cases made : delivery.modules (.ofText "connect" :: place) there with
    | some content =>
      rw [made, Option.some_or] at first
      rw [Option.some_or, first]
    | none =>
      rw [made, Option.none_or] at first
      rw [Option.none_or]
      split at first
      next reaches =>
        rw [if_pos reaches, first]
        cases held : tree.file? there with
        | none => rfl
        | some content =>
          cases new : Declaration.rewritten? content with
          | none => simp [new]
          | some rewritten => simp [new, Declaration.rewritten?_rewritten? new]
      next other => rw [if_neg other]

end Composed

end

end TrpcRouters.Generation
