import TrpcRouters.Proofs.Generation.Composition
import TrpcRouters.Proofs.Generation.Containment
import TrpcRouters.Proofs.Generation.Site

/-! Two runs from one tree, up to the answers of the compiler. One of them calls the compiler if the other
does, and in trees that are the same but for the scratch directories. -/

namespace TrpcRouters

namespace Compiler

/-- The compiler is called in one tree as in another if its output directory can be made there. -/
theorem exists_prepared {config : CompilerConfig} {request request' : CompileRequest}
    {tree tree' made made' : FileTree} {command : Command}
    (result : prepared config request tree = (made, .ok command)) (output : request'.output = request.output)
    (root : request'.protoRoot = request.protoRoot)
    (makes : tree'.makeDirectories request'.output = (made', none))
    (home : made'.workingDirectory = made.workingDirectory) :
    ∃ command', prepared config request' tree' = (made', .ok command') := by
  have absolute : ∀ path, made'.absolute path = made.absolute path := by
    intro path
    rw [FileTree.absolute, FileTree.absolute, home]
  rw [output] at makes
  unfold prepared at result ⊢
  simp only [output, root, makes, absolute]
  rcases first : tree.makeDirectories request.output with ⟨reached, _ | error⟩
  case some => simp [first] at result
  simp only [first] at result
  cases whole : reached.absolute request.output with
  | error error => simp [whole] at result
  | ok output =>
    simp only [whole] at result
    cases proto : reached.absolute request.protoRoot with
    | error error => simp [proto] at result
    | ok protoRoot =>
      simp only [proto] at result
      cases result
      simp only [whole, proto]
      exact ⟨_, rfl⟩

end Compiler

namespace Generation
open FileTree

/-- Two answers of the compiler that end alike and leave the same modules and the same descriptor set, each
in the place that it was asked for. They refuse the same to what comes after. -/
structure Likewise (connect scratch scratch' : Path) (made : FileTree) (answer answer' : Compiler.Answer) :
    Prop where
  ended : (answer.2.toOption.map fun finished => finished.status) =
    answer'.2.toOption.map fun finished => finished.status
  modules (directory : Place) : made.Leads [] connect.names directory →
    ∀ front, answer.1.sight? (front ++ directory) = answer'.1.sight? (front ++ directory)
  set : (answer.1.read (descriptorSet scratch)).toOption = (answer'.1.read (descriptorSet scratch')).toOption
  closed : answer.1.closed = answer'.1.closed
  fixed : answer.1.fixed = answer'.1.fixed

/-- What two runs from one tree have in common whose scratch directories differ. -/
structure Comparable (options : Options) (executor : Executor) (scratch scratch' : Path) (tree : FileTree) :
    Prop where
  sound : tree.Sound
  strippable : (options.definitions tree).Strippable
  /-- The output path climbs only out of directories that are there. -/
  grounded : tree.Grounded (options.generated tree).root.names
  /-- No links are below the output path. -/
  free (place : Place) : tree.Leads [] (options.generated tree).root.names place → tree.LinkFree place
  /-- Both scratch directories can be made, and stand aside. -/
  aside : ∀ path ∈ [scratch, scratch'],
    ∃ opened, tree.makeDirectory path = .ok opened ∧ Aside (options.generated tree) tree opened
  confined : ∀ path ∈ [scratch, scratch'], ∀ command made, call? options path tree = some (command, made) →
    Confined executor command made (options.generated tree).connect path
  /-- The compiler does the same in both runs, wherever the descriptor set goes. -/
  likewise (command command' : Command) (made made' : FileTree) :
    call? options scratch tree = some (command, made) →
    call? options scratch' tree = some (command', made') →
    Likewise (options.generated tree).connect scratch scratch' made (executor command made)
      (executor command' made')

section
variable {options : Options} {executor : Executor} {scratch scratch' : Path} {tree : FileTree}
  {front rest : List RawString} {base : Place}

theorem Call.prepares (call : Call options scratch tree)
    (called : call? options scratch tree = some (call.command, call.made)) :
    Compiler.prepared options.compiler (request call.protoRoot call.root scratch call.files) call.opened =
      (call.made, .ok call.command) := by
  have some_ : call.files.isEmpty = false := by simpa using call.files_ne_nil called
  rw [call?_of_files scratch call.definitions call.generated call.found some_, call.opens] at called
  rcases prepares : Compiler.prepared options.compiler (request call.protoRoot call.root scratch call.files)
    call.opened with ⟨made, failure | command⟩
  · simp [prepares] at called
  · simp only [prepares, Option.some.injEq, Prod.mk.injEq] at called
    rw [called.1, called.2]

theorem Call.exists_site (call : Call options scratch tree) (sound : tree.Sound)
    (grounded : tree.Grounded call.root.names)
    (free : ∀ place, tree.Leads [] call.root.names place → tree.LinkFree place)
    (aside : Aside ⟨call.root⟩ tree call.opened) :
    ∃ front rest base, Site tree call.root front rest base := by
  obtain ⟨_, spot, opens, _⟩ := Opens.of_makeDirectory sound call.opens
  exact Site.exists_site sound (sound.tidy_absolute call.generated) grounded free opens aside call.makes

theorem Site.exists_spare {root scratch : Path} {opened : FileTree} (site : Site tree root front rest base)
    (opens : tree.makeDirectory scratch = .ok opened) (aside : Aside ⟨root⟩ tree opened) :
    ∃ spot, Opens tree opened spot ∧ Spare (rest.reverse ++ base) spot ∧
      opened.Leads (opened.start scratch) scratch.names spot := by
  obtain ⟨_, spot, opens, leads, _⟩ := Opens.of_makeDirectory site.sound opens
  exact ⟨spot, opens, site.spare opens (leads.directory (proper_names scratch)) aside, leads⟩

theorem Call.exists_call (call : Call options scratch tree)
    (called : call? options scratch tree = some (call.command, call.made))
    (site : Site tree call.root front rest base) (aside : Aside ⟨call.root⟩ tree call.opened)
    {opened' : FileTree} (opens' : tree.makeDirectory scratch' = .ok opened')
    (aside' : Aside ⟨call.root⟩ tree opened') : call? options scratch' tree ≠ none := by
  have some_ : call.files.isEmpty = false := by simpa using call.files_ne_nil called
  obtain ⟨spot, opens, spare, _⟩ := site.exists_spare call.opens aside
  obtain ⟨spot', opened_, spare', _⟩ := site.exists_spare opens' aside'
  obtain ⟨made', makes', _⟩ := site.makes opens opened_ spare spare' call.makes
  have home : made'.workingDirectory = call.made.workingDirectory := by
    rw [(makeDirectories_grows opened_.sound' makes').1.home, opened_.grows.home,
      (makeDirectories_grows opens.sound' call.makes).1.home, opens.grows.home]
  obtain ⟨command', prepares⟩ : ∃ command', Compiler.prepared options.compiler
      (request call.protoRoot call.root scratch' call.files) opened' = (made', .ok command') :=
    Compiler.exists_prepared (call.prepares called) rfl rfl makes' home
  rw [call?_of_files scratch' call.definitions call.generated call.found some_, opens']
  simp [prepares]

theorem Comparable.called (comparable : Comparable options executor scratch scratch' tree) {path path' : Path}
    (member : path ∈ [scratch, scratch']) (member' : path' ∈ [scratch, scratch'])
    (called : call? options path tree ≠ none) : call? options path' tree ≠ none := by
  cases run_course options path tree with
  | aborts stage failure world none_ _ _ => exact absurd none_ called
  | calls call called _ =>
    have output_ := Options.generated_eq call.generated
    obtain ⟨opened, opens, aside⟩ := comparable.aside path member
    obtain ⟨opened', opens', aside'⟩ := comparable.aside path' member'
    obtain rfl : opened = call.opened := Except.ok.inj (opens.symm.trans call.opens)
    have grounded := comparable.grounded
    have free := comparable.free
    rw [output_] at aside aside' grounded free
    obtain ⟨front, rest, base, site⟩ := call.exists_site comparable.sound grounded free aside
    exact call.exists_call called site aside opens' aside'

structure Side (executor : Executor) (call : Call options scratch tree) (scene : Scene) (place : Place) :
    Prop where
  setting : Setting executor call scene
  there : scene.place = place
  opens : Opens tree call.opened scene.opened
  spare : Spare place scene.opened
  alike : Alike call.made scene.tree
  free : scene.tree.LinkFree place
  fits : Fits (OutputTree.mk call.root).connect
  connect : call.made.Leads [] (OutputTree.mk call.root).connect.names (.ofText "connect" :: place)
  left : (call.made.remove scene.opened).Leads [] call.root.names place
  initial (before : Place) : tree.Leads [] call.root.names before → before = place
  outside (there : Place) : ¬.ofText "connect" :: place <:+ there →
    (scene.tree.remove scene.opened).node? there = (call.made.remove scene.opened).node? there
  routers (there : Place) : .ofText "trpc" :: place <:+ there →
    (scene.tree.remove scene.opened).node? there = tree.node? there

theorem Side.leads_last {call : Call options scratch tree} {scene : Scene} {place : Place} {later : FileTree}
    (side : Side executor call scene place) (grows : Grows scene.tree later) :
    (later.remove scene.opened).Leads [] call.root.names place := by
  have here := scene.leads
  rw [side.setting.generated, side.there] at here
  exact (side.alike.trans grows.alike).leads_remove side.spare.inside (here.grows grows) side.left

end

end Generation

end TrpcRouters
