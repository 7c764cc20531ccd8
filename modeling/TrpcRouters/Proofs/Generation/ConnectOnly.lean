import TrpcRouters.Compiler.Scripted
import TrpcRouters.Proofs.Generation.Beside
import TrpcRouters.Proofs.Generation.Sides

/-! A run without the routers beside a full run. Where the full run ends well, so does the other; the trees
that they leave are the same but for the routers, which the other one leaves as they were. -/

namespace TrpcRouters.Generation
open FileTree

/-- What two runs leave of which the second has no routers: outside the routers' directory the same, and in it
the second has left all as it was. -/
structure SameButRouters (root : Path) (tree full only : FileTree) (place : Place) : Prop where
  leads : full.Leads [] root.names place
  leads' : only.Leads [] root.names place
  initial (before : Place) : tree.Leads [] root.names before → before = place
  outside (there : Place) : ¬.ofText "trpc" :: place <:+ there → full.sight? there = only.sight? there
  routers (there : Place) : .ofText "trpc" :: place <:+ there → only.node? there = tree.node? there

section
variable {options options' : Options} {executor : Executor} {scratch scratch' : Path} {tree : FileTree}
  {call : Call options scratch tree} {call' : Call options' scratch' tree} {full only : Scene} {place : Place}

theorem Side.level (side : Side executor call full place) (side' : Side executor call' only place)
    (level : Level place full.opened only.opened call.made call'.made)
    (likewise : Likewise (OutputTree.mk call.root).connect scratch scratch' call.made
      (executor call.command call.made) (executor call'.command call'.made)) :
    Level place full.opened only.opened full.tree only.tree := by
  intro there other
  by_cases within : .ofText "connect" :: place <:+ there
  · rw [sight?_remove _ side.spare.inside, sight?_remove _ side'.spare.inside,
      if_neg (side.spare.apart within), if_neg (side'.spare.apart within), side.setting.answers,
      side'.setting.answers]
    obtain ⟨inner, rfl⟩ := within
    exact likewise.modules _ side.connect inner
  · rw [sight?_congr (side.outside there within), sight?_congr (side'.outside there within)]
    exact level there other

theorem Side.exists_duo (side : Side executor call full place) (side' : Side executor call' only place)
    (root : call'.root = call.root) (level : Level place full.opened only.opened call.made call'.made)
    (likewise : Likewise (OutputTree.mk call.root).connect scratch scratch' call.made
      (executor call.command call.made) (executor call'.command call'.made)) :
    ∃ duo : Duo, duo.full = full ∧ duo.only = only := by
  have there := side.there
  have there' := side'.there
  refine ⟨⟨full, only, ?_, there'.trans there.symm, there ▸ side.free, there' ▸ side'.free,
    there ▸ side.spare, there ▸ side'.spare, ?_, there ▸ side.level side' level likewise, ?_, ?_, ?_⟩,
    rfl, rfl⟩
  · rw [side.setting.generated, side'.setting.generated, root]
  · rw [side.setting.generated]
    exact side.fits
  · rw [side.setting.answers, side'.setting.answers]
    exact likewise.closed
  · rw [side.setting.answers, side'.setting.answers]
    exact likewise.fixed
  · rw [side.setting.answers, side'.setting.answers, side.setting.aside, side'.setting.aside]
    exact likewise.set

theorem Side.sameButRouters (side : Side executor call full place) (side' : Side executor call' only place)
    (root : call'.root = call.root) {duo : Duo} (first : duo.full = full) (second : duo.only = only)
    {last last' : FileTree} (beside : duo.Beside last last') :
    SameButRouters call.root tree (last.uninstall scratch) (last'.uninstall scratch') place := by
  subst first second
  obtain rfl := side.there
  rw [side.setting.gone _ beside.grows, side'.setting.gone _ beside.grows']
  refine ⟨side.leads_last beside.grows, root ▸ side'.leads_last beside.grows', side.initial, beside.level,
    ?_⟩
  intro there inner
  rw [← side'.routers there inner, node?_remove _ side'.spare.inside, node?_remove _ side'.spare.inside,
    beside.still there inner]

end

section
variable {options : Options} {executor : Executor} {scratch scratch' : Path} {tree : FileTree}
  {call : Call { options with connectOnly := false } scratch tree}
  {call' : Call { options with connectOnly := true } scratch' tree} {full only : Scene} {place : Place}

theorem Side.finish (sound : tree.Sound) (strippable : (options.definitions tree).Strippable)
    (side : Side executor call full place)
    (side' : Side executor call' only place)
    (level : Level place full.opened only.opened call.made call'.made)
    (likewise : Likewise (OutputTree.mk call.root).connect scratch scratch' call.made
      (executor call.command call.made) (executor call'.command call'.made)) :
    match call.finish (executor call.command call.made), call'.finish (executor call'.command call'.made) with
    | .ok _ world, .ok _ world' => SameButRouters call.root tree world.tree world'.tree place
    | .ok _ _, .error _ _ => False
    | .error failure _, .ok _ _ => Excused ⟨call.root⟩ failure
    | .error _ _, .error _ _ => True := by
  have root : call'.root = call.root := Except.ok.inj (call'.generated.symm.trans call.generated)
  have protoRoot : call'.protoRoot = call.protoRoot :=
    Except.ok.inj (call'.definitions.symm.trans call.definitions)
  have files : call'.files = call.files := by
    have found := call'.found
    rw [protoRoot] at found
    exact Except.ok.inj (found.symm.trans call.found)
  obtain ⟨duo, first, second⟩ := side.exists_duo side' root level likewise
  have asked : ∀ name ∈ Discovery.namesBelow duo.full.protoRoot call.files,
      ∃ names, (∀ part ∈ names, Path.IsName (.ofText part)) ∧ name = Text.joined '/' names := by
    rw [first, side.setting.definitions]
    have definitions : options.definitions tree = call.protoRoot := Options.definitions_eq call.definitions
    rw [definitions] at strippable
    exact Discovery.names_of_mem_namesBelow sound (sound.tidy_absolute call.definitions).1 strippable
      call.found
  have start : duo.Beside full.tree only.tree ∧ duo.Unread full.tree only.tree := by
    subst first second
    exact ⟨duo.beside_start side.setting.reached.sound side'.setting.reached.sound, rfl, rfl⟩
  have pairs : Job.Pairs (Job.OnTrees fun first second => duo.Beside first second ∧ duo.Unread first second)
      (emitAll { options with connectOnly := false } duo.full.protoRoot duo.full.output call.files
        (duo.full.scratch.child "descriptors.binpb")) _ _ _ := duo.emitAll_pairs asked
  have stages := pairs.run ⟨full.tree, call.log⟩ ⟨only.tree, call'.log⟩ start
  rw [first, second, side.setting.definitions, side.setting.generated, side.setting.aside,
    side'.setting.aside, side.setting.answers, side'.setting.answers] at stages
  have alike := likewise.ended
  unfold Call.finish Compiler.answered
  rw [root, protoRoot, files]
  generalize executor call.command call.made = answer at stages alike
  generalize executor call'.command call'.made = answer' at stages alike
  obtain ⟨after, error | finished⟩ := answer <;> obtain ⟨after', error' | finished'⟩ := answer' <;>
    simp only [Except.toOption, Option.map_none, Option.map_some, Option.some.injEq, reduceCtorEq] at alike
  · trivial
  by_cases succeeded : finished.status.succeeded = true
  · simp only at stages
    simp only [← alike, succeeded, ↓reduceIte, descriptorSet]
    generalize emitAll { options with connectOnly := false } call.protoRoot ⟨call.root⟩ call.files
      (scratch.child "descriptors.binpb") ⟨after, call.log⟩ = ended at stages ⊢
    generalize emitAll { options with connectOnly := true } call.protoRoot ⟨call.root⟩ call.files
      (scratch'.child "descriptors.binpb") ⟨after', call'.log⟩ = ended' at stages ⊢
    rcases ended with ⟨_, world⟩ | ⟨failure, world⟩ <;> rcases ended' with ⟨_, world'⟩ | ⟨failure', world'⟩
    · exact side.sameButRouters side' root first second stages.2
    · exact stages
    · exact stages
    · trivial
  · simp only [← alike, succeeded]
    trivial

end

section
variable {name : String} (member : name ∈ ["scratch", "draft"])
include member

end

end TrpcRouters.Generation
