import TrpcRouters.Proofs.Declaration.Likeness
import TrpcRouters.Proofs.Descriptor.RoundTrip
import TrpcRouters.Proofs.Generation.Scene
import TrpcRouters.Proofs.Generation.Site
import TrpcRouters.Proofs.Job.Pairs

/-! The stages of a full run beside those of a run that leaves out the routers. What both do, they do alike;
what only the full run does lies in the routers' directory. So the trees of the two stay level: outside that
directory they show the same, but for the scratch directories. -/

namespace TrpcRouters.Generation
open FileTree

/-- The failures of a full run that a run without the routers does not have. -/
def Excused (output : OutputTree) (failure : Failure) : Prop :=
  (∃ detail, failure = .duplicateService detail) ∨
    ∃ path error more, failure = .emission path error ∧ path.names = output.root.names ++ .ofText "trpc" :: more

/-- What the stages of two runs start from, of which the second leaves out the routers. -/
structure Duo where
  full : Scene
  only : Scene
  output : only.output = full.output
  place : only.place = full.place
  free : full.tree.LinkFree full.place
  free' : only.tree.LinkFree only.place
  spare : Spare full.place full.opened
  spare' : Spare full.place only.opened
  fits : Fits full.output.connect
  level : Level full.place full.opened only.opened full.tree only.tree
  closed : full.tree.closed = only.tree.closed
  fixed : full.tree.fixed = only.tree.fixed
  /-- Both find the same descriptor set. -/
  set : (full.tree.read (full.scratch.child "descriptors.binpb")).toOption =
    (only.tree.read (only.scratch.child "descriptors.binpb")).toOption

namespace Duo
variable {duo : Duo}

theorem leads' (duo : Duo) : duo.only.tree.Leads [] duo.full.output.root.names duo.full.place := by
  rw [← duo.output, ← duo.place]
  exact duo.only.leads

/-- Two trees that the stages of the two runs come to. -/
structure Beside (duo : Duo) (first second : FileTree) : Prop where
  grows : Grows duo.full.tree first
  grows' : Grows duo.only.tree second
  sound : first.Sound
  sound' : second.Sound
  level : Level duo.full.place duo.full.opened duo.only.opened first second
  still (there : Place) : .ofText "trpc" :: duo.full.place <:+ there →
    second.node? there = duo.only.tree.node? there

theorem beside_start (duo : Duo) (sound : duo.full.tree.Sound) (sound' : duo.only.tree.Sound) :
    duo.Beside duo.full.tree duo.only.tree :=
  ⟨.refl _, .refl _, sound, sound', duo.level, fun _ _ => rfl⟩

theorem Beside.closed {first second : FileTree} (beside : duo.Beside first second) :
    first.closed = second.closed :=
  beside.grows.closed.trans (duo.closed.trans beside.grows'.closed.symm)

theorem Beside.fixed {first second : FileTree} (beside : duo.Beside first second) :
    first.fixed = second.fixed :=
  beside.grows.fixed.trans (duo.fixed.trans beside.grows'.fixed.symm)

theorem Beside.moved {first second first' second' : FileTree} (beside : duo.Beside first second)
    (grows : Grows first first') (grows' : Grows second second') (sound : first'.Sound)
    (sound' : second'.Sound) {touched : Place → Prop}
    (together : Together touched first second first' second')
    (shared : ∀ there, touched there → Shared duo.full.place duo.full.opened duo.only.opened there) :
    duo.Beside first' second' where
  grows := beside.grows.trans grows
  grows' := beside.grows'.trans grows'
  sound := sound
  sound' := sound'
  level := beside.level.moved duo.spare.inside duo.spare'.inside together shared
  still there inner := by
    rw [← beside.still there inner]
    rcases together there with ⟨_, kept⟩ | ⟨touches, _⟩
    · exact kept
    · exact absurd inner (shared there touches).1

/-- Names below the output root that lead past the routers and the scratch directories. -/
def Past (duo : Duo) (rest : List RawString) : Prop :=
  ∀ inner, inner <+: rest → Shared duo.full.place duo.full.opened duo.only.opened
    (inner.reverse ++ duo.full.place)

theorem not_trpc_suffix {place : Place} {inner rest : List RawString} {first : RawString}
    (short : inner <+: first :: rest) (other : first ≠ .ofText "trpc") :
    ¬.ofText "trpc" :: place <:+ inner.reverse ++ place := by
  intro below
  rcases List.prefix_cons_iff.mp short with rfl | ⟨more, rfl, _⟩
  · exact absurd below.length_le (by simp)
  · have here : first :: place <:+ (first :: more).reverse ++ place := ⟨more.reverse, by simp⟩
    exact other (eq_of_suffixes here below)

theorem past_connect (duo : Duo) (rest : List RawString) : duo.Past (.ofText "connect" :: rest) := by
  have away : ∀ {opened : Place}, Spare duo.full.place opened → ∀ inner, inner <+: .ofText "connect" :: rest →
      ¬opened <:+ inner.reverse ++ duo.full.place := by
    intro opened spare inner short below
    rcases List.prefix_cons_iff.mp short with rfl | ⟨more, rfl, _⟩
    · exact spare.connect (below.trans (List.suffix_cons _ _))
    · exact spare.apart ⟨more.reverse, by simp⟩ below
  exact fun inner short => ⟨not_trpc_suffix short (by decide), away duo.spare inner short,
    away duo.spare' inner short⟩

theorem past_marker (duo : Duo) : duo.Past ["package.json"] := by
  have away : ∀ {opened : Place}, Spare duo.full.place opened → ∀ inner, inner <+: [.ofText "package.json"] →
      ¬opened <:+ inner.reverse ++ duo.full.place := by
    intro opened spare inner short below
    rcases List.prefix_cons_iff.mp short with rfl | ⟨more, rfl, last⟩
    · exact spare.connect (below.trans (List.suffix_cons _ _))
    · rw [List.prefix_nil.mp last] at below
      exact spare.marker below
  exact fun inner short => ⟨not_trpc_suffix short (by decide), away duo.spare inner short,
    away duo.spare' inner short⟩

theorem emit_pairs {path : Path} {rest : List RawString} (below : duo.full.output.root.Below path rest)
    (past : duo.Past rest) (content : String) {excused : Failure → Prop} :
    Job.Pairs (Job.OnTrees duo.Beside) (Job.emit path content) (Job.emit path content)
      (fun _ => Job.OnTrees duo.Beside) excused := by
  constructor
  intro world world' beside
  have abreast : Abreast world.tree world'.tree duo.full.output.root.names duo.full.place rest :=
    { leads := duo.full.leads.grows beside.grows
      leads' := duo.leads'.grows beside.grows'
      clear := (duo.free.grows beside.grows).clear rest
      same := fun inner short =>
        beside.level.sight? duo.spare.inside duo.spare'.inside (past inner short)
      fixed := beside.fixed }
  have emitted := (Job.emit_meets beside.sound path content).run world rfl
  have emitted' := (Job.emit_meets beside.sound' path content).run world' rfl
  rcases Job.emit_alike beside.sound beside.sound' abreast below content with
    ⟨failure, later, later', result, result'⟩ | ⟨after, after', result, result', together⟩
  · rw [result, result']
    trivial
  · rw [result] at emitted ⊢
    rw [result'] at emitted' ⊢
    refine ⟨rfl, beside.moved emitted.grows emitted'.grows emitted.sound emitted'.sound together ?_⟩
    rintro there ⟨inner, _, short, rfl⟩
    exact past inner short

/-- The descriptor sets are as the compiler left them. -/
def Unread (duo : Duo) (first second : FileTree) : Prop :=
  first.node? (.ofText "descriptors.binpb" :: duo.full.opened) =
      duo.full.tree.node? (.ofText "descriptors.binpb" :: duo.full.opened) ∧
    second.node? (.ofText "descriptors.binpb" :: duo.only.opened) =
      duo.only.tree.node? (.ofText "descriptors.binpb" :: duo.only.opened)

theorem adapt_pairs {excused : Failure → Prop} :
    Job.Pairs (Job.OnTrees fun first second => duo.Beside first second ∧ duo.Unread first second)
      (adaptDeclarations duo.full.output.connect) (adaptDeclarations duo.full.output.connect)
      (fun _ => Job.OnTrees fun first second => duo.Beside first second ∧ duo.Unread first second)
      excused := by
  constructor
  rintro world world' ⟨beside, unread, unread'⟩
  have below := duo.full.connect_below
  have leads : world.tree.Leads [] duo.full.output.connect.names (.ofText "connect" :: duo.full.place) := by
    rw [← duo.full.connect_eq duo.free]
    exact duo.full.connectLeads.grows beside.grows
  have leads' : world'.tree.Leads [] duo.full.output.connect.names (.ofText "connect" :: duo.full.place) := by
    rw [← duo.output, ← duo.place, ← duo.only.connect_eq duo.free']
    exact duo.only.connectLeads.grows beside.grows'
  have inner : ∀ there, .ofText "connect" :: duo.full.place <:+ there →
      Shared duo.full.place duo.full.opened duo.only.opened there := by
    rintro there ⟨front, rfl⟩
    have past := duo.past_connect front.reverse _ (List.prefix_refl _)
    simpa using past
  obtain ⟨ended, together⟩ := Declaration.pass_congr beside.sound beside.sound' beside.closed beside.fixed
    (entry_of_fits duo.fits below.tidy below.ends leads) (entry_of_fits duo.fits below.tidy below.ends leads')
    fun front => beside.level.sight? duo.spare.inside duo.spare'.inside (inner _ (List.suffix_append _ _))
  obtain ⟨grows, sound, _⟩ := Declaration.pass_spec beside.sound fun _ _ =>
    entry_of_leads below.tidy below.ends leads
  obtain ⟨grows', sound', _⟩ := Declaration.pass_spec beside.sound' fun _ _ =>
    entry_of_leads below.tidy below.ends leads'
  have later := beside.moved grows grows' sound sound' together inner
  -- The descriptor sets are not in the compiler's directory.
  have away : ∀ {opened : Place}, Spare duo.full.place opened →
      ¬.ofText "connect" :: duo.full.place <:+ .ofText "descriptors.binpb" :: opened := by
    intro opened spare within
    rcases List.suffix_cons_iff.mp within with here | deeper
    · exact absurd (List.cons.inj here).1 (by decide)
    · exact spare.within deeper
  have kept : duo.Unread (Declaration.pass duo.full.output.connect world.tree).1
      (Declaration.pass duo.full.output.connect world'.tree).1 := by
    constructor
    · rw [← unread]
      exact ((together _).resolve_right fun touched => away duo.spare touched.1).1
    · rw [← unread']
      exact ((together _).resolve_right fun touched => away duo.spare' touched.1).2
  simp only [adaptDeclarations, Job.bind_eq, Job.change_eq, Job.ofExcept_eq, ← ended]
  cases (Declaration.pass duo.full.output.connect world.tree).2 with
  | error error => trivial
  | ok changed => exact ⟨rfl, later, kept⟩

theorem load_pairs (duo : Duo) (requested : List String) {excused : Failure → Prop} :
    Job.Pairs (Job.OnTrees fun first second => duo.Beside first second ∧ duo.Unread first second)
      (loadServices (duo.full.scratch.child "descriptors.binpb") requested)
      (loadServices (duo.only.scratch.child "descriptors.binpb") requested)
      (fun services world world' =>
        Job.OnTrees duo.Beside world world' ∧ Scene.Loaded requested services) excused := by
  constructor
  rintro world world' ⟨beside, unread, unread'⟩
  have read := duo.full.read_eq beside.grows unread
  have read' := duo.only.read_eq beside.grows' unread'
  have named := duo.full.named
  have same := duo.set
  unfold Descriptor.FileSet.load at named
  simp only [loadServices_eq, Descriptor.FileSet.load, read, read']
  cases first : duo.full.tree.read (duo.full.scratch.child "descriptors.binpb") with
  | error error =>
    cases second : duo.only.tree.read (duo.only.scratch.child "descriptors.binpb") with
    | error error' => trivial
    | ok content => simp [first, second, Except.toOption] at same
  | ok content =>
    cases second : duo.only.tree.read (duo.only.scratch.child "descriptors.binpb") with
    | error error' => simp [first, second, Except.toOption] at same
    | ok content' =>
      obtain rfl : content = content' := by simpa [first, second, Except.toOption] using same
      simp only [first, Descriptor.FileSet.ofBytes] at named
      simp only [Descriptor.FileSet.ofBytes]
      cases decoded : Descriptor.FileSet.decode content with
      | error fault => trivial
      | ok set =>
        rw [decoded] at named
        exact ⟨rfl, beside, Scene.loaded_services (named set rfl) requested⟩

section Services
variable {requested : List String} {services : List Service} {rules : VerbRules}

theorem connectQueries_pairs (loaded : Scene.Loaded requested services)
    (asked : ∀ name ∈ requested, ∃ names, (∀ part ∈ names, Path.IsName (.ofText part)) ∧
      name = Text.joined '/' names) {excused : Failure → Prop} :
    Job.Pairs (Job.OnTrees duo.Beside) (emitConnectQueries duo.full.output services)
      (emitConnectQueries duo.full.output services) (fun _ => Job.OnTrees duo.Beside) excused := by
  unfold emitConnectQueries
  refine .bind (fun _ => Job.OnTrees duo.Beside) (.forM fun entry member => ?_)
    fun _ => .pure fun _ _ held => held
  obtain ⟨group, inside, rfl⟩ := List.mem_map.mp member
  obtain ⟨service, among, file⟩ := ConnectQuery.exists_of_mem_groups inside
  obtain ⟨names, named, spelled⟩ := asked _ (loaded service among).2
  have below := ConnectQuery.file_below duo.full.tidy named
  rw [← spelled, file] at below
  exact emit_pairs below (duo.past_connect _) _

theorem emit_router {second : FileTree} {path : Path} (more : List RawString) {last : RawString}
    (below : duo.full.output.root.Below path (.ofText "trpc" :: (more ++ [last]))) (content : String) :
    Job.Meets (fun world => duo.Beside world.tree second) (Job.emit path content)
      (fun _ world => duo.Beside world.tree second)
      (fun failure _ => Excused duo.full.output failure) := by
  constructor
  intro world beside
  have emitted := (Job.emit_meets beside.sound path content).run world rfl
  cases result : Job.emit path content world with
  | ok value after =>
    rw [result] at emitted
    refine ⟨beside.grows.trans emitted.grows, beside.grows', emitted.sound, beside.sound', ?_, beside.still⟩
    refine beside.level.routers duo.spare.inside fun there other => ?_
    rcases emitted.place below (duo.full.leads.grows beside.grows) (duo.free.grows beside.grows) there with
      kept | ⟨inner, some_, short, rfl⟩
    · exact kept
    · rcases List.prefix_cons_iff.mp short with nothing | ⟨deeper, rfl, _⟩
      · exact absurd nothing some_
      · exact absurd ⟨deeper.reverse, by simp⟩ other
  | error failure after =>
    rw [result] at emitted
    obtain ⟨_, named, error, rfl, rfl | up⟩ := emitted
    · exact Or.inr ⟨_, error, _, rfl, below.names⟩
    · obtain ⟨above, found, _, short⟩ := below.parent
      rw [up] at found
      cases found
      refine Or.inr ⟨_, error, more, rfl, ?_⟩
      rw [short, ← List.cons_append, List.dropLast_concat]

theorem distinct_router {second : FileTree} (services : List Service) :
    Job.Meets (fun world => duo.Beside world.tree second) (requireDistinct services)
      (fun _ world => duo.Beside world.tree second)
      (fun failure _ => Excused duo.full.output failure) := by
  unfold requireDistinct
  cases Aggregate.duplicate? services with
  | none => exact .pure fun _ held => held
  | some duplicate => exact .throw fun _ _ => Or.inl ⟨_, rfl⟩

theorem routerTree_meets (loaded : Scene.Loaded requested services) (second : FileTree) :
    Job.Meets (fun world => duo.Beside world.tree second)
      (emitRouterTree duo.full.output rules services) (fun _ world => duo.Beside world.tree second)
      (fun failure _ => Excused duo.full.output failure) := by
  have trpc : duo.full.output.root.Below duo.full.output.trpc ["trpc"] := .start duo.full.tidy (by decide)
  have say : ∀ line, Job.Meets (fun world => duo.Beside world.tree second) (Job.say line)
      (fun _ world => duo.Beside world.tree second)
      (fun failure _ => Excused duo.full.output failure) := fun line => .report fun _ held => held
  have single : ∀ module_ : String, Path.IsName (.ofText (module_ ++ ".ts")) → ∀ content,
      Job.Meets (fun world => duo.Beside world.tree second)
        (Job.emit (duo.full.output.trpcFile module_) content) (fun _ world => duo.Beside world.tree second)
        (fun failure _ => Excused duo.full.output failure) := fun module_ named content =>
    emit_router [] (trpc.child named) content
  unfold emitRouterTree emitFactory emitRouters emitAggregate emitIndex
  refine .bind _ (distinct_router services) fun _ => ?_
  refine .bind _ (say _) fun _ => ?_
  refine .bind _ (single _ (by decide) _) fun _ => ?_
  refine .bind _ (say _) fun _ => ?_
  refine .bind (fun _ world => duo.Beside world.tree second) ?routers fun _ => ?_
  case routers =>
    refine .bind _ (distinct_router services) fun _ => ?_
    refine .bind (fun _ world => duo.Beside world.tree second) (.forM fun service member => ?_)
      fun _ => .pure fun _ held => held
    have routers := trpc.child (show Path.IsName "routers" by decide)
    exact emit_router ["routers"]
      (routers.child (Stage.isName_routerFile (loaded service member).1)) _
  refine .bind _ (say _) fun _ => ?_
  refine .bind _ (single _ (by decide) _) fun _ => ?_
  refine .bind _ (say _) fun _ => ?_
  exact single _ (by decide) _

end Services

theorem emitAll_pairs (duo : Duo) {options : Options} {files : List Path}
    (asked : ∀ name ∈ Discovery.namesBelow duo.full.protoRoot files,
      ∃ names, (∀ part ∈ names, Path.IsName (.ofText part)) ∧ name = Text.joined '/' names) :
    Job.Pairs (Job.OnTrees fun first second => duo.Beside first second ∧ duo.Unread first second)
      (emitAll { options with connectOnly := false } duo.full.protoRoot duo.full.output files
        (duo.full.scratch.child "descriptors.binpb"))
      (emitAll { options with connectOnly := true } duo.full.protoRoot duo.full.output files
        (duo.only.scratch.child "descriptors.binpb"))
      (fun _ => Job.OnTrees duo.Beside) (Excused duo.full.output) := by
  unfold emitAll
  refine .bind _ .report fun _ => ?_
  refine .bind _ adapt_pairs fun _ => ?_
  refine .bind _ .report fun _ => ?_
  refine .bind _ (duo.load_pairs _) fun services => .assume fun loaded => ?_
  refine .bind _ .report fun _ => ?_
  refine .bind _ (connectQueries_pairs loaded asked) fun _ => ?_
  refine .bind (fun _ => Job.OnTrees duo.Beside) ?routers fun _ => ?_
  case routers =>
    refine .aside (fun world' => routerTree_meets loaded world'.tree) fun world' => ?_
    exact ⟨_, rfl, fun _ held => held⟩
  refine .bind _ .report fun _ => ?_
  refine .bind (fun _ => Job.OnTrees duo.Beside) ?marker fun _ => .report
  case marker => exact emit_pairs (.start duo.full.tidy (by decide)) duo.past_marker _

end Duo

end TrpcRouters.Generation
