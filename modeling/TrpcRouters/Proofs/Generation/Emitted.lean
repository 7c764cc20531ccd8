import Mathlib.Data.List.Nodup
import TrpcRouters.Proofs.Declaration.Rewriting
import TrpcRouters.Proofs.Discovery
import TrpcRouters.Proofs.Generation.Stages
import TrpcRouters.Proofs.Router.Duplicate

/-! The files that a whole run writes for given services, stage by stage. Where two of them have one path,
they are the same, so each is there in the end. -/

namespace TrpcRouters

namespace ConnectQuery

theorem mem_modules (tree : OutputTree) {services : List Service} {service : Service}
    (member : service ∈ services) :
    (file tree service.protoFile,
      code service.protoFile (services.filter fun other => other.protoFile = service.protoFile)) ∈
        modules tree services := by
  have written := List.mem_map_of_mem (f := fun group : String × List Service =>
    (file tree group.1, code group.1 group.2)) (mem_groups member)
  exact written

theorem map_fst_addToGroup (service : Service) (groups : List (String × List Service)) :
    (addToGroup service groups).map Prod.fst =
      if service.protoFile ∈ groups.map Prod.fst then groups.map Prod.fst
      else groups.map Prod.fst ++ [service.protoFile] := by
  induction groups with
  | nil => rfl
  | cons group rest ih =>
    obtain ⟨file, members⟩ := group
    by_cases here : file = service.protoFile
    · simp [addToGroup, here]
    · simp only [addToGroup, if_neg here, List.map_cons, ih, List.mem_cons, Ne.symm here, false_or]
      split <;> rfl

theorem nodup_groups (services : List Service) : ((groups services).map Prod.fst).Nodup := by
  induction services using List.reverseRecOn with
  | nil => exact List.nodup_nil
  | append_singleton front last ih =>
    have fold : groups (front ++ [last]) = addToGroup last (groups front) := by
      rw [groups, List.foldl_append]
      rfl
    rw [fold, map_fst_addToGroup]
    split
    next => exact ih
    next absent =>
      refine List.nodup_append.mpr ⟨ih, List.nodup_singleton _, fun first member second single => ?_⟩
      rw [List.mem_singleton.mp single]
      exact fun same => absent (same ▸ member)

theorem protoStem_joined {front : List String} {last : String}
    (named : ∀ name ∈ front ++ [last], Path.IsName (.ofText name)) :
    protoStem (Text.joined '/' (front ++ [last])) = (Path.cutExtension (.ofText last)).1.text := by
  have fileName : (Path.ofText (Text.joined '/' (front ++ [last]))).fileName? = some (.ofText last) := by
    rw [Path.ofText_joined, Path.fileName?, (Path.components_joined (List.forall_mem_map.mpr named)).2]
    simp
  rw [protoStem, Path.fileStem?, fileName]
  rfl

theorem eq_of_stem {names names' : List String} {first second : String}
    (requested : Discovery.Requested first names) (requested' : Discovery.Requested second names')
    (folder : names.dropLast = names'.dropLast) (stem : protoStem first = protoStem second) :
    first = second := by
  -- Only the file at the root itself has an empty stem.
  have named : ∀ {name front last}, Discovery.Requested name (front ++ [last]) →
      last = protoStem name ++ ".proto" ∧ protoStem name ≠ "" := by
    intro name front last requested
    obtain ⟨bytes, some_⟩ := Path.bytes_of_cutExtension (requested.proto front last rfl)
    rw [requested.spelled, protoStem_joined requested.named]
    generalize (Path.cutExtension (.ofText last)).1 = stem at bytes some_
    have whole : RawString.ofText last = stem ++ RawString.ofText ".proto" := RawString.ext bytes
    refine ⟨?_, fun empty => some_ (RawString.ext (RawString.bytes_eq_nil_of_text empty))⟩
    rw [← RawString.text_ofText last, whole]
    exact RawString.text_append_ofText stem (c := '.') (by decide) "proto".toList
  have root : ∀ {name}, Discovery.Requested name [] → protoStem name = "" := by
    intro name requested
    rw [requested.spelled]
    decide
  obtain rfl | ⟨front, last, shape⟩ := List.eq_nil_or_concat names
  · obtain rfl | ⟨front, last, shape⟩ := List.eq_nil_or_concat names'
    · rw [requested.spelled, requested'.spelled]
    · rw [List.concat_eq_append] at shape
      subst shape
      exact absurd (stem.symm.trans (root requested)) (named requested').2
  · rw [List.concat_eq_append] at shape
    subst shape
    obtain rfl | ⟨front', last', shape⟩ := List.eq_nil_or_concat names'
    · exact absurd (stem.trans (root requested')) (named requested).2
    · rw [List.concat_eq_append] at shape
      subst shape
      rw [List.dropLast_concat, List.dropLast_concat] at folder
      have same : last = last' := by
        rw [(named requested).1, (named requested').1, stem]
      rw [requested.spelled, requested'.spelled, folder, same]

theorem eq_of_file_names {tree : OutputTree} (tidy : tree.root.Tidy) {first second : String}
    {names names' : List String} (requested : Discovery.Requested first names)
    (requested' : Discovery.Requested second names')
    (same : (file tree first).names = (file tree second).names) : first = second := by
  have below := file_below tidy requested.named
  have below' := file_below tidy requested'.named
  rw [← requested.spelled] at below
  rw [← requested'.spelled] at below'
  rw [below.names, below'.names] at same
  have inner := (List.cons.inj (List.append_cancel_left same)).2
  have last := RawString.ofText_inj.mp (List.singleton_inj.mp (List.append_inj_right' inner rfl))
  have folder := (List.map_injective_iff.mpr fun _ _ => RawString.ofText_inj.mp) (List.append_inj_left' inner rfl)
  refine eq_of_stem requested requested' folder ?_
  rwa [String.append_left_inj, String.append_left_inj] at last

end ConnectQuery

namespace Generation
open FileTree

def routerEntry (output : OutputTree) (rules : VerbRules) (service : Service) : Path × String :=
  let plan := RouterPlan.ofService output rules service
  (plan.file, plan.code)

theorem fst_routerEntry (output : OutputTree) (rules : VerbRules) (service : Service) :
    (routerEntry output rules service).1 = output.routerFile service.name :=
  rfl

namespace Stage

def entries (output : OutputTree) (rules : VerbRules) (services : List Service) :
    Stage → List (Path × String)
  | connectQueries => ConnectQuery.modules output services
  | factory => [(output.trpcFile "routerFactory", Factory.code rules)]
  | routers => services.map (routerEntry output rules)
  | aggregate => [(output.trpcFile "appRouter",
    Aggregate.code (services.map fun service => Aggregate.writtenRouter output service.name))]
  | index => [(output.trpcFile "index", Aggregate.indexCode)]
  | marker => [(output.packageMarker, Aggregate.packageMarker)]
  | _ => []

/-- No file is written in two stages. -/
theorem eq_of_writes {first second : Stage} {rest : List RawString} (writes : first.Writes rest)
    (writes' : second.Writes rest) : first = second := by
  have touches : ∀ {stage : Stage}, stage.Writes rest → stage.Touches rest := by
    intro stage writes
    refine ⟨rest, writes, ?_, List.prefix_refl _, fun _ => rfl⟩
    rintro rfl
    cases writes
  have rank : first.rank = second.rank := by
    rcases Nat.lt_trichotomy first.rank second.rank with before | same | behind
    · exact absurd (touches writes) (not_touches before writes')
    · exact same
    · exact absurd (touches writes') (not_touches behind writes)
  have found := getElem?_rank first
  rw [rank, getElem?_rank second] at found
  exact (Option.some.inj found).symm

theorem not_isProtoName_of_script {name : RawString} (script : ".ts".toList <:+ name.text.toList) :
    ¬Discovery.IsProtoName name :=
  Discovery.not_isProtoName_of_suffix (c := 's') script (by decide) (by decide) (by decide)

theorem not_isProtoName_of_writes {stage : Stage} {rest : List RawString} (writes : stage.Writes rest)
    {last : RawString} (ends : rest.getLast? = some last) : ¬Discovery.IsProtoName last := by
  cases writes
  case declaration declaration =>
    rw [← List.cons_append, List.getLast?_concat] at ends
    cases ends
    exact not_isProtoName_of_script (List.IsSuffix.trans (by decide) declaration)
  case module stem =>
    rw [← List.cons_append, List.getLast?_concat] at ends
    cases ends
    exact not_isProtoName_of_script ⟨(stem ++ "_connectquery").toList, by simp [RawString.text_ofText]⟩
  case router service =>
    cases ends
    exact not_isProtoName_of_script
      ⟨(Identifier.router service).toList, by simp [Identifier.routerFile, RawString.text_ofText]⟩
  all_goals
    cases ends
    decide

end Stage

/-- Services that can be given files: called in one word, and declared in files that were asked for. -/
def Placeable (services : List Service) : Prop :=
  ∀ service ∈ services, '/' ∉ service.name.toList ∧
    ∃ names, Discovery.Requested service.protoFile names

section Entries
variable {output : OutputTree} {rules : VerbRules} {services : List Service} {stage : Stage}
  {entry first second : Path × String}

theorem target_of_mem_modules (placeable : Placeable services)
    (member : entry ∈ ConnectQuery.modules output services) :
    Stage.connectQueries.Target output entry.1 := by
  obtain ⟨group, inside, rfl⟩ := List.mem_map.mp member
  obtain ⟨service, among, file⟩ := ConnectQuery.exists_of_mem_groups inside
  obtain ⟨_, names, requested⟩ := placeable service among
  have target : Stage.Target output .connectQueries (ConnectQuery.file output group.1) := by
    rw [← file, requested.spelled]
    exact .module requested.named
  exact target

theorem target_of_mem_entries (placeable : Placeable services)
    (member : entry ∈ stage.entries output rules services) : stage.Target output entry.1 := by
  cases stage
  case connectQueries => exact target_of_mem_modules placeable member
  case routers =>
    obtain ⟨service, among, rfl⟩ := List.mem_map.mp member
    rw [fst_routerEntry]
    exact .router (placeable service among).1
  case factory => exact List.mem_singleton.mp member ▸ .factory
  case aggregate => exact List.mem_singleton.mp member ▸ .aggregate
  case index => exact List.mem_singleton.mp member ▸ .index
  case marker => exact List.mem_singleton.mp member ▸ .marker
  all_goals cases member

theorem eq_of_names_eq_of_stage (tidy : output.root.Tidy) (placeable : Placeable services)
    (distinct : Aggregate.duplicate? services = none)
    (member : first ∈ stage.entries output rules services)
    (member' : second ∈ stage.entries output rules services)
    (same : first.1.names = second.1.names) : first = second := by
  cases stage
  case connectQueries =>
    obtain ⟨group, inside, rfl⟩ := List.mem_map.mp member
    obtain ⟨group', inside', rfl⟩ := List.mem_map.mp member'
    obtain ⟨service, among, file⟩ := ConnectQuery.exists_of_mem_groups inside
    obtain ⟨service', among', file'⟩ := ConnectQuery.exists_of_mem_groups inside'
    obtain ⟨_, names, requested⟩ := placeable service among
    obtain ⟨_, names', requested'⟩ := placeable service' among'
    rw [file] at requested
    rw [file'] at requested'
    have key := ConnectQuery.eq_of_file_names tidy requested requested' same
    rw [List.inj_on_of_nodup_map (ConnectQuery.nodup_groups services) inside inside' key]
  case routers =>
    obtain ⟨service, among, rfl⟩ := List.mem_map.mp member
    obtain ⟨service', among', rfl⟩ := List.mem_map.mp member'
    have names : ∀ service ∈ services, (output.routerFile service.name).names = output.root.names ++
        [RawString.ofText "trpc", .ofText "routers", .ofText (Identifier.routerFile service.name)] := by
      intro service among
      have trpc : output.root.Below output.trpc ["trpc"] := .start tidy (by decide)
      exact ((trpc.child (by decide)).child (Stage.isName_routerFile (placeable service among).1)).names
    have equal := (names service among).symm.trans (same.trans (names service' among'))
    have file : Identifier.routerFile service.name = Identifier.routerFile service'.name := by
      simpa using equal
    rw [Aggregate.eq_of_name_eq distinct among among' (Identifier.routerFile_inj.mp file)]
  case factory => rw [List.mem_singleton.mp member, List.mem_singleton.mp member']
  case aggregate => rw [List.mem_singleton.mp member, List.mem_singleton.mp member']
  case index => rw [List.mem_singleton.mp member, List.mem_singleton.mp member']
  case marker => rw [List.mem_singleton.mp member, List.mem_singleton.mp member']
  all_goals cases member

end Entries

def emitted (output : OutputTree) (rules : VerbRules) (services : List Service) :
    List (Path × String) :=
  Stage.all.flatMap (Stage.entries output rules services)

def spot (root : Path) (place : Place) (path : Path) : Place :=
  (path.names.drop root.names.length).reverse ++ place

theorem spot_eq {root path : Path} {rest : List RawString} (below : root.Below path rest) (place : Place) :
    spot root place path = rest.reverse ++ place := by
  rw [spot, below.names, List.drop_left]

/-- Files laid below a root, the later ones over the earlier ones. -/
def laid (root : Path) (place : Place) (entries : List (Path × String)) : Files :=
  .ofList (entries.map fun entry => (spot root place entry.1, Text.encode entry.2))

theorem laid_eq_none_iff {root : Path} {place there : Place} {entries : List (Path × String)} :
    laid root place entries there = none ↔ ∀ entry ∈ entries, spot root place entry.1 ≠ there :=
  Files.ofList_map_eq_none_iff

theorem laid_concat (root : Path) (place : Place) (entries : List (Path × String)) (path : Path)
    (content : String) :
    laid root place (entries ++ [(path, content)]) =
      (Files.single (spot root place path) (Text.encode content)).atop (laid root place entries) := by
  rw [laid, List.map_append]
  exact Files.ofList_concat _ _ _

section Emitted
variable {output : OutputTree} {rules : VerbRules} {services : List Service}

theorem exists_stage_of_mem_emitted (tidy : output.root.Tidy) (placeable : Placeable services)
    {entry : Path × String} (member : entry ∈ emitted output rules services) :
    ∃ stage rest, entry ∈ Stage.entries output rules services stage ∧ stage ≠ .adaptation ∧
      stage.Writes rest ∧ output.root.Below entry.1 rest := by
  obtain ⟨stage, _, inside⟩ := List.mem_flatMap.mp member
  obtain ⟨rest, writes, below⟩ := (target_of_mem_entries placeable inside).below tidy
  refine ⟨stage, rest, inside, ?_, writes, below⟩
  rintro rfl
  cases inside

theorem laid_emitted (tidy : output.root.Tidy) (placeable : Placeable services)
    (distinct : Aggregate.duplicate? services = none) (place : Place) {entry : Path × String}
    (member : entry ∈ emitted output rules services) :
    laid output.root place (emitted output rules services) (spot output.root place entry.1) =
      some (Text.encode entry.2) := by
  apply Files.ofList_eq_some _ (List.mem_map.mpr ⟨entry, member, rfl⟩)
  intro first inside second inside' same
  obtain ⟨one, written, rfl⟩ := List.mem_map.mp inside
  obtain ⟨other, written', rfl⟩ := List.mem_map.mp inside'
  obtain ⟨stage, rest, mine, _, writes, below⟩ := exists_stage_of_mem_emitted tidy placeable written
  obtain ⟨stage', rest', mine', _, writes', below'⟩ :=
    exists_stage_of_mem_emitted tidy placeable written'
  simp only [spot_eq below, spot_eq below'] at same
  obtain rfl := List.reverse_inj.mp (List.append_cancel_right same)
  obtain rfl := Stage.eq_of_writes writes writes'
  have names := below.names.trans below'.names.symm
  rw [eq_of_names_eq_of_stage tidy placeable distinct mine mine' names]

theorem laid_of_declares (tidy : output.root.Tidy) (placeable : Placeable services) {place there : Place}
    (declares : Declaration.Declares (.ofText "connect" :: place) there) :
    laid output.root place (emitted output rules services) there = none := by
  refine laid_eq_none_iff.mpr fun one written same => ?_
  obtain ⟨stage, rest, _, other, writes, below⟩ := exists_stage_of_mem_emitted tidy placeable written
  rw [spot_eq below] at same
  match there, declares with
  | name :: above, ⟨declaration, front, inner⟩ =>
    have shape : rest = .ofText "connect" :: (front.reverse ++ [name]) := by
      rw [← inner, show name :: (front ++ .ofText "connect" :: place) =
        ((.ofText "connect" :: (front.reverse ++ [name])).reverse ++ place) by simp] at same
      exact List.reverse_inj.mp (List.append_cancel_right same)
    rw [shape] at writes
    exact other (Stage.eq_of_writes writes (.declaration declaration))

theorem not_isProtoName_of_laid (tidy : output.root.Tidy) (placeable : Placeable services)
    {place above : Place} {name : RawString}
    (written : laid output.root place (emitted output rules services) (name :: above) ≠ none) :
    ¬Discovery.IsProtoName name := by
  obtain ⟨content, found⟩ := Option.ne_none_iff_exists'.mp written
  obtain ⟨one, member, same⟩ := List.mem_map.mp (Files.exists_of_ofList found)
  obtain ⟨stage, rest, _, _, writes, below⟩ := exists_stage_of_mem_emitted tidy placeable member
  have there := congrArg Prod.fst same
  simp only [spot_eq below] at there
  obtain nothing | ⟨front, last, rfl⟩ := List.eq_nil_or_concat rest
  · exact absurd nothing below.some_
  · rw [List.concat_eq_append, List.reverse_concat, List.cons_append] at there
    rw [← (List.cons.inj there).1]
    exact Stage.not_isProtoName_of_writes writes (by simp)

end Emitted

end Generation

end TrpcRouters
