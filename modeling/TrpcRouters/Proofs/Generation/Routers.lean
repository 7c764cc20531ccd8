import TrpcRouters.Proofs.FileTree.Folder
import TrpcRouters.Proofs.Generation.Emitted
import TrpcRouters.Proofs.Router.Contents

/-! Writing the routers of services. It begins with the check of their fields; behind it every service has
a router, a file and a field of its own, so that no router takes the place of another. -/

namespace TrpcRouters.Generation
open FileTree Aggregate Identifier

def routerTexts (output : OutputTree) (rules : VerbRules) (services : List Service) :
    List (String × String) :=
  services.map fun service => (routerFile service.name, (RouterPlan.ofService output rules service).code)

/-- In the directory of the routers, no link is called like the file of one. -/
def Unlinked (output : OutputTree) (services : List Service) (tree : FileTree) : Prop :=
  ∀ folder, tree.Leads (tree.start output.routers) output.routers.names folder →
    ∀ service ∈ services, tree.Bare folder (routerFile service.name)

section
variable {output : OutputTree} {rules : VerbRules} {services : List Service}

theorem requireDistinct_eq (services : List Service) (world : World) :
    requireDistinct services world =
      match duplicate? services with
      | some duplicate => .error (.duplicateService duplicate.text) world
      | none => .ok () world := by
  unfold requireDistinct
  cases duplicate? services <;> rfl

theorem requireDistinct_ok_iff {world : World} :
    requireDistinct services world = .ok () world ↔ (fields services).Nodup := by
  rw [← duplicate?_eq_none_iff, requireDistinct_eq]
  cases duplicate? services <;> simp

/-- The check refuses the first service whose field is taken, and says so of it and of the one before. -/
structure Refused (services : List Service) (earlier later : Service) (i j : Nat) : Prop where
  reported : Reported services ⟨earlier, later, shortName later.name⟩ i j
  failure (world : World) : requireDistinct services world =
    .error (.duplicateService (earlier.typeName ++ " (" ++ earlier.protoFile ++ ") and " ++
      later.typeName ++ " (" ++ later.protoFile ++ ") both map to router field '" ++
      shortName later.name ++ "'")) world

theorem exists_refused (taken : ¬(fields services).Nodup) :
    ∃ earlier later i j, Refused services earlier later i j := by
  cases found : duplicate? services with
  | none => exact absurd (duplicate?_eq_none_iff.mp found) taken
  | some duplicate =>
    obtain ⟨i, j, reported⟩ := exists_reported found
    obtain ⟨earlier, later, field⟩ := duplicate
    have same : field = shortName later.name := reported.field
    subst same
    exact ⟨earlier, later, i, j, reported, fun world => by rw [requireDistinct_eq, found]; rfl⟩

theorem emitRouters_of_nodup (distinct : (fields services).Nodup) :
    emitRouters output rules services = do
      (routerTexts output rules services).forM fun entry =>
        Job.emit (output.routers.child entry.1) entry.2
      return services.map fun service => writtenRouter output service.name := by
  have check : requireDistinct services = pure () := by
    rw [requireDistinct, duplicate?_eq_none_iff.mpr distinct]
  have each : ((routerTexts output rules services).forM fun entry =>
      Job.emit (output.routers.child entry.1) entry.2) =
        services.forM fun service => Job.emit (RouterPlan.ofService output rules service).file
          (RouterPlan.ofService output rules service).code := by
    have file : ∀ service, (RouterPlan.ofService output rules service).file =
      output.routers.child (routerFile service.name) := fun _ => rfl
    simp only [routerTexts, List.forM_eq_forM, List.forM_map, file]
  rw [each, emitRouters, check, pure_bind]

theorem isName_of_mem_routerTexts (whole : ∀ service ∈ services, '/' ∉ service.name.toList) :
    ∀ entry ∈ routerTexts output rules services, Path.IsName entry.1 := by
  intro entry member
  obtain ⟨service, among, rfl⟩ := List.mem_map.mp member
  exact Stage.isName_routerFile (whole service among)

theorem nodup_routerTexts (distinct : (fields services).Nodup) :
    ((routerTexts output rules services).map Prod.fst).Nodup := by
  have files : (routerTexts output rules services).map Prod.fst =
      (services.map Service.name).map routerFile := by
    rw [routerTexts, List.map_map, List.map_map]
    rfl
  rw [files]
  exact (nodup_names (duplicate?_eq_none_iff.mpr distinct)).map fun _ _ => routerFile_inj.mp

theorem nodup_routerFiles (distinct : (fields services).Nodup)
    (whole : ∀ service ∈ services, '/' ∉ service.name.toList) :
    (services.map fun service => (output.routerFile service.name).components).Nodup := by
  refine List.Nodup.map_on ?_ (List.Nodup.of_map _ distinct)
  intro first member second member' same
  rw [OutputTree.routerFile, OutputTree.routerFile,
    Path.components_child (Stage.isName_routerFile (whole first member)),
    Path.components_child (Stage.isName_routerFile (whole second member'))] at same
  have file : routerFile first.name = routerFile second.name := by
    simpa using List.append_cancel_left same
  exact eq_of_name_eq (duplicate?_eq_none_iff.mpr distinct) member member' (routerFile_inj.mp file)

theorem filed_of_emitRouters (distinct : (fields services).Nodup)
    (whole : ∀ service ∈ services, '/' ∉ service.name.toList) {before after : World}
    {written : List WrittenRouter} (sound : before.tree.Sound)
    (result : emitRouters output rules services before = .ok written after)
    (unlinked : Unlinked output services after.tree) :
    ∃ folder, Filed output.routers folder (routerTexts output rules services) before.tree after.tree ∧
      ∀ entry ∈ routerTexts output rules services,
        after.tree.read (output.routers.child entry.1) = .ok (Text.encode entry.2) := by
  have some_ : output.routers.isEmpty = false := Path.isEmpty_child (by decide)
  have named : ∀ entry ∈ routerTexts output rules services, Path.IsName entry.1 :=
    isName_of_mem_routerTexts whole
  have filled := (Job.forM_emit_child sound some_ _ named).run before rfl
  rw [emitRouters_of_nodup distinct, Job.bind_eq] at result
  cases ended : (routerTexts output rules services).forM
      (fun entry => Job.emit (output.routers.child entry.1) entry.2) before with
  | error failure world =>
    rw [ended] at result
    cases result
  | ok value world =>
    rw [ended] at result filled
    cases result
    by_cases none_ : services = []
    · subst none_
      refine ⟨[], ⟨?_, by simp [routerTexts]⟩, by simp [routerTexts]⟩
      rw [filled.idle rfl]
      exact .refl sound
    · obtain ⟨folder, leads⟩ := filled.leads (by simpa [routerTexts] using none_)
      have bare : ∀ entry ∈ routerTexts output rules services, after.tree.Bare folder entry.1 := by
        intro entry member
        obtain ⟨service, among, rfl⟩ := List.mem_map.mp member
        exact unlinked folder leads service among
      have filed := filled.filed leads bare
      exact ⟨folder, filed, fun entry member =>
        filed.read some_ named (nodup_routerTexts distinct) leads member⟩

end

/-- Each service has a router, a file and a field of its own, and one file is written for each. -/
structure WrittenApart (output : OutputTree) (rules : VerbRules) (services : List Service) : Prop where
  routers : (services.map fun service => router service.name).Nodup
  files : (services.map fun service => (output.routerFile service.name).components).Nodup
  keys : ∃ keys : List String, keys.Nodup ∧ keys.length = services.length ∧
    body (services.map fun service => writtenRouter output service.name) = keyed keys services
  job : emitRouters output rules services = do
    (routerTexts output rules services).forM fun entry =>
      Job.emit (output.routers.child entry.1) entry.2
    return services.map fun service => writtenRouter output service.name
  names : ((routerTexts output rules services).map Prod.fst).Nodup
  tree {before after : World} {written : List WrittenRouter} : before.tree.Sound →
    emitRouters output rules services before = .ok written after →
    Unlinked output services after.tree →
    ∃ folder, Overlaid (.ofList ((routerTexts output rules services).map fun entry =>
        (entry.1 :: folder, Text.encode entry.2))) before.tree after.tree ∧
      ∀ service ∈ services, after.tree.read (output.routerFile service.name) =
        .ok (Text.encode (RouterPlan.ofService output rules service).code)

section
variable {output : OutputTree} {rules : VerbRules} {services : List Service}

theorem writtenApart (distinct : (fields services).Nodup)
    (whole : ∀ service ∈ services, '/' ∉ service.name.toList) : WrittenApart output rules services where
  routers := by
    have routers : (services.map fun service => router service.name) =
        (services.map Service.name).map router := by
      rw [List.map_map]
      rfl
    rw [routers]
    exact (nodup_names (duplicate?_eq_none_iff.mpr distinct)).map fun _ _ => router_inj.mp
  files := nodup_routerFiles distinct whole
  keys := ⟨fields services, distinct, List.length_map _, body_writtenRouters output services⟩
  job := emitRouters_of_nodup distinct
  names := nodup_routerTexts distinct
  tree sound result unlinked := by
    obtain ⟨folder, filed, read⟩ := filed_of_emitRouters distinct whole sound result unlinked
    refine ⟨folder, filed.overlaid, fun service among => ?_⟩
    have held := read _ (List.mem_map_of_mem (f := fun service : Service =>
      (routerFile service.name, (RouterPlan.ofService output rules service).code)) among)
    dsimp only at held
    rwa [OutputTree.routerFile]

end

/-- The check passes exactly if all fields differ, that is if no name occurs twice and none extends
another. Otherwise it refuses the first service whose field is taken, together with the only one before it
that has the field. Services that pass it get routers apart from each other, unless a link is called like the
file of one. -/
theorem requireDistinct_exact (services : List Service) :
    (∀ world, requireDistinct services world = .ok () world ↔ (fields services).Nodup) ∧
    ((fields services).Nodup ↔ services.Pairwise fun first second =>
      ¬(first.name = second.name ∨ Extends first.name second.name ∨ Extends second.name first.name)) ∧
    (¬(fields services).Nodup → ∃ earlier later i j, Refused services earlier later i j) ∧
    ((fields services).Nodup → (∀ service ∈ services, '/' ∉ service.name.toList) →
      ∀ output rules, WrittenApart output rules services) :=
  ⟨fun _ => requireDistinct_ok_iff, nodup_fields_iff, exists_refused,
    fun distinct whole _ _ => writtenApart distinct whole⟩

def stallServices : List Service :=
  [⟨"Service", "stall.Service", "stall.proto", []⟩, ⟨"Stall", "stall.Stall", "stall.proto", []⟩]

def oldService : Service :=
  ⟨"ServiceService", "old.ServiceService", "old.proto", []⟩

def stallOutput : OutputTree :=
  ⟨⟨"gen"⟩⟩

def stallRun : EStateM.Result Failure World (List WrittenRouter) :=
  emitRouters stallOutput .default stallServices ⟨⟨[(["work"], .directory)], ["work"], 0, [], []⟩, []⟩

set_option maxRecDepth 10000 in
theorem stallRun_ends : (match stallRun with
    | .ok _ after => after.tree.nodes.all fun entry => decide (entry.2 matches .file .. | .directory)
    | .error _ _ => false) = true := by
  decide +kernel

theorem stall_written_and_oldService_refused :
    (∃ written after, stallRun = .ok written after ∧ ∀ service ∈ stallServices,
      after.tree.read (stallOutput.routerFile service.name) =
        .ok (Text.encode (RouterPlan.ofService stallOutput .default service).code)) ∧
      ∃ earlier later i j, Refused (stallServices ++ [oldService]) earlier later i j := by
  have distinct : (fields stallServices).Nodup := by decide +kernel
  have whole : ∀ service ∈ stallServices, '/' ∉ service.name.toList := by decide +kernel
  have taken : ¬(fields (stallServices ++ [oldService])).Nodup := by decide +kernel
  constructor
  · cases result : stallRun with
    | error failure after => simpa [result] using stallRun_ends
    | ok written after =>
      have plain : ∀ entry ∈ after.tree.nodes, ∀ target, entry.2 ≠ .link target := by
        intro entry member target link
        have ends := stallRun_ends
        rw [result] at ends
        simpa [link] using List.all_eq_true.mp ends entry member
      have unlinked : Unlinked stallOutput stallServices after.tree := by
        intro folder _ service _ target held
        exact LinkFree.of_nodes plain folder [_] target held
      have apart := (requireDistinct_exact stallServices).2.2.2 distinct whole stallOutput .default
      have sound : FileTree.Sound ⟨[(["work"], .directory)], ["work"], 0, [], []⟩ := by decide +kernel
      obtain ⟨folder, _, read⟩ := apart.tree sound result unlinked
      exact ⟨written, after, rfl, read⟩
  · exact (requireDistinct_exact (stallServices ++ [oldService])).2.2.1 taken

def twoServices : List Service :=
  [⟨"A", "A", "a.proto", []⟩, ⟨"B", "B", "a.proto", []⟩]

/-- A link that is called like the file of the first router and leads to that of the second. -/
def aliasTree : FileTree where
  nodes := [(["gen"], .directory), (["trpc", "gen"], .directory), (["routers", "trpc", "gen"], .directory),
    (["ARouter.ts", "routers", "trpc", "gen"], .link ⟨"BRouter.ts"⟩)]
  workingDirectory := []
  clock := 0

def aliasRun : EStateM.Result Failure World (List WrittenRouter) :=
  emitRouters ⟨⟨"/gen"⟩⟩ .default twoServices ⟨aliasTree, []⟩

set_option maxRecDepth 10000 in
theorem aliasRun_ends : (match aliasRun with
    | .ok _ after => after.tree.read ⟨"/gen/trpc/routers/ARouter.ts"⟩ ==
        after.tree.read ⟨"/gen/trpc/routers/BRouter.ts"⟩ &&
      after.tree.read ⟨"/gen/trpc/routers/ARouter.ts"⟩ !=
        .ok (Text.encode (RouterPlan.ofService ⟨⟨"/gen"⟩⟩ .default ⟨"A", "A", "a.proto", []⟩).code)
    | .error _ _ => false) = true := by
  decide +kernel

/-- Services that pass the check, the second of which takes the file of the first through a link. -/
theorem linked_router_overwritten :
    aliasTree.Sound ∧ (fields twoServices).Nodup ∧ (∀ service ∈ twoServices, '/' ∉ service.name.toList) ∧
      ∃ written after, emitRouters ⟨⟨"/gen"⟩⟩ .default twoServices ⟨aliasTree, []⟩ = .ok written after ∧
        after.tree.read ⟨"/gen/trpc/routers/ARouter.ts"⟩ = after.tree.read ⟨"/gen/trpc/routers/BRouter.ts"⟩ ∧
        after.tree.read ⟨"/gen/trpc/routers/ARouter.ts"⟩ ≠
          .ok (Text.encode (RouterPlan.ofService ⟨⟨"/gen"⟩⟩ .default ⟨"A", "A", "a.proto", []⟩).code) := by
  refine ⟨by decide, by decide, by decide, ?_⟩
  have ends := aliasRun_ends
  cases result : aliasRun with
  | error failure after => simp [result] at ends
  | ok written after =>
    rw [result] at ends
    obtain ⟨same, other⟩ := Bool.and_eq_true_iff.mp ends
    exact ⟨written, after, result, eq_of_beq same, bne_iff_ne.mp other⟩

end TrpcRouters.Generation
