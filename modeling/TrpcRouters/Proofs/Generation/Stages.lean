import TrpcRouters.Generation
import TrpcRouters.Proofs.ConnectQuery.Modules
import TrpcRouters.Proofs.Declaration.Pass
import TrpcRouters.Proofs.Job

/-! The stages of a run: what each reports when it begins, which files it may write, and how it may fail.
No stage makes a file or a directory where a later one has a file to write. -/

namespace TrpcRouters.Generation

/-- The stages of a run. The paths are made absolute before anything is reported. -/
inductive Stage where
  | preparation
  | discovery
  | compilation
  | adaptation
  | loading
  | connectQueries
  | distinctness
  | factory
  | routers
  | aggregate
  | index
  | marker
deriving DecidableEq, Inhabited, Repr

namespace Stage

def all : List Stage :=
  [preparation, discovery, compilation, adaptation, loading, connectQueries, distinctness,
    factory, routers, aggregate, index, marker]

def rank (stage : Stage) : Nat :=
  all.idxOf stage

instance : LE Stage where
  le earlier later := earlier.rank ≤ later.rank

instance : LT Stage where
  lt earlier later := earlier.rank < later.rank

instance (earlier later : Stage) : Decidable (earlier ≤ later) :=
  inferInstanceAs (Decidable (earlier.rank ≤ later.rank))

instance (earlier later : Stage) : Decidable (earlier < later) :=
  inferInstanceAs (Decidable (earlier.rank < later.rank))

/-- What is reported when a stage begins, or in place of the stages that are left out. -/
def lines (connectOnly : Bool) (protoRoot : Path) : Stage → List String
  | preparation => []
  | discovery => ["Discovering .proto files in " ++ protoRoot.text]
  | compilation => ["Running protoc to generate ConnectRPC and TS outputs..."]
  | adaptation => ["Post-processing protobuf declaration files..."]
  | loading => ["Reading service descriptors..."]
  | connectQueries => ["Emitting connectquery re-exports..."]
  | distinctness => if connectOnly then ["Skipping tRPC generation (--connect-only)"] else []
  | factory => if connectOnly then [] else ["Emitting tRPC router factory..."]
  | routers => if connectOnly then [] else ["Emitting per-service routers..."]
  | aggregate => if connectOnly then [] else ["Emitting appRouter..."]
  | index => if connectOnly then [] else ["Emitting index file..."]
  | marker => ["Emitting package.json..."]

def heard (connectOnly : Bool) (protoRoot : Path) (stage : Stage) : List String :=
  (all.take (stage.rank + 1)).flatMap (lines connectOnly protoRoot)

theorem getElem?_rank (stage : Stage) : all[stage.rank]? = some stage := by
  cases stage <;> rfl

theorem heard_next {earlier later : Stage} (next : later.rank = earlier.rank + 1)
    (connectOnly : Bool) (protoRoot : Path) :
    later.heard connectOnly protoRoot =
      earlier.heard connectOnly protoRoot ++ later.lines connectOnly protoRoot := by
  have here := getElem?_rank later
  rw [next] at here
  rw [heard, heard, next, List.take_add_one, here, List.flatMap_append]
  simp

/-- The names, from the output root on, of a file that a stage may write. -/
inductive Writes : Stage → List RawString → Prop where
  | declaration {names : List RawString} {last : RawString} :
    Declaration.IsDeclarationName last → Writes adaptation (.ofText "connect" :: (names ++ [last]))
  | module (names : List RawString) (stem : String) :
    Writes connectQueries (.ofText "connect" :: (names ++ [.ofText (stem ++ "_connectquery" ++ ".ts")]))
  | factory : Writes factory ["trpc", "routerFactory.ts"]
  | router (service : String) :
    Writes routers ["trpc", "routers", .ofText (Identifier.routerFile service)]
  | aggregate : Writes aggregate ["trpc", "appRouter.ts"]
  | index : Writes index ["trpc", "index.ts"]
  | marker : Writes marker ["package.json"]

/-- The names of a place at which a stage may make or change something. The adaptation makes no
directories. -/
def Touches (stage : Stage) (names : List RawString) : Prop :=
  ∃ rest, stage.Writes rest ∧ names ≠ [] ∧ names <+: rest ∧ (stage = adaptation → names = rest)

theorem declaration_ne_module (stem : String) :
    ¬Declaration.IsDeclarationName (.ofText (stem ++ "_connectquery" ++ ".ts")) := by
  intro declaration
  rw [Declaration.IsDeclarationName, RawString.text_ofText] at declaration
  have module : ("_connectquery" ++ ".ts").toList <:+ (stem ++ "_connectquery" ++ ".ts").toList :=
    ⟨stem.toList, by simp⟩
  have within := List.suffix_of_suffix_length_le declaration module (by decide)
  revert within
  decide

/-- What an earlier stage touches is no file that a later one writes. -/
theorem not_touches {earlier later : Stage} (before : earlier < later) {rest : List RawString}
    (target : later.Writes rest) : ¬earlier.Touches rest := by
  rintro ⟨whole, writes, _, short, single⟩
  cases target <;> cases writes
  case module.declaration stem _ names last declaration =>
    have same := (List.cons.inj (single rfl)).2
    have last_ : [RawString.ofText (stem ++ "_connectquery" ++ ".ts")] = [last] := List.append_inj_right' same rfl
    rw [← List.singleton_inj.mp last_] at declaration
    exact declaration_ne_module stem declaration
  -- Elsewhere the stages are not in this order, or the names part early.
  all_goals first
    | exact absurd before (by decide)
    | simp at short

theorem names_of_touches {stage : Stage} (early : stage ≤ distinctness) {names : List RawString}
    (touches : stage.Touches names) : ∃ more, names = .ofText "connect" :: more := by
  obtain ⟨rest, writes, some_, short, _⟩ := touches
  obtain ⟨first, more, rfl⟩ := List.exists_cons_of_ne_nil some_
  cases writes
  case declaration => exact ⟨more, by rw [(List.cons_prefix_cons.mp short).1]⟩
  case module => exact ⟨more, by rw [(List.cons_prefix_cons.mp short).1]⟩
  all_goals exact absurd early (by decide)

inductive Target (output : OutputTree) : Stage → Path → Prop where
  | declaration {names : List RawString} {last : RawString} : (∀ name ∈ names, Path.IsName name) →
    Path.IsName last → Declaration.IsDeclarationName last →
    Target output adaptation ((FileTree.along output.connect names).child last)
  | module {names : List String} : (∀ name ∈ names, Path.IsName (.ofText name)) →
    Target output connectQueries (ConnectQuery.file output (Text.joined '/' names))
  | factory : Target output factory (output.trpcFile "routerFactory")
  | router {service : String} : '/' ∉ service.toList →
    Target output routers (output.routerFile service)
  | aggregate : Target output aggregate (output.trpcFile "appRouter")
  | index : Target output index (output.trpcFile "index")
  | marker : Target output marker output.packageMarker

theorem isName_routerFile {service : String} (whole : '/' ∉ service.toList) :
    Path.IsName (.ofText (Identifier.routerFile service)) := by
  refine Path.isName_ofText_of_mem (c := 'R') ?_ (by decide) ?_
  · simp [Identifier.routerFile, Identifier.router]
  · simp [Identifier.routerFile, Identifier.router, whole]

theorem below_along {root path : Path} {rest names : List RawString} (below : root.Below path rest)
    (named : ∀ name ∈ names, Path.IsName name) :
    root.Below (FileTree.along path names) (rest ++ names) := by
  induction names generalizing path rest with
  | nil => rwa [List.append_nil]
  | cons name more ih =>
    have later := ih (below.child (named name (List.mem_cons_self ..))) fun other member =>
      named other (List.mem_cons_of_mem _ member)
    rwa [List.append_assoc] at later

theorem Target.below {output : OutputTree} (tidy : output.root.Tidy) {stage : Stage} {path : Path}
    (target : Target output stage path) :
    ∃ rest, stage.Writes rest ∧ output.root.Below path rest := by
  have connect : output.root.Below output.connect ["connect"] := .start tidy (by decide)
  have trpc : output.root.Below output.trpc ["trpc"] := .start tidy (by decide)
  have routers : output.root.Below output.routers ["trpc", "routers"] := trpc.child (by decide)
  cases target with
  | declaration named last declaration =>
    exact ⟨_, .declaration declaration, (below_along connect named).child last⟩
  | module named => exact ⟨_, .module _ _, ConnectQuery.file_below tidy named⟩
  | factory => exact ⟨_, .factory, trpc.child (by decide)⟩
  | router whole => exact ⟨_, .router _, routers.child (isName_routerFile whole)⟩
  | aggregate => exact ⟨_, .aggregate, trpc.child (by decide)⟩
  | index => exact ⟨_, .index, trpc.child (by decide)⟩
  | marker => exact ⟨_, .marker, .start tidy (by decide)⟩

def Raises (output : OutputTree) (stage : Stage) : Failure → Prop
  | .system _ =>
    stage = preparation ∨ stage = discovery ∨ stage = compilation ∨ stage = adaptation
  | .noInput _ => stage = discovery
  | .compiler _ => stage = compilation
  | .emission path error =>
    stage = compilation ∧ path = output.connect ∨ stage = adaptation ∧ Target output adaptation path ∨
      stage ≠ adaptation ∧ ∃ target, Target output stage target ∧ Blames target (.emission path error)
  | .descriptor _ => stage = loading
  | .duplicateService _ => stage = distinctness
  | .general _ => False

theorem lt_marker_of_raises {output : OutputTree} (tidy : output.root.Tidy) {stage : Stage}
    {path : Path} {error : SystemError} (raises : Raises output stage (.emission path error))
    {more : List RawString} (inside : path.names = output.root.names ++ .ofText "trpc" :: more) :
    stage < marker := by
  rcases raises with ⟨rfl, _⟩ | ⟨rfl, _⟩ | ⟨_, target, writes, named, _, same, blamed⟩
  · decide
  · decide
  cases same
  obtain ⟨rest, written, below⟩ := writes.below tidy
  cases written
  case marker =>
    have names : path.names = output.root.names ∨
        path.names = output.root.names ++ [.ofText "package.json"] := by
      rcases blamed with rfl | up
      · exact Or.inr below.names
      · obtain ⟨above, found, _, short⟩ := below.parent
        rw [up] at found
        cases found
        exact Or.inl (by simpa using short)
    rw [inside] at names
    simp at names
  all_goals decide

end Stage

def script (connectOnly : Bool) (protoRoot : Path) : List String :=
  Stage.all.flatMap (Stage.lines connectOnly protoRoot) ++ ["Code generation complete."]

/-- Whatever stage a run gets to, it has reported a part of what a whole run reports. -/
theorem heard_prefix_script (connectOnly : Bool) (protoRoot : Path) (stage : Stage) :
    stage.heard connectOnly protoRoot <+: script connectOnly protoRoot := by
  refine ⟨(Stage.all.drop (stage.rank + 1)).flatMap (Stage.lines connectOnly protoRoot) ++
    ["Code generation complete."], ?_⟩
  rw [Stage.heard, script, ← List.append_assoc, ← List.flatMap_append, List.take_append_drop]

end TrpcRouters.Generation
