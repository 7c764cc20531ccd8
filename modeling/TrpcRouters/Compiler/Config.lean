import TrpcRouters.FileTree.Resolve
import TrpcRouters.Text.Split

/-! Which compiler is run, with which search path, and where it finds imported definitions. -/

namespace TrpcRouters

abbrev Environment := List (String × RawString)

structure CompilerConfig where
  /-- The program that the user asked for. -/
  explicit : Option Path
  fromEnvironment : Option Path
  /-- The directory of programs that come with this one. -/
  bundled : Option Path
  /-- The directory of programs of the project's dependencies. -/
  dependencies : Option Path
  systemPath : Option RawString
  /-- Further import roots, in order of precedence. -/
  includes : List Path
deriving DecidableEq, Inhabited, Repr

namespace CompilerConfig

def none : CompilerConfig :=
  ⟨.none, .none, .none, .none, .none, []⟩

def colon : UInt8 := 0x3a

def splitSearchPath (searchPath : RawString) : List RawString :=
  (Text.cut colon searchPath.bytes).map RawString.mk

def ofEnvironment (environment : Environment) (bundled : Option Path) (workingDirectory : Path) :
    CompilerConfig where
  explicit := .none
  fromEnvironment := match environment.lookup "PROTOC" with
    | some program => if program.bytes = [] then .none else some ⟨program⟩
    | .none => .none
  bundled := bundled
  dependencies := some ((workingDirectory.child "node_modules").child ".bin")
  systemPath := environment.lookup "PATH"
  includes := match environment.lookup "PROTOC_INCLUDE" with
    | some searchPath => (splitSearchPath searchPath).map Path.mk
    | .none => []

def program (config : CompilerConfig) : Path :=
  (config.explicit.or config.fromEnvironment).getD ⟨"protoc"⟩

def searchEntries (config : CompilerConfig) : List RawString :=
  config.bundled.toList.map Path.raw ++ config.dependencies.toList.map Path.raw ++
  match config.systemPath with
  | some searchPath => splitSearchPath searchPath
  | .none => []

/-- The search path for the compiler. There is none without entries, and none if an entry holds the
separator. -/
def searchPath (config : CompilerConfig) : Option RawString :=
  let entries := config.searchEntries
  if entries.isEmpty || entries.any (fun entry => entry.bytes.contains colon) then .none
  else some ⟨Text.glue colon (entries.map RawString.bytes)⟩

def releases (modules : Path) : Path :=
  modules.child "@protobuf-ts/protoc/installed"

def dependencyRoots (tree : FileTree) (modules : Path) : List Path :=
  modules.child "google-proto-files" ::
  match tree.list (releases modules) with
  | .ok names => names.map fun release => ((releases modules).child release).child "include"
  | .error _ => []

def candidateRoots (config : CompilerConfig) (tree : FileTree) : List Path :=
  config.includes ++
  ((config.bundled.bind Path.parent?).map (fun above => above.child "include")).toList ++
  match config.dependencies.bind Path.parent? with
  | some modules => dependencyRoots tree modules
  | .none => []

/-- Keeps the directories that are new: no spelling of `primary` and none of an earlier one. -/
def keepNew (tree : FileTree) (primary : Path) (kept : List Path) : List Path → List Path
  | [] => kept
  | candidate :: rest =>
    if candidate.same primary || kept.any candidate.same || !tree.isDirectory candidate then
      keepNew tree primary kept rest
    else keepNew tree primary (kept ++ [candidate]) rest

def importRoots (config : CompilerConfig) (tree : FileTree) (primary : Path) : List Path :=
  keepNew tree primary [] (config.candidateRoots tree)

end CompilerConfig

end TrpcRouters
