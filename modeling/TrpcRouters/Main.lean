import TrpcRouters.CommandLine.Run
import TrpcRouters.Shell.Execute
import TrpcRouters.Shell.Toolbox

/-! The command on the disk: the files that a run may need are read into a tree, the run works on the
tree, and what it changed is written back. Compilers are scripts. -/

namespace TrpcRouters.Disk

def stampOf (moment : IO.FS.SystemTime) : Nat :=
  moment.sec.toNat * 1000000000 + moment.nsec.toNat

def scriptMark : Bytes :=
  [0x23, 0x21]

/-- An entry and all below it. What cannot be read is left out. -/
partial def entriesBelow (entry : IO.FS.DirEntry) : IO (List (Path × Node)) := do
  let path : Path := ⟨entry.path.toString⟩
  try
    let known ← entry.path.symlinkMetadata
    match known.type with
    | .dir =>
      let below ← (← entry.path.readDir).toList.mapM entriesBelow
      return (path, .directory) :: below.flatten
    | .symlink => return [(path, .link ⟨(← IO.FS.realPath entry.path).toString⟩)]
    | .file =>
      let content := (← IO.FS.readBinFile entry.path).toList
      return [(path, .file content (stampOf known.modified) (scriptMark.isPrefixOf content))]
    | .other => return []
  catch _ => return []

def entryAt (path : Path) : IO.FS.DirEntry :=
  match path.parent?, path.fileName? with
  | some above, some name => ⟨above.text, name.text⟩
  | _, _ => ⟨path.text, "."⟩

def load (workingDirectory : Path) (paths : List Path) : IO FileTree := do
  let bare : FileTree := ⟨[], workingDirectory.names.reverse, 0, [], []⟩
  let entries ← (paths.filterMap (fun path => path.absolute? workingDirectory)).mapM
    fun path => entriesBelow (entryAt path)
  return Shell.Toolbox.installed
    (bare.installAll ((workingDirectory, .directory) :: (⟨"/tmp"⟩, .directory) :: entries.flatten))

def store (before after : FileTree) : IO Unit := do
  for (place, node) in after.nodes do
    if before.node? place ≠ some node then
      let path := (FileTree.pathOf place).text
      match node with
      | .directory => IO.FS.createDirAll path
      | .file content _ _ => IO.FS.writeBinFile path ⟨content.toArray⟩
      | .link _ => pure ()
  for (place, node) in before.nodes do
    if (after.node? place).isNone then
      match node with
      | .file _ _ _ => IO.FS.removeFile (FileTree.pathOf place).text
      | _ => pure ()

def environment : IO Environment := do
  let names := ["PATH", "HOME", "PROTOC", "PROTOC_INCLUDE", "RUST_LOG"]
  let found ← names.mapM fun name => do
    return (← IO.getEnv name).map fun value => (name, RawString.ofText value)
  return found.filterMap id

def printNow (text : String) : IO Unit := do
  let output ← IO.getStdout
  output.putStr text
  output.flush

end TrpcRouters.Disk

namespace TrpcRouters.CommandLine

def showReports (environment : Environment) (reports : List Report) : IO Unit :=
  Disk.printNow (Report.shown (Level.threshold environment) reports)

/-- Goes on watching: a pause, then a look at the disk. -/
partial def keepWatching (surroundings : Surroundings) (workingDirectory : Path)
    (options : Generation.Options) (pause : Nat) (watcher : Watch.Watcher) : IO Unit := do
  IO.sleep pause.toUInt32
  let before ← Disk.load workingDirectory (workingDirectory :: concerned options)
  let (reports, watcher, after) := look surroundings options watcher before
  Disk.store before after
  showReports surroundings.environment reports
  keepWatching surroundings workingDirectory options pause watcher

def runOnDisk (arguments : List String) : IO UInt32 := do
  let workingDirectory : Path := ⟨(← IO.currentDir).toString⟩
  let environment ← Disk.environment
  let surroundings : Surroundings :=
    ⟨environment, some ⟨(← IO.appDir).toString⟩, Shell.execute environment, ⟨"/tmp/proto-to-trpc"⟩⟩
  let paths := match Request.ofArguments arguments with
    | .ok request => workingDirectory :: concerned (request.options surroundings workingDirectory)
    | .error _ => []
  let before ← Disk.load workingDirectory paths
  let (outcome, after) := run surroundings arguments before
  Disk.store before after
  showReports environment outcome.reports
  match outcome.ending with
  | .success => pure ()
  | .failure reason => IO.eprintln reason.text
  | .misuse error => IO.eprintln ("error: " ++ error.text)
  | .watching options pause watcher =>
    keepWatching surroundings workingDirectory options pause watcher
  return outcome.ending.exitCode.toUInt32

end TrpcRouters.CommandLine

def main (arguments : List String) : IO UInt32 :=
  TrpcRouters.CommandLine.runOnDisk arguments
