import TrpcRouters.Discovery
import TrpcRouters.Failure

/-! Watching the definition files below a directory by looking at them again and again. -/

namespace TrpcRouters.Watch

structure Sighting where
  path : Path
  /-- When the file was written last, as far as the system says. -/
  stamp : Option Nat
  size : Nat
deriving DecidableEq, Inhabited, Repr

abbrev Snapshot := List Sighting

def sighting? (tree : FileTree) (path : Path) : Option Sighting :=
  match tree.entry true path with
  | .ok (_, .file content stamp _) => some ⟨path, some stamp, content.length⟩
  | _ => none

/-- All definition files below a root; one that cannot be looked at is passed over. -/
def capture (tree : FileTree) (root : Path) : Snapshot :=
  (Discovery.protoFiles (tree.walk true root)).filterMap fun entry => sighting? tree entry.path

def requireDirectory (tree : FileTree) (root : Path) : Except CommandFailure Unit :=
  if tree.isDirectory root then .ok ()
  else .error (.refused ("Definition directory not found: " ++ root.text))

/-- A root with what was there at the last look. -/
structure Watcher where
  root : Path
  last : Option Snapshot
deriving DecidableEq, Inhabited, Repr

namespace Watcher

def ofRoot (root : Path) : Watcher :=
  ⟨root, none⟩

/-- Looks again: whether anything differs from the last look, and the watcher afterwards. -/
def poll (watcher : Watcher) (tree : FileTree) : Bool × Watcher :=
  let current := capture tree watcher.root
  (watcher.last != some current, { watcher with last := some current })

end Watcher

end TrpcRouters.Watch
