import TrpcRouters.Compiler.Command
import TrpcRouters.Failure

/-! Work on a file tree that keeps a log and may fail. What was done before a failure stays done. -/

namespace TrpcRouters

inductive Event where
  | progress (line : String)
  /-- A compiled file is not in the descriptor set. -/
  | missing (file : String)
  | called (command : Command)
deriving DecidableEq, Inhabited, Repr

structure World where
  tree : FileTree
  log : List Event
deriving DecidableEq, Inhabited, Repr

abbrev Job := EStateM Failure World

namespace Job

def report (event : Event) : Job Unit :=
  modify fun world => { world with log := world.log ++ [event] }

def say (line : String) : Job Unit :=
  report (.progress line)

def ask {α : Type} (question : FileTree → α) : Job α := do
  return question (← get).tree

def ofExcept {ε α : Type} (explain : ε → Failure) : Except ε α → Job α
  | .ok value => pure value
  | .error error => throw (explain error)

def change {α : Type} (action : FileTree → FileTree × α) : Job α :=
  modifyGet fun world =>
    let (tree, value) := action world.tree
    (value, { world with tree })

def absolute (path : Path) : Job Path := do
  ofExcept .system (← ask (fun tree => tree.absolute path))

def makeDirectories (path : Path) : Job Unit := do
  match ← change (fun tree => tree.makeDirectories path) with
  | none => pure ()
  | some error => throw (.emission path error)

def emit (path : Path) (content : String) : Job Unit := do
  match path.parent? with
  | some above => makeDirectories above
  | none => pure ()
  match (← get).tree.write path (Text.encode content) with
  | .ok tree => modify fun world => { world with tree }
  | .error error => throw (.emission path error)

end Job

end TrpcRouters
