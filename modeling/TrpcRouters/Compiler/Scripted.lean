import TrpcRouters.Compiler.Command
import TrpcRouters.FileTree.Install

/-! A compiler whose answer is fixed beforehand: it writes a given descriptor set where it is asked for
one, puts given entries below its output directory, and ends as it is told to. -/

namespace TrpcRouters.Compiler

structure Scripted where
  /-- The reason for which it cannot be started. -/
  refusal : Option String
  /-- The bytes that it writes as descriptor set. -/
  descriptorSet : Option Bytes
  /-- What it puts below its output directory. -/
  files : List (String × Node)
  status : WaitStatus
  stderr : Bytes
deriving DecidableEq, Inhabited, Repr

namespace Scripted

def valueOf? (flag : String) (arguments : List String) : Option Path :=
  (arguments.find? (fun argument => flag.toList.isPrefixOf argument.toList)).map fun argument =>
    ⟨String.ofList (argument.toList.drop flag.length)⟩

def writeSet (scripted : Scripted) (command : Command) (tree : FileTree) : FileTree :=
  match scripted.descriptorSet, valueOf? "--descriptor_set_out=" command.arguments with
  | some content, some path =>
    match tree.write path content with
    | .ok written => written
    | .error _ => tree
  | _, _ => tree

def writeFiles (scripted : Scripted) (command : Command) (tree : FileTree) : FileTree :=
  match valueOf? "--connect-es_out=" command.arguments with
  | some output =>
    tree.installAll (scripted.files.map fun entry => (output.child entry.1, entry.2))
  | none => tree

def execute (scripted : Scripted) : Executor := fun command tree =>
  match scripted.refusal with
  | some reason => (tree, .error (.described reason))
  | none =>
    (scripted.writeFiles command (scripted.writeSet command tree),
      .ok ⟨scripted.status, [], scripted.stderr⟩)

end Scripted

end TrpcRouters.Compiler
