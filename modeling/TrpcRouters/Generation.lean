import TrpcRouters.Compiler.Run
import TrpcRouters.ConnectQuery
import TrpcRouters.Declaration.Pass
import TrpcRouters.Descriptor.Load
import TrpcRouters.Discovery
import TrpcRouters.Router.Aggregate
import TrpcRouters.Router.Factory
import TrpcRouters.Router.Plan

/-! A run from definition files to generated modules. Each stage reports before it begins, and the
first failure ends the run; the files of earlier stages stay, since a later run writes all of them
again. -/

namespace TrpcRouters.Generation

structure Options where
  /-- The root of the definition files, also the first import root. -/
  protoRoot : Path
  output : Path
  rules : VerbRules
  compiler : CompilerConfig
  /-- Leave out all that concerns routers. -/
  connectOnly : Bool
deriving DecidableEq, Inhabited, Repr

def adaptDeclarations (root : Path) : Job (List Path) := do
  Job.ofExcept id (← Job.change (Declaration.pass root))

/-- The services of the requested files in a descriptor set. Requested files that the set lacks are
reported. -/
def loadServices (file : Path) (requested : List String) : Job (List Service) := do
  let set ← Job.ofExcept Descriptor.LoadError.failure
    (← Job.ask fun tree => Descriptor.FileSet.load tree file)
  (set.missing requested).forM (fun name => Job.report (.missing name))
  return set.services requested

def emitConnectQueries (output : OutputTree) (services : List Service) : Job (List Path) := do
  let modules := ConnectQuery.modules output services
  modules.forM (fun entry => Job.emit entry.1 entry.2)
  return modules.map Prod.fst

def requireDistinct (services : List Service) : Job Unit :=
  match Aggregate.duplicate? services with
  | some duplicate => throw (.duplicateService duplicate.text)
  | none => pure ()

def emitFactory (output : OutputTree) (rules : VerbRules) : Job Unit :=
  Job.emit (output.trpcFile "routerFactory") (Factory.code rules)

def emitRouters (output : OutputTree) (rules : VerbRules) (services : List Service) :
    Job (List WrittenRouter) := do
  requireDistinct services
  services.forM fun service =>
    let plan := RouterPlan.ofService output rules service
    Job.emit plan.file plan.code
  return services.map (fun service => Aggregate.writtenRouter output service.name)

def emitAggregate (output : OutputTree) (routers : List WrittenRouter) : Job Unit :=
  Job.emit (output.trpcFile "appRouter") (Aggregate.code routers)

def emitIndex (output : OutputTree) : Job Unit :=
  Job.emit (output.trpcFile "index") Aggregate.indexCode

def emitPackageMarker (output : OutputTree) : Job Unit :=
  Job.emit output.packageMarker Aggregate.packageMarker

def emitRouterTree (output : OutputTree) (rules : VerbRules) (services : List Service) :
    Job Unit := do
  requireDistinct services
  Job.say "Emitting tRPC router factory..."
  emitFactory output rules
  Job.say "Emitting per-service routers..."
  let routers ← emitRouters output rules services
  Job.say "Emitting appRouter..."
  emitAggregate output routers
  Job.say "Emitting index file..."
  emitIndex output

/-- The part of a run behind the compilation of the given files, whose descriptor set is at hand. -/
def emitAll (options : Options) (protoRoot : Path) (output : OutputTree) (protoFiles : List Path)
    (descriptorSet : Path) : Job Unit := do
  Job.say "Post-processing protobuf declaration files..."
  let _ ← adaptDeclarations output.connect
  Job.say "Reading service descriptors..."
  let services ← loadServices descriptorSet (Discovery.namesBelow protoRoot protoFiles)
  Job.say "Emitting connectquery re-exports..."
  let _ ← emitConnectQueries output services
  if options.connectOnly then Job.say "Skipping tRPC generation (--connect-only)"
  else emitRouterTree output options.rules services
  Job.say "Emitting package.json..."
  emitPackageMarker output
  Job.say "Code generation complete."

def withScratch (scratch : Path) (work : Job Unit) : Job Unit := do
  let made ← Job.ofExcept .system (← Job.ask fun tree => tree.makeDirectory scratch)
  modify fun world => { world with tree := made }
  let clear : Job Unit := modify fun world => { world with tree := world.tree.uninstall scratch }
  tryCatch work (fun failure => do clear; throw failure)
  clear

/-- A whole run. The executor stands for the compiler, and `scratch` is a path that is free for the
time of the run. -/
def run (options : Options) (executor : Executor) (scratch : Path) : Job Unit := do
  let protoRoot ← Job.absolute options.protoRoot
  let output : OutputTree := ⟨← Job.absolute options.output⟩
  Job.say ("Discovering .proto files in " ++ protoRoot.text)
  let protoFiles ← Job.ofExcept .system
    (← Job.ask fun tree => Discovery.discover tree protoRoot)
  if protoFiles.isEmpty then throw (.noInput protoRoot)
  Job.say "Running protoc to generate ConnectRPC and TS outputs..."
  withScratch scratch do
    let descriptorSet := scratch.child "descriptors.binpb"
    Compiler.run executor options.compiler
      ⟨protoFiles, output.connect, protoRoot, some descriptorSet⟩
    emitAll options protoRoot output protoFiles descriptorSet

end TrpcRouters.Generation
