import TrpcRouters.Identifier
import TrpcRouters.Path.Basic

/-! Where generated files lie below the output directory, and how one module names another. -/

namespace TrpcRouters

structure OutputTree where
  root : Path
deriving DecidableEq, Inhabited, Repr

namespace OutputTree

def connect (tree : OutputTree) : Path :=
  tree.root.child "connect"

def trpc (tree : OutputTree) : Path :=
  tree.root.child "trpc"

def routers (tree : OutputTree) : Path :=
  tree.trpc.child "routers"

def trpcFile (tree : OutputTree) (module_ : String) : Path :=
  tree.trpc.child (RawString.ofText (module_ ++ ".ts"))

def routerFile (tree : OutputTree) (service : String) : Path :=
  tree.routers.child (Identifier.routerFile service)

def packageMarker (tree : OutputTree) : Path :=
  tree.root.child "package.json"

end OutputTree

def protoStem (protoFile : String) : String :=
  (((Path.ofText protoFile).fileStem?).map RawString.text).getD ""

/-- The module generated from a definition file, without its extension: beside the file's place below
`base`, with the suffix behind its stem. -/
def generatedModule (base : Path) (protoFile suffix : String) : Path :=
  let folder := ((Path.ofText protoFile).parent?).getD Path.empty
  (base.join folder).child (RawString.ofText (protoStem protoFile ++ suffix))

namespace Specifier

def shared : List Component → List Component → Nat
  | a :: left, b :: right => if a = b then shared left right + 1 else 0
  | _, _ => 0

def steps (from_ target : List Component) : List String :=
  let common := shared from_ target
  (from_.drop common).map (fun _ => "..") ++ (target.drop common).map Component.text

/-- The specifier by which a module in `from_` imports `target`. It begins with a dot. -/
def between (from_ target : Path) : String :=
  let joined := Text.joined '/' (steps from_.components target.components)
  if ['.', '.'].isPrefixOf joined.toList then joined else "./" ++ joined

def wellKnown : String :=
  "@bufbuild/protobuf"

def wellKnownFolder : String :=
  "google/protobuf/"

def ofMessages (from_ connect : Path) (protoFile : String) : String :=
  if wellKnownFolder.toList.isPrefixOf protoFile.toList then wellKnown
  else between from_ (generatedModule connect protoFile "_pb") ++ ".js"

def ofServices (from_ connect : Path) (protoFile : String) : String :=
  between from_ (generatedModule connect protoFile "_connect") ++ ".js"

end Specifier

end TrpcRouters
