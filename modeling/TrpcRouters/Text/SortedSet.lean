/-! Lists in strictly increasing order of a key, built by insertion. Texts come in the order of their code
points, which is also the order of their bytes. -/

namespace TrpcRouters.Text
variable {α κ : Type} [LT κ] [DecidableLT κ] [DecidableEq κ]

/-- Puts an element into its place; one with the key of another is dropped. -/
def insertByKey (key : α → κ) (new : α) : List α → List α
  | [] => [new]
  | first :: rest =>
    if key new < key first then new :: first :: rest
    else if key new = key first then first :: rest
    else first :: insertByKey key new rest

/-- The elements in increasing order of their keys, of equal keys only the first. -/
def sortedSetBy (key : α → κ) (elements : List α) : List α :=
  elements.foldl (fun sorted new => insertByKey key new sorted) []

def sortedSet (keys : List κ) : List κ :=
  sortedSetBy id keys

end TrpcRouters.Text
