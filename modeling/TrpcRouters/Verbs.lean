import TrpcRouters.Text.Blank

/-! The policy that makes a method a query or a mutation. Only the query verbs decide; the mutation
verbs are carried along for the generated code to list. -/

namespace TrpcRouters

inductive ProcedureKind where
  | query
  | mutation
deriving DecidableEq, Inhabited, Repr

namespace ProcedureKind

def text : ProcedureKind → String
  | query => "query"
  | mutation => "mutation"

end ProcedureKind

structure VerbRules where
  query : List String
  mutation : List String
deriving DecidableEq, Inhabited, Repr

namespace VerbRules

def defaultQuery : List String :=
  ["Get", "List"]

def defaultMutation : List String :=
  ["Create", "Update", "Delete"]

def orDefault (defaults : List String) : List String → List String
  | [] => defaults
  | verbs => verbs

/-- The rules for lists that may be absent; an absent list counts as an empty one. -/
def ofLists (query mutation : Option (List String)) : VerbRules where
  query := orDefault defaultQuery (query.getD [])
  mutation := orDefault defaultMutation (mutation.getD [])

def default : VerbRules :=
  ofLists none none

/-- The verbs of a list that a user wrote: without the blanks around them, and without those that are
blank. -/
def cleaned (raw : List String) : List String :=
  (raw.map Text.trimmed).filter (· ≠ "")

def normalized (raw : Option (List String)) : Option (List String) :=
  match raw.map cleaned with
  | none | some [] => none
  | some verbs => some verbs

def ofWritten (query mutation : Option (List String)) : VerbRules :=
  ofLists (normalized query) (normalized mutation)

def startsWithAny (verbs : List String) (name : String) : Bool :=
  verbs.any (fun verb => verb.toList.isPrefixOf name.toList)

/-- The kind of a method under given verbs. No query verbs mean the default ones. -/
def kindUnder (query _mutation : List String) (name : String) : ProcedureKind :=
  let isQuery := if query.isEmpty then startsWithAny defaultQuery name else startsWithAny query name
  if isQuery then .query else .mutation

def classify (rules : VerbRules) (name : String) : ProcedureKind :=
  kindUnder rules.query rules.mutation name

end VerbRules

end TrpcRouters
