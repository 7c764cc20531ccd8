/-! Generated source modules as a list of statements. Which names a module binds is read off the
statements; text is made from them once, at the end. -/

namespace TrpcRouters.Source

/-- A name in an import list, with the name it is bound to if that is another one. -/
structure ImportClause where
  name : String
  renamed : Option String
deriving DecidableEq, Inhabited, Repr

namespace ImportClause

def text (clause : ImportClause) : String :=
  match clause.renamed with
  | none => clause.name
  | some bound => clause.name ++ " as " ++ bound

def bound (clause : ImportClause) : String :=
  clause.renamed.getD clause.name

end ImportClause

inductive Statement where
  | comment (text : String)
  | blank
  | importNames (names : List String) (source : String)
  | importTypes (clauses : List ImportClause) (source : String)
  | exportConst (name value : String)
  | exportFunction (name signature body : String)
  | exportType (name value : String)
  | exportAll (source : String)
deriving DecidableEq, Inhabited, Repr

namespace Statement

def commas (parts : List String) : String :=
  ", ".intercalate parts

def text : Statement → String
  | comment text => "// " ++ text ++ "\n"
  | blank => "\n"
  | importNames names source =>
    "import \x7b " ++ commas names ++ " \x7d from \"" ++ source ++ "\";\n"
  | importTypes clauses source =>
    "import type \x7b " ++ commas (clauses.map ImportClause.text) ++ " \x7d from \"" ++ source ++ "\";\n"
  | exportConst name value => "export const " ++ name ++ " = " ++ value ++ ";\n"
  | exportFunction name signature body =>
    "export function " ++ name ++ signature ++ " \x7b\n" ++ body ++ "\x7d\n"
  | exportType name value => "export type " ++ name ++ " = " ++ value ++ ";\n"
  | exportAll source => "export * from \"" ++ source ++ "\";\n"

def bound : Statement → List String
  | importNames names _ => names
  | importTypes clauses _ => clauses.map ImportClause.bound
  | exportConst name _ | exportFunction name _ _ | exportType name _ => [name]
  | comment _ | blank | exportAll _ => []

def exported : Statement → List String
  | exportConst name _ | exportFunction name _ _ | exportType name _ => [name]
  | _ => []

end Statement

def header : Statement :=
  .comment "Code generated by proto-to-trpc. DO NOT EDIT."

def render (statements : List Statement) : String :=
  String.join (statements.map Statement.text)

theorem render_cons (statement : Statement) (rest : List Statement) :
    render (statement :: rest) = statement.text ++ render rest := by
  rw [render, List.map_cons, String.join_cons, render]

theorem render_append (first second : List Statement) :
    render (first ++ second) = render first ++ render second := by
  rw [render, List.map_append, String.join_append, render, render]

theorem render_map {α : Type} (elements : List α) (statement : α → Statement) :
    render (elements.map statement) = String.join (elements.map fun element => (statement element).text) := by
  rw [render, List.map_map]
  rfl

/-- The names bound at the top level of a module. -/
def bound (statements : List Statement) : List String :=
  statements.flatMap Statement.bound

/-- The names that a module exports by declaring them. -/
def exported (statements : List Statement) : List String :=
  statements.flatMap Statement.exported

end TrpcRouters.Source
