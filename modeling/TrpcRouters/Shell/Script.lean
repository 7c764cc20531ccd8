/-! Shell scripts as trees: words with their expansions, and commands built from them. -/

namespace TrpcRouters.Shell

inductive Side where
  | front
  | back
deriving DecidableEq, Inhabited, Repr

inductive Mode where
  | truncate
  | append
  | read
  | duplicate
  /-- The target is the content itself. -/
  | document
deriving DecidableEq, Inhabited, Repr

inductive Absence where
  | substitute
  | assign
  | complain
deriving DecidableEq, Inhabited, Repr

mutual

/-- A part of a word. What is quoted is neither split nor read as a pattern. -/
inductive Part where
  | literal (text : String) (quoted : Bool)
  | parameter (name : String) (operator : Operator) (quoted : Bool)
  | output (body : Statement) (quoted : Bool)
  | arithmetic (expression : List Part)

inductive Operator where
  | plain
  | length
  /-- For a parameter without value, or with an empty one if `emptyToo`. -/
  | whenAbsent (absence : Absence) (emptyToo : Bool) (word : List Part)
  /-- For a parameter with a value, which must not be empty if `emptyToo`. -/
  | whenPresent (emptyToo : Bool) (word : List Part)
  | trim (side : Side) (longest : Bool) (pattern : List Part)

inductive Redirection where
  | to (descriptor : Nat) (mode : Mode) (target : List Part)

inductive Statement where
  /-- `below` is the number of lines of the script that follow. -/
  | simple (below : Nat) (assignments : List (String × List Part)) (words : List (List Part))
      (redirections : List Redirection)
  | pipe (left right : Statement)
  | negated (body : Statement)
  | both (left right : Statement)
  | either (left right : Statement)
  | sequence (body : List Statement)
  | subshell (body : Statement)
  | choice (condition yes no : Statement)
  /-- Repeats while the condition succeeds, or until it does if `untilTrue`. -/
  | loop (untilTrue : Bool) (condition body : Statement)
  /-- Without words the arguments are used. -/
  | forEach (name : String) (words : Option (List (List Part))) (body : Statement)
  | branching (subject : List Part) (branches : List (List (List Part) × Statement))
  | function (name : String) (body : Statement)
  | redirected (body : Statement) (redirections : List Redirection)
  /-- What cannot be read, with `below` lines of the script behind it. -/
  | malformed (below : Nat)

end

instance : Inhabited Statement := ⟨.sequence []⟩

end TrpcRouters.Shell
