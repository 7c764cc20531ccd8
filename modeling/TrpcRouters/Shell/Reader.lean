import TrpcRouters.Shell.Script

/-! Reading shell scripts. A reader takes what it understands from the front of the input and gives the
rest; it gives nothing where the input is no script. -/

namespace TrpcRouters.Shell.Reader

def apostrophe : Char := Char.ofNat 0x27

def backquote : Char := Char.ofNat 0x60

def isNameStart (c : Char) : Bool :=
  c.isAlpha || c == '_'

def isNameChar (c : Char) : Bool :=
  c.isAlphanum || c == '_'

def endsWord (c : Char) : Bool :=
  [' ', '\t', '\n', ';', '&', '|', '<', '>', '(', ')'].contains c

def skipBlanks : List Char → List Char
  | '\\' :: '\n' :: rest => skipBlanks rest
  | c :: rest =>
    if c = ' ' ∨ c = '\t' then skipBlanks rest
    else if c = '#' then rest.dropWhile (· ≠ '\n')
    else c :: rest
  | [] => []

def skipLines : (inComment : Bool) → List Char → List Char
  | _, [] => []
  | true, c :: rest => skipLines (c ≠ '\n') rest
  | false, '\\' :: '\n' :: rest => skipLines false rest
  | false, c :: rest =>
    if c = ' ' ∨ c = '\t' ∨ c = '\n' then skipLines false rest
    else if c = '#' then skipLines true rest
    else c :: rest

def after? (expected : String) (input : List Char) : Option (List Char) :=
  if expected.toList.isPrefixOf input then some (input.drop expected.length) else none

def upTo (stop : Char) (input : List Char) : Option (String × List Char) :=
  match input.dropWhile (· ≠ stop) with
  | _ :: rest => some (String.ofList (input.takeWhile (· ≠ stop)), rest)
  | [] => none

def bareWord (input : List Char) : String :=
  String.ofList (input.takeWhile (fun c => !endsWord c))

/-- The input behind a reserved word, which may stand on a later line. -/
def reserved? (word : String) (input : List Char) : Option (List Char) :=
  let input := skipLines false input
  if bareWord input = word then some (input.drop word.length) else none

def name? (input : List Char) : Option (String × List Char) :=
  match input with
  | c :: _ =>
    if isNameStart c then
      some (String.ofList (input.takeWhile isNameChar), input.dropWhile isNameChar)
    else none
  | [] => none

def isSpecial (c : Char) : Bool :=
  c.isDigit || ['@', '*', '#', '?', '-', '$', '!'].contains c

def parameterName? (input : List Char) : Option (String × List Char) :=
  match name? input with
  | some found => some found
  | none =>
    match input with
    | c :: rest =>
      if c.isDigit then
        some (String.ofList (input.takeWhile Char.isDigit), input.dropWhile Char.isDigit)
      else if isSpecial c then some (String.ofList [c], rest)
      else none
    | [] => none

inductive Context where
  | word
  | quotes
  /-- Between braces; `quoted` if the braces are. -/
  | braces (quoted : Bool)
  | whole
deriving DecidableEq

namespace Context

def isEnd : Context → Char → Bool
  | word, c => endsWord c
  | quotes, c => c == '"'
  | braces _, c => c == '\x7d'
  | whole, _ => false

def isOpen : Context → Bool
  | word | whole => true
  | quotes | braces _ => false

def isQuoted : Context → Bool
  | quotes | whole => true
  | word | braces _ => false

end Context

def arithmeticText : (depth : Nat) → List Char → Option (List Char × List Char)
  | _, [] => none
  | 0, ')' :: ')' :: rest => some ([], rest)
  | depth, c :: rest =>
    let inner := if c = '(' then depth + 1 else if c = ')' then depth - 1 else depth
    (arithmeticText inner rest).map fun (found, rest) => (c :: found, rest)

def documentLines (delimiter : String) (stripTabs : Bool) :
    List (List Char) → List (List Char) × List (List Char)
  | [] => ([], [])
  | line :: rest =>
    let line := if stripTabs then line.dropWhile (· = '\t') else line
    if String.ofList line = delimiter then ([], rest)
    else
      let (document, behind) := documentLines delimiter stripTabs rest
      (line :: document, behind)

def linesOf : List Char → List (List Char)
  | [] => [[]]
  | c :: rest =>
    match linesOf rest with
    | [] => [[c]]
    | line :: lines => if c = '\n' then [] :: line :: lines else (c :: line) :: lines

def unlines (lines : List (List Char)) : List Char :=
  lines.flatMap (· ++ ['\n'])

def takeDocument (delimiter : String) (stripTabs : Bool) (input : List Char) :
    List Char × List Char :=
  let current := input.takeWhile (· ≠ '\n')
  let (document, behind) :=
    documentLines delimiter stripTabs (linesOf (input.drop (current.length + 1)))
  (unlines document, current ++ '\n' :: (List.intersperse ['\n'] behind).flatten)

def closingWords : List String :=
  ["then", "do", "done", "elif", "else", "fi", "esac", "\x7d"]

/-- The input begins with what ends a list of commands. -/
def closes (input : List Char) : Bool :=
  match input with
  | [] | ')' :: _ | ';' :: ';' :: _ => true
  | _ => closingWords.contains (bareWord input)

inductive Sign where
  | absent (absence : Absence) (emptyToo : Bool)
  | present (emptyToo : Bool)
  | trim (side : Side) (longest : Bool)

def sign? (input : List Char) : Option (Sign × List Char) :=
  match input with
  | ':' :: '-' :: rest => some (.absent .substitute true, rest)
  | '-' :: rest => some (.absent .substitute false, rest)
  | ':' :: '=' :: rest => some (.absent .assign true, rest)
  | '=' :: rest => some (.absent .assign false, rest)
  | ':' :: '?' :: rest => some (.absent .complain true, rest)
  | '?' :: rest => some (.absent .complain false, rest)
  | ':' :: '+' :: rest => some (.present true, rest)
  | '+' :: rest => some (.present false, rest)
  | '#' :: '#' :: rest => some (.trim .front true, rest)
  | '#' :: rest => some (.trim .front false, rest)
  | '%' :: '%' :: rest => some (.trim .back true, rest)
  | '%' :: rest => some (.trim .back false, rest)
  | _ => none

def Sign.operator (word : List Part) : Sign → Operator
  | absent absence emptyToo => .whenAbsent absence emptyToo word
  | present emptyToo => .whenPresent emptyToo word
  | trim side longest => .trim side longest word

def redirectionSign? (input : List Char) : Option ((Nat × Mode × Bool) × List Char) :=
  let digits := input.takeWhile Char.isDigit
  let given := (String.ofList digits).toNat?
  match input.drop digits.length with
  | '<' :: '<' :: '-' :: rest => some ((given.getD 0, .document, true), rest)
  | '<' :: '<' :: rest => some ((given.getD 0, .document, false), rest)
  | '<' :: '&' :: rest => some ((given.getD 0, .duplicate, false), rest)
  | '<' :: rest => some ((given.getD 0, .read, false), rest)
  | '>' :: '>' :: rest => some ((given.getD 1, .append, false), rest)
  | '>' :: '&' :: rest => some ((given.getD 1, .duplicate, false), rest)
  | '>' :: '|' :: rest => some ((given.getD 1, .truncate, false), rest)
  | '>' :: rest => some ((given.getD 1, .truncate, false), rest)
  | _ => none

def anyQuoted (word : List Part) : Bool :=
  word.any fun
    | .literal _ quoted | .parameter _ _ quoted | .output _ quoted => quoted
    | .arithmetic _ => false

def plainText (word : List Part) : String :=
  String.join (word.map fun
    | .literal text _ => text
    | _ => "")

mutual

def parts : (fuel : Nat) → Context → List Char → Option (List Part × List Char)
  | 0, _, _ => none
  | fuel + 1, context, input =>
    match input with
    | [] => if context.isOpen then some ([], []) else none
    | c :: rest =>
      if context.isEnd c then some ([], if context = .word then input else rest)
      else do
        let (first, rest) ← part fuel context c rest
        let (others, rest) ← parts fuel context rest
        some (first ++ others, rest)

def part : (fuel : Nat) → Context → Char → List Char → Option (List Part × List Char)
  | 0, _, _, _ => none
  | fuel + 1, context, c, rest =>
    if c = '$' then dollar fuel (context.isQuoted || context = .braces true) rest
    else if c = backquote then do
      let (text, rest) ← upTo backquote rest
      let (body, _) ← list fuel text.toList
      some ([.output body context.isQuoted], rest)
    else if c = '\\' then
      match rest with
      | '\n' :: rest => some ([], rest)
      | next :: rest =>
        if context.isQuoted && !(['$', backquote, '"', '\\'].contains next) then
          some ([.literal "\\" true], next :: rest)
        else some ([.literal (String.ofList [next]) true], rest)
      | [] => some ([.literal "\\" true], [])
    else if context.isQuoted then some ([.literal (String.ofList [c]) true], rest)
    else if c = apostrophe then do
      let (text, rest) ← upTo apostrophe rest
      some ([.literal text true], rest)
    else if c = '"' then do
      let (inner, rest) ← parts fuel .quotes rest
      some (if inner.isEmpty then [.literal "" true] else inner, rest)
    else some ([.literal (String.ofList [c]) false], rest)

def dollar : (fuel : Nat) → (quoted : Bool) → List Char → Option (List Part × List Char)
  | 0, _, _ => none
  | fuel + 1, quoted, input =>
    match input with
    | '(' :: '(' :: rest => do
      let (text, rest) ← arithmeticText 0 rest
      let (expression, _) ← parts fuel .whole text
      some ([.arithmetic expression], rest)
    | '(' :: rest => do
      let (body, rest) ← list fuel rest
      let rest ← after? ")" (skipLines false rest)
      some ([.output body quoted], rest)
    | '\x7b' :: '#' :: '\x7d' :: rest => some ([.parameter "#" .plain quoted], rest)
    | '\x7b' :: '#' :: rest => do
      let (name, rest) ← parameterName? rest
      let rest ← after? "\x7d" rest
      some ([.parameter name .length quoted], rest)
    | '\x7b' :: rest => do
      let (name, rest) ← parameterName? rest
      match rest with
      | '\x7d' :: rest => some ([.parameter name .plain quoted], rest)
      | _ =>
        let (sign, rest) ← sign? rest
        let (word, rest) ← parts fuel (.braces quoted) rest
        some ([.parameter name (sign.operator word) quoted], rest)
    | c :: rest =>
      if isSpecial c then some ([.parameter (String.ofList [c]) .plain quoted], rest)
      else
        match name? input with
        | some (name, rest) => some ([.parameter name .plain quoted], rest)
        | none => some ([.literal "$" true], input)
    | [] => some ([.literal "$" true], [])

def list : (fuel : Nat) → List Char → Option (Statement × List Char)
  | 0, _ => none
  | fuel + 1, input => do
    let (statements, rest) ← statements fuel input
    some (.sequence statements, rest)

def statements : (fuel : Nat) → List Char → Option (List Statement × List Char)
  | 0, _ => none
  | fuel + 1, input =>
    let input := skipLines false input
    if closes input then some ([], input)
    else do
      let (first, rest) ← andOr fuel input
      let rest := skipBlanks rest
      match rest with
      | ';' :: ';' :: _ => some ([first], rest)
      | ';' :: rest | '&' :: rest | '\n' :: rest =>
        let (others, rest) ← statements fuel rest
        some (first :: others, rest)
      | _ => if closes rest then some ([first], rest) else none

def andOr : (fuel : Nat) → List Char → Option (Statement × List Char)
  | 0, _ => none
  | fuel + 1, input => do
    let (left, rest) ← pipeline fuel input
    andOrRest fuel left rest

def andOrRest : (fuel : Nat) → Statement → List Char → Option (Statement × List Char)
  | 0, _, _ => none
  | fuel + 1, left, input =>
    match skipBlanks input with
    | '&' :: '&' :: rest => do
      let (right, rest) ← pipeline fuel (skipLines false rest)
      andOrRest fuel (.both left right) rest
    | '|' :: '|' :: rest => do
      let (right, rest) ← pipeline fuel (skipLines false rest)
      andOrRest fuel (.either left right) rest
    | rest => some (left, rest)

def pipeline : (fuel : Nat) → List Char → Option (Statement × List Char)
  | 0, _ => none
  | fuel + 1, input =>
    let input := skipBlanks input
    if bareWord input = "!" then do
      let (body, rest) ← pipeline fuel (input.drop 1)
      some (.negated body, rest)
    else do
      let (left, rest) ← command fuel input
      pipelineRest fuel left rest

def pipelineRest : (fuel : Nat) → Statement → List Char → Option (Statement × List Char)
  | 0, _, _ => none
  | fuel + 1, left, input =>
    match skipBlanks input with
    | '|' :: '|' :: rest => some (left, '|' :: '|' :: rest)
    | '|' :: rest => do
      let (right, rest) ← command fuel (skipLines false rest)
      pipelineRest fuel (.pipe left right) rest
    | rest => some (left, rest)

def command : (fuel : Nat) → List Char → Option (Statement × List Char)
  | 0, _ => none
  | fuel + 1, input =>
    let compound (found : Option (Statement × List Char)) : Option (Statement × List Char) := do
      let (body, rest) ← found
      let (redirections, rest) ← redirections fuel rest
      some (if redirections.isEmpty then body else .redirected body redirections, rest)
    let word := bareWord input
    match input with
    | '(' :: rest => compound do
      let (body, rest) ← list fuel rest
      let rest ← after? ")" (skipLines false rest)
      some (.subshell body, rest)
    | _ =>
      if word = "\x7b" then compound do
        let (body, rest) ← list fuel (input.drop 1)
        let rest ← reserved? "\x7d" rest
        some (body, rest)
      else if word = "if" then compound (ifRest fuel (input.drop 2))
      else if word = "while" ∨ word = "until" then compound do
        let (condition, rest) ← list fuel (input.drop 5)
        let (body, rest) ← doDone fuel rest
        some (.loop (word = "until") condition body, rest)
      else if word = "for" then compound (forRest fuel (skipBlanks (input.drop 3)))
      else if word = "case" then compound do
        let (subject, rest) ← parts fuel .word (skipBlanks (input.drop 4))
        let rest ← reserved? "in" rest
        let (branches, rest) ← branches fuel rest
        some (.branching subject branches, rest)
      else
        match name? input with
        | some (name, rest) =>
          match skipBlanks rest with
          | '(' :: rest => do
            let rest ← after? ")" (skipBlanks rest)
            let (body, rest) ← command fuel (skipLines false rest)
            some (.function name body, rest)
          | _ => simple fuel input
        | none => simple fuel input

def ifRest : (fuel : Nat) → List Char → Option (Statement × List Char)
  | 0, _ => none
  | fuel + 1, input => do
    let (condition, rest) ← list fuel input
    let rest ← reserved? "then" rest
    let (yes, rest) ← list fuel rest
    match reserved? "elif" rest, reserved? "else" rest with
    | some rest, _ =>
      let (no, rest) ← ifRest fuel rest
      some (.choice condition yes no, rest)
    | none, some rest =>
      let (no, rest) ← list fuel rest
      let rest ← reserved? "fi" rest
      some (.choice condition yes no, rest)
    | none, none =>
      let rest ← reserved? "fi" rest
      some (.choice condition yes (.sequence []), rest)

def doDone : (fuel : Nat) → List Char → Option (Statement × List Char)
  | 0, _ => none
  | fuel + 1, input => do
    let rest ← reserved? "do" input
    let (body, rest) ← list fuel rest
    let rest ← reserved? "done" rest
    some (body, rest)

def forRest : (fuel : Nat) → List Char → Option (Statement × List Char)
  | 0, _ => none
  | fuel + 1, input => do
    let (name, rest) ← name? input
    match reserved? "in" rest with
    | some rest =>
      let (words, rest) ← words fuel rest
      let (body, rest) ← doDone fuel ((after? ";" (skipBlanks rest)).getD rest)
      some (.forEach name (some words) body, rest)
    | none =>
      let (body, rest) ← doDone fuel ((after? ";" (skipBlanks rest)).getD rest)
      some (.forEach name none body, rest)

def words : (fuel : Nat) → List Char → Option (List (List Part) × List Char)
  | 0, _ => none
  | fuel + 1, input =>
    match skipBlanks input with
    | [] => some ([], [])
    | c :: rest =>
      if endsWord c then some ([], c :: rest)
      else do
        let (first, rest) ← parts fuel .word (c :: rest)
        let (others, rest) ← words fuel rest
        some (first :: others, rest)

def branches : (fuel : Nat) → List Char → Option ((List (List (List Part) × Statement)) × List Char)
  | 0, _ => none
  | fuel + 1, input =>
    match reserved? "esac" input with
    | some rest => some ([], rest)
    | none => do
      let input := skipLines false input
      let (patterns, rest) ← patterns fuel ((after? "(" input).getD input)
      let (body, rest) ← list fuel rest
      let rest := skipLines false rest
      let (others, rest) ← branches fuel ((after? ";;" rest).getD rest)
      some ((patterns, body) :: others, rest)

def patterns : (fuel : Nat) → List Char → Option (List (List Part) × List Char)
  | 0, _ => none
  | fuel + 1, input => do
    let (first, rest) ← parts fuel .word (skipBlanks input)
    match skipBlanks rest with
    | '|' :: rest =>
      let (others, rest) ← patterns fuel rest
      some (first :: others, rest)
    | ')' :: rest => some ([first], rest)
    | _ => none

def redirection? : (fuel : Nat) → List Char → Option (Option (Redirection × List Char))
  | 0, _ => none
  | fuel + 1, input =>
    match redirectionSign? input with
    | none => none
    | some ((descriptor, mode, stripTabs), rest) => some do
      let (target, rest) ← parts fuel .word (skipBlanks rest)
      if mode = .document then
        let (text, rest) := takeDocument (plainText target) stripTabs rest
        let (content, _) ←
          if anyQuoted target then some ([.literal (String.ofList text) true], [])
          else parts fuel .whole text
        some (.to descriptor mode content, rest)
      else some (.to descriptor mode target, rest)

def redirections : (fuel : Nat) → List Char → Option (List Redirection × List Char)
  | 0, _ => none
  | fuel + 1, input =>
    match redirection? fuel (skipBlanks input) with
    | none => some ([], input)
    | some found => do
      let (first, rest) ← found
      let (others, rest) ← redirections fuel rest
      some (first :: others, rest)

def simple : (fuel : Nat) → List Char → Option (Statement × List Char)
  | 0, _ => none
  | fuel + 1, input => do
    let ((assignments, words, redirections), rest) ← simpleItems fuel true input
    if assignments.isEmpty && words.isEmpty && redirections.isEmpty then none
    else some (.simple (input.count '\n') assignments words redirections, rest)

/-- The items of a simple command; assignments come before the first word. -/
def simpleItems : (fuel : Nat) → (atStart : Bool) → List Char →
    Option ((List (String × List Part) × List (List Part) × List Redirection) × List Char)
  | 0, _, _ => none
  | fuel + 1, atStart, input =>
    let input := skipBlanks input
    match redirection? fuel input with
    | some found => do
      let (first, rest) ← found
      let ((assignments, words, redirections), rest) ← simpleItems fuel atStart rest
      some ((assignments, words, first :: redirections), rest)
    | none =>
      match input with
      | [] => some (([], [], []), [])
      | c :: _ =>
        if endsWord c then some (([], [], []), input)
        else
          match if atStart then name? input else none with
          | some (name, '=' :: rest) => do
            let (value, rest) ← parts fuel .word rest
            let ((assignments, words, redirections), rest) ← simpleItems fuel true rest
            some (((name, value) :: assignments, words, redirections), rest)
          | _ => do
            let (first, rest) ← parts fuel .word input
            let ((assignments, words, redirections), rest) ← simpleItems fuel false rest
            some ((assignments, first :: words, redirections), rest)

end

def line : (fuel : Nat) → List Char → Option (List Statement × List Char)
  | 0, _ => none
  | fuel + 1, input => do
    let (first, rest) ← andOr fuel input
    match skipBlanks rest with
    | ';' :: ';' :: _ => none
    | ';' :: rest | '&' :: rest =>
      match skipBlanks rest with
      | '\n' :: rest => some ([first], rest)
      | [] => some ([first], [])
      | rest =>
        let (others, rest) ← line fuel rest
        some (first :: others, rest)
    | '\n' :: rest => some ([first], rest)
    | [] => some ([first], [])
    | _ => none

/-- The lines of a script up to the first that cannot be read. -/
def lines : (fuel : Nat) → List Char → List Statement
  | 0, _ => []
  | fuel + 1, input =>
    match skipLines false input with
    | [] => []
    | rest =>
      match line (4 * rest.length + 100) rest with
      | some (statements, behind) => statements ++ lines fuel behind
      | none => [.malformed (rest.count '\n')]

/-- Reads a script. It is carried out as far as it can be read. -/
def script (text : String) : Statement :=
  .sequence (lines (text.length + 1) text.toList)

end TrpcRouters.Shell.Reader
