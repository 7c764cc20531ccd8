/-! Whole-number expressions of scripts: operators of ten ranks between operands that are numbers,
variables or expressions in parentheses. -/

namespace TrpcRouters.Shell.Arithmetic

inductive Token where
  | number (value : Int)
  | name (text : String)
  | sign (text : String)
deriving DecidableEq, Inhabited, Repr

def digitValue (c : Char) : Nat :=
  if c.isDigit then c.toNat - '0'.toNat else 10 + (c.toLower.toNat - 'a'.toNat)

def digitsValue (base : Nat) (digits : List Char) : Int :=
  digits.foldl (fun value digit => base * value + digitValue digit) 0

/-- A number; one that begins with zero is octal, or hexadecimal behind an x. -/
def numberOf (word : List Char) : Int :=
  match word with
  | '0' :: 'x' :: digits | '0' :: 'X' :: digits => digitsValue 16 digits
  | '0' :: digits => digitsValue 8 digits
  | digits => digitsValue 10 digits

def isNameChar (c : Char) : Bool :=
  c.isAlphanum || c == '_'

/-- The operators of each rank, those that bind loosest first. -/
def ranks : List (List String) :=
  [["||"], ["&&"], ["|"], ["^"], ["&"], ["==", "!="], ["<=", ">=", "<", ">"], ["<<", ">>"],
    ["+", "-"], ["*", "/", "%"]]

def pairs : List String :=
  ["||", "&&", "==", "!=", "<=", ">=", "<<", ">>"]

def tokens : (fuel : Nat) → List Char → List Token
  | 0, _ => []
  | _, [] => []
  | fuel + 1, c :: rest =>
    if c = ' ' ∨ c = '\t' ∨ c = '\n' then tokens fuel rest
    else if isNameChar c then
      let word := c :: rest.takeWhile isNameChar
      let behind := rest.dropWhile isNameChar
      (if c.isDigit then .number (numberOf word) else .name (String.ofList word)) ::
        tokens fuel behind
    else
      match rest with
      | next :: behind =>
        if pairs.contains (String.ofList [c, next]) then
          .sign (String.ofList [c, next]) :: tokens fuel behind
        else .sign (String.ofList [c]) :: tokens fuel rest
      | [] => [.sign (String.ofList [c])]

def truth (holds : Bool) : Int :=
  if holds then 1 else 0

def apply (operator : String) (left right : Int) : Int :=
  match operator with
  | "||" => truth (left != 0 || right != 0)
  | "&&" => truth (left != 0 && right != 0)
  | "|" => (left.toNat ||| right.toNat : Nat)
  | "^" => (left.toNat ^^^ right.toNat : Nat)
  | "&" => (left.toNat &&& right.toNat : Nat)
  | "==" => truth (left = right)
  | "!=" => truth (left ≠ right)
  | "<=" => truth (left ≤ right)
  | ">=" => truth (left ≥ right)
  | "<" => truth (left < right)
  | ">" => truth (left > right)
  | "<<" => left * Nat.pow 2 right.toNat
  | ">>" => left / Nat.pow 2 right.toNat
  | "+" => left + right
  | "-" => left - right
  | "*" => left * right
  | "/" => left.tdiv right
  | "%" => left.tmod right
  | _ => 0

mutual

/-- The value of the expression at the front of the tokens, with operators of the given ranks, and the
tokens behind it. -/
def value (variable_ : String → Int) : (fuel : Nat) → List (List String) → List Token →
    Int × List Token
  | 0, _, input => (0, input)
  | fuel + 1, [], input => operand variable_ fuel input
  | fuel + 1, rank :: higher, input =>
    let (left, rest) := value variable_ fuel higher input
    chain variable_ fuel rank higher left rest

/-- Goes on behind a left operand as long as operators of a rank follow. -/
def chain (variable_ : String → Int) : (fuel : Nat) → List String → List (List String) → Int →
    List Token → Int × List Token
  | 0, _, _, left, input => (left, input)
  | fuel + 1, rank, higher, left, input =>
    match input with
    | .sign operator :: rest =>
      if rank.contains operator then
        let (right, rest) := value variable_ fuel higher rest
        chain variable_ fuel rank higher (apply operator left right) rest
      else (left, input)
    | _ => (left, input)

def operand (variable_ : String → Int) : (fuel : Nat) → List Token → Int × List Token
  | 0, input => (0, input)
  | fuel + 1, input =>
    match input with
    | .number number :: rest => (number, rest)
    | .name name :: rest => (variable_ name, rest)
    | .sign "-" :: rest =>
      let (inner, rest) := operand variable_ fuel rest
      (-inner, rest)
    | .sign "+" :: rest => operand variable_ fuel rest
    | .sign "!" :: rest =>
      let (inner, rest) := operand variable_ fuel rest
      (truth (inner = 0), rest)
    | .sign "(" :: rest =>
      let (inner, rest) := value variable_ fuel ranks rest
      (inner, rest.drop 1)
    | _ => (0, input)

end

def evaluate (variable_ : String → Int) (text : List Char) : Int :=
  let input := tokens (text.length + 1) text
  (value variable_ (20 * (input.length + 1)) ranks input).1

end TrpcRouters.Shell.Arithmetic
