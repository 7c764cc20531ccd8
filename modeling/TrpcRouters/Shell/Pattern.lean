import TrpcRouters.Shell.Script

/-! Patterns with wildcards, and the parts of a text that they match. -/

namespace TrpcRouters.Shell

inductive Glyph where
  | exactly (c : Char)
  | one
  | any
  /-- Some character in a range, or in none of them if `negated`. -/
  | oneOf (negated : Bool) (ranges : List (Char × Char))
deriving DecidableEq, Inhabited, Repr

/-- A character with the mark that it stands for itself. -/
abbrev Marked := Char × Bool

namespace Glyph

def accepts : Glyph → Char → Bool
  | exactly expected, c => c == expected
  | one, _ | any, _ => true
  | oneOf negated ranges, c => (ranges.any fun range => range.1 ≤ c && c ≤ range.2) != negated

def ranges : (fuel : Nat) → (first : Bool) → List Marked →
    Option (List (Char × Char) × List Marked)
  | 0, _, _ => none
  | fuel + 1, first, input =>
    match input with
    | [] => none
    | (low, _) :: ('-', false) :: (high, quoted) :: rest =>
      if low = ']' ∧ !first then none
      else if high = ']' ∧ !quoted then
        some ([(low, low), ('-', '-')], rest)
      else (ranges fuel false rest).map fun (found, rest) => ((low, high) :: found, rest)
    | (c, quoted) :: rest =>
      if c = ']' ∧ !quoted ∧ !first then some ([], rest)
      else (ranges fuel false rest).map fun (found, rest) => ((c, c) :: found, rest)

/-- The pattern that marked characters stand for; a bracket that is not closed stands for itself. -/
def read : (fuel : Nat) → List Marked → List Glyph
  | 0, _ => []
  | _, [] => []
  | fuel + 1, (c, quoted) :: rest =>
    if quoted then exactly c :: read fuel rest
    else if c = '*' then any :: read fuel rest
    else if c = '?' then one :: read fuel rest
    else if c = '[' then
      let (negated, inner) := match rest with
        | ('!', false) :: inner => (true, inner)
        | _ => (false, rest)
      match ranges (inner.length + 1) true inner with
      | some (found, rest) => oneOf negated found :: read fuel rest
      | none => exactly c :: read fuel rest
    else exactly c :: read fuel rest

end Glyph

def tails : List Char → List (List Char)
  | [] => [[]]
  | c :: rest => (c :: rest) :: tails rest

def matchesText : List Glyph → List Char → Bool
  | [], text => text.isEmpty
  | .any :: pattern, text => (tails text).any (matchesText pattern)
  | _ :: _, [] => false
  | glyph :: pattern, c :: rest => glyph.accepts c && matchesText pattern rest

def pattern (marked : List Marked) : List Glyph :=
  Glyph.read (marked.length + 1) marked

/-- The lengths up to that of a text, in the order in which a match is looked for. -/
def candidateLengths (longest : Bool) (text : List Char) : List Nat :=
  let lengths := List.range (text.length + 1)
  if longest then lengths.reverse else lengths

/-- A text without the shortest or longest match at one of its ends. -/
def trim (side : Side) (longest : Bool) (glyphs : List Glyph) (text : List Char) : List Char :=
  let lengths := candidateLengths longest text
  match side with
  | .front =>
    match lengths.find? (fun count => matchesText glyphs (text.take count)) with
    | some count => text.drop count
    | none => text
  | .back =>
    match lengths.find? (fun count => matchesText glyphs (text.drop (text.length - count))) with
    | some count => text.take (text.length - count)
    | none => text

def hasWildcard (marked : List Marked) : Bool :=
  marked.any (fun (c, quoted) => !quoted && (c == '*' || c == '?' || c == '['))

end TrpcRouters.Shell
