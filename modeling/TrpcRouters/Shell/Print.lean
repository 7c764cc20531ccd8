import TrpcRouters.Shell.Word

/-! What the printing commands of a shell make of their arguments: escapes, and formats with
directives. -/

namespace TrpcRouters.Shell.Print

def octal? (c : Char) : Option Nat :=
  if '0' ≤ c ∧ c ≤ '7' then some (c.toNat - '0'.toNat) else none

/-- The value of the octal digits at the front, at most `count` of them, and the rest. -/
def octalValue : (count : Nat) → (value : Nat) → List Char → Nat × List Char
  | 0, value, input => (value, input)
  | _, value, [] => (value, [])
  | count + 1, value, c :: rest =>
    match octal? c with
    | some digit => octalValue count (8 * value + digit) rest
    | none => (value, c :: rest)

def letterEscape? : Char → Option UInt8
  | 'a' => some 7
  | 'b' => some 8
  | 'f' => some 12
  | 'n' => some 10
  | 'r' => some 13
  | 't' => some 9
  | 'v' => some 11
  | '\\' => some 92
  | _ => none

def bytesOf (c : Char) : Bytes :=
  Word.bytes (String.singleton c)

/-- The byte that an escape stands for, and what follows it. The input begins behind the backslash.
A zero may stand before three octal digits if `longZero`. -/
def escape? (longZero : Bool) : List Char → Option (UInt8 × List Char)
  | c :: rest =>
    match letterEscape? c with
    | some byte => some (byte, rest)
    | none =>
      if (octal? c).isSome then
        let (value, rest) := octalValue 3 0 (if longZero && c = '0' then rest else c :: rest)
        some (UInt8.ofNat value, rest)
      else none
  | [] => none

/-- The text with its escapes carried out. The flag tells that output ends here. -/
def escaped : (fuel : Nat) → List Char → Bytes × Bool
  | 0, _ => ([], false)
  | _, [] => ([], false)
  | _, '\\' :: 'c' :: _ => ([], true)
  | fuel + 1, '\\' :: rest =>
    match escape? true rest with
    | some (byte, rest) =>
      let (others, stopped) := escaped fuel rest
      (byte :: others, stopped)
    | none =>
      let (others, stopped) := escaped fuel rest
      (92 :: others, stopped)
  | fuel + 1, c :: rest =>
    let (others, stopped) := escaped fuel rest
    (bytesOf c ++ others, stopped)

/-- Arguments with blanks between them, their escapes carried out, and a line end unless the first
argument forbids it. -/
def echo (arguments : List String) : Bytes :=
  let (arguments, ending) : List String × Bytes := match arguments with
    | "-n" :: rest => (rest, [])
    | _ => (arguments, [10])
  let text := (" ".intercalate arguments).toList
  let (shown, stopped) := escaped (text.length + 1) text
  shown ++ if stopped then [] else ending

def isEchoOption (argument : String) : Bool :=
  match argument.toList with
  | '-' :: c :: rest => (c :: rest).all fun letter => letter = 'n' || letter = 'e' || letter = 'E'
  | _ => false

/-- What the program `echo` prints, as opposed to the shell's own command: escapes stay as they are
unless an option asks for them. -/
def echoProgram (arguments : List String) : Bytes :=
  let letters := ((arguments.takeWhile isEchoOption).flatMap String.toList).filter (· ≠ '-')
  let text := (" ".intercalate (arguments.dropWhile isEchoOption)).toList
  let carriesOut := (letters.filter (· ≠ 'n')).getLast? == some 'e'
  let (shown, stopped) :=
    if carriesOut then escaped (text.length + 1) text else (text.flatMap bytesOf, false)
  shown ++ if stopped || letters.contains 'n' then [] else [10]

structure Directive where
  toLeft : Bool
  zeros : Bool
  width : Nat
  precision : Option Nat
  conversion : Char
deriving Inhabited, Repr

def directive? (input : List Char) : Option (Directive × List Char) :=
  let isMark (c : Char) : Bool := c = '-' || c = '0' || c = '+' || c = ' ' || c = '#'
  let marks := input.takeWhile isMark
  let rest := input.dropWhile isMark
  let width := rest.takeWhile Char.isDigit
  let rest := rest.dropWhile Char.isDigit
  let (precision, rest) : Option Nat × List Char := match rest with
    | '.' :: rest =>
      (some ((String.ofList (rest.takeWhile Char.isDigit)).toNat?.getD 0),
        rest.dropWhile Char.isDigit)
    | _ => (none, rest)
  match rest with
  | conversion :: rest =>
    some (⟨marks.contains '-', marks.contains '0', (String.ofList width).toNat?.getD 0, precision,
      conversion⟩, rest)
  | [] => none

def integer? (text : String) : Option Int :=
  match text.toList with
  | '-' :: digits => (String.ofList digits).toNat?.map fun value => -(value : Int)
  | '+' :: digits => (String.ofList digits).toNat?.map Int.ofNat
  | _ => text.toNat?.map Int.ofNat

def digitsOf (base : Nat) (argument : String) : Bytes :=
  let value := (integer? argument).getD 0
  Word.bytes ((if value < 0 then "-" else "") ++ String.ofList (Nat.toDigits base value.natAbs))

def padded (directive : Directive) (numeric : Bool) (content : Bytes) : Bytes :=
  let missing := directive.width - content.length
  if directive.toLeft then content ++ List.replicate missing 32
  else if directive.zeros && numeric then
    match content with
    | 45 :: digits => 45 :: (List.replicate missing 48 ++ digits)
    | _ => List.replicate missing 48 ++ content
  else List.replicate missing 32 ++ content

def converted (directive : Directive) (argument : String) : Bytes :=
  let cutOff (content : Bytes) : Bytes := match directive.precision with
    | some count => content.take count
    | none => content
  match directive.conversion with
  | 'd' | 'i' | 'u' => padded directive true (digitsOf 10 argument)
  | 'o' => padded directive true (digitsOf 8 argument)
  | 'x' => padded directive true (digitsOf 16 argument)
  | 'X' => padded directive true ((digitsOf 16 argument).map fun byte =>
      if 97 ≤ byte && byte ≤ 102 then byte - 32 else byte)
  | 'c' => padded directive false (Word.bytes (String.ofList (argument.toList.take 1)))
  | 'b' => padded directive false (cutOff (escaped (argument.length + 1) argument.toList).1)
  | _ => padded directive false (cutOff (Word.bytes argument))

/-- One pass over a format: the bytes, and the arguments that it did not use. -/
def formatOnce : (fuel : Nat) → List Char → List String → Bytes × List String
  | 0, _, arguments => ([], arguments)
  | _, [], arguments => ([], arguments)
  | fuel + 1, '%' :: '%' :: rest, arguments =>
    let (others, left) := formatOnce fuel rest arguments
    (37 :: others, left)
  | fuel + 1, '%' :: rest, arguments =>
    match directive? rest with
    | some (directive, rest) =>
      let (others, left) := formatOnce fuel rest arguments.tail
      (converted directive (arguments.head?.getD "") ++ others, left)
    | none => ([37], arguments)
  | fuel + 1, '\\' :: rest, arguments =>
    match escape? false rest with
    | some (byte, rest) =>
      let (others, left) := formatOnce fuel rest arguments
      (byte :: others, left)
    | none =>
      let (others, left) := formatOnce fuel rest arguments
      (92 :: others, left)
  | fuel + 1, c :: rest, arguments =>
    let (others, left) := formatOnce fuel rest arguments
    (bytesOf c ++ others, left)

/-- Uses a format again as long as there are arguments that it takes. -/
def formatAll : (fuel : Nat) → List Char → List String → Bytes
  | 0, _, _ => []
  | fuel + 1, format, arguments =>
    let (shown, left) := formatOnce (format.length + 1) format arguments
    if left.isEmpty || left.length = arguments.length then shown
    else shown ++ formatAll fuel format left

def formatted (format : String) (arguments : List String) : Bytes :=
  formatAll (arguments.length + 1) format.toList arguments

end TrpcRouters.Shell.Print
