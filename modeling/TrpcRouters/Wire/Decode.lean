import TrpcRouters.Wire.Schema
import TrpcRouters.Wire.Varint

/-! Reading encoded messages against their schema. The reader keeps the fields that the schema knows,
in the order of their occurrence, and steps over the others. Lengths are compared with all the input
that remains, not with the end of the enclosing message. -/

namespace TrpcRouters.Wire

inductive Value where
  | text (content : String)
  | bytes (content : Bytes)
  | flag (isSet : Bool)
  | integer (number : Nat)
  | double (content : Bytes)
  | message (entries : List (Nat × Value))
deriving Inhabited

/-- Field numbers with what was read for them, in order. -/
abbrev Entries := List (Nat × Value)

/-- Repeats `step` until no more than `remaining` bytes are left. Every step takes at least one byte,
so `fuel` bytes of input need no more than `fuel` steps. -/
def repeatUntil {α : Type} (step : Bytes → Except Fault (List α × Bytes)) (remaining : Nat) :
    (fuel : Nat) → Bytes → Except Fault (List α × Bytes)
  | 0, input => .ok ([], input)
  | fuel + 1, input =>
    if input.length ≤ remaining then .ok ([], input)
    else do
      let (found, rest) ← step input
      let (more, rest) ← repeatUntil step remaining fuel rest
      .ok (found ++ more, rest)

/-- A failure of a single step that concerns no field yet. -/
def lift {α : Type} (result : Except Cause α) : Except Fault α :=
  result.mapError (fun cause => ⟨cause, []⟩)

/-- Reads a length and then whatever `step` reads, up to exactly that length. -/
def readDelimited {α : Type} (step : Bytes → Except Fault (List α × Bytes)) (input : Bytes) :
    Except Fault (List α × Bytes) := do
  let (length, rest) ← lift (Varint.read input)
  if rest.length < length then .error ⟨.underflow, []⟩
  else
    let remaining := rest.length - length
    let (found, rest) ← repeatUntil step remaining rest.length rest
    if rest.length = remaining then .ok (found, rest) else .error ⟨.overrun, []⟩

def skipGroup (skip : Key → Bytes → Except Cause Bytes) (number : Nat) :
    (fuel : Nat) → Bytes → Except Cause Bytes
  | 0, _ => .error .invalidVarint
  | fuel + 1, input => do
    let (key, rest) ← Key.read input
    if key.wireType = .endGroup then
      if key.number = number then .ok rest else .error .strayGroupEnd
    else
      let rest ← skip key rest
      skipGroup skip number fuel rest

/-- Steps over the content of an unknown field with `depth` levels left. -/
def skip : (depth : Nat) → Key → Bytes → Except Cause Bytes
  | 0, _, _ => .error .tooDeep
  | depth + 1, key, input =>
    match key.wireType with
    | .varint => (Varint.read input).map Prod.snd
    | .sixtyFourBit => (cutBytes 8 input).map Prod.snd
    | .thirtyTwoBit => (cutBytes 4 input).map Prod.snd
    | .lengthDelimited => (cutCounted input).map Prod.snd
    | .startGroup => skipGroup (skip depth) key.number (input.length + 1) input
    | .endGroup => .error .strayGroupEnd

def expect (expected actual : WireType) : Except Cause Unit :=
  if actual = expected then .ok () else .error (.wireTypeMismatch actual expected)

def readText (content : Bytes) : Except Cause String :=
  match Text.decode? content with
  | some text => .ok text
  | none => .error .notText

def readInteger (input : Bytes) : Except Fault (List Value × Bytes) := do
  let (value, rest) ← lift (Varint.read input)
  .ok ([.integer value], rest)

/-- Reads the content of a known field. A repeated number may come as a delimited run of numbers. -/
def readContent (nested : MessageType → Bytes → Except Fault (Entries × Bytes)) (field : Field)
    (wireType : WireType) (input : Bytes) : Except Fault (List Value × Bytes) :=
  match field.type with
  | .text => do
    lift (expect .lengthDelimited wireType)
    let (content, rest) ← lift (cutCounted input)
    let text ← lift (readText content)
    .ok ([.text text], rest)
  | .bytes => do
    lift (expect .lengthDelimited wireType)
    let (content, rest) ← lift (cutCounted input)
    .ok ([.bytes content], rest)
  | .flag => do
    lift (expect .varint wireType)
    let (value, rest) ← lift (Varint.read input)
    .ok ([.flag (value != 0)], rest)
  | .integer =>
    if field.repeated ∧ wireType = .lengthDelimited then readDelimited readInteger input
    else do
      lift (expect .varint wireType)
      readInteger input
  | .double => do
    lift (expect .sixtyFourBit wireType)
    let (content, rest) ← lift (cutBytes 8 input)
    .ok ([.double content], rest)
  | .message type => do
    lift (expect .lengthDelimited wireType)
    let (entries, rest) ← nested type input
    .ok ([.message entries], rest)

def readEntryWith (nested : MessageType → Bytes → Except Fault (Entries × Bytes))
    (skip : Key → Bytes → Except Cause Bytes) (type : MessageType) (input : Bytes) :
    Except Fault (Entries × Bytes) := do
  let (key, rest) ← lift (Key.read input)
  match type.field? key.number with
  | none =>
    let rest ← lift (skip key rest)
    .ok ([], rest)
  | some field =>
    match readContent nested field key.wireType rest with
    | .ok (values, rest) => .ok (values.map (fun value => (field.number, value)), rest)
    | .error fault => .error (fault.within type.name field.name)

/-- Reads one field of a message with `depth` levels left below it. -/
def readEntry : (depth : Nat) → MessageType → Bytes → Except Fault (Entries × Bytes)
  | 0 => readEntryWith (fun _ _ => .error ⟨.tooDeep, []⟩) (skip 0)
  | depth + 1 => readEntryWith (fun type => readDelimited (readEntry depth type)) (skip (depth + 1))

/-- The levels of messages below the outermost one. -/
def maxDepth : Nat := 100

def decode (type : MessageType) (input : Bytes) : Except Fault Entries :=
  (repeatUntil (readEntry maxDepth type) 0 input.length input).map Prod.fst

end TrpcRouters.Wire
