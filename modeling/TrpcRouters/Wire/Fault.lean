/-! What can be wrong with an encoded message, and where the reader was when it found out. -/

namespace TrpcRouters.Wire

inductive WireType where
  | varint
  | sixtyFourBit
  | lengthDelimited
  | startGroup
  | endGroup
  | thirtyTwoBit
deriving DecidableEq, Inhabited, Repr

namespace WireType

def ofCode? : Nat → Option WireType
  | 0 => some varint
  | 1 => some sixtyFourBit
  | 2 => some lengthDelimited
  | 3 => some startGroup
  | 4 => some endGroup
  | 5 => some thirtyTwoBit
  | _ => none

def code : WireType → Nat
  | varint => 0
  | sixtyFourBit => 1
  | lengthDelimited => 2
  | startGroup => 3
  | endGroup => 4
  | thirtyTwoBit => 5

theorem ofCode?_code (wireType : WireType) : ofCode? wireType.code = some wireType := by
  cases wireType <;> rfl

def text : WireType → String
  | varint => "Varint"
  | sixtyFourBit => "SixtyFourBit"
  | lengthDelimited => "LengthDelimited"
  | startGroup => "StartGroup"
  | endGroup => "EndGroup"
  | thirtyTwoBit => "ThirtyTwoBit"

end WireType

inductive Cause where
  | invalidVarint
  | keyTooLarge (key : Nat)
  | unknownWireType (code : Nat)
  | fieldZero
  | wireTypeMismatch (actual expected : WireType)
  | tooDeep
  | underflow
  | overrun
  | notText
  | strayGroupEnd
deriving DecidableEq, Inhabited, Repr

namespace Cause

def text : Cause → String
  | invalidVarint => "invalid varint"
  | keyTooLarge key => "invalid key value: " ++ toString key
  | unknownWireType code => "invalid wire type value: " ++ toString code
  | fieldZero => "invalid tag value: 0"
  | wireTypeMismatch actual expected =>
    "invalid wire type: " ++ actual.text ++ " (expected " ++ expected.text ++ ")"
  | tooDeep => "recursion limit reached"
  | underflow => "buffer underflow"
  | overrun => "delimited length exceeded"
  | notText => "invalid string value: data is not UTF-8 encoded"
  | strayGroupEnd => "unexpected end group tag"

end Cause

/-- A cause with the fields that were being read, innermost first. -/
structure Fault where
  cause : Cause
  trail : List (String × String) := []
deriving DecidableEq, Inhabited, Repr

namespace Fault

def within (message field : String) (fault : Fault) : Fault :=
  { fault with trail := fault.trail ++ [(message, field)] }

def text (fault : Fault) : String :=
  "failed to decode Protobuf message: " ++
  String.join (fault.trail.map fun step => step.1 ++ "." ++ step.2 ++ ": ") ++
  fault.cause.text

end Fault

end TrpcRouters.Wire
