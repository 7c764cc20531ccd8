import TrpcRouters.Text.Utf8
import TrpcRouters.Wire.Fault

/-! Numbers in groups of seven bits, least significant first, and the keys made of them. A number has
at most ten bytes and stays below two to the power of sixty-four. -/

namespace TrpcRouters.Wire

namespace Varint

def maxBytes : Nat := 10

/-- Reads a number of at most `places` bytes. The byte in the last place holds one bit. -/
def readWithin : (places : Nat) → Bytes → Option (Nat × Bytes)
  | 0, _ => none
  | _ + 1, [] => none
  | places + 1, byte :: rest =>
    if byte.toNat < 128 then
      if places = 0 ∧ 2 ≤ byte.toNat then none else some (byte.toNat, rest)
    else
      (readWithin places rest).map fun (high, rest) => (byte.toNat - 128 + 128 * high, rest)

def read (input : Bytes) : Except Cause (Nat × Bytes) :=
  match readWithin maxBytes input with
  | some found => .ok found
  | none => .error .invalidVarint

end Varint

structure Key where
  number : Nat
  wireType : WireType
deriving DecidableEq, Inhabited, Repr

namespace Key

def limit : Nat := 0xffffffff

def ofNumber (value : Nat) : Except Cause Key :=
  if limit < value then .error (.keyTooLarge value)
  else
    match WireType.ofCode? (value % 8) with
    | none => .error (.unknownWireType (value % 8))
    | some wireType => if value / 8 = 0 then .error .fieldZero else .ok ⟨value / 8, wireType⟩

def read (input : Bytes) : Except Cause (Key × Bytes) := do
  let (value, rest) ← Varint.read input
  let key ← ofNumber value
  .ok (key, rest)

end Key

def cutBytes (count : Nat) (input : Bytes) : Except Cause (Bytes × Bytes) :=
  if count ≤ input.length then .ok (input.take count, input.drop count) else .error .underflow

def cutCounted (input : Bytes) : Except Cause (Bytes × Bytes) := do
  let (count, rest) ← Varint.read input
  cutBytes count rest

end TrpcRouters.Wire
