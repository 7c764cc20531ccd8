/-! Texts as bytes and back, strictly or with replacement characters for what encodes nothing. -/

namespace TrpcRouters

abbrev Bytes := List UInt8

namespace Text

def encode (text : String) : Bytes :=
  text.toByteArray.data.toList

def decode? (bytes : Bytes) : Option String :=
  String.fromUTF8? ⟨bytes.toArray⟩

/-- How a multi-byte character may go on: the number of bytes still to come, the range that the next
one has to be in, and the bits read so far. -/
structure Pending where
  missing : Nat
  least : Nat
  greatest : Nat
  bits : Nat
deriving DecidableEq, Inhabited, Repr

/-- What a first byte announces: a character of its own, a longer character, or nothing. -/
inductive Opening where
  | single (c : Char)
  | longer (pending : Pending)
  | invalid

/-- The announcement of a first byte. Overlong forms, surrogates and numbers beyond the last character
are shut out by the range of the second byte. -/
def opening (byte : Nat) : Opening :=
  if byte < 0x80 then .single (Char.ofNat byte)
  else if byte < 0xc2 then .invalid
  else if byte < 0xe0 then .longer ⟨1, 0x80, 0xbf, byte - 0xc0⟩
  else if byte = 0xe0 then .longer ⟨2, 0xa0, 0xbf, 0⟩
  else if byte = 0xed then .longer ⟨2, 0x80, 0x9f, 0xd⟩
  else if byte < 0xf0 then .longer ⟨2, 0x80, 0xbf, byte - 0xe0⟩
  else if byte = 0xf0 then .longer ⟨3, 0x90, 0xbf, 0⟩
  else if byte < 0xf4 then .longer ⟨3, 0x80, 0xbf, byte - 0xf0⟩
  else if byte = 0xf4 then .longer ⟨3, 0x80, 0x8f, 4⟩
  else .invalid

def replacement : Char := Char.ofNat 0xfffd

/-- What a byte at the start of a character gives, and what it leaves open. -/
def open_ (byte : UInt8) : List Char × Option Pending :=
  match opening byte.toNat with
  | .single c => ([c], none)
  | .longer pending => ([], some pending)
  | .invalid => ([replacement], none)

/-- One byte further. A byte that does not go on ends the character begun before it and is then read
as a first byte. -/
def step : Option Pending → UInt8 → List Char × Option Pending
  | none, byte => open_ byte
  | some pending, byte =>
    if pending.least ≤ byte.toNat ∧ byte.toNat ≤ pending.greatest then
      let bits := 64 * pending.bits + (byte.toNat - 0x80)
      if pending.missing = 1 then ([Char.ofNat bits], none)
      else ([], some ⟨pending.missing - 1, 0x80, 0xbf, bits⟩)
    else
      let (found, left) := open_ byte
      (replacement :: found, left)

/-- The characters of bytes, a replacement character for each longest piece that begins one and does
not end it. -/
def decodeFrom : Option Pending → Bytes → List Char
  | none, [] => []
  | some _, [] => [replacement]
  | state, byte :: rest =>
    let (found, next) := step state byte
    found ++ decodeFrom next rest

def decodeLossy (bytes : Bytes) : String :=
  String.ofList (decodeFrom none bytes)

end Text

end TrpcRouters
