import Mathlib.Algebra.Group.Nat.Defs
import TrpcRouters.Proofs.Text.Utf8
import TrpcRouters.Wire.Decode

/-! The standard encoding of entries, and that numbers, keys and counted runs of bytes are read as they
were written, whatever follows them. -/

namespace TrpcRouters

namespace Wire

namespace Varint

/-- Writes a number in as few bytes as it takes, and in no more than `places`. -/
def writeWithin : (places : Nat) → Nat → Bytes
  | 0, _ => []
  | places + 1, value =>
    if value < 128 then [UInt8.ofNat value]
    else UInt8.ofNat (value % 128 + 128) :: writeWithin places (value / 128)

def write (value : Nat) : Bytes :=
  writeWithin maxBytes value

theorem toNat_byte {value : Nat} (bound : value < 256) : (UInt8.ofNat value).toNat = value :=
  UInt8.toNat_ofNat_of_lt' bound

theorem readWithin_writeWithin (places : Nat) {value : Nat} (bound : value < 2 * 128 ^ places)
    (rest : Bytes) :
    readWithin (places + 1) (writeWithin (places + 1) value ++ rest) = some (value, rest) := by
  induction places generalizing value with
  | zero =>
    have single : value < 2 := by simpa using bound
    rw [writeWithin, if_pos (by omega), List.singleton_append, readWithin, toNat_byte (by omega),
      if_pos (by omega), if_neg (by omega)]
  | succ places ih =>
    rw [writeWithin]
    split
    next low =>
      rw [List.singleton_append, readWithin, toNat_byte (by omega), if_pos low, if_neg (by omega)]
    next high =>
      have shorter : value / 128 < 2 * 128 ^ places := by
        rw [Nat.pow_succ] at bound
        omega
      have parts : value % 128 + 128 - 128 + 128 * (value / 128) = value := by omega
      rw [List.cons_append, readWithin, toNat_byte (by omega), if_neg (by omega), ih shorter]
      exact congrArg (fun number => some (number, rest)) parts

theorem read_write {value : Nat} (bound : value < 2 ^ 64) (rest : Bytes) :
    read (write value ++ rest) = .ok (value, rest) := by
  rw [read, write, maxBytes, readWithin_writeWithin 9 (by omega) rest]

theorem length_write_pos (value : Nat) : 0 < (write value).length := by
  simp only [write, maxBytes, writeWithin]
  split <;> simp

end Varint

namespace Key

def write (key : Key) : Bytes :=
  Varint.write (8 * key.number + key.wireType.code)

theorem ofNumber_whole {key : Key} (some_ : 0 < key.number) (bound : key.number < 2 ^ 29) :
    ofNumber (8 * key.number + key.wireType.code) = .ok key := by
  have code : key.wireType.code < 8 := by cases key.wireType <;> decide
  have low : (8 * key.number + key.wireType.code) % 8 = key.wireType.code := by omega
  have high : (8 * key.number + key.wireType.code) / 8 = key.number := by omega
  have small : ¬0xffffffff < 8 * key.number + key.wireType.code := by omega
  rw [ofNumber, limit, if_neg small, low, WireType.ofCode?_code, high]
  exact if_neg (by omega)

theorem read_write {key : Key} (some_ : 0 < key.number) (bound : key.number < 2 ^ 29) (rest : Bytes) :
    read (key.write ++ rest) = .ok (key, rest) := by
  have code : key.wireType.code < 8 := by cases key.wireType <;> decide
  have written : Varint.read (Varint.write (8 * key.number + key.wireType.code) ++ rest) =
      .ok (8 * key.number + key.wireType.code, rest) := Varint.read_write (by omega) rest
  rw [read, write, written]
  show Except.bind (ofNumber _) _ = _
  rw [ofNumber_whole some_ bound]
  rfl

end Key

def counted (content : Bytes) : Bytes :=
  Varint.write content.length ++ content

theorem cutBytes_append (content rest : Bytes) :
    cutBytes content.length (content ++ rest) = .ok (content, rest) := by
  rw [cutBytes, if_pos (by simp), List.take_left, List.drop_left]

theorem cutCounted_counted {content : Bytes} (short : content.length < 2 ^ 64) (rest : Bytes) :
    cutCounted (counted content ++ rest) = .ok (content, rest) := by
  rw [cutCounted, counted, List.append_assoc, Varint.read_write short]
  exact cutBytes_append content rest

theorem length_of_counted {content : Bytes} {bound : Nat} (short : (counted content).length < bound) :
    content.length < bound := by
  rw [counted, List.length_append] at short
  omega

theorem readText_encode (content : String) : readText (Text.encode content) = .ok content := by
  rw [readText, Text.decode?_encode]

def Value.wireType : Value → WireType
  | .text _ | .bytes _ | .message _ => .lengthDelimited
  | .flag _ | .integer _ => .varint
  | .double _ => .sixtyFourBit

mutual

def Value.encode : Value → Bytes
  | .text content => counted (Text.encode content)
  | .bytes content => counted content
  | .flag isSet => Varint.write isSet.toNat
  | .integer number => Varint.write number
  | .double content => content
  | .message entries => counted (Entries.encode entries)

def Entries.encodeEntry : Nat × Value → Bytes
  | (number, value) => Key.write ⟨number, value.wireType⟩ ++ Value.encode value

def Entries.encode : Entries → Bytes
  | [] => []
  | entry :: rest => Entries.encodeEntry entry ++ Entries.encode rest

end

mutual

def Value.depth : Value → Nat
  | .message entries => Entries.depth entries + 1
  | _ => 0

def Entries.entryDepth : Nat × Value → Nat
  | (_, value) => Value.depth value

/-- The levels of messages below the one that holds the entries. -/
def Entries.depth : Entries → Nat
  | [] => 0
  | entry :: rest => max (Entries.entryDepth entry) (Entries.depth rest)

end

mutual

/-- The value is of a type: its numbers fit, and its messages hold what their types know. -/
def Value.Fits (type : FieldType) : Value → Prop
  | .text _ => type = .text
  | .bytes _ => type = .bytes
  | .flag _ => type = .flag
  | .integer number => type = .integer ∧ number < 2 ^ 64
  | .double content => type = .double ∧ content.length = 8
  | .message entries => ∃ inner, type = .message inner ∧ Entries.Fit inner entries

def Entries.FitsEntry (type : MessageType) : Nat × Value → Prop
  | (number, value) => ∃ field, type.field? number = some field ∧ Value.Fits field.type value

def Entries.Fit (type : MessageType) : Entries → Prop
  | [] => True
  | entry :: rest => Entries.FitsEntry type entry ∧ Entries.Fit type rest

end

theorem Entries.depth_le_iff {entries : Entries} {levels : Nat} :
    depth entries ≤ levels ↔ ∀ entry ∈ entries, entryDepth entry ≤ levels := by
  induction entries with
  | nil => simp [depth]
  | cons entry rest ih => rw [depth, Nat.max_le, ih, List.forall_mem_cons]

@[simp] theorem Entries.depth_append (first second : Entries) :
    depth (first ++ second) = max (depth first) (depth second) := by
  induction first with
  | nil => simp [depth]
  | cons entry rest ih => rw [List.cons_append, depth, ih, depth, Nat.max_assoc]

theorem Entries.fit_iff {type : MessageType} {entries : Entries} :
    Fit type entries ↔ ∀ entry ∈ entries, FitsEntry type entry := by
  induction entries with
  | nil => simp [Fit]
  | cons entry rest ih => rw [Fit, ih, List.forall_mem_cons]

/-- The numbers of all known fields fit into a key. -/
theorem MessageType.field?_number {type : MessageType} {number : Nat} {field : Field}
    (known : type.field? number = some field) :
    field.number = number ∧ 0 < number ∧ number < 2 ^ 29 := by
  have same : field.number = number := by simpa using List.find?_some known
  have bounds : ∀ type : MessageType, ∀ field ∈ type.fields,
      0 < field.number ∧ field.number < 2 ^ 29 := by
    intro type
    cases type <;> decide
  rw [← same]
  exact ⟨rfl, bounds type field (List.mem_of_find?_eq_some known)⟩

end Wire

end TrpcRouters
