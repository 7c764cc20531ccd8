import TrpcRouters.Proofs.Descriptor.Concatenation
import TrpcRouters.Proofs.Wire.Spelling

/-! Descriptor sets with unknown fields. Fields that the schema does not know may stand between the others
in the set and in every message of it; they are stepped over, and the services stay as they are. A set
with such fields may hold paths of ninety-eight names, one fewer than a set without. -/

namespace TrpcRouters.Descriptor
open Wire

/-- Fields added between those of the standard encoding. -/
abbrev Padded (type : MessageType) (entries : Entries) (padded : Bytes) : Prop :=
  Spelled ⟨true, false⟩ type entries padded

theorem FileSet.decode_padded {set : FileSet}
    (shallow : ∀ file ∈ set, ∀ path ∈ Message.pathsAll file.messages, path.length ≤ 98) {padded : Bytes}
    (inserted : Padded .fileDescriptorSet set.toEntries padded) (short : padded.length < 2 ^ 63) :
    FileSet.decode padded = .ok set := by
  have room : Entries.depth set.toEntries ≤ 99 := (depth_toEntries_le_iff (by decide)).mpr shallow
  rw [FileSet.decode, inserted.decode (Nat.lt_trans short (by decide)) (Nat.succ_le_succ room)]
  exact congrArg Except.ok (ofEntries_toEntries set)

end TrpcRouters.Descriptor

namespace TrpcRouters.Generation
open Descriptor

/-- Unknown fields in a set do not change the services that are loaded from it. -/
theorem loadServices_padded {set : FileSet}
    (shallow : ∀ source ∈ set, ∀ path ∈ Message.pathsAll source.messages, path.length ≤ 98)
    {padded : Bytes} (inserted : Padded .fileDescriptorSet set.toEntries padded)
    (short : padded.length < 2 ^ 63) {path path' : Path} {world world' : World}
    (original : world.tree.read path = .ok set.encode) (held : world'.tree.read path' = .ok padded)
    (requested : List String) :
    loadServices path requested world = .ok (set.services requested)
      { world with log := world.log ++ (set.missing requested).map .missing } ∧
    loadServices path' requested world' = .ok (set.services requested)
      { world' with log := world'.log ++ (set.missing requested).map .missing } := by
  constructor
  · have shorter : set.encode.length < 2 ^ 63 :=
      Nat.lt_of_le_of_lt (inserted.length_encode_le rfl) short
    refine (loadServices_encode shorter original requested).1 fun source member path inside => ?_
    exact Nat.le_succ_of_le (shallow source member path inside)
  · rw [loadServices_eq, FileSet.load, held]
    simp only [FileSet.ofBytes, FileSet.decode_padded shallow inserted short]
    rfl

section Market
open Wire

theorem unknown_ninetyNine (type : MessageType) {wireType : WireType} {head content : Bytes}
    (spelled : Varint.readWithin Varint.maxBytes head = some (8 * 99 + wireType.code, []))
    (follows : Content wireType content) : Unknown type (head ++ content) := by
  have foreign : type.field? 99 = none := by cases type <;> rfl
  exact @Unknown.field type ⟨99, wireType⟩ head content foreign (by decide : 0 < 99)
    (by decide : 99 < 2 ^ 29) (Varint.spells_of_read spelled) follows

def strayNumber : Bytes := [0x98, 0x06] ++ [0xff, 0x01]

def strayDouble : Bytes := [0x99, 0x06] ++ [1, 2, 3, 4, 5, 6, 7, 8]

def strayFloat : Bytes := [0x9d, 0x06] ++ [1, 2, 3, 4]

/-- The key and the length have zeros at the end. -/
def strayText : Bytes := [0x9a, 0x86, 0x00] ++ ([0x82, 0x00] ++ [0x0a, 0xff])

theorem unknown_strays (type : MessageType) : Unknown type strayNumber ∧ Unknown type strayDouble ∧
    Unknown type strayFloat ∧ Unknown type strayText := by
  have number : Varint.readWithin Varint.maxBytes [0xff, 0x01] = some (255, []) := rfl
  have two : Varint.readWithin Varint.maxBytes [0x82, 0x00] = some (([0x0a, 0xff] : Bytes).length, []) := rfl
  refine ⟨unknown_ninetyNine type rfl (.varint (Varint.spells_of_read number)),
    unknown_ninetyNine type rfl (.sixtyFourBit rfl), unknown_ninetyNine type rfl (.thirtyTwoBit rfl),
    unknown_ninetyNine type rfl (.lengthDelimited (Varint.spells_of_read two))⟩

def marketSet : FileSet :=
  [⟨some "m", none, [.declare (some "Order") []],
    [⟨some "Market", [⟨some "Buy", some ".Order", some ".Order", none, some true⟩]⟩]⟩]

def paddedMethod : Bytes :=
  strayNumber ++ (Entries.encodeEntry (1, .text "Buy") ++ (Entries.encodeEntry (2, .text ".Order") ++
    (strayDouble ++ (Entries.encodeEntry (3, .text ".Order") ++
      (Entries.encodeEntry (6, .flag true) ++ (strayText ++ []))))))

def paddedService : Bytes :=
  Entries.encodeEntry (1, .text "Market") ++ (strayFloat ++
    (Key.write ⟨2, .lengthDelimited⟩ ++ counted paddedMethod ++ []))

def paddedMessage : Bytes :=
  strayText ++ (strayText ++ (Entries.encodeEntry (1, .text "Order") ++ []))

def paddedFile : Bytes :=
  Entries.encodeEntry (1, .text "m") ++ (Key.write ⟨4, .lengthDelimited⟩ ++ counted paddedMessage ++
    (strayNumber ++ (Key.write ⟨6, .lengthDelimited⟩ ++ counted paddedService ++ [])))

def paddedMarket : Bytes :=
  strayText ++ (Key.write ⟨1, .lengthDelimited⟩ ++ counted paddedFile ++ (strayDouble ++ []))

theorem padded_market : Padded .fileDescriptorSet marketSet.toEntries paddedMarket := by
  have stray := unknown_strays
  have method : Padded .methodDescriptorProto _ paddedMethod :=
    .unknown rfl (stray _).1 (.plain ⟨_, rfl, rfl⟩ (.plain ⟨_, rfl, rfl⟩
      (.unknown rfl (stray _).2.1 (.plain ⟨_, rfl, rfl⟩ (.plain ⟨_, rfl, rfl⟩
        (.unknown rfl (stray _).2.2.2 .nil))))))
  have service : Padded .serviceDescriptorProto _ paddedService :=
    .plain ⟨_, rfl, rfl⟩ (.unknown rfl (stray _).2.2.1 (.message rfl rfl method .nil))
  have message : Padded .descriptorProto _ paddedMessage :=
    .unknown rfl (stray _).2.2.2 (.unknown rfl (stray _).2.2.2 (.plain ⟨_, rfl, rfl⟩ .nil))
  have file : Padded .fileDescriptorProto _ paddedFile :=
    .plain ⟨_, rfl, rfl⟩ (.message rfl rfl message (.unknown rfl (stray _).1 (.message rfl rfl service .nil)))
  exact .unknown rfl (stray _).2.2.2 (.message rfl rfl file (.unknown rfl (stray _).2.1 .nil))

theorem marketSet_loaded_padded :
    loadServices ⟨"/set"⟩ ["m"] (heldWorld marketSet.encode) =
      .ok (marketSet.services ["m"]) (heldWorld marketSet.encode) ∧
    loadServices ⟨"/set"⟩ ["m"] (heldWorld paddedMarket) =
      .ok [⟨"Market", "Market", "m", [⟨"Buy", ⟨"Order", "Order", "m"⟩, ⟨"Order", "Order", "m"⟩, false, true⟩]⟩]
        (heldWorld paddedMarket) := by
  have original : (heldWorld marketSet.encode).tree.read ⟨"/set"⟩ = .ok marketSet.encode := rfl
  have held : (heldWorld paddedMarket).tree.read ⟨"/set"⟩ = .ok paddedMarket := rfl
  exact loadServices_padded (by decide +kernel) padded_market (by decide +kernel) original held ["m"]

end Market

end TrpcRouters.Generation
