import TrpcRouters.Proofs.Text.Utf8
import TrpcRouters.Text.Raw

/-! What the system's strings keep of a text: everything, so a text can be read back from its bytes. -/

namespace TrpcRouters.RawString

@[simp] theorem text_ofText (text : String) : (ofText text).text = text :=
  Text.decodeLossy_encode text

@[simp] theorem ofText_inj {first second : String} : ofText first = ofText second ↔ first = second :=
  ⟨fun same => Text.encode_inj (congrArg bytes same), congrArg ofText⟩

theorem ofText_append (first second : String) : ofText (first ++ second) = ofText first ++ ofText second :=
  ext (Text.encode_append first second)

theorem isText_ofText (text : String) : (ofText text).IsText := by
  rw [IsText, text_ofText]

theorem isText_iff {raw : RawString} : raw.IsText ↔ ∃ text, raw = ofText text :=
  ⟨fun whole => ⟨raw.text, whole.symm⟩, fun ⟨text, same⟩ => same ▸ isText_ofText text⟩

/-- A text behind a string is shown behind it, if it begins with a character of one byte. -/
theorem text_append_ofText (raw : RawString) {c : Char} (ascii : c.toNat < 0x80) (rest : List Char) :
    (raw ++ ofText (String.ofList (c :: rest))).text = raw.text ++ String.ofList (c :: rest) := by
  have bytes : (ofText (String.ofList (c :: rest))).bytes =
      UInt8.ofNat c.toNat :: rest.flatMap String.utf8EncodeChar := by
    rw [ofText, Text.encode_eq, String.toList_ofList, List.flatMap_cons, Text.encodeChar_ascii ascii]
    rfl
  have small : (UInt8.ofNat c.toNat).toNat < 0x80 := by simp; omega
  have shown (other : RawString) : other.text.toList = Text.decodeFrom none other.bytes := String.toList_ofList
  rw [← String.toList_inj, String.toList_append, shown, shown raw, bytes_append, bytes,
    Text.decodeFrom_append (by simp) _ small, ← bytes, ← shown (ofText _), text_ofText]

theorem mem_ofText_iff {c : Char} (ascii : c.toNat < 0x80) {text : String} :
    UInt8.ofNat c.toNat ∈ (ofText text).bytes ↔ c ∈ text.toList :=
  Text.mem_encode_iff ascii

theorem ofText_bytes_eq_nil {text : String} : (ofText text).bytes = [] ↔ text = "" :=
  ⟨fun empty => ofText_inj.mp (ext empty), fun empty => empty ▸ rfl⟩

theorem mem_bytes_of_mem_text {s : Char} (small : Text.IsSmall s) {raw : RawString}
    (member : s ∈ raw.text.toList) : UInt8.ofNat s.toNat ∈ raw.bytes := by
  rw [text, Text.decodeLossy, String.toList_ofList] at member
  exact Text.mem_of_mem_decodeFrom small (by simp) member

/-- What is shown ends in a small character only if it is spelled so. -/
theorem getLast?_bytes {s : Char} (small : Text.IsSmall s) {raw : RawString}
    (last : raw.text.toList.getLast? = some s) : raw.bytes.getLast? = some (UInt8.ofNat s.toNat) := by
  rw [text, Text.decodeLossy, String.toList_ofList] at last
  exact Text.getLast?_decodeFrom small (by simp) last

theorem bytes_eq_nil_of_text {raw : RawString} (empty : raw.text = "") : raw.bytes = [] := by
  rw [text, Text.decodeLossy, ← String.toList_inj, String.toList_ofList] at empty
  exact Classical.not_not.mp fun some_ => Text.decodeFrom_ne_nil (Or.inl some_) empty

/-- What is shown as one small character again and again is a text. -/
theorem isText_of_all_small {s : Char} (small : Text.IsSmall s) {raw : RawString}
    (all : ∀ c ∈ raw.text.toList, c = s) : raw.IsText := by
  rw [text, Text.decodeLossy, String.toList_ofList] at all
  refine ext ?_
  rw [ofText, Text.encode_eq, text, Text.decodeLossy, String.toList_ofList]
  exact Text.encode_of_all_small small all

theorem cut_ofText {c : Char} (ascii : c.toNat < 0x80) (text : String) :
    Text.cut (UInt8.ofNat c.toNat) (ofText text).bytes =
      (Text.pieces c text).map fun piece => (ofText piece).bytes := by
  have bytes : (ofText text).bytes = text.toList.flatMap String.utf8EncodeChar := Text.encode_eq text
  rw [bytes, Text.cut_encode ascii, Text.pieces, List.map_map]
  simp [ofText, Text.encode_eq, Function.comp_def]

end TrpcRouters.RawString
