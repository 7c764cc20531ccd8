import TrpcRouters.Text.Utf8

/-! Strings as the system keeps them, in names, paths and variables: bytes that need not encode a text. -/

namespace TrpcRouters

structure RawString where
  bytes : Bytes
deriving DecidableEq, Inhabited, Repr

namespace RawString

def ofText (text : String) : RawString :=
  ⟨Text.encode text⟩

instance : Coe String RawString := ⟨ofText⟩

/-- The text that is shown for it, with replacement characters for what encodes nothing. -/
def text (raw : RawString) : String :=
  Text.decodeLossy raw.bytes

/-- The bytes encode the text that is shown. -/
def IsText (raw : RawString) : Prop :=
  ofText raw.text = raw

instance (raw : RawString) : Decidable raw.IsText :=
  inferInstanceAs (Decidable (_ = _))

instance : Append RawString := ⟨fun first second => ⟨first.bytes ++ second.bytes⟩⟩

/-- The order of names in a listing, byte by byte. -/
instance : LT RawString := ⟨fun first second => first.bytes < second.bytes⟩

instance : DecidableLT RawString :=
  fun first second => inferInstanceAs (Decidable (first.bytes < second.bytes))

instance : Std.Asymm (α := RawString) (· < ·) where
  asymm first second := Std.Asymm.asymm (r := (· < ·)) first.bytes second.bytes

instance : Trans (α := RawString) (· < ·) (· < ·) (· < ·) where
  trans less less' := List.lt_trans less less'

@[ext] theorem ext {first second : RawString} (same : first.bytes = second.bytes) : first = second := by
  cases first
  cases second
  exact congrArg mk same

@[simp] theorem bytes_append (first second : RawString) :
    (first ++ second).bytes = first.bytes ++ second.bytes := rfl

instance : Std.Trichotomous (α := RawString) (· < ·) where
  trichotomous _ _ less more := ext (Std.Trichotomous.trichotomous (r := (· < ·)) _ _ less more)

def isEmpty (raw : RawString) : Bool :=
  raw.bytes.isEmpty

end RawString

end TrpcRouters
