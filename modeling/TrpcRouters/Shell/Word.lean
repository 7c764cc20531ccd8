import TrpcRouters.Path.Basic

/-! The words of a shell. A shell takes its input byte by byte, so a character of a word stands for the
byte of its number. -/

namespace TrpcRouters.Shell.Word

def ofBytes (content : Bytes) : String :=
  String.ofList (content.map fun byte => Char.ofNat byte.toNat)

def ofRaw (raw : RawString) : String :=
  ofBytes raw.bytes

def bytes (word : String) : Bytes :=
  word.toList.map fun c => UInt8.ofNat c.toNat

def raw (word : String) : RawString :=
  ⟨bytes word⟩

def path (word : String) : Path :=
  ⟨raw word⟩

end TrpcRouters.Shell.Word
