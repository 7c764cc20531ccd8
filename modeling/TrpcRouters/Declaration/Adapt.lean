import TrpcRouters.Text.Blank

/-! The import of `Message` and `proto3` in a declaration file. Only the type of `proto3` is used
there, so the import is made to say so; everything else in the file stays. -/

namespace TrpcRouters.Declaration

def after? (expected : List Char) (input : List Char) : Option (List Char) :=
  if expected.isPrefixOf input then some (input.drop expected.length) else none

def afterBlanks? (input : List Char) : Option (List Char) :=
  match input with
  | c :: rest => if Text.isBlank c then some (Text.trimStart rest) else none
  | [] => none

/-- What follows the import of `Message` and `proto3` that the input begins with, however it is
spaced. -/
def afterImport? (input : List Char) : Option (List Char) := do
  let input ← after? "import".toList input
  let input ← afterBlanks? input
  let input ← after? ['\x7b'] input
  let input ← after? "Message,".toList (Text.trimStart input)
  let input ← after? "proto3".toList (Text.trimStart input)
  let input ← after? ['\x7d'] (Text.trimStart input)
  let input ← after? "from".toList (Text.trimStart input)
  let input ← afterBlanks? input
  after? "\"@bufbuild/protobuf\";".toList input

def typeOnlyImport : List Char :=
  "import \x7b Message, type proto3 \x7d from \"@bufbuild/protobuf\";".toList

theorem after?_length {expected input rest : List Char} (found : after? expected input = some rest) :
    rest.length + expected.length = input.length := by
  unfold after? at found
  split at found
  · rename_i begins
    have bound := (List.isPrefixOf_iff_prefix.mp begins).length_le
    simp only [Option.some.injEq] at found
    rw [← found, List.length_drop]
    omega
  · simp at found

theorem trimStart_length (text : List Char) : (Text.trimStart text).length ≤ text.length :=
  (List.dropWhile_sublist _).length_le

theorem afterBlanks?_length {input rest : List Char} (found : afterBlanks? input = some rest) :
    rest.length < input.length := by
  unfold afterBlanks? at found
  split at found
  · split at found
    · rename_i c tail _
      have bound := trimStart_length tail
      simp only [Option.some.injEq] at found
      rw [← found, List.length_cons]
      omega
    · simp at found
  · simp at found

theorem afterImport?_length {input rest : List Char} (found : afterImport? input = some rest) :
    rest.length < input.length := by
  simp only [afterImport?, Option.bind_eq_bind, Option.bind_eq_some_iff] at found
  obtain ⟨a, fa, b, fb, c, fc, d, fd, e, fe, f, ff, g, fg, h, fh, last⟩ := found
  have la := after?_length fa
  have lb := afterBlanks?_length fb
  have lc := after?_length fc
  have ld := after?_length fd
  have le := after?_length fe
  have lf := after?_length ff
  have lg := after?_length fg
  have lh := afterBlanks?_length fh
  have li := after?_length last
  have bc := trimStart_length c
  have bd := trimStart_length d
  have be := trimStart_length e
  have bf := trimStart_length f
  omega

def adaptChars : List Char → List Char
  | [] => []
  | c :: rest =>
    match _found : afterImport? (c :: rest) with
    | some behind => typeOnlyImport ++ adaptChars behind
    | none => c :: adaptChars rest
termination_by text => text.length
decreasing_by
  · exact afterImport?_length _found
  · simp

def adapt (content : String) : String :=
  String.ofList (adaptChars content.toList)

end TrpcRouters.Declaration
