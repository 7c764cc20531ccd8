/-! White space in the sense of the Unicode property `White_Space`, and the removal of it from both
ends of a text. -/

namespace TrpcRouters.Text

/-- The characters with the Unicode property `White_Space`. -/
def isBlank (c : Char) : Bool :=
  let code := c.toNat
  (0x09 ≤ code && code ≤ 0x0d) || code == 0x20 || code == 0x85 || code == 0xa0 ||
    code == 0x1680 || (0x2000 ≤ code && code ≤ 0x200a) || code == 0x2028 || code == 0x2029 ||
    code == 0x202f || code == 0x205f || code == 0x3000

def trimStart (text : List Char) : List Char :=
  text.dropWhile isBlank

def trimEnd (text : List Char) : List Char :=
  (trimStart text.reverse).reverse

def trimmed (text : String) : String :=
  String.ofList (trimEnd (trimStart text.toList))

def allBlank (text : List Char) : Bool :=
  text.all isBlank

end TrpcRouters.Text
