/-! Texts and lists of texts in JSON, without any optional space. -/

namespace TrpcRouters.Text.Json

def hexDigit (value : Nat) : Char :=
  if value < 10 then Char.ofNat (0x30 + value) else Char.ofNat (0x57 + value)

/-- The form of a character inside a JSON string. Only quotes, backslashes and control characters
are escaped. -/
def escape (c : Char) : List Char :=
  if c = '"' then ['\\', '"']
  else if c = '\\' then ['\\', '\\']
  else if c = '\n' then ['\\', 'n']
  else if c = '\r' then ['\\', 'r']
  else if c = '\t' then ['\\', 't']
  else if c.toNat = 0x08 then ['\\', 'b']
  else if c.toNat = 0x0c then ['\\', 'f']
  else if c.toNat < 0x20 then
    ['\\', 'u', '0', '0', hexDigit (c.toNat / 16), hexDigit (c.toNat % 16)]
  else [c]

def quoted (text : List Char) : List Char :=
  '"' :: (text.flatMap escape ++ ['"'])

def elements : List (List Char) → List Char
  | [] => []
  | [text] => quoted text
  | text :: next :: rest => quoted text ++ ',' :: elements (next :: rest)

def array (texts : List String) : String :=
  String.ofList ('[' :: (elements (texts.map String.toList) ++ [']']))

end TrpcRouters.Text.Json
