import TrpcRouters.Text.Case

/-! The identifiers that generated code derives from the names of services and methods. -/

namespace TrpcRouters.Identifier

/-- A service name without one trailing `Service`, unless nothing would be left. -/
def shortName (service : String) : String :=
  let backwards := service.toList.reverse
  let ending := "Service".toList.reverse
  if ending.isPrefixOf backwards && backwards.length ≠ ending.length then
    String.ofList (backwards.drop ending.length).reverse
  else service

def router (service : String) : String :=
  service ++ "Router"

def routerFile (service : String) : String :=
  router service ++ ".ts"

def humps : Bool → List Char → List Char
  | _, [] => []
  | raise, c :: rest =>
    if c = '_' then humps true rest
    else (if raise then Text.upper c else [c]) ++ humps false rest

def lowerFirst : List Char → List Char
  | [] => []
  | c :: rest => Text.lower c ++ rest

/-- Members that every client object inherits; a method must not be called like one of them. -/
def inherited : List String :=
  ["constructor", "toString", "toJSON", "valueOf"]

/-- The client's name for a method: camel case with a small first letter, and a `$` behind the name of
an inherited member. Underscores in front raise nothing. -/
def method (name : String) : String :=
  let camel := String.ofList (lowerFirst (humps false (name.toList.dropWhile (· = '_'))))
  if camel ∈ inherited then camel ++ "$" else camel

def reserved : List String :=
  ["await", "break", "case", "catch", "class", "const", "continue", "debugger", "default",
    "delete", "do", "else", "enum", "export", "extends", "false", "finally", "for", "function",
    "if", "implements", "import", "in", "instanceof", "interface", "let", "new", "null",
    "package", "private", "protected", "public", "return", "static", "super", "switch", "this",
    "throw", "true", "try", "typeof", "var", "void", "while", "with", "yield"]

def binding (name : String) : String :=
  if name ∈ reserved then name ++ "$" else name

end TrpcRouters.Identifier
