import TrpcRouters.Path.Basic

/-! The arguments of the command. Options have long names; a value follows behind an equals sign or as
the next argument. -/

namespace TrpcRouters.CommandLine

inductive Switch where
  | protoRoot
  | output
  | watch
  | queryVerbs
  | mutationVerbs
  | compiler
  | importRoot
  | connectOnly
  | pollInterval
deriving DecidableEq, Inhabited, Repr

namespace Switch

def names : List (String × Switch) :=
  [("proto_dir", protoRoot), ("out", output), ("watch", watch), ("query_verbs", queryVerbs),
    ("mutation_verbs", mutationVerbs), ("protoc", compiler), ("proto_path", importRoot),
    ("connect_only", connectOnly), ("poll_interval_ms", pollInterval)]

def takesValue : Switch → Bool
  | watch | connectOnly => false
  | _ => true

def repeats : Switch → Bool
  | queryVerbs | mutationVerbs | importRoot => true
  | _ => false

def text (switch : Switch) : String :=
  match names.find? (fun entry => entry.2 = switch) with
  | some (name, _) => "--" ++ name
  | none => ""

end Switch

structure Given where
  switch : Switch
  value : String
deriving DecidableEq, Inhabited, Repr

inductive UsageError where
  /-- An argument is no option of the command, or an option without dashes. -/
  | unexpected (argument : String)
  | missingValue (switch : Switch)
  | needlessValue (switch : Switch)
  | invalidValue (switch : Switch) (value : String)
  | repeated (switch : Switch)
  | missing (switch : Switch)
deriving DecidableEq, Inhabited, Repr

def UsageError.text : UsageError → String
  | unexpected argument => "unexpected argument '" ++ argument ++ "'"
  | missingValue switch => switch.text ++ " needs a value"
  | needlessValue switch => switch.text ++ " takes no value"
  | invalidValue switch value => switch.text ++ " does not accept '" ++ value ++ "'"
  | repeated switch => switch.text ++ " can be given only once"
  | missing switch => switch.text ++ " is required"

def named (argument : String) : Except UsageError (Switch × Option String) :=
  match argument.toList with
  | '-' :: '-' :: text =>
    let (name, attached) := Text.halves '=' (String.ofList text)
    match Switch.names.lookup name with
    | some switch => .ok (switch, attached)
    | none => .error (.unexpected argument)
  | _ => .error (.unexpected argument)

/-- An argument that cannot be the value of the option before it. A lone dash can. -/
def looksLikeOption (argument : String) : Bool :=
  match argument.toList with
  | '-' :: _ :: _ => true
  | _ => false

/-- The options among the arguments, in order. Two dashes alone end them. -/
def given : List String → Except UsageError (List Given)
  | [] => .ok []
  | "--" :: rest =>
    match rest with
    | [] => .ok []
    | next :: _ => .error (.unexpected next)
  | argument :: rest =>
    match named argument with
    | .error error => .error error
    | .ok (switch, some value) =>
      if switch.takesValue then (given rest).map (⟨switch, value⟩ :: ·)
      else .error (.needlessValue switch)
    | .ok (switch, none) =>
      if switch.takesValue then
        match rest with
        | [] => .error (.missingValue switch)
        | value :: others =>
          if looksLikeOption value then .error (.missingValue switch)
          else (given others).map (⟨switch, value⟩ :: ·)
      else (given rest).map (⟨switch, ""⟩ :: ·)

/-- The first interval that is too large: it takes more than 64 bits. -/
def intervalLimit : Nat := 0x10000000000000000

/-- A number of milliseconds in decimal digits, with or without a plus sign. -/
def milliseconds? (text : String) : Option Nat :=
  let digits := match text.toList with
    | '+' :: digits => digits
    | digits => digits
  if digits.isEmpty || !digits.all Char.isDigit then none
  else
    let value := digits.foldl (fun value digit => 10 * value + (digit.toNat - '0'.toNat)) 0
    if value < intervalLimit then some value else none

def Switch.accepts (value : String) : Switch → Bool
  | protoRoot | output | compiler | importRoot => value ≠ ""
  | pollInterval => (milliseconds? value).isSome
  | watch | connectOnly | queryVerbs | mutationVerbs => true

def check : (before : List Switch) → List Given → Except UsageError Unit
  | _, [] => .ok ()
  | before, ⟨switch, value⟩ :: rest =>
    if !switch.repeats && before.contains switch then .error (.repeated switch)
    else if !switch.accepts value then .error (.invalidValue switch value)
    else check (switch :: before) rest

structure Request where
  protoRoot : Path
  output : Path
  watch : Bool
  queryVerbs : Option (List String)
  mutationVerbs : Option (List String)
  compiler : Option Path
  importRoots : List Path
  connectOnly : Bool
  /-- The pause between two looks at the tree, in milliseconds. -/
  pollInterval : Nat
deriving DecidableEq, Inhabited, Repr

namespace Request

def values (switch : Switch) (options : List Given) : List String :=
  (options.filter (fun option => option.switch = switch)).map Given.value

def required (switch : Switch) (options : List Given) : Except UsageError String :=
  match values switch options with
  | value :: _ => .ok value
  | [] => .error (.missing switch)

/-- The verbs of an option, with commas between them in every value. -/
def verbs (switch : Switch) (options : List Given) : Option (List String) :=
  match values switch options with
  | [] => none
  | values => some (values.flatMap (Text.pieces ','))

def ofGiven (options : List Given) : Except UsageError Request := do
  check [] options
  return {
    protoRoot := ⟨← required .protoRoot options⟩
    output := ⟨← required .output options⟩
    watch := !(values .watch options).isEmpty
    queryVerbs := verbs .queryVerbs options
    mutationVerbs := verbs .mutationVerbs options
    compiler := (values .compiler options).head?.map Path.ofText
    importRoots := (values .importRoot options).map Path.ofText
    connectOnly := !(values .connectOnly options).isEmpty
    pollInterval := ((values .pollInterval options).head?.bind milliseconds?).getD 500 }

def ofArguments (arguments : List String) : Except UsageError Request := do
  ofGiven (← given arguments)

end Request

end TrpcRouters.CommandLine
