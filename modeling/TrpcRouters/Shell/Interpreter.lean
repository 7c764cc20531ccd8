import TrpcRouters.Shell.Arithmetic
import TrpcRouters.Shell.Pattern
import TrpcRouters.Shell.Program
import TrpcRouters.Shell.Reader
import TrpcRouters.Shell.Tools

/-! Carrying out scripts: words are expanded to fields, commands change the machine and tell how they
end. -/

namespace TrpcRouters.Shell.Interpreter

inductive Piece where
  /-- `splits` tells that a separator here ends a field. -/
  | char (c : Char) (quoted splits : Bool)
  /-- There is a field here, even if nothing is in it. -/
  | mark
  | separator
deriving DecidableEq, Inhabited, Repr

def literalPieces (text : String) (quoted : Bool) : List Piece :=
  (if quoted then [.mark] else []) ++ text.toList.map fun c => .char c quoted false

def valuePieces (text : String) (quoted : Bool) : List Piece :=
  (if quoted then [.mark] else []) ++ text.toList.map fun c => .char c quoted !quoted

def argumentPieces (arguments : List String) (quoted : Bool) : List Piece :=
  (List.intersperse [.separator] (arguments.map fun text => valuePieces text quoted)).flatten

/-- The fields of an expanded word. `current` is the field at work, backwards; `closed` tells that blanks
have just ended one, so that a separator of another kind belongs to the same gap. -/
def fieldsFrom (separators : List Char) : (closed : Bool) → (current : Option (List Marked)) →
    List Piece → List (List Marked)
  | _, current, [] => current.toList.map List.reverse
  | _, current, .separator :: rest =>
    current.toList.map List.reverse ++ fieldsFrom separators false none rest
  | _, current, .mark :: rest => fieldsFrom separators false (some (current.getD [])) rest
  | closed, current, .char c quoted splits :: rest =>
    if splits && separators.contains c then
      if c = ' ' || c = '\t' || c = '\n' then
        current.toList.map List.reverse ++
          fieldsFrom separators (closed || current.isSome) none rest
      else
        match current with
        | some field => field.reverse :: fieldsFrom separators false none rest
        | none =>
          if closed then fieldsFrom separators false none rest
          else [] :: fieldsFrom separators false none rest
    else fieldsFrom separators false (some ((c, quoted) :: current.getD [])) rest

def markedOf (pieces : List Piece) : List Marked :=
  pieces.filterMap fun
    | .char c quoted _ => some (c, quoted)
    | .separator => some (' ', true)
    | .mark => none

def textOf (marked : List Marked) : String :=
  String.ofList (marked.map Prod.fst)

def segmentsOf : List Marked → List (List Marked)
  | [] => [[]]
  | (c, quoted) :: rest =>
    match segmentsOf rest with
    | [] => [[(c, quoted)]]
    | segment :: segments =>
      if c = '/' then [] :: segment :: segments else ((c, quoted) :: segment) :: segments

/-- The paths that the segments of a pattern match, each continuing `base`. -/
def matchingPaths (tree : FileTree) (base : String) : List (List Marked) → List String
  | [] => [base]
  | segment :: rest =>
    let extended (name : String) : String :=
      base ++ name ++ (if rest.isEmpty then "" else "/")
    if hasWildcard segment then
      let folder := Word.path (if base = "" then "." else base)
      match tree.entry true folder with
      | .ok (place, .directory) =>
        let glyphs := pattern segment
        let hidden := (segment.head?.map Prod.fst) == some '.'
        (((tree.names place).map Word.ofRaw).filter fun name =>
          matchesText glyphs name.toList && (hidden || name.toList.head? != some '.')).flatMap
          fun name =>
            if rest.isEmpty || tree.isDirectory (Word.path (base ++ name)) then
              matchingPaths tree (extended name) rest
            else []
      | _ => []
    else if rest.isEmpty then
      match tree.entry false (Word.path (base ++ textOf segment)) with
      | .ok _ => [base ++ textOf segment]
      | .error _ => if segment.isEmpty then [base] else []
    else matchingPaths tree (extended (textOf segment)) rest

def fieldTexts (tree : FileTree) (field : List Marked) : List String :=
  if hasWildcard field then
    match matchingPaths tree "" (segmentsOf field) with
    | [] => [textOf field]
    | found => found
  else [textOf field]

structure Streams where
  input : Bytes
  stdout : Sink
  stderr : Sink

def streams (machine : Machine) : Streams :=
  ⟨machine.input, machine.stdoutSink, machine.stderrSink⟩

def withStreams (machine : Machine) (kept : Streams) : Machine :=
  { machine with input := kept.input, stdoutSink := kept.stdout, stderrSink := kept.stderr }

def openFile (tree : FileTree) (append : Bool) (path : Path) :
    Except SystemError (FileTree × Sink) :=
  let content := if append then
      match tree.read path with
      | .ok content => content
      | .error _ => []
    else []
  match tree.write path content with
  | .ok tree =>
    match tree.entry true path with
    | .ok (place, _) => .ok (tree, .file place)
    | .error error => .error error
  | .error error => .error error

def device? (machine : Machine) (path : String) : Option Sink :=
  match path with
  | "/dev/null" => some .nowhere
  | "/dev/stdout" | "/dev/fd/1" => some machine.stdoutSink
  | "/dev/stderr" | "/dev/fd/2" => some machine.stderrSink
  | _ => none

def setSink (machine : Machine) (descriptor : Nat) (sink : Sink) : Machine :=
  match descriptor with
  | 1 => { machine with stdoutSink := sink }
  | 2 => { machine with stderrSink := sink }
  | _ => machine

/-- Why a file cannot be opened, as a shell puts it. -/
def openReason (absent : String) (error : SystemError) : String :=
  if error = .notFound ∨ error = .notDirectory then absent else Tools.reason error

def redirect (machine : Machine) (descriptor : Nat) (mode : Mode) (target : String) :
    Except String Machine :=
  match mode with
  | .document => .ok { machine with input := Word.bytes target }
  | .duplicate =>
    match target with
    | "1" => .ok (setSink machine descriptor machine.stdoutSink)
    | "2" => .ok (setSink machine descriptor machine.stderrSink)
    | "-" => .ok (setSink machine descriptor .nowhere)
    | _ => .ok machine
  | .read =>
    if target = "/dev/null" then .ok { machine with input := [] }
    else
      match machine.tree.read (Word.path target) with
      | .ok content => .ok { machine with input := content }
      | .error error => .error ("cannot open " ++ target ++ ": " ++ openReason "No such file" error)
  | .truncate | .append =>
    match device? machine target with
    | some sink => .ok (setSink machine descriptor sink)
    | none =>
      match openFile machine.tree (mode = .append) (Word.path target) with
      | .ok (tree, sink) => .ok (setSink { machine with tree } descriptor sink)
      | .error error =>
        .error ("cannot create " ++ target ++ ": " ++ openReason "Directory nonexistent" error)

/-- What a shell of its own leaves to the one that started it: files and output, but neither variables
nor the directory it went to. -/
def rejoin (before after : Machine) : Machine :=
  { before with
    tree := { after.tree with workingDirectory := before.tree.workingDirectory }
    stdout := after.stdout
    stderr := after.stderr
    status := after.status }

def rejoinedFlow : Flow → Flow
  | .killed signal => .killed signal
  | _ => .next

/-- The text of captured output, without the line ends behind it. -/
def captured (content : Bytes) : String :=
  let text := (Word.ofBytes content).toList.filter (fun c => c.toNat ≠ 0)
  String.ofList (text.reverse.dropWhile (· = '\n')).reverse

def numberOf (machine : Machine) (name : String) : Int :=
  ((machine.value? name).bind Print.integer?).getD 0

def isAbsent (value : Option String) (emptyToo : Bool) : Bool :=
  match value with
  | none => true
  | some text => emptyToo && text = ""

def isShell (name : String) : Bool :=
  ["sh", "dash", "bash"].contains name

mutual

def expandPart : (fuel : Nat) → Part → StateM Machine (List Piece)
  | 0, _ => pure []
  | fuel + 1, part => do
    match part with
    | .literal text quoted => pure (literalPieces text quoted)
    | .arithmetic expression =>
      let text := textOf (markedOf (← expand fuel expression))
      let value := Arithmetic.evaluate (numberOf (← get)) text.toList
      pure (valuePieces (toString value) true)
    | .output body quoted =>
      let before ← get
      let (_, after) := (run fuel false body).run { before with stdout := [], stdoutSink := .stdout }
      set { rejoin before after with stdout := before.stdout }
      pure (valuePieces (captured after.stdout) quoted)
    | .parameter name operator quoted =>
      let machine ← get
      let value := machine.value? name
      let own : List Piece :=
        if name = "@" ∨ name = "*" ∧ !quoted then argumentPieces machine.arguments quoted
        else if name = "*" then
          valuePieces ((String.ofList (machine.separators.take 1)).intercalate machine.arguments) quoted
        else valuePieces (value.getD "") quoted
      let requireValue : StateM Machine Unit := do
        if machine.needsValues && value.isNone && name != "@" && name != "*" then
          modify fun machine => machine.breaks (name ++ ": parameter not set")
      match operator with
      | .plain =>
        requireValue
        pure own
      | .length =>
        requireValue
        pure (valuePieces (toString (value.getD "").length) quoted)
      | .whenAbsent absence emptyToo word =>
        if isAbsent value emptyToo then
          match absence with
          | .substitute => expand fuel word
          | .assign =>
            let text := textOf (markedOf (← expand fuel word))
            modify fun machine => machine.assign name text
            pure (valuePieces text quoted)
          | .complain =>
            let text := textOf (markedOf (← expand fuel word))
            let reason :=
              if text != "" then text
              else if emptyToo then "parameter not set or null"
              else "parameter not set"
            modify fun machine => machine.breaks (name ++ ": " ++ reason)
            pure []
        else pure own
      | .whenPresent emptyToo word =>
        if isAbsent value emptyToo then pure (literalPieces "" quoted) else expand fuel word
      | .trim side longest word =>
        let glyphs := pattern (markedOf (← expand fuel word))
        pure (valuePieces (String.ofList (trim side longest glyphs (value.getD "").toList)) quoted)

def expand : (fuel : Nat) → List Part → StateM Machine (List Piece)
  | 0, _ => pure []
  | _, [] => pure []
  | fuel + 1, part :: rest => do
    let first ← expandPart fuel part
    let others ← expand fuel rest
    pure (first ++ others)

def fields : (fuel : Nat) → List (List Part) → StateM Machine (List String)
  | 0, _ => pure []
  | _, [] => pure []
  | fuel + 1, word :: rest => do
    let pieces ← expand fuel word
    let machine ← get
    let others ← fields fuel rest
    pure ((fieldsFrom machine.separators false none pieces).flatMap (fieldTexts machine.tree) ++ others)

/-- Carries out redirections in order; stops at the first that fails. -/
def redirectAll : (fuel : Nat) → List Redirection → StateM Machine (Option String)
  | 0, _ => pure none
  | _, [] => pure none
  | fuel + 1, .to descriptor mode target :: rest => do
    let text := textOf (markedOf (← expand fuel target))
    match redirect (← get) descriptor mode text with
    | .ok machine =>
      set machine
      redirectAll fuel rest
    | .error complaint => pure (some complaint)

/-- Assigns variables; those for a single command are handed to programs. -/
def assignAll : (fuel : Nat) → (handOn : Bool) → List (String × List Part) → StateM Machine Unit
  | 0, _, _ => pure ()
  | _, _, [] => pure ()
  | fuel + 1, handOn, (name, word) :: rest => do
    let text := textOf (markedOf (← expand fuel word))
    modify fun machine =>
      let machine := machine.assign name text
      if handOn then machine.exporting name else machine
    assignAll fuel handOn rest

/-- Carries out what a script has kept for its end, which leaves its status as it is. -/
def runFarewell : (fuel : Nat) → Flow → StateM Machine Flow
  | 0, flow => pure flow
  | fuel + 1, flow => do
    let machine ← get
    match flow, machine.farewell with
    | .killed _, _ | _, none => pure flow
    | _, some commands =>
      set { machine with farewell := none, broken := false }
      match ← run fuel false (Reader.script commands) with
      | .next =>
        modify fun after => after.ends machine.status
        pure flow
      | last => pure last

def runScript : (fuel : Nat) → (name : String) → (text : String) → (arguments : List String) →
    StateM Machine Flow
  | 0, _, _, _ => pure .next
  | fuel + 1, name, text, arguments => do
    let before ← get
    let lines := (text.toList.count '\n') + 1
    let child : Machine := { before with
      name, lines, line := 1, arguments, functions := [], status := 0
      values := Machine.initialValues before.handedOn, exported := before.handedOn.map Prod.fst
      loops := 0, strict := false, needsValues := false, broken := false, farewell := none }
    set child
    let flow ← runFarewell fuel (← run fuel false (Reader.script text))
    let after ← get
    match flow with
    | .killed signal =>
      set (rejoin before (after.ends (128 + signal)))
      pure flow
    | _ =>
      set (rejoin before after)
      pure .next

def runProgram : (fuel : Nat) → (called : String) → Program → (arguments : List String) →
    StateM Machine Flow
  | 0, _, _, _ => pure .next
  | fuel + 1, called, program, arguments => do
    let machine ← get
    if program.isBinary then
      if isShell program.name then
        match arguments with
        | "-c" :: text :: rest => runScript fuel (rest.head?.getD called) text rest.tail
        | file :: rest =>
          match machine.tree.read (Word.path file) with
          | .ok content => runScript fuel file (Word.ofBytes content) rest
          | .error _ =>
            set ((machine.warn (called ++ ": 0: cannot open " ++ file ++ ": No such file")).ends 2)
            pure .next
        | [] => runScript fuel called (Word.ofBytes machine.input) []
      else if program.name = "env" then
        let (settings, command) := arguments.span fun argument => argument.toList.contains '='
        let setting := settings.foldl Tools.exportOne machine
        match command with
        | [] =>
          set (rejoin machine ((setting.handedOn.foldl (fun machine (name, value) =>
            machine.print (name ++ "=" ++ value ++ "\n")) setting).ends 0))
          pure .next
        | command :: rest =>
          match Program.find (Program.runnable machine.tree) setting.searchPath (Word.path command) with
          | .ok found =>
            set setting
            let flow ← runProgram fuel command found rest
            modify fun after => rejoin machine after
            pure flow
          | .error error =>
            set ((machine.warn
              ("env: '" ++ command ++ "': " ++ Tools.reason error)).ends 127)
            pure .next
      else
        match Tools.external machine program.name arguments with
        | some after =>
          set after
          pure .next
        | none =>
          set (machine.ends 127)
          pure .next
    else
      match program.interpreter? with
      | none => runScript fuel (Word.ofRaw program.path.raw) (Word.ofBytes program.content) arguments
      | some (path, argument) =>
        match Program.atPath machine.tree path with
        | .ok found =>
          if found.isBinary && isShell found.name then
            runScript fuel (Word.ofRaw program.path.raw) (Word.ofBytes program.content) arguments
          else runProgram fuel (Word.ofRaw path.raw) found (argument ++ (Word.ofRaw program.path.raw) :: arguments)
        | .error _ =>
          set (machine.ends 127)
          pure .next

def call : (fuel : Nat) → (command : String) → (arguments : List String) → StateM Machine Flow
  | 0, _, _ => pure .next
  | fuel + 1, command, arguments => do
    let machine ← get
    match machine.functions.lookup command with
    | some body =>
      set { machine with arguments }
      let flow ← run fuel false body
      modify fun after => { after with arguments := machine.arguments }
      pure (if flow = .returns then .next else flow)
    | none =>
      if command = "eval" then
        run fuel false (Reader.script (" ".intercalate arguments))
      else if command = "." then
        match machine.tree.read (Word.path (arguments.head?.getD "")) with
        | .ok content => run fuel false (Reader.script (Word.ofBytes content))
        | .error _ =>
          set ((machine.complain
            (".: cannot open " ++ arguments.head?.getD "" ++ ": No such file")).ends 2)
          pure .exits
      else if command = "command" ∨ command = "builtin" then
        match arguments with
        | "-v" :: name :: _ =>
          match Program.find (Program.runnable machine.tree) machine.searchPath (Word.path name) with
          | .ok found =>
            set ((machine.print (Word.ofRaw found.path.raw ++ "\n")).ends 0)
            pure .next
          | .error _ =>
            set (machine.ends 127)
            pure .next
        | name :: rest => call fuel name rest
        | [] =>
          set (machine.ends 0)
          pure .next
      else if command = "exec" then
        match arguments with
        | [] =>
          set (machine.ends 0)
          pure .next
        | name :: rest =>
          let flow ← call fuel name rest
          pure (if flow = .next then .exits else flow)
      else
        match Tools.builtin machine command arguments with
        | some (after, flow) =>
          set after
          pure flow
        | none =>
          match Program.find (Program.runnable machine.tree) machine.searchPath (Word.path command) with
          | .ok program =>
            let flow ← runProgram fuel command program arguments
            match flow with
            | .killed signal =>
              modify fun machine => machine.ends (128 + signal)
              pure .next
            | _ => pure .next
          | .error error =>
            if error = .permissionDenied then
              set ((machine.complain (command ++ ": Permission denied")).ends 126)
            else set ((machine.complain (command ++ ": not found")).ends 127)
            pure .next

/-- Carries out a statement. A failure that is `checked` does not end a strict script. -/
def run : (fuel : Nat) → (checked : Bool) → Statement → StateM Machine Flow
  | 0, _, _ => pure .next
  | fuel + 1, checked, statement => do
    match statement with
    | .sequence [] => pure .next
    | .sequence (first :: rest) =>
      match ← run fuel checked first with
      | .next => if (← get).broken then pure .exits else run fuel checked (.sequence rest)
      | flow => pure flow
    | .simple below assignments words redirections =>
      modify fun machine =>
        { machine with
          line := machine.lines - below
          status := if words.isEmpty then 0 else machine.status }
      let arguments ← fields fuel words
      let before ← get
      if before.broken then return .exits
      match ← redirectAll fuel redirections with
      | some complaint =>
        modify fun machine =>
          (withStreams (machine.complain complaint) (streams before)).ends 2
        pure (if before.strict && !checked then .exits else .next)
      | none =>
        match arguments with
        | [] =>
          assignAll fuel false assignments
          modify fun machine => withStreams machine (streams before)
          let machine ← get
          if machine.broken then return .exits
          pure (if machine.strict && !checked && machine.status ≠ 0 then .exits else .next)
        | command :: rest =>
          assignAll fuel true assignments
          let flow ← call fuel command rest
          let keeps := command = "exec" && rest.isEmpty
          modify fun machine =>
            let machine :=
              if keeps then machine
              else
                { withStreams machine (streams before) with
                  input := if redirections.isEmpty then machine.input else before.input }
            if assignments.isEmpty then machine
            else
              assignments.foldl (fun machine entry =>
                match before.values.lookup entry.1 with
                | some value => machine.assign entry.1 value
                | none => machine.unset entry.1) { machine with exported := before.exported }
          let machine ← get
          pure (if flow = .next && machine.strict && !checked && machine.status ≠ 0 then .exits
            else flow)
    | .pipe left right =>
      let before ← get
      let (leftFlow, after) := (run fuel true left).run
        { before with stdout := [], stdoutSink := .stdout }
      let joined := { rejoin before after with stdout := before.stdout }
      match leftFlow with
      | .killed signal =>
        set joined
        pure (.killed signal)
      | _ =>
        let (rightFlow, after) := (run fuel checked right).run { joined with input := after.stdout }
        set (rejoin joined after)
        pure (rejoinedFlow rightFlow)
    | .negated body =>
      match ← run fuel true body with
      | .next =>
        modify fun machine => machine.ends (if machine.status = 0 then 1 else 0)
        pure .next
      | flow => pure flow
    | .both left right =>
      match ← run fuel true left with
      | .next => if (← get).status = 0 then run fuel checked right else pure .next
      | flow => pure flow
    | .either left right =>
      match ← run fuel true left with
      | .next => if (← get).status = 0 then pure .next else run fuel checked right
      | flow => pure flow
    | .subshell body =>
      let before ← get
      let (flow, after) := (run fuel checked body).run before
      set (rejoin before after)
      pure (match flow with
        | .killed signal => .killed signal
        | _ => if before.strict && !checked && after.status ≠ 0 then .exits else .next)
    | .choice condition yes no =>
      match ← run fuel true condition with
      | .next =>
        if (← get).status = 0 then run fuel checked yes
        else
          modify fun machine => machine.ends 0
          run fuel checked no
      | flow => pure flow
    | .loop untilTrue condition body =>
      match ← run fuel true condition with
      | .next =>
        if ((← get).status = 0) = untilTrue then
          modify fun machine => machine.ends 0
          pure .next
        else
          match ← runBody fuel checked body with
          | .next | .continues 0 | .continues 1 => run fuel checked (.loop untilTrue condition body)
          | .breaks 0 | .breaks 1 => pure .next
          | .breaks levels => pure (.breaks (levels - 1))
          | .continues levels => pure (.continues (levels - 1))
          | flow => pure flow
      | flow => pure flow
    | .forEach name words body =>
      let values ← match words with
        | some words => fields fuel words
        | none => pure (← get).arguments
      modify fun machine => machine.ends 0
      runEach fuel checked name body values
    | .branching subject branches =>
      let text := (textOf (markedOf (← expand fuel subject))).toList
      modify fun machine => machine.ends 0
      runCase fuel checked text branches
    | .function name body =>
      modify fun machine => { machine with functions := (name, body) :: machine.functions, status := 0 }
      pure .next
    | .redirected body redirections =>
      let before ← get
      match ← redirectAll fuel redirections with
      | some complaint =>
        modify fun machine =>
          (withStreams (machine.warn (machine.name ++ ": " ++ complaint)) (streams before)).ends 2
        pure .next
      | none =>
        let flow ← run fuel checked body
        modify fun machine => withStreams machine (streams before)
        pure flow
    | .malformed below =>
      modify fun machine =>
        ({ machine with line := machine.lines - below }.complain "Syntax error").ends 2
      pure .exits

def runBody : (fuel : Nat) → (checked : Bool) → Statement → StateM Machine Flow
  | 0, _, _ => pure .next
  | fuel + 1, checked, body => do
    modify fun machine => { machine with loops := machine.loops + 1 }
    let flow ← run fuel checked body
    modify fun machine => { machine with loops := machine.loops - 1 }
    pure flow

def runEach : (fuel : Nat) → (checked : Bool) → (name : String) → Statement → List String →
    StateM Machine Flow
  | 0, _, _, _, _ => pure .next
  | _, _, _, _, [] => pure .next
  | fuel + 1, checked, name, body, value :: rest => do
    modify fun machine => machine.assign name value
    match ← runBody fuel checked body with
    | .next | .continues 0 | .continues 1 => runEach fuel checked name body rest
    | .breaks 0 | .breaks 1 => pure .next
    | .breaks levels => pure (.breaks (levels - 1))
    | .continues levels => pure (.continues (levels - 1))
    | flow => pure flow

def runCase : (fuel : Nat) → (checked : Bool) → List Char →
    List (List (List Part) × Statement) → StateM Machine Flow
  | 0, _, _, _ => pure .next
  | _, _, _, [] => pure .next
  | fuel + 1, checked, text, (patterns, body) :: rest => do
    if ← anyMatches fuel text patterns then run fuel checked body
    else runCase fuel checked text rest

def anyMatches : (fuel : Nat) → List Char → List (List Part) → StateM Machine Bool
  | 0, _, _ => pure false
  | _, _, [] => pure false
  | fuel + 1, text, first :: rest => do
    let marked := markedOf (← expand fuel first)
    if matchesText (pattern marked) text then pure true else anyMatches fuel text rest

end

end TrpcRouters.Shell.Interpreter
