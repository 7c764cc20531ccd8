import TrpcRouters.Shell.Machine
import TrpcRouters.Shell.Print

/-! The commands that a shell carries out itself, and those of the system's programs that scripts use
on files. -/

namespace TrpcRouters.Shell.Tools

abbrev Result := Option (Machine × Flow)

def done (machine : Machine) (status : Nat) : Result :=
  some (machine.ends status, .next)

def reason : SystemError → String
  | .code number => SystemError.wording number
  | error => error.text

def failing (machine : Machine) (command text : String) : Machine :=
  (machine.warn (command ++ ": " ++ text)).ends 1

def echo (machine : Machine) (arguments : List String) : Machine :=
  (machine.send machine.stdoutSink (Print.echo arguments)).ends 0

def printf (machine : Machine) (arguments : List String) : Machine :=
  match arguments with
  | format :: rest => (machine.send machine.stdoutSink (Print.formatted format rest)).ends 0
  | [] => (machine.complain "printf: usage: printf format [arg ...]").ends 2

def nodeAt (machine : Machine) (path : String) : Option Node :=
  match machine.tree.entry true (Word.path path) with
  | .ok (_, node) => some node
  | .error _ => none

def isFile : Option Node → Bool
  | some (.file _ _ _) => true
  | _ => false

def testUnary (machine : Machine) (operator operand : String) : Bool :=
  let node := nodeAt machine operand
  match operator with
  | "-n" => operand != ""
  | "-z" => operand == ""
  | "-e" | "-r" | "-w" => node.isSome
  | "-f" => isFile node
  | "-d" => node == some .directory
  | "-s" =>
    match node with
    | some (.file content _ _) => !content.isEmpty
    | other => other.isSome
  | "-x" =>
    match node with
    | some (.file _ _ executable) => executable
    | other => other.isSome
  | "-h" | "-L" =>
    match machine.tree.entry false (Word.path operand) with
    | .ok (_, .link _) => true
    | _ => false
  | _ => false

def testBinary (left operator right : String) : Bool :=
  let numbers (compare : Int → Int → Bool) : Bool :=
    match Print.integer? left, Print.integer? right with
    | some a, some b => compare a b
    | _, _ => false
  match operator with
  | "=" => left == right
  | "!=" => left != right
  | "-eq" => numbers (· == ·)
  | "-ne" => numbers (· != ·)
  | "-lt" => numbers (· < ·)
  | "-le" => numbers (· ≤ ·)
  | "-gt" => numbers (· > ·)
  | "-ge" => numbers (· ≥ ·)
  | _ => false

def test (machine : Machine) : (fuel : Nat) → List String → Bool
  | 0, _ => false
  | _, [] => false
  | _, [text] => text != ""
  | fuel + 1, "!" :: rest => !(test machine fuel rest)
  | fuel + 1, a :: b :: rest =>
    match rest with
    | [] => testUnary machine a b
    | [c] => testBinary a b c
    | c :: connective :: others =>
      if connective = "-a" then testBinary a b c && test machine fuel others
      else if connective = "-o" then testBinary a b c || test machine fuel others
      else if c = "-a" then testUnary machine a b && test machine fuel (connective :: others)
      else if c = "-o" then testUnary machine a b || test machine fuel (connective :: others)
      else false

def signal? (text : String) : Option Nat :=
  match text.toNat? with
  | some number => some number
  | none =>
    (WaitStatus.signalNames.find? fun entry => entry.2 = "SIG" ++ text).map Prod.fst

def kill (machine : Machine) (arguments : List String) : Result :=
  let given : Option Nat × List String := match arguments with
    | "-s" :: name :: rest => (signal? name, rest)
    | option :: rest =>
      match option.toList with
      | '-' :: name => (signal? (String.ofList name), rest)
      | _ => (some 15, arguments)
    | [] => (none, [])
  match given with
  | (some signal, [target]) =>
    if target = toString Machine.processNumber then
      if signal = 0 then done machine 0 else some (machine, .killed signal)
    else done (machine.complain "kill: No such process") 1
  | _ => some ((machine.complain "kill: Illegal option").ends 2, .exits)

def finish (machine : Machine) (command : String) (flow : Flow) (arguments : List String) : Result :=
  match arguments with
  | [] => some (machine, flow)
  | text :: _ =>
    match text.toNat? with
    | some status => some (machine.ends (status % 256), flow)
    | none => some ((machine.complain (command ++ ": Illegal number: " ++ text)).ends 2, .exits)

def levelsOf (arguments : List String) : Nat :=
  (arguments.head?.bind String.toNat?).getD 1

def exportOne (machine : Machine) (argument : String) : Machine :=
  match Text.halves '=' argument with
  | (name, some value) => (machine.assign name value).exporting name
  | (name, none) => machine.exporting name

def assignOne (machine : Machine) (argument : String) : Machine :=
  match Text.halves '=' argument with
  | (name, some value) => machine.assign name value
  | (_, none) => machine

def set (machine : Machine) : List String → Machine
  | "--" :: rest => { machine with arguments := rest }
  | option :: rest =>
    match option.toList with
    | '-' :: letters =>
      set { machine with
        strict := machine.strict || letters.contains 'e'
        needsValues := machine.needsValues || letters.contains 'u' } rest
    | '+' :: letters =>
      set { machine with
        strict := machine.strict && !letters.contains 'e'
        needsValues := machine.needsValues && !letters.contains 'u' } rest
    | _ => { machine with arguments := option :: rest }
  | [] => machine

def cd (machine : Machine) (arguments : List String) : Machine :=
  let target := arguments.head?.getD ((machine.values.lookup "HOME").getD "/")
  match machine.tree.entry true (Word.path target) with
  | .ok (place, .directory) =>
    { machine with tree := { machine.tree with workingDirectory := place }, status := 0 }
  | _ => (machine.complain ("cd: can't cd to " ++ target)).ends 2

def read (machine : Machine) (arguments : List String) : Machine :=
  let names := arguments.filter (· ≠ "-r")
  let line := machine.input.takeWhile (· ≠ 0x0a)
  let ended := line.length < machine.input.length
  let machine := { machine with input := machine.input.drop (line.length + 1) }
  let text := (Word.ofBytes line).toList
  let isBlank (c : Char) : Bool := machine.separators.contains c
  let machine := match names with
    | [] => machine
    | [name] =>
      machine.assign name
        (String.ofList ((text.dropWhile isBlank).reverse.dropWhile isBlank).reverse)
    | first :: others =>
      let text := text.dropWhile isBlank
      let word := text.takeWhile (fun c => !isBlank c)
      let machine := machine.assign first (String.ofList word)
      let rest := (text.drop word.length).dropWhile isBlank
      others.foldl (fun machine name => machine.assign name
        (String.ofList (rest.reverse.dropWhile isBlank).reverse)) machine
  machine.ends (if ended then 0 else 1)

def trap (machine : Machine) : List String → Machine
  | [commands, event] =>
    if event = "EXIT" ∨ event = "0" then
      { machine with farewell := if commands = "-" then none else some commands }
    else machine
  | _ => machine

def builtin (machine : Machine) (command : String) (arguments : List String) : Result :=
  match command with
  | ":" | "true" | "wait" | "umask" | "ulimit" => done machine 0
  | "trap" => done (trap machine arguments) 0
  | "false" => done machine 1
  | "echo" => some (echo machine arguments, .next)
  | "printf" => some (printf machine arguments, .next)
  | "test" => done machine (if test machine (arguments.length + 1) arguments then 0 else 1)
  | "[" =>
    match arguments.reverse with
    | "]" :: rest =>
      done machine (if test machine (arguments.length + 1) rest.reverse then 0 else 1)
    | _ => done (machine.complain "[: missing ]") 2
  | "exit" => finish machine "exit" .exits arguments
  | "return" => finish machine "return" .returns arguments
  | "break" =>
    some (machine.ends 0, if machine.loops = 0 then .next else .breaks (levelsOf arguments))
  | "continue" =>
    some (machine.ends 0, if machine.loops = 0 then .next else .continues (levelsOf arguments))
  | "kill" => kill machine arguments
  | "shift" =>
    let count := levelsOf arguments
    if count ≤ machine.arguments.length then
      done { machine with arguments := machine.arguments.drop count } 0
    else some ((machine.complain "shift: can't shift that many").ends 2, .exits)
  | "set" => done (set machine arguments) 0
  | "export" => done (arguments.foldl exportOne machine) 0
  | "readonly" | "local" => done (arguments.foldl assignOne machine) 0
  | "unset" =>
    done ((arguments.filter (fun name => name ≠ "-v" ∧ name ≠ "-f")).foldl Machine.unset machine) 0
  | "cd" => some (cd machine arguments, .next)
  | "pwd" =>
    done (machine.print (Word.ofRaw (FileTree.pathOf machine.tree.workingDirectory).raw ++ "\n")) 0
  | "read" => some (read machine arguments, .next)
  | _ => none

/-- The options among arguments, as letters, and the other arguments. -/
def options (arguments : List String) : List Char × List String :=
  let isOption (argument : String) : Bool :=
    argument.length > 1 && argument.toList.head? == some '-'
  ((arguments.filter isOption).flatMap (fun argument => argument.toList.drop 1),
    arguments.filter (fun argument => !isOption argument))

/-- Where a file goes that is put to a target, which may be a directory. -/
def landing (machine : Machine) (source target : String) : String :=
  if machine.tree.isDirectory (Word.path target) then
    Word.ofRaw ((Word.path target).child (((Word.path source).fileName?).getD "")).raw
  else target

def cat (machine : Machine) (arguments : List String) : Machine :=
  let (_, files) := options arguments
  if files.isEmpty then
    ({ machine with input := [] }.send machine.stdoutSink machine.input).ends 0
  else
    files.foldl (fun machine file =>
      if file = "-" then machine.send machine.stdoutSink machine.input
      else
        match machine.tree.read (Word.path file) with
        | .ok content => machine.send machine.stdoutSink content
        | .error error => failing machine "cat" (file ++ ": " ++ reason error)) (machine.ends 0)

def copyOne (target : String) (machine : Machine) (source : String) : Machine :=
  match machine.tree.entry true (Word.path source) with
  | .error error => failing machine "cp" ("cannot stat '" ++ source ++ "': " ++ reason error)
  | .ok (_, .file content _ executable) =>
    let path := Word.path (landing machine source target)
    let isNew := !isFile (nodeAt machine (Word.ofRaw path.raw))
    match machine.tree.write path content with
    | .ok tree =>
      match tree.entry true path with
      | .ok (place, .file content stamp _) =>
        if isNew && executable then
          { machine with tree := tree.put place (.file content stamp true) }
        else { machine with tree }
      | _ => { machine with tree }
    | .error error =>
      failing machine "cp" ("cannot create regular file '" ++ Word.ofRaw path.raw ++ "': " ++ reason error)
  | .ok _ => failing machine "cp" ("-r not specified; omitting directory '" ++ source ++ "'")

def moveOne (target : String) (machine : Machine) (source : String) : Machine :=
  match machine.tree.entry false (Word.path source) with
  | .error error => failing machine "mv" ("cannot stat '" ++ source ++ "': " ++ reason error)
  | .ok (place, .file content stamp executable) =>
    let path := Word.path (landing machine source target)
    match machine.tree.write path content with
    | .ok tree =>
      match tree.entry true path with
      | .ok (landed, _) =>
        if landed = place then { machine with tree }
        else
          { machine with
            tree := (tree.put landed (.file content stamp executable)).remove place }
      | .error _ => { machine with tree }
    | .error error =>
      failing machine "mv"
        ("cannot move '" ++ source ++ "' to '" ++ Word.ofRaw path.raw ++ "': " ++ reason error)
  | .ok _ => failing machine "mv" ("cannot move '" ++ source ++ "'")

def transfer (machine : Machine) (one : String → Machine → String → Machine)
    (arguments : List String) : Machine :=
  match (options arguments).2.reverse with
  | target :: sources => sources.reverse.foldl (one target) (machine.ends 0)
  | [] => machine.ends 1

def makeDirectory (parents : Bool) (machine : Machine) (path : String) : Machine :=
  let complaint (error : SystemError) : String :=
    "cannot create directory '" ++ path ++ "': " ++ reason error
  if parents then
    match machine.tree.makeDirectories (Word.path path) with
    | (tree, none) => { machine with tree }
    | (tree, some error) => failing { machine with tree } "mkdir" (complaint error)
  else
    match machine.tree.makeDirectory (Word.path path) with
    | .ok tree => { machine with tree }
    | .error error => failing machine "mkdir" (complaint error)

def touch (machine : Machine) (path : String) : Machine :=
  let content := match machine.tree.read (Word.path path) with
    | .ok content => content
    | .error _ => []
  match machine.tree.write (Word.path path) content with
  | .ok tree => { machine with tree }
  | .error .isDirectory => machine
  | .error error => failing machine "touch" ("cannot touch '" ++ path ++ "': " ++ reason error)

def removeOne (recursive force : Bool) (machine : Machine) (path : String) : Machine :=
  match machine.tree.entry false (Word.path path) with
  | .ok (place, .directory) =>
    if recursive then { machine with tree := machine.tree.remove place }
    else failing machine "rm" ("cannot remove '" ++ path ++ "': Is a directory")
  | .ok (place, _) => { machine with tree := machine.tree.remove place }
  | .error error =>
    if force then machine
    else failing machine "rm" ("cannot remove '" ++ path ++ "': " ++ reason error)

def link (machine : Machine) (arguments : List String) : Machine :=
  match (options arguments).2 with
  | [target, path] =>
    { machine with
      tree := machine.tree.installLink (Word.path (landing machine target path)) (Word.path target) }.ends 0
  | _ => machine.ends 1

def tee (machine : Machine) (arguments : List String) : Machine :=
  let content := machine.input
  (options arguments).2.foldl (fun machine file =>
    match machine.tree.write (Word.path file) content with
    | .ok tree => { machine with tree }
    | .error error => failing machine "tee" (file ++ ": " ++ reason error))
    ((machine.send machine.stdoutSink content).ends 0)

def listing (tree : FileTree) (place : Place) : String :=
  String.join ((((tree.names place).map Word.ofRaw).filter
    (fun name => name.toList.head? != some '.')).map (· ++ "\n"))

def listOne (machine : Machine) (path : String) : Machine :=
  match machine.tree.entry true (Word.path path) with
  | .ok (place, .directory) => machine.print (listing machine.tree place)
  | .ok _ => machine.print (path ++ "\n")
  | .error error =>
    (machine.warn ("ls: cannot access '" ++ path ++ "': " ++ reason error)).ends 2

def mark (executable : Bool) (machine : Machine) (path : String) : Machine :=
  match machine.tree.entry true (Word.path path) with
  | .ok (place, .file content stamp _) =>
    { machine with tree := machine.tree.put place (.file content stamp executable) }
  | .ok _ => machine
  | .error error => failing machine "chmod" ("cannot access '" ++ path ++ "': " ++ reason error)

def chmod (machine : Machine) (arguments : List String) : Machine :=
  match arguments with
  | mode :: files =>
    let letters := mode.toList
    let executable := letters.contains 'x' && !letters.contains '-' ||
      letters.any (fun c => c = '1' || c = '3' || c = '5' || c = '7')
    files.foldl (mark executable) (machine.ends 0)
  | [] => machine.ends 1

def external (machine : Machine) (command : String) (arguments : List String) : Option Machine :=
  let (letters, operands) := options arguments
  match command with
  | "cp" => some (transfer machine copyOne arguments)
  | "mv" => some (transfer machine moveOne arguments)
  | "cat" => some (cat machine arguments)
  | "mkdir" => some (operands.foldl (makeDirectory (letters.contains 'p')) (machine.ends 0))
  | "touch" => some (operands.foldl touch (machine.ends 0))
  | "rm" =>
    some (operands.foldl
      (removeOne (letters.contains 'r' || letters.contains 'R') (letters.contains 'f'))
      (machine.ends 0))
  | "ln" => some (link machine arguments)
  | "ls" => some ((if operands.isEmpty then ["."] else operands).foldl listOne (machine.ends 0))
  | "tee" => some (tee machine arguments)
  | "echo" => some ((machine.send machine.stdoutSink (Print.echoProgram arguments)).ends 0)
  | "chmod" => some (chmod machine arguments)
  | "sleep" => some (machine.ends 0)
  | "basename" =>
    let name := match operands with
      | [path] => (((Word.path path).fileName?).map Word.ofRaw).getD path
      | path :: ending :: _ =>
        let name := (((Word.path path).fileName?).map Word.ofRaw).getD path
        if ending.toList.isSuffixOf name.toList && ending != name then
          String.ofList (name.toList.take (name.length - ending.length))
        else name
      | [] => ""
    some ((machine.print (name ++ "\n")).ends 0)
  | "dirname" =>
    let above := Word.ofRaw (((Word.path (operands.head?.getD "")).parent?).getD ⟨"/"⟩).raw
    some ((machine.print ((if above = "" then "." else above) ++ "\n")).ends 0)
  | "printenv" =>
    match operands with
    | [name] =>
      match machine.handedOn.lookup name with
      | some value => some ((machine.print (value ++ "\n")).ends 0)
      | none => some (machine.ends 1)
    | _ => some (machine.ends 0)
  | _ =>
    match builtin machine command arguments with
    | some (machine, _) => some machine
    | none => none

end TrpcRouters.Shell.Tools
