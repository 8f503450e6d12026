import FormatLint.Process.Basic
import FormatLint.Shell.Script
import FormatLint.Shell.Tool

/-!
Running scripts. `programs` makes the executable files of a file system runnable: scripts of the
small command language, and files that stand for one of the tools.
-/

namespace FormatLint.Shell

/-- The bytes that open a file which stands for a tool. -/
def toolMark : Bytes := [0x7F, 0x45, 0x4C, 0x46]

def shellName : String := "sh"

/-- An executable file that stands for a tool. -/
def toolFile (name : String) : Node :=
  .file { content := ⟨(toolMark ++ Utf8.encode name).toArray⟩, mode := 0o755 }

/-- What an executable file holds. -/
inductive Image where
  | tool (name : String)
  /-- A script with the program that runs it, and that program's own argument. -/
  | script (interpreter : Path) (argument : Option Bytes)

def isSpace (b : UInt8) : Bool := b == 0x20 || b == 0x09

def trimSpace (bytes : Bytes) : Bytes :=
  ((bytes.dropWhile isSpace).reverse.dropWhile isSpace).reverse

/-- Looks at an executable file. -/
def load (fs : FileSystem) (p : Path) : Except SystemFault Image := do
  match (← fs.stat p).2 with
  | .file data =>
    if data.mode &&& 0o111 = 0 then throw .permissionDenied
    let lead := (data.content.extract 0 256).toList
    match lead with
    | 0x23 :: 0x21 :: rest =>
      let line := trimSpace (rest.takeWhile (· != 0x0A))
      let interpreter := line.takeWhile (!isSpace ·)
      let argument := trimSpace (line.drop interpreter.length)
      if interpreter.isEmpty then throw .badExecutable
      return .script ⟨interpreter⟩ (if argument.isEmpty then none else some argument)
    | lead =>
      if toolMark.isPrefixOf lead then
        return .tool (Utf8.decodeLossy (lead.drop toolMark.length))
      else throw .badExecutable
  | _ => throw .permissionDenied

/-- Looks a program up in directories; a file that may not be run is remembered as the reason. -/
def lookUp (fs : FileSystem) (name : Path) (reason : SystemFault) :
    List Path → Except SystemFault (Path × Image)
  | [] => .error reason
  | dir :: rest =>
    let p := dir.join name
    match load fs p with
    | .ok image => .ok (p, image)
    | .error .notFound => lookUp fs name reason rest
    | .error .notDirectory => lookUp fs name reason rest
    | .error .permissionDenied => lookUp fs name .permissionDenied rest
    | .error fault => .error fault

/-- The executable of a program: a name without a slash is looked up on the search path. -/
def find (fs : FileSystem) (searchPath : List Path) (program : Path) :
    Except SystemFault (Path × Image) :=
  if program.bytes.contains 0 then .error .nulInPath
  else if program.isEmpty then .error .notFound
  else if program.bytes.contains Path.slash then do return (program, ← load fs program)
  else lookUp fs program .notFound searchPath

/-- The texts that parameters stand for. -/
structure Frame where
  self : Bytes
  arguments : List Bytes
  status : Nat := 0

/-- The number that stands for the running process. -/
def processNumber : String := "4242"

namespace Frame

def values (f : Frame) : Parameter → List Bytes
  | .argument 0 => [f.self]
  | .argument n => (f.arguments[n - 1]?).toList
  | .count => [Utf8.encode (toString f.arguments.length)]
  | .all => f.arguments
  | .process => [Utf8.encode processNumber]
  | .status => [Utf8.encode (toString f.status)]
  | .name _ => []

/-- The fields that a word comes to. Only a word that is a single parameter comes to more or fewer
    than one. -/
def expand (f : Frame) : Word → List Bytes
  | [.parameter p false] => (f.values p).filter (!·.isEmpty)
  | [.text [], .parameter .all true] => f.arguments
  | word => [word.flatMap fun
      | .text text => text.map (·.toNat.toUInt8)
      | .parameter p _ => joinBytes 0x20 (f.values p)]

/-- The one text that the target of a redirection comes to. -/
def expandOne (f : Frame) (word : Word) : Bytes := joinBytes 0x20 (f.expand word)

end Frame

/-- Where a descriptor writes to. -/
inductive Destination where
  | out
  | err
  | nowhere
  | file (p : Path)

structure Descriptors where
  out : Destination := .out
  err : Destination := .err

def nullDevice : Path := Path.ofString "/dev/null"

/-- Opens the targets of redirections, one after the other. -/
def redirect (f : Frame) (d : Descriptors) (m : Machine) :
    List Redirection → Except String Descriptors × Machine
  | [] => (.ok d, m)
  | r :: rest =>
    let set (descriptor : Nat) (s : Destination) : Descriptors :=
      if descriptor = 2 then { d with err := s } else { d with out := s }
    match r with
    | .output descriptor target append =>
      let p : Path := ⟨f.expandOne target⟩
      if p = nullDevice then redirect f (set descriptor .nowhere) m rest
      else
        let opened : FileAction Unit := do
          let present := (← get).isFile p
          if !(append && present) then FileAction.write p .empty
        match opened.run m.files with
        | (.ok _, files) => redirect f (set descriptor (.file p)) { m with files } rest
        | (.error fault, files) =>
          (.error ("cannot create " ++ p.display ++ ": " ++ fault.reason), { m with files })
    | .duplicate descriptor target =>
      let source := if f.expandOne target = [0x32] then d.err else d.out
      redirect f (set descriptor source) m rest
    | .input source =>
      let p : Path := ⟨f.expandOne source⟩
      if p = nullDevice then redirect f d { m with input := .empty } rest
      else
        match m.files.readBytes p with
        | .ok input => redirect f d { m with input } rest
        | .error fault => (.error ("cannot open " ++ p.display ++ ": " ++ fault.reason), m)

/-- Passes on what was written. -/
def deliver (m : Machine) (bytes : ByteArray) : Destination → Machine
  | .out => { m with out := m.out ++ bytes }
  | .err => { m with err := m.err ++ bytes }
  | .nowhere => m
  | .file p =>
    let present := (m.files.readBytes p).toOption.getD .empty
    { m with files := ((FileAction.write p (present ++ bytes)).run m.files).2 }

/-- What a command leaves: a status for the next one, or the end of the script. -/
inductive Flow where
  | next (status : Nat)
  | ended (status : ExitStatus)

/-- The signal with a number or a name. -/
def signalNumber (text : String) : Nat :=
  match Text.natIn? 10 text.toList with
  | some number => number
  | none => ((ExitStatus.signalNames.idxOf? text).map (· + 1)).getD 15

/-- The signal that `kill` sends: `-9`, `-KILL`, `-s KILL`, and by default the one to end. -/
def killSignal : List String → Nat
  | "-s" :: name :: _ => signalNumber name
  | option :: _ =>
    match option.toList with
    | '-' :: name => signalNumber (String.ofList name)
    | _ => 15
  | [] => 15

/-- Commands that only the shell itself can carry out. -/
def special? (f : Frame) (name : String) (arguments : List Bytes) (m : Machine) :
    Option (Flow × Machine) :=
  let texts := arguments.map Utf8.decodeLossy
  match name with
  | "exit" =>
    let status := (texts.head?.bind fun t => Text.natIn? 10 t.toList).getD f.status
    some (.ended (.code (status % 256)), m)
  | "kill" => some (.ended (.signal (killSignal texts)), m)
  | ":" => some (.next 0, m)
  | "set" => some (.next 0, m)
  | "cd" =>
    let target : Path := ⟨arguments.headD [Path.slash]⟩
    if m.files.isDirectory target then
      some (.next 0, { m with files := { m.files with cwd := m.files.cwd.join target } })
    else some (.next 2, m.complain (name ++ ": can't cd to " ++ target.display))
  | _ => none

/-- The tools that are part of the shell. -/
def builtIn? (name : String) : Option Tool :=
  if ["echo", "printf", "pwd", "true", "false"].contains name then tool? name name else none

/-- The status of a program as the next command sees it. -/
def seenStatus : ExitStatus → Nat
  | .code n => n
  | .signal n => 128 + n

/-- The input to give to a command: the rest of the script's own, or what a pipe brings. -/
def withInput (m : Machine) (input : Option ByteArray) : Machine :=
  match input with
  | some input => { m with input }
  | none => m

mutual

/-- Runs the executable of a program. -/
def execute (searchPath : List Path) (fuel : Nat) (program : Path) (arguments : List Bytes)
    (m : Machine) : Except SystemFault ExitStatus × Machine :=
  match fuel with
  | 0 => (.error .badExecutable, m)
  | fuel + 1 =>
    match find m.files searchPath program with
    | .error fault => (.error fault, m)
    | .ok (p, .script interpreter argument) =>
      execute searchPath fuel interpreter (argument.toList ++ p.bytes :: arguments) m
    | .ok (_, .tool name) =>
      if name = shellName then
        let (status, m) := interpret searchPath fuel program.bytes arguments m
        (.ok status, m)
      else
        match tool? name program.display with
        | some tool =>
          let (status, m) := tool arguments m
          (.ok (.code status), m)
        | none => (.error .badExecutable, m)

/-- Runs the script that the arguments name: a text after `-c`, a file, or the input. -/
def interpret (searchPath : List Path) (fuel : Nat) (self : Bytes) (arguments : List Bytes)
    (m : Machine) : ExitStatus × Machine :=
  match fuel with
  | 0 => (.code 2, m)
  | fuel + 1 =>
    let run (script self : Bytes) (arguments : List Bytes) (m : Machine) :
        ExitStatus × Machine :=
      match parse script with
      | some steps => runSteps searchPath fuel { self, arguments } steps m
      | none => (.code 2, m.complain (Utf8.decodeLossy self ++ ": 1: Syntax error"))
    match arguments with
    | [] =>
      let (input, m) := m.takeInput
      run input.toList self [] m
    | option :: text :: rest =>
      if option = [dash, 0x63] then
        run text (rest.headD self) (rest.drop 1) m
      else
        match m.files.readBytes ⟨option⟩ with
        | .ok content => run content.toList option (text :: rest) m
        | .error _ => (.code 2, m.complain (Utf8.decodeLossy self ++ ": 0: cannot open script"))
    | [file] =>
      match m.files.readBytes ⟨file⟩ with
      | .ok content => run content.toList file [] m
      | .error _ => (.code 2, m.complain (Utf8.decodeLossy self ++ ": 0: cannot open script"))

def runSteps (searchPath : List Path) (fuel : Nat) (f : Frame) (steps : List Step) (m : Machine) :
    ExitStatus × Machine :=
  match fuel, steps with
  | 0, _ => (.code 2, m)
  | _, [] => (.code f.status, m)
  | fuel + 1, step :: rest =>
    let runs := match step.condition with
      | .always => true
      | .success => f.status = 0
      | .failure => f.status ≠ 0
    if runs then
      match runPipeline searchPath fuel f none step.pipeline m with
      | (.next status, m) => runSteps searchPath fuel { f with status } rest m
      | (.ended status, m) => (status, m)
    else runSteps searchPath fuel f rest m

/-- Runs commands that pass their output on; `input` is what the first one is given. -/
def runPipeline (searchPath : List Path) (fuel : Nat) (f : Frame) (input : Option ByteArray)
    (commands : List Command) (m : Machine) : Flow × Machine :=
  match fuel, commands with
  | 0, _ => (.next 2, m)
  | _, [] => (.next f.status, m)
  | fuel + 1, [c] => runCommand searchPath fuel f c (withInput m input)
  | fuel + 1, c :: rest =>
    let (_, after) := runCommand searchPath fuel f c { withInput m input with out := .empty }
    runPipeline searchPath fuel f (some after.out) rest { after with out := m.out }

def runCommand (searchPath : List Path) (fuel : Nat) (f : Frame) (c : Command) (m : Machine) :
    Flow × Machine :=
  match fuel with
  | 0 => (.next 2, m)
  | fuel + 1 =>
    match redirect f {} m c.redirections with
    | (.error reason, m) =>
      (.next 2, m.complain (Utf8.decodeLossy f.self ++ ": 1: " ++ reason))
    | (.ok descriptors, m) =>
      match c.words.flatMap f.expand with
      | [] => (.next 0, m)
      | name :: arguments =>
        let text := Utf8.decodeLossy name
        let inner : Machine := { m with out := .empty, err := .empty }
        let (flow, after) :=
          match special? f text arguments inner with
          | some result => result
          | none =>
            if text = "exec" then
              match runProgram searchPath fuel f (arguments.headD []) (arguments.drop 1) inner with
              | (.next status, after) => (.ended (.code status), after)
              | result => result
            else
              match builtIn? text with
              | some tool =>
                let (status, after) := tool arguments inner
                (.next status, after)
              | none => runProgram searchPath fuel f name arguments inner
        let restored := { after with out := m.out, err := m.err }
        (flow, deliver (deliver restored after.out descriptors.out) after.err descriptors.err)

/-- Runs a program on behalf of a script. -/
def runProgram (searchPath : List Path) (fuel : Nat) (f : Frame) (name : Bytes)
    (arguments : List Bytes) (m : Machine) : Flow × Machine :=
  match fuel with
  | 0 => (.next 2, m)
  | fuel + 1 =>
    match execute searchPath fuel ⟨name⟩ arguments m with
    | (.ok status, m) => (.next (seenStatus status), m)
    | (.error fault, m) =>
      let who := Utf8.decodeLossy f.self ++ ": 1: " ++ Utf8.decodeLossy name
      if fault = .notFound then (.next 127, m.complain (who ++ ": not found"))
      else (.next 126, m.complain (who ++ ": " ++ fault.reason))

end

/-- How many calls and steps may be nested. -/
def runLimit : Nat := 1000

/-- The programs of a file system, looked up on a search path. -/
def programs (searchPath : List Path) : Programs := fun invocation => do
  let fs ← get
  let cwd ← match invocation.directory with
    | none => pure fs.cwd
    | some dir =>
      if fs.isDirectory dir then pure (fs.cwd.join dir)
      else
        let _ ← FileAction.ofRead (·.stat dir)
        throw .notDirectory
  let m : Machine := { files := { fs with cwd }, input := invocation.input }
  let (result, after) := execute searchPath runLimit invocation.program invocation.arguments m
  set { after.files with cwd := fs.cwd }
  match result with
  | .ok status => return { status, stdout := after.out, stderr := after.err }
  | .error fault => throw fault

end FormatLint.Shell
