import FormatLint.FileSystem.Change
import FormatLint.Text.Blank
import FormatLint.Text.Quoted

/-!
Programs that a run starts. A program is known by what it does to its input and to the file
system; nothing else about it is assumed.
-/

namespace FormatLint

/-- A program to start, with its arguments and its input. -/
structure Invocation where
  program : Path
  arguments : List Bytes := []
  /-- The directory it runs in, where that is not the working directory. -/
  directory : Option Path := none
  input : ByteArray := .empty

inductive ExitStatus where
  | code (value : Nat)
  | signal (number : Nat)
deriving DecidableEq

namespace ExitStatus

/-- The names of the signals, from number one on. -/
def signalNames : List String :=
  ["HUP", "INT", "QUIT", "ILL", "TRAP", "ABRT", "BUS", "FPE", "KILL", "USR1", "SEGV", "USR2",
    "PIPE", "ALRM", "TERM", "STKFLT", "CHLD", "CONT", "STOP", "TSTP", "TTIN", "TTOU", "URG",
    "XCPU", "XFSZ", "VTALRM", "PROF", "WINCH", "IO", "PWR", "SYS"]

def signalName? : Nat → Option String
  | 0 => none
  | n + 1 => signalNames[n]?.map ("SIG" ++ ·)

def describe : ExitStatus → String
  | code n => "exit status: " ++ toString n
  | signal n =>
    "signal: " ++ toString n ++ match signalName? n with
      | some name => " (" ++ name ++ ")"
      | none => ""

def code? : ExitStatus → Option Nat
  | code n => some n
  | signal _ => none

end ExitStatus

structure Output where
  status : ExitStatus
  stdout : ByteArray := .empty
  stderr : ByteArray := .empty

/-- What starting a program does, or why it cannot be started. -/
abbrev Programs := Invocation → FileAction Output

namespace Error

/-- The program of an engine that could not be started. -/
def notStarted (name : String) (program : Path) (fault : SystemFault) : Error :=
  let shown := Text.quoted program.bytes
  if fault = .notFound then
    engine name
      (shown ++ " not found. Please ensure it is installed in node_modules or on your PATH.") true
  else engine name ("Failed to execute " ++ shown ++ ": " ++ fault.message) true

/-- The program of an engine that ran and failed. -/
def exited (name : String) (output : Output) : Error :=
  let stderr := String.ofList (Text.trimEnd (Utf8.readLossy output.stderr).toList)
  engine name ("exited with " ++ output.status.describe ++ ":\n" ++ stderr) false

def outputNotText (name detail : String) : Error :=
  engine name ("Output is not UTF-8: " ++ detail) false

def outputNotParsed (name detail : String) : Error :=
  engine name ("Could not parse output: " ++ detail) true

end Error

end FormatLint
