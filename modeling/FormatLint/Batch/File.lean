import FormatLint.Batch.Target
import FormatLint.Lint.Result
import FormatLint.World

/-!
The work on one file: read, format, lint, settle on a text and write it. Each step is an action of
its own, so that the steps of several files can be taken in any order.
-/

namespace FormatLint.Batch

structure Options where
  /-- Only report: no formatting, no fixing, no writing. -/
  check : Bool := false
  /-- Compute results but write nothing. -/
  noWrite : Bool := false
  /-- Write every file below this directory, and not in place. -/
  outputDir : Option Path := none
  /-- What is taken off a path before it is placed below the output directory. -/
  relativeStem : Path

def Options.writes (o : Options) : Bool := !o.check && !o.noWrite

structure Engines where
  format : String → Path → Action String
  lint : String → Path → Action LintResult

/-- The result for a file that cannot be read. -/
def unreadable (file : Path) (fault : SystemFault) : LintResult :=
  { file, messages := [Message.failure ("Cannot read file: " ++ fault.message)] }

/-- The text of a file. -/
def readSource (file : Path) : Action (Except SystemFault String) := do
  return (← get).files.readText file

/-- The text that is linted. -/
def formatSource (engines : Engines) (o : Options) (file : Path) (source : String) :
    Action String := do
  if o.check then return source
  Action.ask (.format source file)
  engines.format source file

/-- The result of linting the formatted text: about this file, and with the text that it ends
    up with. -/
def lintFormatted (engines : Engines) (o : Options) (file : Path) (source formatted : String) :
    Action LintResult := do
  Action.ask (.lint formatted file)
  let result ← engines.lint formatted file
  let fixed := if o.check then none else result.output
  return { result with file, output := reconcile source formatted fixed }

/-- A text and where it goes. -/
structure Writing where
  target : Path
  text : String

/-- What is written for a file: below the output directory every file, in place only a changed
    one. -/
def writing? (o : Options) (file : Path) (source : String) (result : LintResult) :
    Except Error (Option Writing) :=
  if !o.writes then .ok none
  else
    match o.outputDir, result.output with
    | some dir, output =>
      (reroot file o.relativeStem dir).map fun target => some ⟨target, output.getD source⟩
    | none, some text => .ok (some ⟨file, text⟩)
    | none, none => .ok none

namespace Writing

/-- The directory that the text is written in. -/
def directory (w : Writing) : Path :=
  match w.target.parent? with
  | some p => if p.isEmpty then Path.ofString "." else p
  | none => Path.ofString "."

def fault (w : Writing) : SystemFault → Error := Error.ofFault "write file" w.target

/-- Makes the directory of the target. -/
def prepare (w : Writing) : Action Unit :=
  Action.change (Error.ofFault "create output directory" w.directory)
    (FileAction.makeDirectories w.directory)

/-- Makes an empty file beside the target. -/
def openTemporary (w : Writing) : Action Path :=
  Action.change (Error.ofFault "create temporary file" w.directory)
    (FileAction.createTemporary w.directory ".tmp" "")

/-- Writes the text beside the target, with the permissions of what it will replace. -/
def fillTemporary (w : Writing) (temporary : Path) : Action Unit := do
  Action.change w.fault (FileAction.fill temporary w.text.toUTF8)
  match (← get).files.stat w.target with
  | .ok (_, .file data) => Action.change w.fault (FileAction.setMode temporary data.mode)
  | _ => return

/-- Puts the finished text in the place of the target. -/
def publish (w : Writing) (temporary : Path) : Action Unit :=
  Action.change w.fault (FileAction.rename temporary w.target)

/-- Takes a step on a temporary file, which does not outlive a failure. -/
def guarded (temporary : Path) (step : Action Unit) : Action Unit :=
  tryCatch step fun e => do
    Action.discard temporary
    throw e

/-- Replaces the target as a whole, or leaves it as it was. -/
def perform (w : Writing) : Action Unit := do
  w.prepare
  let temporary ← w.openTemporary
  guarded temporary (w.fillTemporary temporary)
  guarded temporary (w.publish temporary)

end Writing

/-- Works on one file from reading to writing. -/
def processFile (engines : Engines) (o : Options) (file : Path) : Action LintResult := do
  match ← readSource file with
  | .error fault => return unreadable file fault
  | .ok source =>
    let formatted ← formatSource engines o file source
    let result ← lintFormatted engines o file source formatted
    match ← Action.ofExcept (writing? o file source result) with
    | some w => w.perform
    | none => pure ()
    return result

end FormatLint.Batch
