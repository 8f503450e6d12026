import FormatLint.Batch.File

/-!
Working on a list of files.
-/

namespace FormatLint.Batch

/-- Refuses files that have no place below the output directory. -/
def checkTargets (o : Options) (files : List Path) : Except Error Unit :=
  match o.outputDir with
  | some dir =>
    if o.writes then files.forM fun file => (reroot file o.relativeStem dir).map fun _ => ()
    else .ok ()
  | none => .ok ()

/-- The results of the files, in order. A file that cannot be read has a result of its own, and
    any other failure ends the batch. -/
def processFiles (engines : Engines) (o : Options) (files : List Path) :
    Action (List LintResult) := do
  Action.ofExcept (checkTargets o files)
  files.mapM (processFile engines o)

/-- The absolute normal form of a path. -/
def located (file : Path) : Action Path := do
  return (← Action.absolute Error.ofBareFault file).normalize

/-- Formats and lints the files of a list that is not empty. -/
def formatAndLint (engines : Engines) (o : Options) (files : List Path) :
    Action (List LintResult) := do
  if files.isEmpty then throw Error.noFiles
  processFiles engines o (← files.mapM located)

end FormatLint.Batch
