import FormatLint.Batch.Process
import FormatLint.Data.ConfigFile
import FormatLint.Engine.FormatProgram
import FormatLint.Engine.Linter
import FormatLint.Report.Render
import FormatLint.Rules.Compose
import FormatLint.Selection.Select
import FormatLint.Settings.Load

/-!
The commands. Settings and configuration are loaded before any file is selected, so that mistakes
in them end a run before anything is written.
-/

namespace FormatLint

/-- The line that names the program and its version. -/
def versionLine : String := "fandl 0.1.0\n"

/-- The lint configuration of some settings: the user's module as it is, or else entries. -/
def lintConfig (s : Settings) : Action LintConfig := do
  Action.ofExcept s.validate
  match s.eslintConfigPath.filter (ConfigFormat.ofPath · = .module) with
  | some p =>
    let _ ← Action.read fun fs =>
      (fs.stat p).mapError (Error.ofFault "read config file" p)
    return .module p
  | none =>
    let custom ← s.eslintConfigPath.mapM (ConfigFile.load Entry.decodeList)
    let ruleSets ← s.ruleSetsPath.mapM (ConfigFile.load RuleSets.decode)
    let project ← Action.read fun fs =>
      Manifest.readProject fs (s.root.joinText Manifest.fileName)
    return .entries (← Action.ofExcept (compose { custom, ruleSets, project }))

/-- The options of the formatter. -/
def formatOptions (s : Settings) : Action Members := do
  let custom ← s.prettierConfigPath.mapM (ConfigFile.load Datum.members?)
  return FormatOptions.effective custom

/-- The settings that apply to a command line. -/
def loadSettings (args : RunArgs) (cwd : Path) : Action Settings :=
  Action.read fun fs => Settings.load fs args cwd

/-- What some settings select. -/
def selectionOptions (s : Settings) : Selection.Options where
  root := s.root
  files := s.files
  filesPaths := s.filesPaths
  ignoreFiles := s.ignoreFiles
  ignoreFilesPaths := s.ignoreFilesPaths
  noStandardIgnores := s.noStandardIgnores
  ignorePackageSettings := s.ignorePackageSettings

/-- Works on the selected files and prints the report; `check` only reports. -/
def formatAndLintCommand (args : RunArgs) (check : Bool) (cwd : Path) : Action Nat := do
  let settings ← loadSettings args cwd
  let report ← Action.ofExcept (Formatter.ofName settings.formatter)
  let config ← lintConfig settings
  let options ← formatOptions settings
  let files ← Action.warning fun fs sink => Selection.select fs (selectionOptions settings) sink
  let results ← FormatProgram.withFormatter settings.prettierBin options fun formatter =>
    Linter.withLinter settings.eslintBin settings.root config (!check) fun linter =>
      Batch.formatAndLint { format := formatter.format, lint := linter.lint }
        { check, outputDir := settings.outputDir, relativeStem := settings.relativeStem } files
  let rendered := report.render results
  Action.print rendered
  return Report.exitCode rendered

/-- Prints a value over several lines. -/
def printJson (value : Json) : Action Nat := do
  Action.print (value.pretty ++ "\n")
  return 0

/-- Runs a command in a directory and gives its exit status. -/
def run (command : Command) (cwd : Path) : Action Nat :=
  match command with
  | .formatAndLint args => formatAndLintCommand args false cwd
  | .lint args => formatAndLintCommand args true cwd
  | .showLintConfig args => do
    match ← lintConfig (← loadSettings args cwd) with
    | .entries entries => printJson (.array (entries.map Entry.toJson))
    | .module p => printJson (← ConfigFile.load Datum.json? p)
  | .showFormatConfig args => do
    printJson (.object (← formatOptions (← loadSettings args cwd)))
  | .version => do
    Action.print versionLine
    return 0

/-- What a program leaves behind when it ends: its exit status and what it wrote. -/
structure Ending where
  exitCode : Nat
  out : String
  err : String

/-- How a program ends whose command line leads to no command. -/
def Stop.ending (stop : Stop) : Ending :=
  let shown (text : String) : Ending := ⟨stop.exitCode, text, ""⟩
  let refused (text : String) : Ending := ⟨stop.exitCode, "", "error: " ++ text ++ "\n"⟩
  match stop with
  | .help => shown ("Usage: fandl [OPTIONS]\n       fandl <COMMAND> [OPTIONS]\n\nCommands: " ++
      String.intercalate ", " Args.commandNames ++ "\n")
  | .version => shown versionLine
  | .unknownArgument => refused "unexpected argument found"
  | .invalidSubcommand => refused "unrecognized subcommand"
  | .invalidValue => refused "a value is required"
  | .argumentConflict => refused "the argument cannot be used here"
  | .tooManyValues => refused "unexpected value for an option without one"

/-- What is written about a failure. -/
def failureText (e : Error) : String :=
  "Error: " ++ e.message ++ "\n" ++ match e.hint with
    | some hint => "Hint: " ++ hint ++ "\n"
    | none => ""

/-- Runs a command as a program does, which reports its own failures. -/
def runProgram (programs : Programs) (command : Command) (cwd : Path) (world : World) :
    Ending × World :=
  match (run command cwd programs).run world with
  | (.ok exitCode, world) => (⟨exitCode, world.out, world.err.text⟩, world)
  | (.error e, world) => (⟨1, world.out, world.err.text ++ failureText e⟩, world)

end FormatLint
