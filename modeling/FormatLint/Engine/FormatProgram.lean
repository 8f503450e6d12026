import FormatLint.Engine.FormatOptions
import FormatLint.Json.Printer
import FormatLint.World

/-!
The formatter as a program. Its options are written to a temporary file that every call names.
-/

namespace FormatLint

structure FormatProgram where
  program : Path
  /-- The generated options. -/
  configPath : Path

namespace FormatProgram

def engineName : String := "prettier"

/-- The directory of generated options. -/
def temporaryDirectory : Path := Path.ofString "/tmp"

/-- Writes the options of a formatter. -/
def create (program : Path) (options : Members) : Action FormatProgram := do
  let configPath ← Action.change (Error.ofFault "create prettier config" temporaryDirectory)
    (FileAction.createTemporary temporaryDirectory "fandl-prettier." ".json")
  Action.change (Error.ofFault "write prettier config" configPath)
    (FileAction.fill configPath (Json.object options).pretty.toUTF8)
  return { program, configPath }

/-- Uses a formatter whose options are gone afterwards. -/
def withFormatter (program : Path) (options : Members) (use : FormatProgram → Action α) :
    Action α := do
  let formatter ← create program options
  Action.withTemporary formatter.configPath fun _ => use formatter

def arguments (f : FormatProgram) (file : Path) : List Bytes :=
  [Utf8.encode "--stdin-filepath", file.bytes, Utf8.encode "--config", f.configPath.bytes,
    Utf8.encode "--no-editorconfig"]

/-- The formatted text of a file. -/
def format (f : FormatProgram) (text : String) (file : Path) : Action String := do
  let output ← Action.start engineName {
    program := f.program, arguments := f.arguments file, input := text.toUTF8 }
  if output.status ≠ .code 0 then throw (Error.exited engineName output)
  match Utf8.read? output.stdout with
  | some text => return text
  | none => throw (Error.outputNotText engineName "invalid utf-8 sequence")

end FormatProgram

end FormatLint
