import FormatLint.Data.JsonFile
import FormatLint.Text.Blank
import FormatLint.Toml.Read
import FormatLint.World
import FormatLint.Yaml.Node

/-!
Configuration files that the user names. The extension decides how a file is read: as one of the
three data formats, or as a module, which another program evaluates to JSON.
-/

namespace FormatLint

inductive ConfigFormat where
  | json
  | yaml
  | toml
  | module
deriving DecidableEq

namespace ConfigFormat

/-- The format of a file, by its extension in any case. -/
def ofPath (p : Path) : ConfigFormat :=
  match (p.extension?.bind Utf8.decode?).map String.toLower with
  | some "json" => json
  | some "yml" => yaml
  | some "yaml" => yaml
  | some "toml" => toml
  | _ => module

end ConfigFormat

namespace ConfigFile

/-- The program that evaluates modules. -/
def evaluator : String := "node"

/-- The script that prints the default export of a module as JSON. -/
def evaluationScript : String :=
  "import \x7b pathToFileURL \x7d from 'node:url'\n" ++
  "const module = await import(pathToFileURL(process.argv[1]).href)\n" ++
  "process.stdout.write(JSON.stringify(module.default ?? null))\n"

def decodeYaml (decode : Datum → Decoded α) (text : String) : Except Error α :=
  match Yaml.read text with
  | .error fault => .error (Error.unreadableYaml fault.message)
  | .ok datum =>
    match decode datum with
    | .error fault => .error (Error.unreadableYaml fault.message)
    | .ok value => .ok value

def decodeToml (decode : Datum → Decoded α) (text : String) : Except Error α :=
  match Toml.read text with
  | .error fault => .error (Error.unreadableToml fault.message)
  | .ok datum =>
    match decode datum with
    | .error fault => .error (Error.unreadableToml fault.message)
    | .ok value => .ok value

/-- Reads a file of data. -/
def readData (decode : String → Except Error α) (fs : FileSystem) (p : Path) : Except Error α :=
  match fs.readText p with
  | .error fault => .error (Error.ofFault "read config file" p fault)
  | .ok text =>
    match decode text with
    | .error e => .error (e.withPath p)
    | .ok value => .ok value

/-- What the evaluator prints for a module. -/
def evaluate (p : Path) : Action String := do
  let file ← Action.absolute Error.ofBareFault p
  let output ← Action.start evaluator {
    program := Path.ofString evaluator
    arguments := [Utf8.encode "--input-type=module", Utf8.encode "-e",
      Utf8.encode evaluationScript, file.bytes] }
  if output.status ≠ .code 0 then throw (Error.exited evaluator output)
  match Utf8.read? output.stdout with
  | some text => return text
  | none => throw (Error.outputNotText evaluator "invalid utf-8 sequence")

/-- The value that a module exports. -/
def decodeExport (decode : Datum → Decoded α) (p : Path) (text : String) : Except Error α :=
  if Text.trim text.toList = "null".toList then .error (Error.noDefaultExport p)
  else
    match decodeJson decode text with
    | .error e => .error (e.withPath p)
    | .ok value => .ok value

/-- Loads the file at a path. -/
def load (decode : View → Datum → Decoded α) (p : Path) : Action α :=
  match ConfigFormat.ofPath p with
  | .json => Action.read fun fs => readData (decodeJson (decode .json)) fs p
  | .yaml => Action.read fun fs => readData (decodeYaml (decode .yaml)) fs p
  | .toml => Action.read fun fs => readData (decodeToml (decode .toml)) fs p
  | .module => do Action.ofExcept (decodeExport (decode .json) p (← evaluate p))

end ConfigFile

end FormatLint
