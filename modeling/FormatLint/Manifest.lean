import FormatLint.Data.JsonFile
import FormatLint.FileSystem.Resolve
import FormatLint.Lint.Result
import FormatLint.Rules.Project

/-!
The project manifest: the patterns that it excludes and the facts that shape the default lint
configuration. A project without a manifest excludes nothing and has the default facts.
-/

namespace FormatLint

structure Manifest where
  sourceType : Option String := none
  dependencies : Members := []
  devDependencies : Members := []
  engines : Members := []
  tools : Members := []
  ignores : List String := []

namespace Manifest

def fileName : String := "package.json"

def decodeIgnores (d : Datum) : Decoded (List String) := do
  let fields ← d.record? [("ignores", true)]
  Datum.fieldOr fields "ignores" [] (Datum.list? .json (Datum.text? .json))

def decodeDevelopment (d : Datum) : Decoded (List String) := do
  let fields ← d.record? [("linting", false)]
  let ignores ← Datum.fieldOr fields "linting" none (Datum.option? decodeIgnores)
  return ignores.getD []

def decode (d : Datum) : Decoded Manifest := do
  let fields ← d.record? [("type", false), ("dependencies", true), ("devDependencies", true),
    ("engines", true), ("pkgdev", true), ("devPkg", false)]
  let members := Datum.members? .json
  let ignores ← Datum.fieldOr fields "devPkg" none (Datum.option? decodeDevelopment)
  return {
    sourceType := ← Datum.fieldOr fields "type" none (Datum.option? (Datum.text? .json))
    dependencies := ← Datum.fieldOr fields "dependencies" [] members
    devDependencies := ← Datum.fieldOr fields "devDependencies" [] members
    engines := ← Datum.fieldOr fields "engines" [] members
    tools := ← Datum.fieldOr fields "pkgdev" [] members
    ignores := ignores.getD [] }

/-- The manifest at a path; `none` when there is no file. -/
def read (fs : FileSystem) (p : Path) : Except Error (Option Manifest) :=
  match fs.readText p with
  | .error .notFound => .ok none
  | .error fault => .error (Error.ofFault "read manifest" p fault)
  | .ok text =>
    match decodeJson decode text with
    | .ok manifest => .ok (some manifest)
    | .error e => .error (e.withPath p)

/-- The patterns that the manifest at a path excludes. -/
def readIgnores (fs : FileSystem) (p : Path) : Except Error (List String) :=
  (read fs p).map fun
    | some manifest => manifest.ignores
    | none => []

/-- The source type that the manifest sets for this tool. -/
def configuredSourceType (m : Manifest) : Option String :=
  match m.tools.get? "format-and-lint" with
  | some (.object settings) =>
    match Members.get? settings "sourceType" with
    | some (.string value) => some value
    | _ => none
  | _ => none

def project (m : Manifest) : Project where
  sourceType := (m.configuredSourceType.or m.sourceType).getD "module"
  declaresNodeEngine := m.engines.contains "node"
  usesReact := m.dependencies.contains "react" || m.devDependencies.contains "react"

/-- The facts of the project whose manifest is at a path. -/
def readProject (fs : FileSystem) (p : Path) : Except Error Project :=
  (read fs p).map fun
    | some manifest => manifest.project
    | none => {}

end Manifest

end FormatLint
