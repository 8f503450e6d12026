import FormatLint.Data.JsonFile
import FormatLint.Engine.FileUrl
import FormatLint.Lint.Result
import FormatLint.World

/-!
The linter as a program. Its configuration is written as a module below the project's
`node_modules`, so that imports resolve there, and it runs from the project root.
-/

namespace FormatLint

/-- What the linter is configured with. -/
inductive LintConfig where
  | entries (entries : List Entry)
  /-- The user's own module. -/
  | module (p : Path)

namespace LintConfig

/-- The text of the module that the linter is given. -/
def moduleText : LintConfig → Action String
  | .entries es => return ConfigModule.render es
  | .module p => do
    let q ← Action.absolute (Error.ofFault "resolve eslint config" p) p
    return ConfigModule.renderReexport q.normalize

end LintConfig

structure Linter where
  program : Path
  /-- The generated module. -/
  configPath : Path
  root : Path
  /-- Whether fixes are computed. -/
  fix : Bool

namespace Linter

def engineName : String := "eslint"

/-- The directory of generated modules, from the project root. -/
def cacheDirectory : String := "node_modules/.cache/fandl"

/-- Writes the configuration of a linter. -/
def create (program root : Path) (config : LintConfig) (fix : Bool) : Action Linter := do
  let root := (← Action.absolute (Error.ofFault "resolve project root" root) root).normalize
  let text ← config.moduleText
  let dir := root.joinText cacheDirectory
  Action.change (Error.ofFault "create config cache" dir) (FileAction.makeDirectories dir)
  let configPath ← Action.change (Error.ofFault "create eslint config" dir)
    (FileAction.createTemporary dir "eslint.config." ".mjs")
  Action.change (Error.ofFault "write eslint config" configPath)
    (FileAction.fill configPath text.toUTF8)
  return { program, configPath, root, fix }

/-- Uses a linter whose configuration is gone afterwards. -/
def withLinter (program root : Path) (config : LintConfig) (fix : Bool)
    (use : Linter → Action α) : Action α := do
  let linter ← create program root config fix
  Action.withTemporary linter.configPath fun _ => use linter

def arguments (l : Linter) (file : Path) : List Bytes :=
  [Utf8.encode "--config", l.configPath.bytes, Utf8.encode "--stdin",
    Utf8.encode "--stdin-filename", file.bytes, Utf8.encode "--format", Utf8.encode "json",
    Utf8.encode "--no-warn-ignored"]
  ++ if l.fix then [Utf8.encode "--fix-dry-run"] else []

/-- The first result that the linter printed, or a clean one. A status of 1 only says that there
    are findings. -/
def resultOf (file : Path) (output : Output) : Except Error LintResult :=
  if output.status = .code 0 ∨ output.status = .code 1 then
    match Json.decodeText LintResult.decodeList output.stdout.toList with
    | .error detail => .error (Error.outputNotParsed engineName detail)
    | .ok results => .ok (results.head?.getD { file })
  else .error (Error.exited engineName output)

/-- Lints a text as the content of a file. -/
def lint (l : Linter) (text : String) (file : Path) : Action LintResult := do
  let output ← Action.start engineName {
    program := l.program, arguments := l.arguments file, directory := some l.root
    input := text.toUTF8 }
  Action.ofExcept (resultOf file output)

end Linter

end FormatLint
