import FormatLint.Data.Decode
import FormatLint.Path.Normal
import FormatLint.Toml.Read
import FormatLint.Error

/-!
The project configuration file. Relative paths in it are relative to the directory that holds it,
wherever the program is run.
-/

namespace FormatLint

structure FilesConfig where
  includes : List String := []
  includePaths : List Path := []
  ignore : List String := []
  ignorePaths : List Path := []
  root : Option Path := none
  noStandardIgnores : Bool := false
  ignorePackageSettings : Bool := false
deriving DecidableEq

structure LintSection where
  eslintConfigPath : Option Path := none
  ruleSetsPath : Option Path := none
  eslintBin : Option Path := none
  formatter : Option String := none
deriving DecidableEq

structure FormatSection where
  prettierConfigPath : Option Path := none
  prettierBin : Option Path := none
deriving DecidableEq

structure OutputSection where
  dir : Option Path := none
  relativeStem : Option Path := none
deriving DecidableEq

structure Config where
  files : FilesConfig := {}
  lint : LintSection := {}
  format : FormatSection := {}
  output : OutputSection := {}
deriving DecidableEq

namespace Datum

/-- The fields of a section: a table without unknown keys, or a list of the leading fields in
    their order. `names` tells of each field whether a list may stop before it. -/
def section? (names : List (String × Bool)) (d : Datum) : Decoded (List (String × Datum)) :=
  match d with
  | .list items =>
    if (names.drop items.length).all (·.2) then
      .ok (List.zipWith (fun (name, _) item => (name, item)) names items)
    else .error (.expected "more elements")
  | d => do
    let fields ← d.fields? .toml
    match fields.find? (fun f => !names.any (·.1 == f.1)) with
    | some (name, _) => throw (.unknownField name)
    | none => return fields

def path? (d : Datum) : Decoded Path := return Path.ofString (← d.text? .toml)

/-- A field that may be absent. -/
def optional (fields : List (String × Datum)) (name : String)
    (decode : Datum → Decoded α) : Decoded (Option α) :=
  fieldOr fields name none fun d => return some (← decode d)

end Datum

namespace Config

def decodeFiles (d : Datum) : Decoded FilesConfig := do
  let fields ← d.section? [("include", true), ("include_paths", true), ("ignore", true),
    ("ignore_paths", true), ("root", false), ("no_standard_ignores", true),
    ("ignore_package_settings", true)]
  let texts := Datum.list? .toml (Datum.text? .toml)
  let paths := Datum.list? .toml Datum.path?
  return {
    includes := ← Datum.fieldOr fields "include" [] texts
    includePaths := ← Datum.fieldOr fields "include_paths" [] paths
    ignore := ← Datum.fieldOr fields "ignore" [] texts
    ignorePaths := ← Datum.fieldOr fields "ignore_paths" [] paths
    root := ← Datum.optional fields "root" Datum.path?
    noStandardIgnores := ← Datum.fieldOr fields "no_standard_ignores" false Datum.bool?
    ignorePackageSettings := ← Datum.fieldOr fields "ignore_package_settings" false Datum.bool? }

def decodeLint (d : Datum) : Decoded LintSection := do
  let fields ← d.section? [("eslint_config_path", false), ("rule_sets_path", false),
    ("eslint_bin", false), ("formatter", false)]
  return {
    eslintConfigPath := ← Datum.optional fields "eslint_config_path" Datum.path?
    ruleSetsPath := ← Datum.optional fields "rule_sets_path" Datum.path?
    eslintBin := ← Datum.optional fields "eslint_bin" Datum.path?
    formatter := ← Datum.optional fields "formatter" (Datum.text? .toml) }

def decodeFormat (d : Datum) : Decoded FormatSection := do
  let fields ← d.section? [("prettier_config_path", false), ("prettier_bin", false)]
  return {
    prettierConfigPath := ← Datum.optional fields "prettier_config_path" Datum.path?
    prettierBin := ← Datum.optional fields "prettier_bin" Datum.path? }

def decodeOutput (d : Datum) : Decoded OutputSection := do
  let fields ← d.section? [("dir", false), ("relative_stem", false)]
  return {
    dir := ← Datum.optional fields "dir" Datum.path?
    relativeStem := ← Datum.optional fields "relative_stem" Datum.path? }

def decode (d : Datum) : Decoded Config := do
  let fields ← d.section? [("files", true), ("lint", true), ("format", true), ("output", true)]
  return {
    files := ← Datum.fieldOr fields "files" {} decodeFiles
    lint := ← Datum.fieldOr fields "lint" {} decodeLint
    format := ← Datum.fieldOr fields "format" {} decodeFormat
    output := ← Datum.fieldOr fields "output" {} decodeOutput }

/-- Reads the text of a configuration file. -/
def ofText (text : String) : Except Error Config :=
  match Toml.read text with
  | .error fault => .error (Error.unreadableToml fault.message)
  | .ok datum =>
    match decode datum with
    | .error fault => .error (Error.unreadableToml fault.message)
    | .ok config => .ok config

def pathJson (p : Path) : Json := .string p.display

def optionJson (toJson : α → Json) : Option α → Json
  | some value => toJson value
  | none => .null

/-- All sections with all keys; an absent option is null. -/
def toJson (c : Config) : Json :=
  let path := optionJson pathJson
  let paths (ps : List Path) : Json := .array (ps.map pathJson)
  .object [
    ("files", .object [
      ("include", Json.strings c.files.includes),
      ("include_paths", paths c.files.includePaths),
      ("ignore", Json.strings c.files.ignore),
      ("ignore_paths", paths c.files.ignorePaths),
      ("root", path c.files.root),
      ("no_standard_ignores", .bool c.files.noStandardIgnores),
      ("ignore_package_settings", .bool c.files.ignorePackageSettings)]),
    ("lint", .object [
      ("eslint_config_path", path c.lint.eslintConfigPath),
      ("rule_sets_path", path c.lint.ruleSetsPath),
      ("eslint_bin", path c.lint.eslintBin),
      ("formatter", optionJson .string c.lint.formatter)]),
    ("format", .object [
      ("prettier_config_path", path c.format.prettierConfigPath),
      ("prettier_bin", path c.format.prettierBin)]),
    ("output", .object [
      ("dir", path c.output.dir),
      ("relative_stem", path c.output.relativeStem)])]

/-- The path as seen from `base`, unless it is absolute. -/
def rebase (base p : Path) : Path := if p.isAbsolute then p else base.join p

/-- A program named without a directory keeps being looked up on the search path. -/
def rebaseProgram (base p : Path) : Path :=
  if 1 < p.components.length then rebase base p else p

/-- The configuration with its relative paths made relative to `base`. -/
def rebased (c : Config) (base : Path) : Config where
  files := { c.files with
    includePaths := c.files.includePaths.map (rebase base)
    ignorePaths := c.files.ignorePaths.map (rebase base)
    root := c.files.root.map (rebase base) }
  lint := { c.lint with
    eslintConfigPath := c.lint.eslintConfigPath.map (rebase base)
    ruleSetsPath := c.lint.ruleSetsPath.map (rebase base)
    eslintBin := c.lint.eslintBin.map (rebaseProgram base) }
  format := {
    prettierConfigPath := c.format.prettierConfigPath.map (rebase base)
    prettierBin := c.format.prettierBin.map (rebaseProgram base) }
  output := {
    dir := c.output.dir.map (rebase base)
    relativeStem := c.output.relativeStem.map (rebase base) }

end Config

end FormatLint
