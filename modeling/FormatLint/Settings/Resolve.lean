import FormatLint.Settings.Args
import FormatLint.Settings.Config

/-!
The settings of a run: the command line over the configuration file over the defaults.
-/

namespace FormatLint

structure Settings where
  root : Path
  files : List String
  filesPaths : List Path
  ignoreFiles : List String
  ignoreFilesPaths : List Path
  noStandardIgnores : Bool
  ignorePackageSettings : Bool
  eslintConfigPath : Option Path
  ruleSetsPath : Option Path
  prettierConfigPath : Option Path
  eslintBin : Path
  prettierBin : Path
  formatter : String
  outputDir : Option Path
  relativeStem : Path
deriving DecidableEq

namespace Settings

def defaultFormatter : String := "stylish"

/-- The program `name` of a project: the one installed in it, or else the one on the search
    path. -/
def programFor (isFile : Path → Bool) (root : Path) (name : String) : Path :=
  let installed := ((root.joinText "node_modules").joinText ".bin").joinText name
  if isFile installed then installed else Path.ofString name

/-- A list from the command line, or the one of the file when it is empty. -/
def pick (given fallback : List α) : List α := if given.isEmpty then fallback else given

/-- Merges the command line over a configuration whose paths were made absolute. Relative paths of
    the command line are relative to `cwd`. -/
def resolve (isFile : Path → Bool) (args : RunArgs) (config : Config) (cwd : Path) : Settings :=
  let given (p : Option Path) : Option Path := p.map fun p => (cwd.join p).normalize
  let root := ((given args.root).or (config.files.root.map Path.normalize)).getD cwd.normalize
  { root
    files := pick args.files config.files.includes
    filesPaths := pick (args.filesPaths.map cwd.join) config.files.includePaths
    ignoreFiles := pick args.ignoreFiles config.files.ignore
    ignoreFilesPaths := pick (args.ignoreFilesPaths.map cwd.join) config.files.ignorePaths
    noStandardIgnores := args.noStandardIgnores || config.files.noStandardIgnores
    ignorePackageSettings := args.ignorePackageSettings || config.files.ignorePackageSettings
    eslintConfigPath := (given args.eslintConfigPath).or config.lint.eslintConfigPath
    ruleSetsPath := (given args.ruleSetsPath).or config.lint.ruleSetsPath
    prettierConfigPath := (given args.prettierConfigPath).or config.format.prettierConfigPath
    eslintBin := config.lint.eslintBin.getD (programFor isFile root "eslint")
    prettierBin := config.format.prettierBin.getD (programFor isFile root "prettier")
    formatter := config.lint.formatter.getD defaultFormatter
    outputDir := (given args.outputDir).or (config.output.dir.map Path.normalize)
    relativeStem := ((given args.relativeStem).or
      (config.output.relativeStem.map Path.normalize)).getD cwd.normalize }

/-- A complete lint configuration excludes adjustments to the default one. -/
def validate (s : Settings) : Except Error Unit :=
  if s.eslintConfigPath.isSome && s.ruleSetsPath.isSome then .error Error.bothConfigurationPaths
  else .ok ()

end Settings

end FormatLint
