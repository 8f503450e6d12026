import FormatLint.FileSystem.Resolve
import FormatLint.Settings.Resolve

/-!
Finding the configuration file: the one that is named, or the nearest one upwards from the working
directory.
-/

namespace FormatLint.Config

/-- The names of configuration files; in a directory with both, the first one counts. -/
def fileNames : List String := ["fandl.toml", ".fandl.toml"]

/-- The configuration at a path, with its paths relative to its directory; `none` when there is
    nothing at the path. -/
def loadFrom (fs : FileSystem) (p : Path) : Except Error (Option Config) :=
  if !fs.exists p then .ok none
  else
    match fs.readText p with
    | .error fault => .error (Error.ofFault "read config file" p fault)
    | .ok text =>
      match ofText text with
      | .error e => .error (e.withPath p)
      | .ok config => .ok (some (config.rebased (p.parent?.getD (Path.ofString "."))))

/-- The places where a configuration is looked for, from a directory upwards. -/
def candidates (start : Path) : List Path :=
  start.ancestors.flatMap fun dir => fileNames.map dir.joinText

/-- The first configuration among some paths. -/
def firstOf (fs : FileSystem) : List Path → Except Error (Option (Path × Config))
  | [] => .ok none
  | p :: rest =>
    match loadFrom fs p with
    | .error e => .error e
    | .ok (some config) => .ok (some (p, config))
    | .ok none => firstOf fs rest

/-- The nearest configuration from a directory upwards. -/
def discover (fs : FileSystem) (start : Path) : Except Error (Option (Path × Config)) :=
  firstOf fs (candidates start)

/-- The named configuration, which must exist, or else the nearest one. -/
def load (fs : FileSystem) (named : Option Path) (cwd : Path) :
    Except Error (Option (Path × Config)) :=
  match named with
  | none => discover fs cwd
  | some p =>
    let p := cwd.join p
    match loadFrom fs p with
    | .error e => .error e
    | .ok (some config) => .ok (some (p, config))
    | .ok none => .error (Error.configFileMissing p)

end Config

/-- The valid settings of a command line, with the configuration file that applies to it. -/
def Settings.load (fs : FileSystem) (args : RunArgs) (cwd : Path) : Except Error Settings := do
  let found ← Config.load fs args.config cwd
  let config := match found with
    | some (_, config) => config
    | none => {}
  let settings := resolve fs.isFile args config cwd
  settings.validate
  return settings

end FormatLint
