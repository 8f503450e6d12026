import FormatLint.Path.Basic

/-!
What can go wrong in a run. Every failure is one of six kinds; `Error.message` holds the wording
of the kinds, and the constructors below it the wording of each single failure.
-/

namespace FormatLint

/-- Why an operation on the file system or on a stream was refused. -/
inductive SystemFault where
  | notFound
  | permissionDenied
  | alreadyExists
  | notDirectory
  | isDirectory
  | nameTooLong
  | notEmpty
  | linkLoop
  | badExecutable
  | notUtf8
  | emptyPath
  | nulInPath
  /-- A stream's own words. -/
  | stream (reason : String)
deriving DecidableEq

namespace SystemFault

def message : SystemFault → String
  | notFound => "No such file or directory (os error 2)"
  | badExecutable => "Exec format error (os error 8)"
  | permissionDenied => "Permission denied (os error 13)"
  | alreadyExists => "File exists (os error 17)"
  | notDirectory => "Not a directory (os error 20)"
  | isDirectory => "Is a directory (os error 21)"
  | nameTooLong => "File name too long (os error 36)"
  | notEmpty => "Directory not empty (os error 39)"
  | linkLoop => "Too many levels of symbolic links (os error 40)"
  | notUtf8 => "stream did not contain valid UTF-8"
  | emptyPath => "cannot make an empty path absolute"
  | nulInPath => "file name contained an unexpected NUL byte"
  | stream reason => reason

end SystemFault

/-- A failed run. `caused` records that another program's or reader's report lies behind it. -/
inductive Error where
  /-- Options that contradict each other or mean nothing. -/
  | argumentInvalid (message : String) (hint : Option String)
  | argumentMissing (argument message : String)
  /-- Configuration that cannot be represented. -/
  | configurationConflict (message : String) (hint : Option String)
  | io (operation : String) (path : Option Path) (fault : Option SystemFault)
  /-- A configuration or manifest file that cannot be used. -/
  | config (message : String) (path : Option Path) (caused : Bool)
  /-- A formatter, linter or evaluator that failed. -/
  | engine (engine message : String) (caused : Bool)
deriving DecidableEq

namespace Error

def message : Error → String
  | argumentInvalid text _ => text
  | argumentMissing argument text => s!"Missing argument '{argument}': {text}"
  | configurationConflict text _ => text
  | io operation path fault =>
    let place := match path with
      | some p => s!"IO error during '{operation}' at '" ++ p.display ++ "'"
      | none => s!"IO error during '{operation}'"
    match fault with
    | some f => place ++ ": " ++ f.message
    | none => place
  | config text (some p) _ => "Configuration error in '" ++ p.display ++ "': " ++ text
  | config text none _ => s!"Configuration error: {text}"
  | engine name text _ => s!"Engine '{name}' failed: {text}"

/-- What the user can do about it, if the failure says so. -/
def hint : Error → Option String
  | argumentInvalid _ h => h
  | configurationConflict _ h => h
  | _ => none

/-- Whether the text `part` occurs in the text `whole`. -/
def occurs (part whole : List Char) : Bool :=
  match whole with
  | [] => part.isEmpty
  | _ :: rest => part.isPrefixOf whole || occurs part rest

def suggestions : Error → List String
  | argumentInvalid _ h => h.toList ++ ["Review the command-line arguments"]
  | argumentMissing argument _ =>
    [s!"Provide a value for '{argument}'",
      "Check that the selection patterns match at least one file"]
  | configurationConflict _ h => h.toList
  | io operation _ _ =>
    ["Check that the path exists and is accessible", "Verify you have the necessary permissions"]
      ++ if occurs "write".toList operation.toList
        then ["Ensure the output directory is writable"] else []
  | config .. =>
    ["Check the configuration file syntax",
      "Ensure the file extension matches its format (.json, .yaml, .toml)"]
  | engine name _ _ =>
    [s!"Ensure '{name}' is installed in the project's node_modules",
      "Run the engine directly to see its full output"]

/-- Whether another report lies behind the failure. -/
def hasCause : Error → Bool
  | io _ _ fault => fault.isSome
  | config _ _ caused => caused
  | engine _ _ caused => caused
  | _ => false

/-- Names the file of a failure that does not name one yet. -/
def withPath (e : Error) (p : Path) : Error :=
  match e with
  | io operation none fault => io operation (some p) fault
  | config text none caused => config text (some p) caused
  | other => other

/-- A fault of the file system met while doing `operation` on `p`. -/
def ofFault (operation : String) (p : Path) (fault : SystemFault) : Error :=
  io operation (some p) (some fault)

/-- A fault outside any named operation. -/
def ofBareFault (fault : SystemFault) : Error := io "file operation" none (some fault)

def unreadableJson (detail : String) : Error :=
  config ("Failed to parse/serialize JSON: " ++ detail) none true

def unreadableYaml (detail : String) : Error :=
  config ("Failed to parse YAML: " ++ detail) none true

def unreadableToml (detail : String) : Error :=
  config ("Failed to parse TOML: " ++ detail) none true

def noDefaultExport (p : Path) : Error := config "Module has no default export" (some p) false

def bothConfigurations : Error :=
  argumentInvalid "You cannot define 'eslintConfig' and 'ruleSets' simultaneously." none

def bothConfigurationPaths : Error :=
  argumentInvalid
    ("Specifying both '--eslint-config-path' and '--rule-sets-path' is invalid. " ++
      "Please specify one or the other.") none

def layerNotDisabled (layer : String) : Error :=
  argumentInvalid s!"Rule set '{layer}' cannot be disabled."
    (some s!"Override '{layer}' with a replacement entry instead.")

def referenceWithoutPackage (reference : String) : Error :=
  argumentInvalid s!"Module reference '{reference}' does not name a package." none

def referenceWithEmptyMember (reference : String) : Error :=
  argumentInvalid s!"Module reference '{reference}' has an empty member segment." none

def unknownFormatter (name : String) : Error :=
  argumentInvalid s!"Unknown report formatter '{name}'." (some "Use 'stylish' or 'json'.")

def configFileMissing (p : Path) : Error :=
  argumentInvalid ("Config file '" ++ p.display ++ "' does not exist.") none

def noLayout : Error :=
  argumentInvalid
    "Did not find root index nor 'src' directory to indicate default matching pattern."
    (some "Specify '--files' or '--files-paths'.")

def notBelowStem (file stem : Path) : Error :=
  argumentInvalid
    ("Resolved input file path '" ++ file.display ++
      "' does not start with effective source stem '" ++ stem.display ++ "'.")
    (some ("Check input file paths/selection patterns and set or harmonize " ++
      "'--relative-stem' option if necessary."))

def badPattern (glob reason : String) : Error :=
  argumentInvalid s!"Invalid file pattern '{glob}': error parsing glob '{glob}': {reason}" none

def noFiles : Error :=
  argumentMissing "files" "No files were given or selected for processing."

def negatedPattern : Error :=
  configurationConflict "'.gitignore' contains un-usable negative ignore pattern."
    (some "Rewrite the '.gitignore' patterns to factor out the negative patterns.")

end Error

end FormatLint
