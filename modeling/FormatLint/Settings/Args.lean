import FormatLint.Path.Basic

/-!
The command line. Options may stand in front of no command at all, which means the main one, or
behind a command. A list option takes all words up to the next option, any other takes one word,
and options at the top exclude commands. Words are byte strings: a path need not be text, a
pattern must be.
-/

namespace FormatLint

/-- The options of every command that selects files or composes configuration. -/
structure RunArgs where
  config : Option Path := none
  files : List String := []
  filesPaths : List Path := []
  ignoreFiles : List String := []
  ignoreFilesPaths : List Path := []
  root : Option Path := none
  eslintConfigPath : Option Path := none
  ruleSetsPath : Option Path := none
  ignorePackageSettings : Bool := false
  noStandardIgnores : Bool := false
  outputDir : Option Path := none
  relativeStem : Option Path := none
  prettierConfigPath : Option Path := none
deriving DecidableEq

inductive Command where
  | formatAndLint (args : RunArgs)
  | lint (args : RunArgs)
  | showLintConfig (args : RunArgs)
  | showFormatConfig (args : RunArgs)
  | version
deriving DecidableEq

/-- Why a command line leads to no command. -/
inductive Stop where
  | help
  | version
  | unknownArgument
  | invalidSubcommand
  | invalidValue
  | argumentConflict
  | tooManyValues
deriving DecidableEq

/-- The exit status of a command line that leads to no command. -/
def Stop.exitCode : Stop → Nat
  | help | version => 0
  | _ => 2

namespace Args

def dash : UInt8 := 0x2D
def equals : UInt8 := 0x3D

/-- The options. -/
inductive Flag where
  | config
  | files
  | filesPaths
  | ignoreFiles
  | ignoreFilesPaths
  | root
  | eslintConfigPath
  | ruleSetsPath
  | ignorePackageSettings
  | noStandardIgnores
  | outputDir
  | relativeStem
  | prettierConfigPath
  | help
  | version
deriving DecidableEq

namespace Flag

/-- The options that make up `RunArgs`. -/
def run : List Flag :=
  [config, files, filesPaths, ignoreFiles, ignoreFilesPaths, root, eslintConfigPath, ruleSetsPath,
    ignorePackageSettings, noStandardIgnores, outputDir, relativeStem, prettierConfigPath]

def long : Flag → String
  | config => "config"
  | files => "files"
  | filesPaths => "files-paths"
  | ignoreFiles => "ignore-files"
  | ignoreFilesPaths => "ignore-files-paths"
  | root => "root"
  | eslintConfigPath => "eslint-config-path"
  | ruleSetsPath => "rule-sets-path"
  | ignorePackageSettings => "ignore-package-settings"
  | noStandardIgnores => "no-standard-ignores"
  | outputDir => "output-dir"
  | relativeStem => "relative-stem"
  | prettierConfigPath => "prettier-config-path"
  | help => "help"
  | version => "version"

def short? : Flag → Option UInt8
  | outputDir => some 'o'.toUInt8
  | help => some 'h'.toUInt8
  | version => some 'V'.toUInt8
  | _ => none

/-- Whether the option takes all following words. -/
def isList : Flag → Bool
  | files | filesPaths | ignoreFiles | ignoreFilesPaths => true
  | _ => false

def takesValue : Flag → Bool
  | ignorePackageSettings | noStandardIgnores | help | version => false
  | _ => true

end Flag

/-- A path that an option may have only once. -/
def onePath (present : Option Path) (values : List Bytes) : Except Stop (Option Path) :=
  if present.isSome then .error .argumentConflict
  else
    match values with
    | [value] => if value.isEmpty then .error .invalidValue else .ok (some ⟨value⟩)
    | _ => .error .invalidValue

def morePaths (present : List Path) (values : List Bytes) : Except Stop (List Path) :=
  if values.any List.isEmpty then .error .invalidValue
  else .ok (present ++ values.map Path.mk)

def morePatterns (present : List String) (values : List Bytes) : Except Stop (List String) :=
  match values.mapM Utf8.decode? with
  | some texts => .ok (present ++ texts)
  | none => .error .invalidValue

/-- An option without a value, that may stand only once. -/
def switchOn (present : Bool) : Except Stop Bool :=
  if present then .error .argumentConflict else .ok true

/-- Takes an option with its values into account. -/
def accept (args : RunArgs) (flag : Flag) (values : List Bytes) : Except Stop RunArgs :=
  if flag.takesValue && values.isEmpty then .error .invalidValue
  else
    match flag with
    | .config => do return { args with config := ← onePath args.config values }
    | .files => do return { args with files := ← morePatterns args.files values }
    | .filesPaths => do return { args with filesPaths := ← morePaths args.filesPaths values }
    | .ignoreFiles => do
      return { args with ignoreFiles := ← morePatterns args.ignoreFiles values }
    | .ignoreFilesPaths => do
      return { args with ignoreFilesPaths := ← morePaths args.ignoreFilesPaths values }
    | .root => do return { args with root := ← onePath args.root values }
    | .eslintConfigPath => do
      return { args with eslintConfigPath := ← onePath args.eslintConfigPath values }
    | .ruleSetsPath => do return { args with ruleSetsPath := ← onePath args.ruleSetsPath values }
    | .ignorePackageSettings => do
      return { args with ignorePackageSettings := ← switchOn args.ignorePackageSettings }
    | .noStandardIgnores => do
      return { args with noStandardIgnores := ← switchOn args.noStandardIgnores }
    | .outputDir => do return { args with outputDir := ← onePath args.outputDir values }
    | .relativeStem => do return { args with relativeStem := ← onePath args.relativeStem values }
    | .prettierConfigPath => do
      return { args with prettierConfigPath := ← onePath args.prettierConfigPath values }
    | .help => .error .help
    | .version => .error .version

/-- What a word at some place of the command line can be. -/
structure Scope where
  flags : List Flag
  /-- The words that name commands here. -/
  commands : List String := []

/-- The words read so far: the options taken into account, the option whose values are being
    collected, whether it takes more of them, and whether any option was met. -/
structure State where
  args : RunArgs := {}
  pending : Option (Flag × List Bytes) := none
  isOpen : Bool := false
  sawOption : Bool := false

namespace State

/-- Takes the collected option into account. -/
def settle (s : State) : Except Stop State :=
  match s.pending with
  | none => .ok s
  | some (flag, values) => do
    return { s with args := ← accept s.args flag values, pending := none, isOpen := false }

/-- An option with a value of its own, or without any. -/
def complete (s : State) (flag : Flag) (values : List Bytes) : Except Stop State := do
  let s ← s.settle
  return { s with args := ← accept s.args flag values, sawOption := true }

/-- An option whose values are the words that follow. -/
def collect (s : State) (flag : Flag) : Except Stop State := do
  let s ← s.settle
  return { s with pending := some (flag, []), isOpen := true, sawOption := true }

/-- A value of the option that is being collected. -/
def addValue (s : State) (value : Bytes) : State :=
  match s.pending with
  | some (flag, values) =>
    { s with pending := some (flag, values ++ [value]), isOpen := flag.isList }
  | none => s

end State

/-- What follows two dashes. -/
def longOption (scope : Scope) (s : State) (text : Bytes) : Except Stop State :=
  let name := text.takeWhile (· != equals)
  let attached := (text.dropWhile (· != equals)).tail?
  match scope.flags.find? (Utf8.encode ·.long == name) with
  | none => .error .unknownArgument
  | some flag =>
    match attached with
    | some value =>
      if flag.takesValue then s.complete flag [value] else .error .tooManyValues
    | none => if flag.takesValue then s.collect flag else s.complete flag []

/-- What follows one dash: options of one letter, the last one with its value. -/
def shortOptions (scope : Scope) (s : State) : Bytes → Except Stop State
  | [] => .ok s
  | letter :: rest =>
    match scope.flags.find? (·.short? == some letter) with
    | none => .error .unknownArgument
    | some flag =>
      if flag.takesValue then
        match rest with
        | [] => s.collect flag
        | first :: value =>
          if first = equals then s.complete flag [value] else s.complete flag [first :: value]
      else do
        let s ← s.complete flag []
        shortOptions scope s rest

/-- The command that a word names. -/
def Scope.command? (scope : Scope) (word : Bytes) : Option String :=
  scope.commands.find? (Utf8.encode · == word)

/-- A word that is neither option nor value. After `--` a command is a word like any other. -/
def strayWord (scope : Scope) (s : State) (afterDashes : Bool) (word : Bytes) : Stop :=
  if scope.commands.isEmpty then .unknownArgument
  else if s.sawOption then .argumentConflict
  else if afterDashes && (scope.command? word).isSome then .unknownArgument
  else .invalidSubcommand

/-- What the dashes at the front of a word make of it. -/
inductive Form where
  /-- Two dashes and nothing else. -/
  | dashes
  | long (text : Bytes)
  | short (text : Bytes)
  /-- No dash at all, or one dash alone. -/
  | plain

def Form.of : Bytes → Form
  | first :: second :: text =>
    if first ≠ dash then .plain
    else if second ≠ dash then .short (second :: text)
    else if text.isEmpty then .dashes
    else .long text
  | _ => .plain

/-- What the words come to: the options alone, or a command with the words after it. -/
inductive Outcome where
  | options (args : RunArgs)
  | command (name : String) (rest : List Bytes)

def readWords (scope : Scope) (s : State) : List Bytes → Except Stop Outcome
  | [] => do return .options (← s.settle).args
  | word :: rest =>
    match if s.isOpen || s.sawOption then none else scope.command? word with
    | some name => .ok (.command name rest)
    | none =>
      match Form.of word with
      | .dashes =>
        match rest with
        | [] => do return .options (← s.settle).args
        | stray :: _ => .error (strayWord scope s true stray)
      | .long text =>
        match longOption scope s text with
        | .error e => .error e
        | .ok s => readWords scope s rest
      | .short text =>
        match shortOptions scope s text with
        | .error e => .error e
        | .ok s => readWords scope s rest
      | .plain =>
        if s.isOpen then readWords scope (s.addValue word) rest
        else .error (strayWord scope s false word)

def commandNames : List String :=
  ["format-and-lint", "lint", "show-eslint-config", "show-prettier-config", "version", "help"]

def topScope : Scope := { flags := Flag.run ++ [.help, .version], commands := commandNames }

def commandScope : Scope := { flags := Flag.run ++ [.help] }

def bareScope : Scope := { flags := [.help] }

/-- The options after a command. -/
def readOptions (scope : Scope) (words : List Bytes) : Except Stop RunArgs := do
  match ← readWords scope {} words with
  | .options args => return args
  | .command .. => throw .unknownArgument

/-- The words after `help` name a command, if there are any. -/
def readHelp : List Bytes → Stop
  | [] => .help
  | [word] => if (topScope.command? word).isSome then .help else .invalidSubcommand
  | _ => .invalidSubcommand

/-- The command of a command line without its program name. -/
def parseWords (words : List Bytes) : Except Stop Command := do
  match ← readWords topScope {} words with
  | .options args => return .formatAndLint args
  | .command name rest =>
    if name = "format-and-lint" then return .formatAndLint (← readOptions commandScope rest)
    else if name = "lint" then return .lint (← readOptions commandScope rest)
    else if name = "show-eslint-config" then
      return .showLintConfig (← readOptions commandScope rest)
    else if name = "show-prettier-config" then
      return .showFormatConfig (← readOptions commandScope rest)
    else if name = "version" then
      let _ ← readOptions bareScope rest
      return .version
    else throw (readHelp rest)

/-- The command of a command line whose words are text. -/
def parse (words : List String) : Except Stop Command := parseWords (words.map Utf8.encode)

end Args

end FormatLint
