import FormatLint.Json.Printer
import FormatLint.Rules.Entry

/-!
The configuration as a JavaScript module. Data is written as literals, module references as
lookups on imports, and presets as spreads, so that the module evaluates to the entries.
-/

namespace FormatLint.ConfigModule

def header : String := "// Generated by fandl. Do not edit.\n"

/-- A helper that copies a set of rules without some of them. -/
def omitHelper : String :=
  "const omit = (rules, ids) => \x7b\n  const copy = \x7b ...rules \x7d\n" ++
  "  for (const id of ids) delete copy[id]\n  return copy\n\x7d\n"

/-- The packages imported so far; the position of a package is the number of its binding. -/
abbrev Imports := List String

/-- The expression of a reference, and the imports with its package among them. -/
def expression (imports : Imports) (r : ModuleRef) : String × Imports :=
  let (index, imports) :=
    match imports.findIdx? (· == r.package) with
    | some i => (i, imports)
    | none => (imports.length, imports ++ [r.package])
  ("m" ++ toString index ++
    String.join (r.member.map fun m => "[" ++ Json.quoted m ++ "]"), imports)

/-- The expressions of several references, in order. -/
def expressions (imports : Imports) : List ModuleRef → List String × Imports
  | [] => ([], imports)
  | r :: rest =>
    let (text, imports) := expression imports r
    let (texts, imports) := expressions imports rest
    (text :: texts, imports)

def braces (parts : List String) : String :=
  "\x7b " ++ String.intercalate ", " parts ++ " \x7d"

def spread (text : String) : String := "..." ++ text

def members (value : Members) : String := (Json.object value).compact

def renderPlugins (imports : Imports) (plugins : List (String × ModuleRef)) :
    List String × Imports :=
  if plugins.isEmpty then ([], imports)
  else
    let (texts, imports) := expressions imports (plugins.map (·.2))
    let bindings := List.zipWith (fun (k, _) text => Json.quoted k ++ ": " ++ text) plugins texts
    (["plugins: " ++ braces bindings], imports)

def renderLanguageOptions (imports : Imports) (options : Option LanguageOptions) :
    List String × Imports :=
  match options with
  | none => ([], imports)
  | some options =>
    let (texts, imports) := expressions imports options.globalPresets
    let plain := { options with globalPresets := [], globals := [] }
    let globals := braces (texts.map spread ++ [spread (members options.globals)])
    (["languageOptions: " ++ braces [spread (members plain.members), "globals: " ++ globals]],
      imports)

/-- Whether the rules of an entry need presets or omissions, and so an expression of their own. -/
def hasRuleExpression (e : Entry) : Bool := !(e.rulePresets.isEmpty && e.omitRules.isEmpty)

def renderRules (imports : Imports) (e : Entry) : List String × Imports :=
  if hasRuleExpression e then
    let (texts, imports) := expressions imports e.rulePresets
    let kept := "omit(" ++ braces (texts.map spread) ++ ", " ++
      (Json.strings e.omitRules).compact ++ ")"
    (["rules: " ++ braces [spread kept, spread (members e.rules)]], imports)
  else ([], imports)

/-- What an entry holds besides references: the literal that the rest is laid over. -/
def plainPart (e : Entry) : Entry :=
  { e with
    plugins := [], rulePresets := [], omitRules := [], languageOptions := none
    rules := if hasRuleExpression e then [] else e.rules }

def renderEntry (imports : Imports) (e : Entry) : String × Imports :=
  let (plugins, imports) := renderPlugins imports e.plugins
  let (options, imports) := renderLanguageOptions imports e.languageOptions
  let (rules, imports) := renderRules imports e
  (braces (spread (members (plainPart e).members) :: plugins ++ options ++ rules), imports)

def renderEntries (imports : Imports) : List Entry → List String × Imports
  | [] => ([], imports)
  | e :: rest =>
    let (text, imports) := renderEntry imports e
    let (texts, imports) := renderEntries imports rest
    (text :: texts, imports)

def importLine (index : Nat) (package : String) : String :=
  "import m" ++ toString index ++ " from " ++ Json.quoted package ++ "\n"

/-- The module whose default export is the list of the entries. -/
def render (entries : List Entry) : String :=
  let (texts, imports) := renderEntries [] entries
  header ++ String.join (imports.mapIdx importLine) ++ "\n" ++ omitHelper ++
    "\nexport default [\n" ++
    String.join (texts.map fun text => "  " ++ text ++ ",\n") ++ "]\n"

end FormatLint.ConfigModule
