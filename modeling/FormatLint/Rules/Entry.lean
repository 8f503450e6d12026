import FormatLint.Json.Basic
import FormatLint.Data.Decode
import FormatLint.Rules.ModuleRef

/-!
Entries of a lint configuration. An entry has known fields and passes every other key through as
it was given; decoding and encoding are inverse on what decoding produces.
-/

namespace FormatLint

/-- Parser settings of an entry. -/
structure LanguageOptions where
  sourceType : Option String := none
  ecmaVersion : Option Json := none
  /-- Sets of globals that `globals` is laid over. -/
  globalPresets : List ModuleRef := []
  globals : Members := []
  parserOptions : Option Json := none
  extra : Members := []

structure Entry where
  name : Option String := none
  files : Option (List String) := none
  ignores : Option (List String) := none
  /-- Plugin modules by namespace, in the order of the namespaces. -/
  plugins : List (String × ModuleRef) := []
  languageOptions : Option LanguageOptions := none
  settings : Members := []
  /-- Rule sets that `rules` is laid over, in order. -/
  rulePresets : List ModuleRef := []
  /-- Rules taken out of the presets. -/
  omitRules : List String := []
  rules : Members := []
  extra : Members := []

namespace ModuleRef

def decode (v : View) (d : Datum) : Decoded ModuleRef := do
  match parse (← d.text? v) with
  | .ok r => return r
  | .error e => throw (.refused e.message)

/-- Inserts into a list ordered by name; a name that is there takes the new value. -/
def insertSorted (name : String) (value : α) : List (String × α) → List (String × α)
  | [] => [(name, value)]
  | (k, v) :: rest =>
    if name = k then (k, value) :: rest
    else if name < k then (name, value) :: (k, v) :: rest
    else (k, v) :: insertSorted name value rest

def decodeMap (v : View) (d : Datum) : Decoded (List (String × ModuleRef)) := do
  (← d.fields? v).foldlM (fun acc (k, value) => return insertSorted k (← decode v value) acc) []

def toJson (r : ModuleRef) : Json := .string r.display

end ModuleRef

/-- A member that is left out when there is nothing to write. -/
def optionMember (key : String) (value : Option Json) : Members :=
  match value with
  | some json => [(key, json)]
  | none => []

def objectMember (key : String) (members : Members) : Members :=
  if members.isEmpty then [] else [(key, .object members)]

def listMember (key : String) (items : List Json) : Members :=
  if items.isEmpty then [] else [(key, .array items)]

namespace Datum

/-- The fields that are not in `known`, as members. Their values were held back. -/
def passThrough (fields : List (String × Datum)) (known : List String) : Decoded Members :=
  (fields.filter (fun f => !known.contains f.1)).foldlM
    (fun acc (k, value) => return acc.insert k (← value.json? .held)) []

end Datum

namespace LanguageOptions

def knownFields : List String :=
  ["sourceType", "ecmaVersion", "globalPresets", "globals", "parserOptions"]

def decode (v : View) (d : Datum) : Decoded LanguageOptions := do
  let fields ← d.fields? v
  return {
    sourceType := ← Datum.fieldOr fields "sourceType" none (Datum.option? (Datum.text? v))
    ecmaVersion := ← Datum.fieldOr fields "ecmaVersion" none (Datum.option? (Datum.json? v))
    globalPresets := ← Datum.fieldOr fields "globalPresets" []
      (Datum.list? v (ModuleRef.decode v))
    globals := ← Datum.fieldOr fields "globals" [] (Datum.members? v)
    parserOptions := ← Datum.fieldOr fields "parserOptions" none (Datum.option? (Datum.json? v))
    extra := ← Datum.passThrough fields knownFields }

def members (o : LanguageOptions) : Members :=
  optionMember "sourceType" (o.sourceType.map .string)
    ++ optionMember "ecmaVersion" o.ecmaVersion
    ++ listMember "globalPresets" (o.globalPresets.map ModuleRef.toJson)
    ++ objectMember "globals" o.globals
    ++ optionMember "parserOptions" o.parserOptions
    ++ o.extra

def toJson (o : LanguageOptions) : Json := .object o.members

end LanguageOptions

namespace Entry

def knownFields : List String :=
  ["name", "files", "ignores", "plugins", "languageOptions", "settings", "rulePresets",
    "omitRules", "rules"]

def decode (v : View) (d : Datum) : Decoded Entry := do
  let fields ← d.fields? v
  let texts := Datum.list? v (Datum.text? v)
  return {
    name := ← Datum.fieldOr fields "name" none (Datum.option? (Datum.text? v))
    files := ← Datum.fieldOr fields "files" none (Datum.option? texts)
    ignores := ← Datum.fieldOr fields "ignores" none (Datum.option? texts)
    plugins := ← Datum.fieldOr fields "plugins" [] (ModuleRef.decodeMap v)
    languageOptions := ← Datum.fieldOr fields "languageOptions" none
      (Datum.option? (LanguageOptions.decode v))
    settings := ← Datum.fieldOr fields "settings" [] (Datum.members? v)
    rulePresets := ← Datum.fieldOr fields "rulePresets" [] (Datum.list? v (ModuleRef.decode v))
    omitRules := ← Datum.fieldOr fields "omitRules" [] texts
    rules := ← Datum.fieldOr fields "rules" [] (Datum.members? v)
    extra := ← Datum.passThrough fields knownFields }

def decodeList (v : View) (d : Datum) : Decoded (List Entry) := d.list? v (decode v)

def members (e : Entry) : Members :=
  optionMember "name" (e.name.map .string)
    ++ optionMember "files" (e.files.map Json.strings)
    ++ optionMember "ignores" (e.ignores.map Json.strings)
    ++ objectMember "plugins" (e.plugins.map fun (k, r) => (k, r.toJson))
    ++ optionMember "languageOptions" (e.languageOptions.map LanguageOptions.toJson)
    ++ objectMember "settings" e.settings
    ++ listMember "rulePresets" (e.rulePresets.map ModuleRef.toJson)
    ++ listMember "omitRules" (e.omitRules.map .string)
    ++ objectMember "rules" e.rules
    ++ e.extra

def toJson (e : Entry) : Json := .object e.members

/-- Takes a rule out of the entry, whether a preset or the entry itself brings it. -/
def omitRule (e : Entry) (rule : String) : Entry :=
  { e with
    rules := e.rules.erase rule
    omitRules := if e.omitRules.contains rule then e.omitRules else e.omitRules ++ [rule] }

end Entry

end FormatLint
