import FormatLint.Path.Basic
import FormatLint.Data.Decode

/-!
What a linter reports about a file, and its JSON form.
-/

namespace FormatLint

inductive Severity where
  | warning
  | error
deriving DecidableEq

namespace Severity

def label : Severity → String
  | warning => "warning"
  | error => "error"

def code : Severity → Nat
  | warning => 1
  | error => 2

def ofCode? : Nat → Option Severity
  | 1 => some warning
  | 2 => some error
  | _ => none

end Severity

/-- One diagnostic. -/
structure Message where
  /-- Absent for parse errors and read failures. -/
  ruleId : Option String
  severity : Severity
  text : String
  /-- Counted from one; zero when unknown. -/
  line : Nat := 0
  column : Nat := 0
  /-- The file could not be linted. -/
  fatal : Bool := false
deriving DecidableEq

/-- The outcome for one file. -/
structure LintResult where
  file : Path
  messages : List Message := []
  /-- The final text, when it differs from what was there. -/
  output : Option String := none
deriving DecidableEq

namespace Datum

/-- The fields of a record in JSON: an object with other keys besides, or a list of the fields in
    their order. `names` gives the order, and whether a list may stop before the field. -/
def record? (names : List (String × Bool)) (d : Datum) : Decoded (List (String × Datum)) :=
  match d with
  | .list items =>
    if names.length < items.length then .error (.expected "fewer elements")
    else if (names.drop items.length).all (·.2) then
      .ok (List.zipWith (fun (name, _) item => (name, item)) names items)
    else .error (.expected "more elements")
  | d => d.fields? .json

def required (fields : List (String × Datum)) (name : String)
    (decode : Datum → Decoded α) : Decoded α := do
  match ← field? fields name with
  | some value => decode value
  | none => throw (.missingField name)

end Datum

namespace Message

/-- A failure of the file as a whole. -/
def failure (text : String) : Message :=
  { ruleId := none, severity := .error, text, fatal := true }

def decodeSeverity (d : Datum) : Decoded Severity := do
  match Severity.ofCode? (← d.natBelow? 256) with
  | some s => return s
  | none => throw (.refused "unknown severity")

def decode (d : Datum) : Decoded Message := do
  let fields ← d.record? [("ruleId", true), ("severity", false), ("message", false),
    ("line", true), ("column", true), ("fatal", true)]
  return {
    ruleId := ← Datum.fieldOr fields "ruleId" none (Datum.option? (Datum.text? .json))
    severity := ← Datum.required fields "severity" decodeSeverity
    text := ← Datum.required fields "message" (Datum.text? .json)
    line := ← Datum.fieldOr fields "line" 0 (Datum.natBelow? (Nat.pow 2 32))
    column := ← Datum.fieldOr fields "column" 0 (Datum.natBelow? (Nat.pow 2 32))
    fatal := ← Datum.fieldOr fields "fatal" false Datum.bool? }

def toJson (m : Message) : Json :=
  .object ([
    ("ruleId", match m.ruleId with
      | some rule => .string rule
      | none => .null),
    ("severity", Json.ofNat m.severity.code),
    ("message", .string m.text),
    ("line", Json.ofNat m.line),
    ("column", Json.ofNat m.column)]
    ++ if m.fatal then [("fatal", .bool true)] else [])

end Message

namespace LintResult

def decode (d : Datum) : Decoded LintResult := do
  let fields ← d.record? [("filePath", false), ("messages", true), ("output", true)]
  return {
    file := Path.ofString (← Datum.required fields "filePath" (Datum.text? .json))
    messages := ← Datum.fieldOr fields "messages" [] (Datum.list? .json Message.decode)
    output := ← Datum.fieldOr fields "output" none (Datum.option? (Datum.text? .json)) }

def decodeList (d : Datum) : Decoded (List LintResult) := d.list? .json decode

/-- The JSON form; `none` when the file's path is no text. -/
def toJson? (r : LintResult) : Option Json :=
  match r.file.text? with
  | none => none
  | some file => some (.object (
      [("filePath", .string file), ("messages", .array (r.messages.map Message.toJson))]
      ++ match r.output with
        | some text => [("output", .string text)]
        | none => []))

def listToJson? (results : List LintResult) : Option Json :=
  (results.mapM toJson?).map .array

def count (severity : Severity) (r : LintResult) : Nat :=
  r.messages.countP (·.severity == severity)

def errorCount (r : LintResult) : Nat := r.count .error

def warningCount (r : LintResult) : Nat := r.count .warning

end LintResult

end FormatLint
