import FormatLint.Json.Printer
import FormatLint.Lint.Result
import FormatLint.Report.Table
import FormatLint.Error

/-!
Reports of lint results. A report covers the results that carry a message; an empty one means
success, and any other fails the run.
-/

namespace FormatLint

inductive Formatter where
  /-- For people: a table for each file and a summary. -/
  | stylish
  /-- For tools: the results as a JSON array. -/
  | json
deriving DecidableEq

namespace Report

/-- The results that carry a message. -/
def reported (results : List LintResult) : List LintResult :=
  results.filter (!·.messages.isEmpty)

/-- A count with its noun. -/
def plural (count : Nat) (noun : String) : String :=
  toString count ++ " " ++ noun ++ (if count = 1 then "" else "s")

def messageRow (m : Message) : Row :=
  [Cell.ofText (toString m.line ++ ":" ++ toString m.column), Cell.ofText m.severity.label,
    Cell.ofText m.text, Cell.ofText (m.ruleId.getD "")]

/-- An empty line, the file and the table of its messages. -/
def block (r : LintResult) : String :=
  "\n" ++ r.file.display ++ "\n" ++ String.ofList (renderTable 4 (r.messages.map messageRow))

def summary (results : List LintResult) : String :=
  let errors := (results.map LintResult.errorCount).foldl (· + ·) 0
  let warnings := (results.map LintResult.warningCount).foldl (· + ·) 0
  "\n\u2716 " ++ plural (errors + warnings) "problem" ++ " (" ++ plural errors "error" ++ ", " ++
    plural warnings "warning" ++ ")\n"

def stylish (results : List LintResult) : String :=
  let shown := reported results
  if shown.isEmpty then "" else String.join (shown.map block) ++ summary shown

/-- Nothing is written when some path is no text. -/
def json (results : List LintResult) : String :=
  let shown := reported results
  if shown.isEmpty then ""
  else
    match LintResult.listToJson? shown with
    | some value => value.compact
    | none => ""

end Report

namespace Formatter

def ofName (name : String) : Except Error Formatter :=
  if name = "stylish" then .ok stylish
  else if name = "json" then .ok json
  else .error (Error.unknownFormatter name)

def render : Formatter → List LintResult → String
  | stylish => Report.stylish
  | json => Report.json

end Formatter

/-- The exit status that a report stands for. -/
def Report.exitCode (rendered : String) : Nat := if rendered.isEmpty then 0 else 1

end FormatLint
