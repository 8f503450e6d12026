import FormatLint.Batch.File
import FormatLint.Engine.FormatProgram
import FormatLint.Engine.Linter
import FormatLint.Text.Replace

/-!
Engines that need no program: a formatter that replaces texts, and a linter that reports where
texts occur. Both are functions of the text alone.
-/

namespace FormatLint.Engine

/-- Texts with what each is replaced by, one after the other. -/
abbrev Replacements := List (String × String)

def Replacements.apply (r : Replacements) (text : String) : String :=
  r.foldl (fun text (part, replacement) => Text.replaceAll part replacement text) text

/-- A part that makes an engine fail, and what it says then. -/
structure Refusal where
  part : String
  reason : String

/-- Fails in the name of an engine when a text holds the part of a refusal. -/
def refuse (engine : String) (refusal : Option Refusal) (text : String) : Except Error Unit :=
  match refusal with
  | some r => if Text.occursIn r.part text then .error (.engine engine r.reason false) else .ok ()
  | none => .ok ()

structure ReplacingFormatter where
  replacements : Replacements := []
  refusal : Option Refusal := none

def ReplacingFormatter.format (f : ReplacingFormatter) (text : String) : Except Error String := do
  refuse FormatProgram.engineName f.refusal text
  return f.replacements.apply text

/-- A text that is reported wherever it occurs. -/
structure FindRule where
  find : String
  message : Message

/-- The messages of a rule. -/
def FindRule.messages (r : FindRule) (text : String) : List Message :=
  (Text.positionsOf r.find text).map fun p =>
    { r.message with line := p.line, column := p.column }

structure FindingLinter where
  rules : List FindRule := []
  fixes : Replacements := []
  /-- Whether a text that no fix changes is output as well. -/
  alwaysOutput : Bool := false
  refusal : Option Refusal := none

/-- The file that results name, whatever file was linted. -/
def reportedFile : Path := Path.ofString "/engine/reported.js"

def FindingLinter.lint (l : FindingLinter) (text : String) : Except Error LintResult := do
  refuse Linter.engineName l.refusal text
  let fixed := l.fixes.apply text
  return {
    file := reportedFile
    messages := l.rules.flatMap (·.messages text)
    output := if fixed ≠ text ∨ l.alwaysOutput then some fixed else none }

/-- The two as the engines of a batch. -/
def inProcess (f : ReplacingFormatter) (l : FindingLinter) : Batch.Engines where
  format text _ := Action.ofExcept (f.format text)
  lint text _ := Action.ofExcept (l.lint text)

end FormatLint.Engine
