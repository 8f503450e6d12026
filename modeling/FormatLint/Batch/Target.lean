import FormatLint.Path.Normal
import FormatLint.Error

/-!
Where the text of a file goes, and which text it is.
-/

namespace FormatLint.Batch

/-- The final text of a file: the linter's fix, else the formatted text when it differs from what
    was there, else nothing. -/
def reconcile (source formatted : String) (fixed : Option String) : Option String :=
  match fixed with
  | some text => some text
  | none => if formatted = source then none else some formatted

/-- The place of `file` under `output`: what is left of it after `stem`. All three paths are
    normalized first, so that a file has no place when a `..` leads it out of the stem. It can have
    one outside `output` only when the stem is a run of `..` and the file a longer one. -/
def reroot (file stem output : Path) : Except Error Path :=
  match file.below? stem with
  | some rest => .ok (output.normalize.join rest)
  | none => .error (Error.notBelowStem file.normalize stem.normalize)

end FormatLint.Batch
