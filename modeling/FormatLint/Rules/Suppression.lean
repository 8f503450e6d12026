import FormatLint.Rules.Defaults

/-!
Conflicts between layers. When the winning layer is part of a composition, the loser's default
entry drops some rules and sets others. Entries that a user supplied are never edited.
-/

namespace FormatLint

/-- A layer's entry on its way through composition. -/
structure ComposedLayer where
  layer : Layer
  entry : Entry
  /-- `false` when the entry came from the user. -/
  isDefault : Bool

/-- One known conflict. -/
structure Suppression where
  winner : Layer
  loser : Layer
  omitted : List String
  replaced : Members

namespace Suppression

/-- The conflicts, in the order in which they are settled. -/
def table : List Suppression := [
  { winner := .stylistic
    loser := .standardJs
    omitted := ["block-spacing", "eol-last", "no-trailing-spaces"]
    replaced := [] },
  { winner := .style
    loser := .standardJs
    omitted := ["brace-style", "comma-dangle", "key-spacing", "operator-linebreak",
      "space-before-function-paren"]
    -- React must be imported for JSX even when nothing refers to it
    replaced := [("no-unused-vars",
      Layer.errorWith [.object [("varsIgnorePattern", .string "React")]])] }]

/-- The loser's entry after the conflict is settled. -/
def edit (row : Suppression) (e : Entry) : Entry :=
  let trimmed := row.omitted.foldl Entry.omitRule e
  { trimmed with rules := trimmed.rules.insertAll row.replaced }

/-- Edits the first default entry of the losing layer. -/
def editFirst (row : Suppression) : List ComposedLayer → List ComposedLayer
  | [] => []
  | c :: rest =>
    if c.layer = row.loser ∧ c.isDefault then { c with entry := row.edit c.entry } :: rest
    else c :: editFirst row rest

def applyRow (layers : List ComposedLayer) (row : Suppression) : List ComposedLayer :=
  if layers.any (·.layer == row.winner) then row.editFirst layers else layers

/-- Settles every conflict of the table. -/
def apply (layers : List ComposedLayer) : List ComposedLayer := table.foldl applyRow layers

end Suppression

end FormatLint
