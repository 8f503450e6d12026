import FormatLint.Json.Basic

/-!
What a data file holds, before anything is known about the type that is wanted. All three data
formats are read into this tree, and decoding goes on from there.
-/

namespace FormatLint

/-- A scalar with the type that its format gives it. -/
inductive Scalar where
  | null
  | bool (value : Bool)
  | integer (value : Int)
  | double (value : Binary64)
  | text (value : String)
  /-- Well-formed, but with no value that could be used: a number out of range, half of a
      surrogate pair, an unknown tag. It is harmless only where nobody looks at it. -/
  | unusable
deriving DecidableEq

/-- A scalar together with its spelling, where the format lets the spelling stand for a text. -/
structure Word where
  written : Option String := none
  value : Scalar
deriving DecidableEq

inductive Datum where
  | scalar (word : Word)
  | list (items : List Datum)
  /-- Entries in order; keys may repeat. -/
  | map (entries : List (Word × Datum))
  /-- A datum that names a variant of its own. -/
  | tagged (tag : String) (inner : Datum)

namespace Datum

def ofScalar (value : Scalar) : Datum := .scalar { value }

def null : Datum := ofScalar .null

def text (s : String) : Datum := ofScalar (.text s)

def unusable : Datum := ofScalar .unusable

end Datum

end FormatLint
