import FormatLint.Json.Basic

/-!
The options handed to the formatter.
-/

namespace FormatLint.FormatOptions

def defaults : Members := [
  ("semi", .bool false),
  ("singleQuote", .bool true),
  ("trailingComma", .string "all"),
  ("arrowParens", .string "always"),
  ("tabWidth", Json.ofNat 2),
  ("printWidth", Json.ofNat 120)]

/-- The custom options, or else the defaults; the parser is always the same. -/
def effective (custom : Option Members) : Members :=
  (custom.getD defaults).insert "parser" (.string "babel")

end FormatLint.FormatOptions
