import FormatLint.Text.Blank

/-!
Pattern files hold one glob per line. Blank lines and comment lines are skipped, everything else
is trimmed and kept in order.
-/

namespace FormatLint.Selection

def isBreak (c : Char) : Bool := c == '\n' || c == '\r'

def isPattern (line : List Char) : Bool :=
  match line with
  | [] => false
  | c :: _ => c != '#'

/-- The patterns of a pattern file; any of the three line endings may be used. -/
def extractPatterns (text : String) : List String :=
  (((Text.splitOn isBreak text.toList).map Text.trim).filter isPattern).map String.ofList

/-- The extensions of source files. -/
def scriptExtensions : List String := [".js", ".cjs", ".mjs"]
def jsxExtensions : List String := [".jsx"]
def sourceExtensions : List String := scriptExtensions ++ jsxExtensions

/-- A brace group that stands for any one of the extensions. -/
def extensionGroup (extensions : List String) : String :=
  "\x7b" ++ String.intercalate "," extensions ++ "\x7d"

end FormatLint.Selection
