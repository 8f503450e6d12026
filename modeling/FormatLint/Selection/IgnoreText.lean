import FormatLint.Text.Blank
import FormatLint.Sink

/-!
Ignore files in the gitignore dialect, as exclusion globs. A pattern with a slash before its end is
anchored at the root, any other matches at every depth, everything below a match is excluded too,
and a trailing slash restricts a pattern to directories. Negated patterns cannot be expressed by
exclusions; `NegationPolicy` says what happens to them.
-/

namespace FormatLint.Selection

inductive NegationPolicy where
  /-- The first negated pattern is a failure. -/
  | strict
  /-- Each negated pattern is dropped with a warning. -/
  | warn
deriving DecidableEq

def ignoreFileName : String := ".gitignore"

/-- The exclusion globs of one pattern line that is not negated. -/
def lineGlobs (line : List Char) : List (List Char) :=
  let directoryOnly := line.getLast? == some '/'
  let pattern := if directoryOnly then line.dropLast else line
  let anchored := pattern.contains '/'
  let body := pattern.dropWhile (· == '/')
  let base :=
    if anchored || "**/".toList.isPrefixOf body then body else "**/".toList ++ body
  let below := base ++ "/**".toList
  if directoryOnly then [below] else [base, below]

/-- What a line of an ignore file stands for. -/
inductive IgnoreLine where
  | nothing
  | negated (line : List Char)
  | pattern (line : List Char)
deriving DecidableEq

/-- Classifies a line. Trailing blanks do not count, and one leading backslash is dropped, so
    that a pattern can start with `#` or `!`. -/
def IgnoreLine.ofText (line : List Char) : IgnoreLine :=
  let line := Text.trimEnd line
  if (Text.trimStart line).isEmpty then .nothing
  else
    match line with
    | '#' :: _ => .nothing
    | '!' :: _ => .negated line
    | '\\' :: rest => .pattern rest
    | _ => .pattern line

def negationWarning (line : List Char) : String :=
  "Negated '.gitignore' pattern '" ++ String.ofList line ++ "' will be ignored."

/-- The globs of the lines in order, together with the warnings as far as they were written. -/
def ignoreGlobsFrom (policy : NegationPolicy) :
    Sink → List IgnoreLine → Except Error (List (List Char)) × Sink
  | sink, [] => (.ok [], sink)
  | sink, .nothing :: rest => ignoreGlobsFrom policy sink rest
  | sink, .negated line :: rest =>
    match policy with
    | .strict => (.error Error.negatedPattern, sink)
    | .warn =>
      match sink.write (negationWarning line) with
      | .error fault =>
        (.error (Error.ofFault "write warning" (Path.ofString ignoreFileName) fault), sink)
      | .ok written => ignoreGlobsFrom policy written rest
  | sink, .pattern line :: rest =>
    match ignoreGlobsFrom policy sink rest with
    | (.ok globs, after) => (.ok (lineGlobs line ++ globs), after)
    | (.error e, after) => (.error e, after)

/-- The exclusion globs of an ignore file's text. -/
def ignoreGlobs (policy : NegationPolicy) (sink : Sink) (text : String) :
    Except Error (List String) × Sink :=
  match ignoreGlobsFrom policy sink ((Text.lines text.toList).map IgnoreLine.ofText) with
  | (.ok globs, after) => (.ok (globs.map String.ofList), after)
  | (.error e, after) => (.error e, after)

end FormatLint.Selection
