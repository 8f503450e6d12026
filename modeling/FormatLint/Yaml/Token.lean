import FormatLint.Yaml.Cursor

/-!
The tokens of a YAML text, and the scalars among them.
-/

namespace FormatLint.Yaml

inductive Style where
  | plain
  | quoted
  | block
deriving DecidableEq

inductive Token where
  | version (major minor : Nat)
  | tagDirective (handle start : String)
  | documentStart
  | documentEnd
  | blockSequenceStart
  | blockMappingStart
  | blockEnd
  | flowSequenceStart
  | flowSequenceEnd
  | flowMappingStart
  | flowMappingEnd
  | blockEntry
  | flowEntry
  | key
  | value
  | alias (name : String)
  | anchor (name : String)
  | tag (handle suffix : String)
  | scalar (text : String) (style : Style)
deriving DecidableEq

inductive Fault where
  | character
  | expectedColon
  | notAllowedHere (what : String)
  | tab
  | unexpectedEnd
  | badEscape
  | badDirective
  | badTag
  | badAnchor
  | badBlockHeader
  | unexpectedColon
  | documentMarker
  | unexpectedToken
  | unknownAnchor
  | unknownHandle
  | severalDocuments
  | tooDeep
deriving DecidableEq

def Fault.message : Fault → String
  | character => "control characters are not allowed"
  | expectedColon => "could not find expected ':'"
  | notAllowedHere what => s!"{what} are not allowed in this context"
  | tab => "found a tab character that violates indentation"
  | unexpectedEnd => "found unexpected end of stream"
  | badEscape => "found unknown escape character"
  | badDirective => "found invalid directive"
  | badTag => "found invalid tag"
  | badAnchor => "did not find expected alphabetic or numeric character"
  | badBlockHeader => "did not find expected comment or line break"
  | unexpectedColon => "found unexpected ':'"
  | documentMarker => "found unexpected document indicator"
  | unexpectedToken => "did not find expected node content"
  | unknownAnchor => "unknown anchor"
  | unknownHandle => "found undefined tag handle"
  | severalDocuments => "deserializing from YAML containing more than one document is not supported"
  | tooDeep => "recursion limit exceeded"

/-- The text of a scalar while it is read. Blanks inside a line wait until something follows them,
    and line breaks are folded: a single one to a blank, more of them to one less. All texts are
    kept last character first. -/
structure Folding where
  text : List Char := []
  blanks : List Char := []
  firstBreak : List Char := []
  moreBreaks : List Char := []
  /-- A line break was met since the last character. -/
  broken : Bool := false

namespace Folding

def addBlank (f : Folding) (c : Char) : Folding :=
  if f.broken then f else { f with blanks := c :: f.blanks }

def addBreak (f : Folding) (lineBreak : List Char) : Folding :=
  if f.broken then { f with moreBreaks := lineBreak ++ f.moreBreaks }
  else { f with blanks := [], firstBreak := lineBreak, broken := true }

/-- Settles what waits. -/
def settle (f : Folding) : Folding :=
  let joined :=
    if f.broken then
      if f.firstBreak == ['\n'] then
        (if f.moreBreaks.isEmpty then [' '] else f.moreBreaks)
      else f.moreBreaks ++ f.firstBreak
    else f.blanks
  { text := joined ++ f.text }

def push (f : Folding) (c : Char) : Folding := { f with text := c :: f.text }

def result (f : Folding) : String := String.ofList f.text.reverse

end Folding

/-- Goes over blanks and line breaks inside a quoted scalar. -/
def skipGap (cur : Cursor) (f : Folding) : Nat → Cursor × Folding
  | 0 => (cur, f)
  | fuel + 1 =>
    match cur.rest with
    | [] => (cur, f)
    | c :: _ =>
      if isBlank c then skipGap cur.skip (f.addBlank c) fuel
      else if isBreak c then skipGap cur.skipLine (f.addBreak cur.lineBreak) fuel
      else (cur, f)

def hexValue (c : Char) : Option Nat :=
  if c.isDigit then some (c.toNat - 48)
  else if 'a' ≤ c && c ≤ 'f' then some (c.toNat - 87)
  else if 'A' ≤ c && c ≤ 'F' then some (c.toNat - 55)
  else none

/-- The character of `count` hexadecimal digits. -/
def hexChar (count : Nat) (cs : List Char) : Option Char := do
  let digits ← (cs.take count).mapM hexValue
  if digits.length < count then none
  else
    let n := digits.foldl (fun acc d => acc * 16 + d) 0
    if (0xD800 ≤ n && n ≤ 0xDFFF) || 0x10FFFF < n then none else some (Char.ofNat n)

/-- The character of a one-letter escape. -/
def shortEscape (c : Char) : Option Char :=
  match c with
  | '0' => some '\x00'
  | 'a' => some '\x07'
  | 'b' => some '\x08'
  | 't' => some '\t'
  | '\t' => some '\t'
  | 'n' => some '\n'
  | 'v' => some '\x0B'
  | 'f' => some '\x0C'
  | 'r' => some '\r'
  | 'e' => some '\x1B'
  | ' ' => some ' '
  | '"' => some '"'
  | '/' => some '/'
  | '\\' => some '\\'
  | 'N' => some '\u0085'
  | '_' => some '\u00A0'
  | 'L' => some '\u2028'
  | 'P' => some '\u2029'
  | _ => none

/-- The characters after a backslash and the place behind them. -/
def readEscape (cur : Cursor) : Except Fault (Char × Cursor) :=
  match cur.rest with
  | [] => .error .unexpectedEnd
  | c :: rest =>
    let hex (count : Nat) : Except Fault (Char × Cursor) :=
      match hexChar count rest with
      | some x => .ok (x, cur.skipN (count + 1))
      | none => .error .badEscape
    match c with
    | 'x' => hex 2
    | 'u' => hex 4
    | 'U' => hex 8
    | c =>
      match shortEscape c with
      | some x => .ok (x, cur.skip)
      | none => .error .badEscape

/-- The rest of a quoted scalar, from after its opening quote. -/
def readQuoted (single : Bool) (cur : Cursor) (f : Folding) :
    Nat → Except Fault (String × Cursor)
  | 0 => .error .unexpectedEnd
  | fuel + 1 =>
    if cur.atDocumentMarker then .error .documentMarker
    else
      match cur.rest with
      | [] => .error .unexpectedEnd
      | c :: rest =>
        if isBlank c || isBreak c then
          let (cur, f) := skipGap cur f cur.rest.length
          readQuoted single cur f.settle fuel
        else if single then
          if c == '\'' then
            if rest.head? == some '\'' then readQuoted single (cur.skipN 2) (f.push '\'') fuel
            else .ok (f.result, cur.skip)
          else readQuoted single cur.skip (f.push c) fuel
        else if c == '"' then .ok (f.result, cur.skip)
        else if c == '\\' then
          match rest with
          | [] => .error .unexpectedEnd
          | d :: _ =>
            if isBreak d then
              -- an escaped line break leaves nothing behind, further ones stay
              let after := cur.skip.skipLine
              let (after, f) := skipGap after { f with broken := true } after.rest.length
              readQuoted single after f.settle fuel
            else
              match readEscape cur.skip with
              | .error e => .error e
              | .ok (x, after) => readQuoted single after (f.push x) fuel
        else readQuoted single cur.skip (f.push c) fuel

/-- Goes over blanks and line breaks inside a plain scalar. Tabs must not stand for
    indentation. -/
def skipPlainGap (indent : Int) (cur : Cursor) (f : Folding) :
    Nat → Except Fault (Cursor × Folding)
  | 0 => .ok (cur, f)
  | fuel + 1 =>
    match cur.rest with
    | [] => .ok (cur, f)
    | c :: _ =>
      if isBlank c then
        if f.broken && (cur.column : Int) < indent && c == '\t' then .error .tab
        else skipPlainGap indent cur.skip (f.addBlank c) fuel
      else if isBreak c then skipPlainGap indent cur.skipLine (f.addBreak cur.lineBreak) fuel
      else .ok (cur, f)

def isFlowIndicator (c : Char) : Bool :=
  c == ',' || c == '[' || c == ']' || c == '{' || c == '}'

/-- A plain scalar from its first character on: its text, the place behind it with the blanks that
    follow, and whether a line break is among them. -/
def readPlain (flow : Bool) (indent : Int) (cur : Cursor) (f : Folding) :
    Nat → Except Fault (String × Cursor × Bool)
  | 0 => .error .unexpectedEnd
  | fuel + 1 =>
    match cur.rest with
    | [] => .ok (f.result, cur, f.broken)
    | c :: _ =>
      if isBlank c || isBreak c then
        match skipPlainGap indent cur f cur.rest.length with
        | .error e => .error e
        | .ok (after, f) =>
          if (!flow && (after.column : Int) < indent) || after.atDocumentMarker ||
              after.at? '#' then
            .ok (f.result, after, f.broken)
          else readPlain flow indent after f fuel
      else if flow && c == ':' && cur.ahead 1 (fun d => isFlowIndicator d || d == '?') then
        .error .unexpectedColon
      else if (c == ':' && cur.spaceAhead 1) || (flow && isFlowIndicator c) then
        .ok (f.result, cur, f.broken)
      else readPlain flow indent cur.skip (f.settle.push c) fuel

/-- How the line breaks at the end of a block scalar are kept. -/
inductive Chomping where
  | strip
  | clip
  | keep

/-- The indicators after `|` or `>`: chomping and indentation, in either order. -/
def blockHeader (cur : Cursor) : Except Fault (Chomping × Nat × Cursor) :=
  let chomp? (cur : Cursor) : Option Chomping :=
    match cur.rest with
    | '+' :: _ => some .keep
    | '-' :: _ => some .strip
    | _ => none
  let digit? (cur : Cursor) : Option Nat :=
    match cur.rest with
    | c :: _ => if c.isDigit then some (c.toNat - 48) else none
    | [] => none
  match chomp? cur with
  | some chomping =>
    match digit? cur.skip with
    | some 0 => .error .badBlockHeader
    | some n => .ok (chomping, n, cur.skip.skip)
    | none => .ok (chomping, 0, cur.skip)
  | none =>
    match digit? cur with
    | some 0 => .error .badBlockHeader
    | some n =>
      match chomp? cur.skip with
      | some chomping => .ok (chomping, n, cur.skip.skip)
      | none => .ok (.clip, n, cur.skip)
    | none => .ok (.clip, 0, cur)

/-- The empty lines before the next line of a block scalar. An indentation of zero is not known
    yet; `widest` is the widest one seen so far. -/
def blockBreaks (indent widest : Nat) (cur : Cursor) (breaks : List Char) :
    Nat → Except Fault (Nat × Cursor × List Char)
  | 0 => .ok (widest, cur, breaks)
  | fuel + 1 =>
    let spaces := (cur.rest.takeWhile (· == ' ')).length
    let cur := cur.skipN (if indent = 0 then spaces else min spaces (indent - cur.column))
    let widest := max widest cur.column
    if (indent = 0 || cur.column < indent) && cur.at? '\t' then .error .tab
    else if !cur.atEnd && cur.breakOrEnd then
      blockBreaks indent widest cur.skipLine (cur.lineBreak ++ breaks) fuel
    else .ok (widest, cur, breaks)

/-- The lines of a block scalar, all texts last character first. -/
def blockLines (literal : Bool) (indent : Nat) (cur : Cursor)
    (text lead trail : List Char) (leadBlank : Bool) :
    Nat → Except Fault (List Char × List Char × List Char × Cursor)
  | 0 => .ok (text, lead, trail, cur)
  | fuel + 1 =>
    if cur.column != indent || cur.atEnd then .ok (text, lead, trail, cur)
    else
      let blank := cur.ahead 0 isBlank
      let folded := !literal && lead == ['\n'] && !leadBlank && !blank
      let text :=
        if folded then trail ++ ((if trail.isEmpty then [' '] else []) ++ text)
        else trail ++ (lead ++ text)
      let (line, cur) := cur.takeWhile (fun c => !isBreak c)
      let text := line.reverse ++ text
      let lead := cur.lineBreak
      match blockBreaks indent 0 cur.skipLine [] (cur.rest.length + 1) with
      | .error e => .error e
      | .ok (_, cur, trail) => blockLines literal indent cur text lead trail blank fuel

/-- A block scalar from after its indicator. `parent` is the indentation around it. -/
def readBlock (literal : Bool) (parent : Int) (cur : Cursor) : Except Fault (String × Cursor) := do
  let (chomping, increment, cur) ← blockHeader cur
  let cur := cur.dropWhile isBlank
  let cur := if cur.at? '#' then cur.dropWhile (fun c => !isBreak c) else cur
  if !cur.breakOrEnd then throw .badBlockHeader
  let cur := cur.skipLine
  let given := if increment = 0 then 0 else (max parent 0).toNat + increment
  let (widest, cur, trail) ← blockBreaks given 0 cur [] (cur.rest.length + 1)
  let indent := if given = 0 then max widest (max (parent + 1) 1).toNat else given
  let (text, lead, trail, cur) ←
    blockLines literal indent cur [] [] trail false (cur.rest.length + 1)
  let text := match chomping with
    | .strip => text
    | .clip => lead ++ text
    | .keep => trail ++ (lead ++ text)
  return (String.ofList text.reverse, cur)

end FormatLint.Yaml
