import FormatLint.Yaml.Token

/-!
From a YAML text to its tokens. Indentation becomes explicit start and end tokens, and a key that
is recognized only by the colon behind it gets its token inserted in front of it.
-/

namespace FormatLint.Yaml

/-- A place where a key may have started. -/
structure PossibleKey where
  /-- A key must stand here, because the line starts at the indentation of a mapping. -/
  required : Bool
  /-- How many tokens came before it. -/
  position : Nat
  index : Nat
  line : Nat
  column : Nat

structure Scanner where
  cur : Cursor
  /-- The tokens so far, last first. -/
  tokens : List Token := []
  flowLevel : Nat := 0
  indent : Int := -1
  /-- The indentations around, innermost first. -/
  indents : List Int := []
  keyAllowed : Bool := true
  /-- The possible key of each flow level, innermost first. -/
  keys : List (Option PossibleKey) := [none]

abbrev Scan := Except Fault Scanner

namespace Scanner

def emit (s : Scanner) (t : Token) : Scanner := { s with tokens := t :: s.tokens }

/-- Puts a token after the first `position` ones. -/
def insertAt (s : Scanner) (position : Nat) (t : Token) : Scanner :=
  let later := s.tokens.length - position
  { s with tokens := s.tokens.take later ++ t :: s.tokens.drop later }

/-- Closes the block collections that are indented deeper than `column`. -/
def unroll (s : Scanner) (column : Int) : Scanner :=
  if 0 < s.flowLevel then s
  else
    let closed := if s.indent > column then
      (s.indent :: s.indents).takeWhile (· > column) else []
    let remaining := (s.indent :: s.indents).drop closed.length
    { s with
      tokens := closed.map (fun _ => Token.blockEnd) ++ s.tokens
      indent := remaining.head?.getD (-1)
      indents := remaining.drop 1 }

/-- Opens a block collection when `column` lies deeper than the current indentation. -/
def roll (s : Scanner) (column : Nat) (position : Option Nat) (t : Token) : Scanner :=
  if 0 < s.flowLevel || s.indent ≥ (column : Int) then s
  else
    let s := { s with indents := s.indent :: s.indents, indent := column }
    match position with
    | some p => s.insertAt p t
    | none => s.emit t

/-- Forgets the possible key of the current level; it must not have been required. -/
def removeKey (s : Scanner) : Scan :=
  match s.keys with
  | some k :: outer =>
    if k.required then .error .expectedColon else .ok { s with keys := none :: outer }
  | _ => .ok s

/-- Remembers that a key may start here. -/
def saveKey (s : Scanner) : Scan :=
  if s.keyAllowed then do
    let required := s.flowLevel == 0 && s.indent == (s.cur.column : Int)
    let s ← s.removeKey
    return { s with keys := some ⟨required, s.tokens.length, s.cur.index, s.cur.line, s.cur.column⟩
      :: s.keys.drop 1 }
  else .ok s

/-- A key stays on one line and has at most 1024 characters. -/
def isStale (cur : Cursor) (k : PossibleKey) : Bool :=
  k.line < cur.line || k.index + 1024 < cur.index

def dropStale (s : Scanner) : Scan :=
  if s.keys.any (fun k => k.any fun k => isStale s.cur k && k.required) then .error .expectedColon
  else .ok { s with keys := s.keys.map fun k => k.filter (fun k => !isStale s.cur k) }

/-- Goes to the next token, over blanks, comments and line breaks. -/
def toNext (s : Scanner) : Nat → Scanner
  | 0 => s
  | fuel + 1 =>
    let tabs := 0 < s.flowLevel || !s.keyAllowed
    let cur := s.cur.dropWhile fun c => c == ' ' || (tabs && c == '\t')
    let cur := if cur.at? '#' then cur.dropWhile (fun c => !isBreak c) else cur
    if !cur.atEnd && cur.breakOrEnd then
      toNext { s with
        cur := cur.skipLine
        keyAllowed := if s.flowLevel = 0 then true else s.keyAllowed } fuel
    else { s with cur }

def skip (s : Scanner) (n : Nat) : Scanner := { s with cur := s.cur.skipN n }

/-- Ends all block collections, for a directive or a document marker. -/
def toTop (s : Scanner) : Scan := do
  let s ← (s.unroll (-1)).removeKey
  return { s with keyAllowed := false }

def documentMarker (s : Scanner) (t : Token) : Scan := do
  let s ← s.toTop
  return (s.skip 3).emit t

def openFlow (s : Scanner) (t : Token) : Scan := do
  let s ← s.saveKey
  let inner := { s with keys := none :: s.keys, flowLevel := s.flowLevel + 1, keyAllowed := true }
  return (inner.skip 1).emit t

def closeFlow (s : Scanner) (t : Token) : Scan := do
  let s ← s.removeKey
  let s := if 0 < s.flowLevel then
    { s with flowLevel := s.flowLevel - 1, keys := s.keys.drop 1 } else s
  return ({ s with keyAllowed := false }.skip 1).emit t

def flowEntry (s : Scanner) : Scan := do
  let s ← s.removeKey
  return ({ s with keyAllowed := true }.skip 1).emit .flowEntry

def blockEntry (s : Scanner) : Scan := do
  if s.flowLevel = 0 && !s.keyAllowed then throw (.notAllowedHere "block sequence entries")
  let s := s.roll s.cur.column none .blockSequenceStart
  let s ← s.removeKey
  return ({ s with keyAllowed := true }.skip 1).emit .blockEntry

def explicitKey (s : Scanner) : Scan := do
  if s.flowLevel = 0 && !s.keyAllowed then throw (.notAllowedHere "mapping keys")
  let s := s.roll s.cur.column none .blockMappingStart
  let s ← s.removeKey
  return ({ s with keyAllowed := s.flowLevel == 0 }.skip 1).emit .key

def value (s : Scanner) : Scan := do
  match s.keys with
  | some k :: outer =>
    let s := s.insertAt k.position .key
    let s := s.roll k.column (some k.position) .blockMappingStart
    return ({ s with keys := none :: outer, keyAllowed := false }.skip 1).emit .value
  | _ =>
    if s.flowLevel = 0 && !s.keyAllowed then throw (.notAllowedHere "mapping values")
    let s := s.roll s.cur.column none .blockMappingStart
    return ({ s with keyAllowed := s.flowLevel == 0 }.skip 1).emit .value

/-- The name of an anchor or an alias, after its mark. -/
def named (s : Scanner) (make : String → Token) : Scan := do
  let s ← s.saveKey
  let (name, cur) := s.cur.skip.takeWhile isWordChar
  let ends := cur.spaceAhead 0 || cur.ahead 0 ("?:,]\x7d%@\x60".toList.contains ·)
  if name.isEmpty || !ends then throw .badAnchor
  return { s with cur, keyAllowed := false }.emit (make (String.ofList name))

def isUriChar (flow : Bool) (c : Char) : Bool :=
  isWordChar c || ";/?:@&=+$.%!~*'()".toList.contains c || (flow && ",[]".toList.contains c)

/-- Replaces percent escapes; they must spell UTF-8. -/
def unescapeUri : List Char → Option (List UInt8)
  | [] => some []
  | '%' :: a :: b :: rest => do
    let byte := (← hexValue a) * 16 + (← hexValue b)
    return UInt8.ofNat byte :: (← unescapeUri rest)
  | c :: rest => if c == '%' then none else do
    return String.utf8EncodeChar c ++ (← unescapeUri rest)

/-- The characters of a tag address after `lead`. -/
def readUri (flow : Bool) (lead : List Char) (cur : Cursor) : Except Fault (String × Cursor) := do
  let (taken, cur) := cur.takeWhile (isUriChar flow)
  let all := lead.drop 1 ++ taken
  if lead.isEmpty && taken.isEmpty then throw .badTag
  match (unescapeUri all).bind (fun bytes => String.fromUTF8? ⟨bytes.toArray⟩) with
  | some text => return (text, cur)
  | none => throw .badTag

/-- A tag handle: `!`, word characters and perhaps another `!`. -/
def readHandle (cur : Cursor) : Except Fault (List Char × Cursor) :=
  if !cur.at? '!' then .error .badTag
  else
    let (name, after) := cur.skip.takeWhile isWordChar
    if after.at? '!' then .ok ('!' :: name ++ ['!'], after.skip) else .ok ('!' :: name, after)

def tag (s : Scanner) : Scan := do
  let s ← s.saveKey
  let (handle, suffix, cur) ←
    if s.cur.ahead 1 (· == '<') then do
      let (uri, cur) ← readUri true [] (s.cur.skipN 2)
      if !cur.at? '>' then throw .badTag
      pure ("", uri, cur.skip)
    else do
      let (handle, cur) ← readHandle s.cur
      if 1 < handle.length && handle.getLast? == some '!' then
        let (suffix, cur) ← readUri false [] cur
        pure (String.ofList handle, suffix, cur)
      else
        let (suffix, cur) ← readUri false handle cur
        if suffix.isEmpty then pure ("", "!", cur) else pure ("!", suffix, cur)
  if !(0 < s.flowLevel && cur.at? ',') && !cur.spaceAhead 0 then throw .badTag
  return { s with cur, keyAllowed := false }.emit (.tag handle suffix)

/-- A `%` line: the version or a tag handle. -/
def directive (s : Scanner) : Scan := do
  let s ← s.toTop
  let (name, cur) := s.cur.skip.takeWhile isWordChar
  if name.isEmpty || !cur.spaceAhead 0 then throw .badDirective
  let cur := cur.dropWhile isBlank
  let (token, cur) ←
    if name == "YAML".toList then do
      let (major, cur) := cur.takeWhile Char.isDigit
      let (minor, after) := cur.skip.takeWhile Char.isDigit
      if major.isEmpty || 9 < major.length || !cur.at? '.' || minor.isEmpty || 9 < minor.length then
        throw .badDirective
      let number (digits : List Char) := digits.foldl (fun n d => n * 10 + (d.toNat - 48)) 0
      pure (Token.version (number major) (number minor), after)
    else if name == "TAG".toList then do
      let (handle, cur) ← readHandle cur
      if 1 < handle.length && handle.getLast? != some '!' then throw .badDirective
      if !cur.ahead 0 isBlank then throw .badDirective
      let (start, cur) ← readUri true [] (cur.dropWhile isBlank)
      if !cur.spaceAhead 0 then throw .badDirective
      pure (Token.tagDirective (String.ofList handle) start, cur)
    else throw .badDirective
  let cur := cur.dropWhile isBlank
  let cur := if cur.at? '#' then cur.dropWhile (fun c => !isBreak c) else cur
  if !cur.breakOrEnd then throw .badDirective
  return { s with cur := cur.skipLine }.emit token

def blockScalar (s : Scanner) (literal : Bool) : Scan := do
  let s ← s.removeKey
  let (text, cur) ← readBlock literal s.indent s.cur.skip
  return { s with cur, keyAllowed := true }.emit (.scalar text .block)

def quotedScalar (s : Scanner) (single : Bool) : Scan := do
  let s ← s.saveKey
  let (text, cur) ← readQuoted single s.cur.skip {} (s.cur.rest.length + 1)
  return { s with cur, keyAllowed := false }.emit (.scalar text .quoted)

def plainScalar (s : Scanner) : Scan := do
  let s ← s.saveKey
  let (text, cur, broken) ←
    readPlain (0 < s.flowLevel) (s.indent + 1) s.cur {} (s.cur.rest.length + 1)
  return { s with cur, keyAllowed := broken }.emit (.scalar text .plain)

/-- Characters that start no plain scalar. -/
def isIndicator (c : Char) : Bool := "-?:,[]\x7b\x7d#&*!|>'\"%@\x60".toList.contains c

/-- One more token, with the cursor at its first character. -/
def next (s : Scanner) (c : Char) : Scan :=
  let flow := decide (0 < s.flowLevel)
  let spaced := s.cur.spaceAhead 1
  if s.cur.column = 0 && c == '%' then s.directive
  else if s.cur.atMarker '-' then s.documentMarker .documentStart
  else if s.cur.atMarker '.' then s.documentMarker .documentEnd
  else if c == '[' then s.openFlow .flowSequenceStart
  else if c == '{' then s.openFlow .flowMappingStart
  else if c == ']' then s.closeFlow .flowSequenceEnd
  else if c == '}' then s.closeFlow .flowMappingEnd
  else if c == ',' then s.flowEntry
  else if c == '-' && spaced then s.blockEntry
  else if c == '?' && (flow || spaced) then s.explicitKey
  else if c == ':' && (flow || spaced) then s.value
  else if c == '*' then s.named .alias
  else if c == '&' then s.named .anchor
  else if c == '!' then s.tag
  else if c == '|' && !flow then s.blockScalar true
  else if c == '>' && !flow then s.blockScalar false
  else if c == '\'' then s.quotedScalar true
  else if c == '"' then s.quotedScalar false
  else if !(isIndicator c || isBlank c || isBreak c)
      || (c == '-' && !s.cur.ahead 1 isBlank)
      || (!flow && (c == '?' || c == ':') && !spaced) then s.plainScalar
  else .error .unexpectedToken

/-- All tokens up to the end of the text. -/
def run (s : Scanner) : Nat → Scan
  | 0 => .error .unexpectedEnd
  | fuel + 1 =>
    let s := s.toNext (s.cur.rest.length + 1)
    match s.dropStale with
    | .error e => .error e
    | .ok s =>
      let s := s.unroll s.cur.column
      match s.cur.rest with
      | [] => s.toTop
      | c :: _ =>
        match s.next c with
        | .error e => .error e
        | .ok s => run s fuel

end Scanner

/-- The tokens of a text. Every token takes at least one character. -/
def scan (text : String) : Except Fault (List Token) :=
  let chars := text.toList
  if !chars.all isAllowed then .error .character
  else
    match Scanner.run { cur := Cursor.start chars } (chars.length + 1) with
    | .error e => .error e
    | .ok s => .ok s.tokens.reverse

end FormatLint.Yaml
