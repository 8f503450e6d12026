import FormatLint.Toml.Scalar

/-!
Reading TOML documents.
-/

namespace FormatLint.Toml

def isBareKeyChar (c : Char) : Bool := c.isAlphanum || c == '_' || c == '-'

/-- One part of a key. -/
def simpleKey (cs : List Char) : Except Fault (String × List Char) :=
  match cs with
  | '"' :: rest => basicString [] rest (rest.length + 1)
  | '\'' :: rest => literalString rest
  | _ =>
    let bare := cs.takeWhile isBareKeyChar
    if bare.isEmpty then .error (.expected "key")
    else .ok (String.ofList bare, cs.drop bare.length)

/-- A key with points between its parts, and the blanks around them. -/
def dottedKey (cs : List Char) : Nat → Except Fault (List String × List Char)
  | 0 => .error .tooDeep
  | fuel + 1 => do
    let (part, cs) ← simpleKey (skipBlanks cs)
    match skipBlanks cs with
    | '.' :: rest =>
      let (parts, cs) ← dottedKey rest fuel
      return (part :: parts, cs)
    | rest => return ([part], rest)

/-- Goes over a comment, if there is one. -/
def skipComment (cs : List Char) : List Char :=
  match cs with
  | '#' :: rest => rest.dropWhile isTextChar
  | _ => cs

/-- Goes over blanks, comments and line breaks. -/
def skipSpace (cs : List Char) : Nat → List Char
  | 0 => cs
  | fuel + 1 =>
    let after := skipComment (skipBlanks cs)
    match lineBreak? after with
    | some rest => skipSpace rest fuel
    | none => after

/-- Arrays and inline tables may be nested this deep. -/
def depthLimit : Nat := 80

/-- Characters that numbers are spelled with. -/
def isNumberChar (c : Char) : Bool :=
  c.isAlphanum || c == '_' || c == '+' || c == '-' || c == '.'

/-- The key that a date stands under when it is read as data. -/
def dateKey : String := "$__toml_private_datetime"

def dateDatum (text : String) : Datum := .map [({ value := .text dateKey }, .text text)]

/-- A value that is no collection. -/
def scalarValue (cs : List Char) : Except Fault (Datum × List Char) :=
  match cs with
  | [] => .error (.expected "value")
  | c :: _ =>
    if c == '"' || c == '\'' then do
      let (text, cs) ← string cs
      return (.text text, cs)
    else if "true".toList.isPrefixOf cs then .ok (.ofScalar (.bool true), cs.drop 4)
    else if "false".toList.isPrefixOf cs then .ok (.ofScalar (.bool false), cs.drop 5)
    else
      match dateTime cs with
      | some (.ok (text, cs)) => .ok (dateDatum text, cs)
      | some (.error e) => .error e
      | none =>
        let token := cs.takeWhile isNumberChar
        match number token with
        | .ok value => .ok (.ofScalar value, cs.drop token.length)
        | .error e => .error e

mutual

def value (depth : Nat) (cs : List Char) : Nat → Except Fault (Datum × List Char)
  | 0 => .error .tooDeep
  | fuel + 1 =>
    match cs with
    | '[' :: rest =>
      if depthLimit ≤ depth then .error .tooDeep
      else do
        let (items, cs) ← arrayItems (depth + 1) rest fuel
        return (.list items, cs)
    | '{' :: rest =>
      if depthLimit ≤ depth then .error .tooDeep
      else
        match skipBlanks rest with
        | '}' :: rest => .ok (.map [], rest)
        | rest => do
          let (entries, cs) ← inlineEntries (depth + 1) [] rest fuel
          return (.map (entryData entries), cs)
    | _ => scalarValue cs

/-- The items of an array up to its bracket; a comma may follow the last one. -/
def arrayItems (depth : Nat) (cs : List Char) : Nat → Except Fault (List Datum × List Char)
  | 0 => .error .tooDeep
  | fuel + 1 =>
    match skipSpace cs cs.length with
    | ']' :: rest => .ok ([], rest)
    | cs => do
      let (item, cs) ← value depth cs fuel
      match skipSpace cs cs.length with
      | ',' :: rest =>
        let (items, cs) ← arrayItems depth rest fuel
        return (item :: items, cs)
      | ']' :: rest => return ([item], rest)
      | _ => throw (.expected "comma or bracket")

/-- The pairs of an inline table up to its brace, added to `entries`. -/
def inlineEntries (depth : Nat) (entries : Entries) (cs : List Char) :
    Nat → Except Fault (Entries × List Char)
  | 0 => .error .tooDeep
  | fuel + 1 => do
    let (path, cs) ← dottedKey cs (cs.length + 1)
    match skipBlanks cs with
    | '=' :: rest =>
      let (datum, cs) ← value depth (skipBlanks rest) fuel
      let entries ← entries.assign path (.value datum)
      match skipBlanks cs with
      | ',' :: rest => inlineEntries depth entries rest fuel
      | '}' :: rest => return (entries, rest)
      | _ => throw (.expected "comma or brace")
    | _ => throw (.expected "equals sign")

end

/-- The rest of a line: blanks and a comment. -/
def endOfLine (cs : List Char) : Except Fault (List Char) :=
  let after := skipComment (skipBlanks cs)
  match after with
  | [] => .ok []
  | _ =>
    match lineBreak? after with
    | some rest => .ok rest
    | none => .error (.expected "newline")

/-- A header from after its bracket: its path and what follows the closing bracket. -/
def header (cs : List Char) : Except Fault (List String × List Char) := do
  let (path, cs) ← dottedKey cs (cs.length + 1)
  match cs with
  | ']' :: rest => return (path, rest)
  | _ => throw (.expected "bracket")

/-- The lines of a document. -/
def readLines (d : Document) (cs : List Char) : Nat → Except Fault Document
  | 0 => .error .tooDeep
  | fuel + 1 =>
    match skipBlanks cs with
    | [] => .ok d
    | '[' :: '[' :: rest => do
      let (path, cs) ← header rest
      match cs with
      | ']' :: rest =>
        let d ← d.startElement path
        readLines d (← endOfLine rest) fuel
      | _ => throw (.expected "bracket")
    | '[' :: rest => do
      let (path, cs) ← header rest
      let d ← d.startTable path
      readLines d (← endOfLine cs) fuel
    | cs =>
      match cs.head? with
      | some '#' => do readLines d (← endOfLine cs) fuel
      | some '\n' => do readLines d (← endOfLine cs) fuel
      | some '\r' => do readLines d (← endOfLine cs) fuel
      | _ => do
        let (path, cs) ← dottedKey cs (cs.length + 1)
        match cs with
        | '=' :: rest =>
          let body := skipBlanks rest
          let (datum, cs) ← value 0 body (2 * body.length + 2)
          let current ← d.current.assign path (.value datum)
          readLines { d with current } (← endOfLine cs) fuel
        | _ => throw (.expected "equals sign")

/-- Reads a document, with or without a byte order mark. -/
def read (text : String) : Except Fault Datum := do
  let cs := match text.toList with
    | '\uFEFF' :: rest => rest
    | cs => cs
  let d ← readLines {} cs (cs.length + 1)
  let root ← d.close
  return .map (entryData root)

end FormatLint.Toml
