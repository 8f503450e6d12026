import FormatLint.Text.Utf8

/-!
Scripts of a small command language: commands with quoted words, parameters and redirections,
joined by line breaks, semicolons, `&&`, `||` and `|`.
-/

namespace FormatLint.Shell

/-- A parameter that stands for a text. -/
inductive Parameter where
  /-- `$1`, and `$0` for the script itself. -/
  | argument (index : Nat)
  /-- `$#`: the number of arguments. -/
  | count
  /-- `$@` and `$*`: all arguments. -/
  | all
  /-- `$$`: the process. -/
  | process
  /-- `$?`: the status of the command before. -/
  | status
  | name (name : String)

/-- A part of a word. -/
inductive Piece where
  | text (text : List Char)
  | parameter (p : Parameter) (quoted : Bool)

abbrev Word := List Piece

inductive Token where
  | word (word : Word)
  /-- `;`, `&&`, `||`, `|`, a line break, or a redirection with the number before it. -/
  | operator (name : String) (descriptor : Option Nat)

def isNameStart (c : Char) : Bool := c.isAlpha || c == '_'

def isNameChar (c : Char) : Bool := c.isAlphanum || c == '_'

/-- The parameter after a dollar sign, and what follows it. -/
def parameter? (cs : List Char) : Option (Parameter × List Char) :=
  match cs with
  | '#' :: rest => some (.count, rest)
  | '@' :: rest => some (.all, rest)
  | '*' :: rest => some (.all, rest)
  | '$' :: rest => some (.process, rest)
  | '?' :: rest => some (.status, rest)
  | c :: rest =>
    if c.isDigit then some (.argument (c.toNat - 48), rest)
    else if isNameStart c then
      some (.name (String.ofList (c :: rest.takeWhile isNameChar)), rest.dropWhile isNameChar)
    else none
  | [] => none

/-- The pieces of a text in double quotes, up to the quote that ends it. -/
def doubleQuoted (fuel : Nat) (cs : List Char) : Option (List Piece × List Char) :=
  match fuel with
  | 0 => none
  | fuel + 1 =>
    match cs with
    | [] => none
    | '"' :: rest => some ([], rest)
    | '\\' :: c :: rest => do
      let kept := if c ∈ ['$', '"', '\\', '\x60'] then [c] else ['\\', c]
      let (pieces, rest) ← doubleQuoted fuel rest
      return (.text kept :: pieces, rest)
    | '$' :: after =>
      match parameter? after with
      | some (p, rest) => do
        let (pieces, rest) ← doubleQuoted fuel rest
        return (.parameter p true :: pieces, rest)
      | none => do
        let (pieces, rest) ← doubleQuoted fuel after
        return (.text ['$'] :: pieces, rest)
    | c :: rest => do
      let (pieces, rest) ← doubleQuoted fuel rest
      return (.text [c] :: pieces, rest)

/-- Characters that end a word. -/
def endsWord (c : Char) : Bool := " \t\n;&|<>".toList.contains c

/-- The pieces of a word, up to the character that ends it. -/
def wordPieces (fuel : Nat) (cs : List Char) : Option (List Piece × List Char) :=
  match fuel with
  | 0 => none
  | fuel + 1 =>
    match cs with
    | [] => some ([], [])
    | '\'' :: rest => do
      let inner := rest.takeWhile (· != '\'')
      match rest.drop inner.length with
      | _ :: rest =>
        let (pieces, rest) ← wordPieces fuel rest
        return (.text inner :: pieces, rest)
      | [] => none
    | '"' :: rest => do
      let (inner, rest) ← doubleQuoted (rest.length + 1) rest
      let (pieces, rest) ← wordPieces fuel rest
      return (.text [] :: inner ++ pieces, rest)
    | '\\' :: '\n' :: rest => wordPieces fuel rest
    | '\\' :: c :: rest => do
      let (pieces, rest) ← wordPieces fuel rest
      return (.text [c] :: pieces, rest)
    | '$' :: after =>
      match parameter? after with
      | some (p, rest) => do
        let (pieces, rest) ← wordPieces fuel rest
        return (.parameter p false :: pieces, rest)
      | none => do
        let (pieces, rest) ← wordPieces fuel after
        return (.text ['$'] :: pieces, rest)
    | c :: rest =>
      if endsWord c then some ([], c :: rest)
      else do
        let (pieces, rest) ← wordPieces fuel rest
        return (.text [c] :: pieces, rest)

/-- A redirection sign, with the descriptor that may stand before it. -/
def redirection? (cs : List Char) : Option (Token × List Char) :=
  let (descriptor, cs) := match cs with
    | d :: c :: rest =>
      if d.isDigit && (c == '>' || c == '<') then (some (d.toNat - 48), c :: rest) else (none, cs)
    | _ => (none, cs)
  match cs with
  | '>' :: '>' :: rest => some (.operator ">>" descriptor, rest)
  | '>' :: '&' :: rest => some (.operator ">&" descriptor, rest)
  | '>' :: rest => some (.operator ">" descriptor, rest)
  | '<' :: rest => some (.operator "<" descriptor, rest)
  | _ => none

def tokens (fuel : Nat) (cs : List Char) : Option (List Token) :=
  match fuel with
  | 0 => none
  | fuel + 1 =>
    let mark (name : String) (rest : List Char) : Option (List Token) := do
      return .operator name none :: (← tokens fuel rest)
    match cs with
    | [] => some []
    | ' ' :: rest => tokens fuel rest
    | '\t' :: rest => tokens fuel rest
    | '#' :: rest => tokens fuel (rest.dropWhile (· != '\n'))
    | '\n' :: rest => mark ";" rest
    | ';' :: rest => mark ";" rest
    | '&' :: '&' :: rest => mark "&&" rest
    | '|' :: '|' :: rest => mark "||" rest
    | '|' :: rest => mark "|" rest
    | '&' :: _ => none
    | cs =>
      match redirection? cs with
      | some (token, rest) => do return token :: (← tokens fuel rest)
      | none => do
        let (pieces, rest) ← wordPieces (cs.length + 1) cs
        return .word pieces :: (← tokens fuel rest)

inductive Redirection where
  | output (descriptor : Nat) (target : Word) (append : Bool)
  | duplicate (descriptor : Nat) (target : Word)
  | input (source : Word)

structure Command where
  words : List Word := []
  redirections : List Redirection := []

/-- When a command runs, given how the one before it ended. -/
inductive Condition where
  | always
  | success
  | failure

/-- Commands that pass their output on to the next one. -/
structure Step where
  condition : Condition
  pipeline : List Command

/-- A command is finished; it joins the pipeline unless it is empty. -/
def closeCommand (pipeline : List Command) (c : Command) : List Command :=
  if c.words.isEmpty && c.redirections.isEmpty then pipeline else pipeline ++ [c]

def closeStep (steps : List Step) (condition : Condition) (pipeline : List Command) : List Step :=
  if pipeline.isEmpty then steps else steps ++ [⟨condition, pipeline⟩]

/-- The steps of a script from its tokens, after those in `steps`. -/
def stepsOf (steps : List Step) (condition : Condition) (pipeline : List Command) (c : Command) :
    List Token → Option (List Step)
  | [] => some (closeStep steps condition (closeCommand pipeline c))
  | .word w :: rest => stepsOf steps condition pipeline { c with words := c.words ++ [w] } rest
  | .operator name descriptor :: rest =>
    let closed := closeStep steps condition (closeCommand pipeline c)
    if name = ";" then stepsOf closed .always [] {} rest
    else if name = "&&" then stepsOf closed .success [] {} rest
    else if name = "||" then stepsOf closed .failure [] {} rest
    else if name = "|" then stepsOf steps condition (closeCommand pipeline c) {} rest
    else
      match rest with
      | .word target :: rest =>
        let redirection : Redirection :=
          if name = "<" then .input target
          else if name = ">&" then .duplicate (descriptor.getD 1) target
          else .output (descriptor.getD 1) target (name = ">>")
        stepsOf steps condition pipeline
          { c with redirections := c.redirections ++ [redirection] } rest
      | _ => none

/-- Reads a script, in which every byte is a character; `none` when it is malformed. -/
def parse (script : Bytes) : Option (List Step) := do
  let cs := script.map fun b => Char.ofNat b.toNat
  stepsOf [] .always [] {} (← tokens (cs.length + 1) cs)

end FormatLint.Shell
