import FormatLint.Glob.Basic
import FormatLint.Error

/-!
Reading globs. One pass over the characters keeps the groups that are open and the tokens of the
alternative being read; a set `[...]` is read in a mode of its own.
-/

namespace FormatLint.Glob

inductive Fault where
  | unclosedSet
  | invalidRange (lo hi : Char)
  | unopenedGroup
  | unclosedGroup
  | danglingEscape
deriving DecidableEq

def Fault.message : Fault → String
  | unclosedSet => "unclosed character class; missing ']'"
  | invalidRange lo hi => s!"invalid range; '{lo}' > '{hi}'"
  | unopenedGroup =>
    "unopened alternate group; missing '\x7b' (maybe escape '\x7d' with '[\x7d]'?)"
  | unclosedGroup =>
    "unclosed alternate group; missing '\x7d' (maybe escape '\x7b' with '[\x7b]'?)"
  | danglingEscape => "dangling '\\'"

/-- A group that is still open: the tokens before it and its finished alternatives, both last
    first. -/
structure Opened where
  before : List Token
  finished : List (List Token)

/-- What has been read: the open groups, innermost first, and the tokens of the alternative being
    read, last first. -/
structure Reading where
  opened : List Opened := []
  tokens : List Token := []

namespace Reading

def push (r : Reading) (t : Token) : Reading := { r with tokens := t :: r.tokens }

def pushRuns (r : Reading) : Reading := (r.push .run).push .run

/-- A `**` segment takes the place of the slash before it, and merges with a recursive token. -/
def merge (r : Reading) (t : Token) : Reading :=
  match r.tokens with
  | .leading :: _ => r
  | .trailing :: _ => r
  | _ :: below => { r with tokens := t :: below }
  | [] => { r with tokens := [t] }

def inGroup (r : Reading) : Bool := !r.opened.isEmpty

def openGroup (r : Reading) : Reading :=
  { opened := ⟨r.tokens, []⟩ :: r.opened, tokens := [] }

def nextAlternative (r : Reading) : Reading :=
  match r.opened with
  | [] => r.push (.literal ',')
  | o :: outer =>
    { opened := { o with finished := r.tokens.reverse :: o.finished } :: outer, tokens := [] }

def closeGroup? (r : Reading) : Option Reading :=
  match r.opened with
  | [] => none
  | o :: outer =>
    some { opened := outer
           tokens := .group (r.tokens.reverse :: o.finished).reverse :: o.before }

end Reading

/-- Where the reader stands: in plain text after a character, or inside a set. -/
inductive Mode where
  | text (previous : Option Char)
  /-- The ranges read so far, last first, whether anything was read yet, and whether a dash waits
      for the end of its range. -/
  | set (negated : Bool) (ranges : List (Char × Char)) (first pending : Bool)

/-- Ends the last range of a set at `c`. -/
def closeRange (ranges : List (Char × Char)) (c : Char) : Except Fault (List (Char × Char)) :=
  match ranges with
  | [] => .ok [(c, c)]
  | (lo, _) :: below => if c < lo then .error (.invalidRange lo c) else .ok ((lo, c) :: below)

/-- Whether `**` may stand for whole segments after `previous`. -/
def startsSegment (r : Reading) (previous : Option Char) : Bool :=
  previous == some '/' || (r.inGroup && (previous == some ',' || previous == some '{'))

def readFrom (mode : Mode) (r : Reading) (cs : List Char) : Except Fault Reading :=
  match mode with
  | .text previous =>
    match cs with
    | [] => if r.inGroup then .error .unclosedGroup else .ok r
    | '?' :: rest => readFrom (.text (some '?')) (r.push .any) rest
    | '*' :: '*' :: rest =>
      if r.tokens.isEmpty then
        match rest with
        | [] => readFrom (.text none) (r.push .leading) []
        | '/' :: after => readFrom (.text (some '/')) (r.push .leading) after
        | c :: after => readFrom (.text (some '*')) r.pushRuns (c :: after)
      else if startsSegment r previous then
        match rest with
        | [] => readFrom (.text none) (r.merge .trailing) []
        | '/' :: after => readFrom (.text (some '/')) (r.merge .middle) after
        | c :: after =>
          if r.inGroup && (c == ',' || c == '}') then
            readFrom (.text (some '*')) (r.merge .trailing) (c :: after)
          else readFrom (.text (some '*')) r.pushRuns (c :: after)
      else readFrom (.text (some '*')) r.pushRuns rest
    | '*' :: rest => readFrom (.text (some '*')) (r.push .run) rest
    | '[' :: '!' :: rest => readFrom (.set true [] true false) r rest
    | '[' :: '^' :: rest => readFrom (.set true [] true false) r rest
    | '[' :: rest => readFrom (.set false [] true false) r rest
    | '{' :: rest => readFrom (.text (some '{')) r.openGroup rest
    | '}' :: rest =>
      match r.closeGroup? with
      | none => .error .unopenedGroup
      | some closed => readFrom (.text (some '}')) closed rest
    | ',' :: rest => readFrom (.text (some ',')) r.nextAlternative rest
    | ['\\'] => .error .danglingEscape
    | '\\' :: c :: rest => readFrom (.text (some c)) (r.push (.literal c)) rest
    | c :: rest => readFrom (.text (some c)) (r.push (.literal c)) rest
  | .set negated ranges first pending =>
    match cs with
    | [] => .error .unclosedSet
    | ']' :: rest =>
      if first then readFrom (.set negated ((']', ']') :: ranges) false false) r rest
      else
        let all := if pending then ('-', '-') :: ranges else ranges
        readFrom (.text (some ']')) (r.push (.oneOf negated all.reverse)) rest
    | '-' :: rest =>
      if first then readFrom (.set negated [('-', '-')] false false) r rest
      else if pending then
        match closeRange ranges '-' with
        | .error e => .error e
        | .ok closed => readFrom (.set negated closed false false) r rest
      else readFrom (.set negated ranges false true) r rest
    | c :: rest =>
      if pending then
        match closeRange ranges c with
        | .error e => .error e
        | .ok closed => readFrom (.set negated closed false false) r rest
      else readFrom (.set negated ((c, c) :: ranges) false false) r rest
termination_by cs.length

def parse (text : String) : Except Fault Glob :=
  match readFrom (.text none) {} text.toList with
  | .ok r => .ok r.tokens.reverse
  | .error e => .error e

/-- Several globs at once; the first one that cannot be read is the failure. -/
def compile : List String → Except Error (List Glob)
  | [] => .ok []
  | text :: rest =>
    match parse text with
    | .error fault => .error (Error.badPattern text fault.message)
    | .ok glob =>
      match compile rest with
      | .error e => .error e
      | .ok globs => .ok (glob :: globs)

def anyAccepts (globs : List Glob) (subject : Bytes) : Bool := globs.any (·.accepts subject)

end FormatLint.Glob
