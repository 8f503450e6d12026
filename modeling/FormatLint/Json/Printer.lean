import FormatLint.Json.Basic
import FormatLint.Decimal.Shortest

/-!
Writing JSON: on one line without blanks, or spread over lines with an indentation of two.
-/

namespace FormatLint

namespace Number

def hexDigit (n : Nat) : Char :=
  if n < 10 then Char.ofNat (48 + n) else Char.ofNat (87 + n)

/-- Positional notation of `digits * 10 ^ exponent`, always with a point. -/
def positional (digits : List Char) (exponent : Int) : List Char :=
  match exponent with
  | .ofNat e => digits ++ List.replicate e '0' ++ ['.', '0']
  | .negSucc e =>
    let places := e + 1
    if digits.length ≤ places then
      ['0', '.'] ++ List.replicate (places - digits.length) '0' ++ digits
    else
      digits.take (digits.length - places) ++ '.' :: digits.drop (digits.length - places)

/-- Scientific notation with a signed exponent: `1e+16`, `1.5e-7`. -/
def scientific (digits : List Char) (exponent : Int) : List Char :=
  let top := exponent + digits.length - 1
  let mantissa :=
    match digits with
    | d :: e :: rest => d :: '.' :: e :: rest
    | other => other
  let sign := if top < 0 then '-' else '+'
  mantissa ++ 'e' :: sign :: Nat.toDigits 10 top.natAbs

/-- Doubles from `1e-5` up to but not including `1e16` are written positionally. -/
def doubleText (x : Binary64) : List Char :=
  let sign := if x.isNegative then ['-'] else []
  if x.isZero then sign ++ ['0', '.', '0']
  else
    let d := Decimal.shortest (if x.isNegative then x.negate else x)
    let digits := Nat.toDigits 10 d.digits
    let top := d.exponent + digits.length - 1
    sign ++ if -5 ≤ top ∧ top < 16 then positional digits d.exponent
      else scientific digits d.exponent

def text : Number → List Char
  | integer (.ofNat n) => Nat.toDigits 10 n
  | integer (.negSucc n) => '-' :: Nat.toDigits 10 (n + 1)
  | double x => doubleText x

end Number

namespace Json

/-- A character inside a quoted text. Only quotes, backslashes and control characters below the
    blank are written differently from themselves. -/
def escapeChar (c : Char) : List Char :=
  match c with
  | '"' => ['\\', '"']
  | '\\' => ['\\', '\\']
  | '\x08' => ['\\', 'b']
  | '\t' => ['\\', 't']
  | '\n' => ['\\', 'n']
  | '\x0C' => ['\\', 'f']
  | '\r' => ['\\', 'r']
  | c =>
    if c.toNat < 32 then
      ['\\', 'u', '0', '0', Number.hexDigit (c.toNat / 16), Number.hexDigit (c.toNat % 16)]
    else [c]

def quote (text : String) : List Char :=
  '"' :: text.toList.flatMap escapeChar ++ ['"']

mutual

def chars : Json → List Char
  | .null => ['n', 'u', 'l', 'l']
  | .bool true => ['t', 'r', 'u', 'e']
  | .bool false => ['f', 'a', 'l', 's', 'e']
  | .number n => n.text
  | .string s => quote s
  | .array items => '[' :: itemChars items ++ [']']
  | .object members => '{' :: memberChars members ++ ['}']

def itemChars : List Json → List Char
  | [] => []
  | [item] => chars item
  | item :: items => chars item ++ ',' :: itemChars items

def memberChars : List (String × Json) → List Char
  | [] => []
  | [(key, value)] => quote key ++ ':' :: chars value
  | (key, value) :: members => quote key ++ ':' :: chars value ++ ',' :: memberChars members

end

/-- The value on one line. -/
def compact (value : Json) : String := String.ofList value.chars

def quoted (text : String) : String := String.ofList (quote text)

def newline (depth : Nat) : List Char := '\n' :: List.replicate (2 * depth) ' '

mutual

def prettyChars (depth : Nat) : Json → List Char
  | .array [] => ['[', ']']
  | .array items => '[' :: prettyItems (depth + 1) items ++ newline depth ++ [']']
  | .object [] => ['{', '}']
  | .object members => '{' :: prettyMembers (depth + 1) members ++ newline depth ++ ['}']
  | .null => chars .null
  | .bool b => chars (.bool b)
  | .number n => n.text
  | .string s => quote s

def prettyItems (depth : Nat) : List Json → List Char
  | [] => []
  | [item] => newline depth ++ prettyChars depth item
  | item :: items => newline depth ++ prettyChars depth item ++ ',' :: prettyItems depth items

def prettyMembers (depth : Nat) : List (String × Json) → List Char
  | [] => []
  | [(key, value)] => newline depth ++ quote key ++ ':' :: ' ' :: prettyChars depth value
  | (key, value) :: members =>
    newline depth ++ quote key ++ ':' :: ' ' :: prettyChars depth value ++
      ',' :: prettyMembers depth members

end

/-- The value over several lines, two blanks deeper at each level. -/
def pretty (value : Json) : String := String.ofList (prettyChars 0 value)

end Json

end FormatLint
