import FormatLint.Text.Utf8
import FormatLint.Data.Datum

/-!
Reading JSON from bytes. The grammar is the strict one: no comments, no trailing commas, no byte
order mark. What has no usable value (a number that overflows, a lone surrogate, bytes that are
not UTF-8, nesting beyond the limit) is kept as `Scalar.unusable`, so that a decoder which skips it
does not fail.
-/

namespace FormatLint.Json

inductive Fault where
  | unexpectedEnd
  | unexpected (byte : UInt8)
  | controlCharacter
  | badEscape
  | badNumber
  | trailing
deriving DecidableEq

def Fault.message : Fault → String
  | unexpectedEnd => "EOF while parsing a value"
  | unexpected _ => "expected value"
  | controlCharacter => "control character found while parsing a string"
  | badEscape => "invalid escape"
  | badNumber => "invalid number"
  | trailing => "trailing characters"

/-- A value nested in this many lists and objects is not usable. -/
def nestingLimit : Nat := 128

def isSpace (b : UInt8) : Bool := b == 0x20 || b == 0x0A || b == 0x09 || b == 0x0D

def skipSpace (bytes : Bytes) : Bytes := bytes.dropWhile isSpace

def isDigit (b : UInt8) : Bool := 0x30 ≤ b && b ≤ 0x39

def digitValue (b : UInt8) : Nat := b.toNat - 0x30

/-- The spelling of a number, taken apart. -/
structure Numeral where
  negative : Bool
  whole : List Nat
  fraction : Option (List Nat)
  /-- Whether the exponent is negative, and its digits. -/
  exponent : Option (Bool × List Nat)

namespace Numeral

/-- Takes digits into a 64-bit significand until the next one would overflow it. -/
def absorb (significand : Nat) : List Nat → Nat × List Nat
  | [] => (significand, [])
  | d :: ds =>
    if significand * 10 + d < Nat.pow 2 64 then absorb (significand * 10 + d) ds
    else (significand, d :: ds)

/-- Scales by a power of ten, one rounding for the significand and one for each step. -/
def scaled (x : Binary64) (exponent : Int) : Option Binary64 :=
  if exponent < -308 then
    if x.isZero then some x else scaled (x.divMagnitude (Binary64.tenPow 308)) (exponent + 308)
  else if exponent < 0 then some (x.divMagnitude (Binary64.tenPow exponent.natAbs))
  else if 308 < exponent then if x.isZero then some x else none
  else
    let y := x.mulMagnitude (Binary64.tenPow exponent.natAbs)
    if y.isFinite then some y else none
termination_by (-exponent).toNat

def double (negative : Bool) (significand : Nat) (exponent : Int) : Scalar :=
  match scaled (Binary64.ofNat significand) exponent with
  | some x => .double (if negative then x.negate else x)
  | none => .unusable

def exponentLimit : Nat := Nat.pow 2 31 - 1

/-- The value of a numeral: an integer when it has neither fraction nor exponent and fits 64 bits,
    a double otherwise. Digits beyond a 64-bit significand do not count. -/
def value (n : Numeral) : Scalar :=
  let (whole, extra) := absorb 0 n.whole
  match n.fraction, n.exponent with
  | none, none =>
    if !extra.isEmpty then double n.negative whole extra.length
    else if !n.negative then .integer whole
    else if whole = 0 || Nat.pow 2 63 < whole then double true whole 0
    else .integer (-(whole : Int))
  | fraction, exponent =>
    let places := fraction.getD []
    let (significand, unread) := absorb whole places
    let scale : Int := (extra.length : Int) - ((places.length - unread.length : Nat) : Int)
    match exponent with
    | none => double n.negative significand scale
    | some (down, digits) =>
      let shift := digits.foldl (fun acc d => acc * 10 + d) 0
      if exponentLimit < shift then
        if significand ≠ 0 && !down then .unusable else .double (Binary64.zero n.negative)
      else double n.negative significand (if down then scale - shift else scale + shift)

end Numeral

def takeDigits (bytes : Bytes) : List Nat × Bytes :=
  ((bytes.takeWhile isDigit).map digitValue, bytes.dropWhile isDigit)

/-- A number at the front of `bytes`; a leading zero stands alone. -/
def readNumber (negative : Bool) (bytes : Bytes) : Except Fault (Scalar × Bytes) :=
  let (whole, rest) := takeDigits bytes
  if whole.isEmpty || (whole.head? == some 0 && 1 < whole.length) then .error .badNumber
  else
    let fraction : Except Fault (Option (List Nat) × Bytes) :=
      match rest with
      | 0x2E :: after =>
        let (places, rest) := takeDigits after
        if places.isEmpty then .error .badNumber else .ok (some places, rest)
      | _ => .ok (none, rest)
    match fraction with
    | .error e => .error e
    | .ok (fraction, rest) =>
      let marked := match rest with
        | 0x65 :: after => some after
        | 0x45 :: after => some after
        | _ => none
      match marked with
      | none => .ok (Numeral.value ⟨negative, whole, fraction, none⟩, rest)
      | some after =>
        let (down, after) := match after with
          | 0x2B :: after => (false, after)
          | 0x2D :: after => (true, after)
          | _ => (false, after)
        let (digits, rest) := takeDigits after
        if digits.isEmpty then .error .badNumber
        else .ok (Numeral.value ⟨negative, whole, fraction, some (down, digits)⟩, rest)

def hexValue (b : UInt8) : Option Nat :=
  if isDigit b then some (digitValue b)
  else if 0x61 ≤ b && b ≤ 0x66 then some (b.toNat - 0x57)
  else if 0x41 ≤ b && b ≤ 0x46 then some (b.toNat - 0x37)
  else none

def hex4 (a b c d : UInt8) : Option Nat := do
  return (((← hexValue a) * 16 + (← hexValue b)) * 16 + (← hexValue c)) * 16 + (← hexValue d)

def plainEscape (b : UInt8) : Option UInt8 :=
  match b with
  | 0x22 => some 0x22
  | 0x5C => some 0x5C
  | 0x2F => some 0x2F
  | 0x62 => some 0x08
  | 0x66 => some 0x0C
  | 0x6E => some 0x0A
  | 0x72 => some 0x0D
  | 0x74 => some 0x09
  | _ => none

/-- The rest of a quoted text: its bytes, last first and `none` once a surrogate stood alone, and
    what follows the closing quote. -/
def readQuoted (taken : Option Bytes) : Bytes → Except Fault (Option Bytes × Bytes)
  | [] => .error .unexpectedEnd
  | 0x22 :: rest => .ok (taken.map List.reverse, rest)
  | 0x5C :: 0x75 :: a :: b :: c :: d :: rest =>
    match hex4 a b c d with
    | none => .error .badEscape
    | some unit =>
      if unit < 0xD800 || 0xE000 ≤ unit then
        readQuoted (taken.map ((String.utf8EncodeChar (Char.ofNat unit)).reverse ++ ·)) rest
      else if 0xDC00 ≤ unit then readQuoted none rest
      else
        match rest with
        | 0x5C :: 0x75 :: e :: f :: g :: h :: after =>
          match hex4 e f g h with
          | none => .error .badEscape
          | some low =>
            if 0xDC00 ≤ low && low < 0xE000 then
              let code := 0x10000 + (unit - 0xD800) * 0x400 + (low - 0xDC00)
              readQuoted (taken.map ((String.utf8EncodeChar (Char.ofNat code)).reverse ++ ·)) after
            else readQuoted none (0x5C :: 0x75 :: e :: f :: g :: h :: after)
        | other => readQuoted none other
  | 0x5C :: b :: rest =>
    match plainEscape b with
    | none => .error .badEscape
    | some value => readQuoted (taken.map (value :: ·)) rest
  | [0x5C] => .error .unexpectedEnd
  | b :: rest => if b < 0x20 then .error .controlCharacter else readQuoted (taken.map (b :: ·)) rest
termination_by bytes => bytes.length

/-- The text of a quoted one, or `unusable`. -/
def textScalar (bytes : Option Bytes) : Scalar :=
  match bytes.bind Utf8.decode? with
  | some text => .text text
  | none => .unusable

def word? (expected : List UInt8) (bytes : Bytes) : Option Bytes :=
  if expected.isPrefixOf bytes then some (bytes.drop expected.length) else none

def ofItems (depth : Nat) (items : List Datum) : Datum :=
  if nestingLimit ≤ depth then .unusable else .list items

/-- An object whose keys cannot all be used cannot be used itself. -/
def ofMembers (depth : Nat) (entries : List (Word × Datum)) : Datum :=
  if nestingLimit ≤ depth || entries.any (·.1.value == .unusable) then .unusable else .map entries

mutual

/-- A value at the front of `bytes`. `depth` counts the lists and objects around it. -/
def readValue (depth : Nat) (fuel : Nat) (bytes : Bytes) : Except Fault (Datum × Bytes) :=
  match fuel with
  | 0 => .error .unexpectedEnd
  | fuel + 1 =>
    match skipSpace bytes with
    | [] => .error .unexpectedEnd
    | 0x22 :: rest =>
      match readQuoted (some []) rest with
      | .error e => .error e
      | .ok (taken, rest) => .ok (.ofScalar (textScalar taken), rest)
    | 0x5B :: rest =>
      match skipSpace rest with
      | 0x5D :: rest => .ok (ofItems (depth + 1) [], rest)
      | rest =>
        match readItems (depth + 1) fuel rest with
        | .error e => .error e
        | .ok (items, rest) => .ok (ofItems (depth + 1) items, rest)
    | 0x7B :: rest =>
      match skipSpace rest with
      | 0x7D :: rest => .ok (ofMembers (depth + 1) [], rest)
      | rest =>
        match readMembers (depth + 1) fuel rest with
        | .error e => .error e
        | .ok (entries, rest) => .ok (ofMembers (depth + 1) entries, rest)
    | b :: rest =>
      if b == 0x2D then
        match readNumber true rest with
        | .error e => .error e
        | .ok (value, rest) => .ok (.ofScalar value, rest)
      else if isDigit b then
        match readNumber false (b :: rest) with
        | .error e => .error e
        | .ok (value, rest) => .ok (.ofScalar value, rest)
      else
        match word? [0x6E, 0x75, 0x6C, 0x6C] (b :: rest) with
        | some rest => .ok (.null, rest)
        | none =>
          match word? [0x74, 0x72, 0x75, 0x65] (b :: rest) with
          | some rest => .ok (.ofScalar (.bool true), rest)
          | none =>
            match word? [0x66, 0x61, 0x6C, 0x73, 0x65] (b :: rest) with
            | some rest => .ok (.ofScalar (.bool false), rest)
            | none => .error (.unexpected b)

/-- The items of a list up to its closing bracket; at least one. -/
def readItems (depth : Nat) (fuel : Nat) (bytes : Bytes) : Except Fault (List Datum × Bytes) :=
  match fuel with
  | 0 => .error .unexpectedEnd
  | fuel + 1 =>
    match readValue depth fuel bytes with
    | .error e => .error e
    | .ok (item, rest) =>
      match skipSpace rest with
      | 0x5D :: rest => .ok ([item], rest)
      | 0x2C :: rest =>
        match readItems depth fuel rest with
        | .error e => .error e
        | .ok (items, rest) => .ok (item :: items, rest)
      | [] => .error .unexpectedEnd
      | b :: _ => .error (.unexpected b)

/-- The members of an object up to its closing brace; at least one. -/
def readMembers (depth : Nat) (fuel : Nat) (bytes : Bytes) :
    Except Fault (List (Word × Datum) × Bytes) :=
  match fuel with
  | 0 => .error .unexpectedEnd
  | fuel + 1 =>
    match skipSpace bytes with
    | 0x22 :: rest =>
      match readQuoted (some []) rest with
      | .error e => .error e
      | .ok (taken, rest) =>
        match skipSpace rest with
        | 0x3A :: rest =>
          match readValue depth fuel rest with
          | .error e => .error e
          | .ok (value, rest) =>
            let entry : Word × Datum := ({ value := textScalar taken }, value)
            match skipSpace rest with
            | 0x7D :: rest => .ok ([entry], rest)
            | 0x2C :: rest =>
              match readMembers depth fuel rest with
              | .error e => .error e
              | .ok (entries, rest) => .ok (entry :: entries, rest)
            | [] => .error .unexpectedEnd
            | b :: _ => .error (.unexpected b)
        | [] => .error .unexpectedEnd
        | b :: _ => .error (.unexpected b)
    | [] => .error .unexpectedEnd
    | b :: _ => .error (.unexpected b)

end

/-- The one value of a document. Every step of the reader takes a byte or goes one level in, so
    twice the length is fuel enough. -/
def read (bytes : Bytes) : Except Fault Datum :=
  match readValue 0 (2 * bytes.length + 2) bytes with
  | .error e => .error e
  | .ok (value, rest) => if (skipSpace rest).isEmpty then .ok value else .error .trailing

end FormatLint.Json
