import FormatLint.Toml.Table
import FormatLint.Text.Numeral

/-!
The strings, numbers and dates of TOML.
-/

namespace FormatLint.Toml

def isBlank (c : Char) : Bool := c == ' ' || c == '\t'

def skipBlanks (cs : List Char) : List Char := cs.dropWhile isBlank

/-- Characters of comments and of texts: a tab, or no control character. -/
def isTextChar (c : Char) : Bool := c == '\t' || (0x20 ≤ c.toNat && c.toNat != 0x7F)

/-- What follows a line break at the front. -/
def lineBreak? : List Char → Option (List Char)
  | '\n' :: rest => some rest
  | '\r' :: '\n' :: rest => some rest
  | _ => none

def hexScalar (count : Nat) (cs : List Char) : Except Fault (Char × List Char) :=
  let digits := cs.take count
  if digits.length < count then .error .badString
  else
    match Text.natIn? 16 digits with
    | none => .error .badString
    | some n =>
      if (0xD800 ≤ n && n ≤ 0xDFFF) || 0x10FFFF < n then .error .badString
      else .ok (Char.ofNat n, cs.drop count)

/-- The character of an escape, from after its backslash. -/
def escape : List Char → Except Fault (Char × List Char)
  | 'b' :: rest => .ok ('\x08', rest)
  | 't' :: rest => .ok ('\t', rest)
  | 'n' :: rest => .ok ('\n', rest)
  | 'f' :: rest => .ok ('\x0C', rest)
  | 'r' :: rest => .ok ('\r', rest)
  | '"' :: rest => .ok ('"', rest)
  | '\\' :: rest => .ok ('\\', rest)
  | 'u' :: rest => hexScalar 4 rest
  | 'U' :: rest => hexScalar 8 rest
  | _ => .error .badString

/-- The rest of a text in double quotes, `taken` last character first. -/
def basicString (taken : List Char) (cs : List Char) : Nat → Except Fault (String × List Char)
  | 0 => .error .badString
  | fuel + 1 =>
    match cs with
    | '"' :: rest => .ok (String.ofList taken.reverse, rest)
    | '\\' :: rest =>
      match escape rest with
      | .error e => .error e
      | .ok (c, rest) => basicString (c :: taken) rest fuel
    | c :: rest => if isTextChar c then basicString (c :: taken) rest fuel else .error .badString
    | [] => .error .badString

/-- The rest of a text in single quotes. -/
def literalString (cs : List Char) : Except Fault (String × List Char) :=
  let body := cs.takeWhile fun c => c != '\'' && isTextChar c
  match cs.drop body.length with
  | '\'' :: rest => .ok (String.ofList body, rest)
  | _ => .error .badString

/-- Line breaks and blanks after a backslash at the end of a line. -/
def skipContinuation (cs : List Char) : List Char :=
  cs.dropWhile fun c => isBlank c || c == '\n' || c == '\r'

/-- The rest of a text of several lines; the three quotes that end it may follow up to two more
    that belong to it. -/
def longString (quote : Char) (taken : List Char) (cs : List Char) :
    Nat → Except Fault (String × List Char)
  | 0 => .error .badString
  | fuel + 1 =>
    let quotes := (cs.takeWhile (· == quote)).length
    if 3 ≤ quotes then
      let own := quotes - 3
      if 2 < own then .error .badString
      else
        .ok (String.ofList (List.replicate own quote ++ taken).reverse, cs.drop quotes)
    else if 0 < quotes then
      longString quote (List.replicate quotes quote ++ taken) (cs.drop quotes) fuel
    else
      match lineBreak? cs with
      | some rest => longString quote ('\n' :: taken) rest fuel
      | none =>
        match cs with
        | [] => .error .badString
        | '\\' :: rest =>
          if quote == '\'' then longString quote ('\\' :: taken) rest fuel
          else
            match lineBreak? (skipBlanks rest) with
            | some rest => longString quote taken (skipContinuation rest) fuel
            | none =>
              match escape rest with
              | .error e => .error e
              | .ok (c, rest) => longString quote (c :: taken) rest fuel
        | c :: rest =>
          if isTextChar c then longString quote (c :: taken) rest fuel else .error .badString

/-- A text of several lines does not contain a line break right after its opening. -/
def openLong (quote : Char) (cs : List Char) : Except Fault (String × List Char) :=
  let body := (lineBreak? cs).getD cs
  longString quote [] body (body.length + 1)

def string (cs : List Char) : Except Fault (String × List Char) :=
  match cs with
  | '"' :: '"' :: '"' :: rest => openLong '"' rest
  | '\'' :: '\'' :: '\'' :: rest => openLong '\'' rest
  | '"' :: rest => basicString [] rest (rest.length + 1)
  | '\'' :: rest => literalString rest
  | _ => .error (.expected "string")

/-- Digits in a base, with single underscores between them. -/
def digitRun (base : Nat) : List Char → Option (List Nat)
  | [] => none
  | [c] => (Text.digitIn base c).map fun d => [d]
  | c :: '_' :: rest => do return (← Text.digitIn base c) :: (← digitRun base rest)
  | c :: rest => do return (← Text.digitIn base c) :: (← digitRun base rest)

def ofDigits (base : Nat) (digits : List Nat) : Nat := digits.foldl (fun n d => n * base + d) 0

/-- A decimal integer without a zero in front. -/
def wholeDigits (cs : List Char) : Option (List Nat) :=
  match digitRun 10 cs with
  | some (0 :: _ :: _) => none
  | other => other

/-- A signed number of 64 bits. -/
def bounded (i : Int) : Except Fault Scalar :=
  if -(Int.pow 2 63) ≤ i ∧ i < Int.pow 2 63 then .ok (.integer i) else .error .badNumber

def fractional (negative : Bool) (whole places : List Nat) (exponent : Int) : Except Fault Scalar :=
  let x := Binary64.ofDecimal negative (ofDigits 10 (whole ++ places)) (exponent - places.length)
  if x.isFinite || negative then .ok (.double x) else .error .badNumber

def exponentOf (cs : List Char) : Option Int :=
  match cs with
  | '-' :: digits => (digitRun 10 digits).map fun ds => -(ofDigits 10 ds : Int)
  | '+' :: digits => (digitRun 10 digits).map fun ds => (ofDigits 10 ds : Int)
  | digits => (digitRun 10 digits).map fun ds => (ofDigits 10 ds : Int)

def isExponentMark (c : Char) : Bool := c == 'e' || c == 'E'

/-- A number from its whole spelling. -/
def number (token : List Char) : Except Fault Scalar :=
  let fail : Except Fault Scalar := .error .badNumber
  let orFail (o : Option (Except Fault Scalar)) : Except Fault Scalar := o.getD fail
  let inBase (base : Nat) (digits : List Char) : Except Fault Scalar :=
    orFail ((digitRun base digits).map fun ds => bounded (ofDigits base ds))
  match token with
  | '0' :: 'x' :: digits => inBase 16 digits
  | '0' :: 'o' :: digits => inBase 8 digits
  | '0' :: 'b' :: digits => inBase 2 digits
  | _ =>
    let (negative, body) := match token with
      | '-' :: rest => (true, rest)
      | '+' :: rest => (false, rest)
      | _ => (false, token)
    if body == "inf".toList then .ok (.double (Binary64.infinity negative))
    else if body == "nan".toList then .ok (.double Binary64.nan)
    else
      let mantissa := body.takeWhile (!isExponentMark ·)
      let exponent : Option (Option Int) := match body.drop mantissa.length with
        | [] => some none
        | _ :: rest => (exponentOf rest).map some
      let whole := mantissa.takeWhile (· != '.')
      let places : Option (Option (List Nat)) := match mantissa.drop whole.length with
        | [] => some none
        | _ :: rest => (digitRun 10 rest).map some
      match wholeDigits whole, places, exponent with
      | some digits, some none, some none =>
        let n : Int := ofDigits 10 digits
        bounded (if negative then -n else n)
      | some digits, some places, some exponent =>
        fractional negative digits (places.getD []) (exponent.getD 0)
      | _, _, _ => fail

/-- A number of exactly `count` digits at the front. -/
def fixedDigits (count : Nat) (cs : List Char) : Option (Nat × List Char) :=
  let digits := cs.take count
  if digits.length = count && digits.all Char.isDigit then
    some (digits.foldl (fun n d => n * 10 + (d.toNat - 48)) 0, cs.drop count)
  else none

def daysIn (year month : Nat) : Nat :=
  if month = 2 then
    (if (year % 4 = 0 && year % 100 ≠ 0) || year % 400 = 0 then 29 else 28)
  else if [4, 6, 9, 11].contains month then 30 else 31

def padded (width n : Nat) : String :=
  let digits := Nat.toDigits 10 n
  String.ofList (List.replicate (width - digits.length) '0' ++ digits)

/-- A character at the front that must be `c`. -/
def expect (c : Char) : List Char → Option (List Char)
  | d :: rest => if c == d then some rest else none
  | [] => none

/-- A date at the front and its text. -/
def date (cs : List Char) : Option (Except Fault (String × List Char)) := do
  let (year, cs) ← fixedDigits 4 cs
  let cs ← expect '-' cs
  let made : Option (String × List Char) := do
    let (month, cs) ← fixedDigits 2 cs
    let cs ← expect '-' cs
    let (day, cs) ← fixedDigits 2 cs
    if 1 ≤ month && month ≤ 12 && 1 ≤ day && day ≤ daysIn year month then
      some (padded 4 year ++ "-" ++ padded 2 month ++ "-" ++ padded 2 day, cs)
    else none
  match made with
  | some r => some (.ok r)
  | none => some (.error .badDate)

/-- The fraction of a second to nine places, without the zeros at its end. -/
def secondFraction (digits : List Char) : String :=
  let kept := ((digits.take 9).reverse.dropWhile (· == '0')).reverse
  if kept.isEmpty then "" else "." ++ String.ofList kept

/-- A time of day at the front and its text. -/
def time (cs : List Char) : Option (Except Fault (String × List Char)) := do
  let (hour, cs) ← fixedDigits 2 cs
  let cs ← expect ':' cs
  let made : Option (String × List Char) := do
    let (minute, cs) ← fixedDigits 2 cs
    let cs ← expect ':' cs
    let (second, cs) ← fixedDigits 2 cs
    let (fraction, cs) ← match cs with
      | '.' :: rest =>
        let digits := rest.takeWhile Char.isDigit
        if digits.isEmpty then none
        else some (secondFraction digits, rest.drop digits.length)
      | _ => some ("", cs)
    if hour ≤ 23 && minute ≤ 59 && second ≤ 60 then
      some (padded 2 hour ++ ":" ++ padded 2 minute ++ ":" ++ padded 2 second ++ fraction, cs)
    else none
  match made with
  | some r => some (.ok r)
  | none => some (.error .badDate)

/-- An offset from universal time at the front; its text is empty when there is none. -/
def offset (cs : List Char) : Except Fault (String × List Char) :=
  match cs with
  | 'Z' :: rest => .ok ("Z", rest)
  | 'z' :: rest => .ok ("Z", rest)
  | c :: rest =>
    if c == '+' || c == '-' then
      let made : Option (String × List Char) := do
        let (hour, cs) ← fixedDigits 2 rest
        let cs ← expect ':' cs
        let (minute, cs) ← fixedDigits 2 cs
        if hour ≤ 23 && minute ≤ 59 then
          let sign := if c == '-' && 0 < hour + minute then "-" else "+"
          some (sign ++ padded 2 hour ++ ":" ++ padded 2 minute, cs)
        else none
      match made with
      | some r => .ok r
      | none => .error .badDate
    else .ok ("", cs)
  | [] => .ok ("", [])

/-- A date, a time or both at the front; `none` when it is neither. -/
def dateTime (cs : List Char) : Option (Except Fault (String × List Char)) :=
  match date cs with
  | some (.error e) => some (.error e)
  | some (.ok (day, rest)) =>
    let separated := match rest with
      | 'T' :: after => time after
      | 't' :: after => time after
      | ' ' :: after => time after
      | _ => none
    match separated with
    | none => some (.ok (day, rest))
    | some (.error e) => some (.error e)
    | some (.ok (clock, rest)) =>
      match offset rest with
      | .error e => some (.error e)
      | .ok (zone, rest) => some (.ok (day ++ "T" ++ clock ++ zone, rest))
  | none => time cs

end FormatLint.Toml
