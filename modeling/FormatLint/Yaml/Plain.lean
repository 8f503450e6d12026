import FormatLint.Data.Datum
import FormatLint.Text.Numeral

/-!
What a plain scalar of a YAML text stands for.
-/

namespace FormatLint.Yaml

/-- A sign at the front of a numeral. -/
def dropSign (cs : List Char) : List Char :=
  match cs with
  | '-' :: rest => rest
  | '+' :: rest => rest
  | _ => cs

/-- Zeros in front of further digits make a text. -/
def hasLeadingZero (cs : List Char) : Bool :=
  match dropSign cs with
  | '0' :: d :: rest => (d :: rest).all Char.isDigit
  | _ => false

/-- The number after a base mark, or a decimal one. -/
def magnitude? (cs : List Char) : Option Nat :=
  match cs with
  | '0' :: 'x' :: rest => Text.natIn? 16 rest
  | '0' :: 'o' :: rest => Text.natIn? 8 rest
  | '0' :: 'b' :: rest => Text.natIn? 2 rest
  | _ => Text.natIn? 10 cs

/-- Integers of at most 128 bits; only those of 64 bits have a use. -/
def integer? (cs : List Char) : Option Int :=
  if hasLeadingZero cs then none
  else
    match cs with
    | '-' :: rest => (magnitude? rest).bind fun n => if n ≤ Nat.pow 2 127 then some (-(n : Int)) else none
    | '+' :: rest => (magnitude? rest).bind fun n => if n < Nat.pow 2 128 then some (n : Int) else none
    | _ => (magnitude? cs).bind fun n => if n < Nat.pow 2 128 then some (n : Int) else none

/-- A decimal fraction with an optional exponent; digits on at least one side of the point. -/
def decimal? (cs : List Char) : Option Binary64 := do
  let (negative, body) := match cs with
    | '-' :: rest => (true, rest)
    | '+' :: rest => (false, rest)
    | _ => (false, cs)
  let whole := body.takeWhile Char.isDigit
  let rest := body.dropWhile Char.isDigit
  let (places, rest) := match rest with
    | '.' :: rest => (rest.takeWhile Char.isDigit, rest.dropWhile Char.isDigit)
    | _ => ([], rest)
  if whole.isEmpty && places.isEmpty then none
  let exponent ← match rest with
    | [] => some (0 : Int)
    | e :: rest =>
      if e == 'e' || e == 'E' then
        match rest with
        | '-' :: digits => (Text.natIn? 10 digits).map fun n => -(n : Int)
        | '+' :: digits => (Text.natIn? 10 digits).map fun n => (n : Int)
        | digits => (Text.natIn? 10 digits).map fun n => (n : Int)
      else none
  let digits := (whole ++ places).foldl (fun n d => n * 10 + (d.toNat - 48)) 0
  let x := Binary64.ofDecimal negative digits (exponent - places.length)
  if x.isFinite then some x else none

def double? (cs : List Char) : Option Binary64 :=
  let text := String.ofList cs
  let unsigned := match cs with
    | '+' :: rest => String.ofList rest
    | _ => text
  if unsigned ∈ [".inf", ".Inf", ".INF"] then some (Binary64.infinity false)
  else if text ∈ ["-.inf", "-.Inf", "-.INF"] then some (Binary64.infinity true)
  else if text ∈ [".nan", ".NaN", ".NAN"] then some Binary64.nan
  else if hasLeadingZero cs then none
  else decimal? cs

def isNullText (text : String) : Bool := ["", "null", "Null", "NULL", "~"].contains text

/-- The value of a plain scalar. -/
def resolve (text : String) : Scalar :=
  let cs := text.toList
  if isNullText text then .null
  else if text ∈ ["true", "True", "TRUE"] then .bool true
  else if text ∈ ["false", "False", "FALSE"] then .bool false
  else
    match integer? cs with
    | some i => .integer i
    | none =>
      match double? cs with
      | some x => .double x
      | none => .text text

end FormatLint.Yaml
