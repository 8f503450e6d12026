/-!
Double-precision numbers as their 64 bits, with exact rounding. Every operation is defined through
ratios of natural numbers, so nothing depends on the arithmetic of the machine.
-/

namespace FormatLint

/-- An IEEE 754 double, given by its bits: sign, eleven exponent bits, fifty-two fraction bits. -/
structure Binary64 where
  bits : UInt64
deriving DecidableEq, Inhabited

namespace Binary64

def isNegative (x : Binary64) : Bool := x.bits.toNat / Nat.pow 2 63 == 1

def exponentBits (x : Binary64) : Nat := x.bits.toNat / Nat.pow 2 52 % Nat.pow 2 11

def fractionBits (x : Binary64) : Nat := x.bits.toNat % Nat.pow 2 52

def isFinite (x : Binary64) : Bool := x.exponentBits != 2047

/-- The magnitude of a finite number is `significand * 2 ^ (scale - 1074)`. -/
def significand (x : Binary64) : Nat :=
  if x.exponentBits = 0 then x.fractionBits else Nat.pow 2 52 + x.fractionBits

def scale (x : Binary64) : Nat := x.exponentBits - 1

def isZero (x : Binary64) : Bool := x.exponentBits == 0 && x.fractionBits == 0

def ofParts (negative : Bool) (magnitude : Nat) : Binary64 :=
  ⟨UInt64.ofNat ((if negative then Nat.pow 2 63 else 0) + magnitude)⟩

def zero (negative : Bool) : Binary64 := ofParts negative 0

def infinity (negative : Bool) : Binary64 := ofParts negative (2047 * Nat.pow 2 52)

def nan : Binary64 := ofParts false (2047 * Nat.pow 2 52 + Nat.pow 2 51)

def negate (x : Binary64) : Binary64 := ⟨x.bits ^^^ 0x8000000000000000⟩

/-- The nearest natural number to a ratio; a half goes to the even neighbour. -/
def roundRatio (num den : Nat) : Nat :=
  let q := num / den
  let r := num % den
  if 2 * r < den then q
  else if 2 * r = den then q + q % 2
  else q + 1

/-- The scale at which a positive ratio has a significand of fifty-three bits, or the least scale
    when the ratio is smaller than that. -/
def scaleFor (num den : Nat) : Nat :=
  -- the ratio times 2 ^ 1074 lies between 2 ^ (k - 2) and 2 ^ k
  let k := num.log2 + 1075 - den.log2
  let low := k - 54
  if num * Nat.pow 2 1074 < den * Nat.pow 2 (low + 53) then low else low + 1

/-- The double nearest to a ratio, ties to even; infinity when it is too large. -/
def ofRatio (negative : Bool) (num den : Nat) : Binary64 :=
  if num = 0 then zero negative
  else
    let s := scaleFor num den
    let m := roundRatio (num * Nat.pow 2 1074) (den * Nat.pow 2 s)
    -- rounding up to 2 ^ 53 carries into the exponent by itself
    let magnitude := if m < Nat.pow 2 52 then m else (s + 1) * Nat.pow 2 52 + (m - Nat.pow 2 52)
    if 2047 * Nat.pow 2 52 ≤ magnitude then infinity negative else ofParts negative magnitude

def ofNat (n : Nat) : Binary64 := ofRatio false n 1

/-- The product of the magnitudes of two finite numbers. -/
def mulMagnitude (x y : Binary64) : Binary64 :=
  ofRatio false (x.significand * y.significand * Nat.pow 2 (x.scale + y.scale)) (Nat.pow 2 2148)

/-- The quotient of the magnitudes of two finite numbers, the second one not zero. -/
def divMagnitude (x y : Binary64) : Binary64 :=
  ofRatio false (x.significand * Nat.pow 2 x.scale) (y.significand * Nat.pow 2 y.scale)

/-- The power of ten as a double. -/
def tenPow (n : Nat) : Binary64 := ofNat (Nat.pow 10 n)

/-- The double nearest to `digits * 10 ^ exponent`. -/
def ofDecimal (negative : Bool) (digits : Nat) (exponent : Int) : Binary64 :=
  if digits = 0 then zero negative
  else if exponent > 400 then infinity negative
  else if exponent + (digits.log2 : Int) < -1200 then zero negative
  else
    match exponent with
    | .ofNat e => ofRatio negative (digits * Nat.pow 10 e) 1
    | .negSucc e => ofRatio negative digits (Nat.pow 10 (e + 1))

end Binary64

end FormatLint
