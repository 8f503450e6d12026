import FormatLint.Decimal.Binary64

/-!
The fewest decimal digits that read back as a given double. The digits are searched on the grids
of 1, 2, ... 17 significant digits: the first grid with a point that rounds to the double wins, and
of two such points the one nearer to the double.
-/

namespace FormatLint

/-- `digits * 10 ^ exponent`. -/
structure Decimal where
  digits : Nat
  exponent : Int
deriving DecidableEq

namespace Decimal

/-- A positive double's magnitude as a ratio. -/
def ratio (x : Binary64) : Nat × Nat := (x.significand * Nat.pow 2 x.scale, Nat.pow 2 1074)

/-- The number of decimal digits of a positive number. -/
def length (n : Nat) : Nat := (Nat.toDigits 10 n).length

/-- The power of ten of the leading digit of a positive ratio. -/
def magnitude (num den : Nat) : Int :=
  if den ≤ num then (length (num / den) : Int) - 1
  else
    -- the least k with num * 10 ^ k at least den
    let k := length (den / num) - 1
    if den ≤ num * Nat.pow 10 k then -(k : Int) else -(k + 1 : Int)

/-- The grid point at or below a ratio, in units of `10 ^ exponent`. -/
def floorAt (num den : Nat) (exponent : Int) : Nat :=
  match exponent with
  | .ofNat e => num / (den * Nat.pow 10 e)
  | .negSucc e => num * Nat.pow 10 (e + 1) / den

/-- Whether the ratio lies strictly above the middle between the grid points `q` and `q + 1`, or
    on the middle next to an odd `q`. -/
def nearerAbove (num den : Nat) (exponent : Int) (q : Nat) : Bool :=
  let (twice, middle) :=
    match exponent with
    | .ofNat e => (2 * num, (2 * q + 1) * (den * Nat.pow 10 e))
    | .negSucc e => (2 * num * Nat.pow 10 (e + 1), (2 * q + 1) * den)
  middle < twice || (middle == twice && q % 2 == 1)

/-- A grid point that reads back as `x`, if there is one among the two neighbours of `x`. -/
def onGrid (x : Binary64) (exponent : Int) : Option Decimal :=
  let (num, den) := ratio x
  let q := floorAt num den exponent
  let below := Binary64.ofDecimal false q exponent == x
  let above := Binary64.ofDecimal false (q + 1) exponent == x
  match below, above with
  | false, false => none
  | true, false => some ⟨q, exponent⟩
  | false, true => some ⟨q + 1, exponent⟩
  | true, true => some ⟨if nearerAbove num den exponent q then q + 1 else q, exponent⟩

/-- Searches the grids from `count` digits on, at most `fuel` of them. -/
def search (x : Binary64) (top : Int) (count : Nat) : Nat → Decimal
  | 0 => ⟨floorAt (ratio x).1 (ratio x).2 (top - 16), top - 16⟩
  | fuel + 1 =>
    match onGrid x (top + 1 - count) with
    | some d => d
    | none => search x top (count + 1) fuel

/-- Removes zeros from the end of the digits. -/
def stripZeros : Nat → Decimal → Decimal
  | 0, d => d
  | fuel + 1, d =>
    if d.digits ≠ 0 ∧ d.digits % 10 = 0 then stripZeros fuel ⟨d.digits / 10, d.exponent + 1⟩ else d

/-- The shortest decimal that reads back as the positive finite double `x`. -/
def shortest (x : Binary64) : Decimal :=
  let (num, den) := ratio x
  stripZeros 20 (search x (magnitude num den) 1 17)

end Decimal

end FormatLint
