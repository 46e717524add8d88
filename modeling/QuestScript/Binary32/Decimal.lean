import QuestScript.Binary32.Basic

/-!
# Decimal text of a floating point number

Two layouts are used. A listing writes the fewest digits that read back as the same number,
without an exponent. A diagnostic writes six significant digits, with an exponent for very large
and very small numbers.
-/

namespace QuestScript

/-- Decimal digits with the weight of the first: `digits` stands for `0.d₁d₂… * 10 ^ point`. -/
structure DecimalDigits where
  digits : List Char
  point : Int

namespace DecimalDigits

/-- The digits in positional form, without a point when there is no fraction. -/
def positional (d : DecimalDigits) : String :=
  if d.point ≤ 0 then
    String.ofList ('0' :: '.' :: List.replicate (-d.point).toNat '0' ++ d.digits)
  else
    let whole := d.digits.take d.point.toNat
    let padding := List.replicate (d.point.toNat - d.digits.length) '0'
    match d.digits.drop d.point.toNat with
    | [] => String.ofList (whole ++ padding)
    | fraction => String.ofList (whole ++ '.' :: fraction)

/-- The digits without zeros at their end, but with at least one digit. -/
def trimmed (d : DecimalDigits) : DecimalDigits :=
  match (d.digits.reverse.dropWhile (· == '0')).reverse with
  | [] => ⟨['0'], d.point⟩
  | digits => ⟨digits, d.point⟩

/-- The digits with one digit before the point and an exponent of at least two digits. -/
def scientific (d : DecimalDigits) : String :=
  let exponent := d.point - 1
  let sign := if exponent < 0 then "-" else "+"
  let number := toString exponent.natAbs
  let padded := if number.length < 2 then "0" ++ number else number
  let mantissa :=
    match d.digits with
    | [] => ""
    | [first] => first.toString
    | first :: rest => String.ofList (first :: '.' :: rest)
  mantissa ++ "e" ++ sign ++ padded

end DecimalDigits

namespace Binary32

/-- The weight of the first decimal digit of a positive quotient: the least `p` with
`num / den < 10 ^ p`. -/
def decimalPoint (num den : Nat) : Int :=
  let guess := (digitCount num : Int) - digitCount den
  if den * Nat.pow 10 guess.toNat ≤ num * Nat.pow 10 (-guess).toNat then guess + 1 else guess

/-- The quotient `num / den` in units of `10 ^ unit`, as numerator and denominator. -/
def inUnits (num den : Nat) (unit : Int) : Nat × Nat :=
  (num * Nat.pow 10 (-unit).toNat, den * Nat.pow 10 unit.toNat)

/-- The decimal `n * 10 ^ unit` reads back as `x`: it lies between the midpoints to the two
neighbours of `x`, and on a midpoint only if the mantissa of `x` is even. -/
def readsBack (x : Binary32) (n : Nat) (unit : Int) : Bool :=
  let m := x.mantissa
  let low := 4 * m - (if m = Nat.pow 2 23 ∧ -149 < x.exponent then 1 else 2)
  let high := 4 * m + 2
  let (a, b) :=
    scaleByPowerOfTwo (n * Nat.pow 10 unit.toNat) (Nat.pow 10 (-unit).toNat) (x.exponent - 2)
  if m % 2 = 0 then low * b ≤ a && a ≤ high * b else low * b < a && a < high * b

/-- The decimal with `count` digits nearest to `x` of those that read back as `x`; of two
equally near, the larger. -/
def nearestDecimal? (x : Binary32) (point : Int) (count : Nat) : Option Nat :=
  let unit := point - count
  let (n, d) := inUnits x.ratio.1 x.ratio.2 unit
  let down := n / d
  let nearer := if d ≤ 2 * (n % d) then down + 1 else down
  let farther := if nearer = down then down + 1 else down
  if readsBack x nearer unit then some nearer
  else if readsBack x farther unit then some farther
  else none

/-- The fewest digits that read back as the positive finite number `x`, trying `count` digits and
up to `more` further ones. -/
def shortestFrom (x : Binary32) (point : Int) (count : Nat) : Nat → DecimalDigits
  | 0 => ⟨[], point⟩
  | more + 1 =>
    match nearestDecimal? x point count with
    | some n =>
      let digits := Nat.toDigits 10 n
      DecimalDigits.trimmed ⟨digits, point + (digits.length - count)⟩
    | none => shortestFrom x point (count + 1) more

/-- The text of a number in a listing: the fewest digits that read back, never an exponent. -/
def listed (x : Binary32) : String :=
  if x.isNaN then "NaN"
  else
    let sign := if x.isNegative then "-" else ""
    if !x.isFinite then sign ++ "inf"
    else if x.isZero then sign ++ "0"
    else
      let point := decimalPoint x.ratio.1 x.ratio.2
      sign ++ (shortestFrom x point 1 17).positional

/-- The positive finite number `x` rounded to `count` digits; a half goes to the even digit. -/
def roundedTo (x : Binary32) (count : Nat) : DecimalDigits :=
  let point := decimalPoint x.ratio.1 x.ratio.2
  let (n, d) := inUnits x.ratio.1 x.ratio.2 (point - count)
  let digits := Nat.toDigits 10 (roundHalfEven n d)
  ⟨digits.take count, point + (digits.length - count)⟩

/-- The text of a number in a diagnostic: six significant digits without zeros at the end, with
an exponent if the first digit stands below the fourth decimal place or above the sixth digit
before the point. -/
def general (x : Binary32) : String :=
  if x.isZero || !x.isFinite then x.listed
  else
    let sign := if x.isNegative then "-" else ""
    let digits := x.roundedTo 6
    if -4 < digits.point ∧ digits.point ≤ 6 then sign ++ digits.trimmed.positional
    else sign ++ digits.trimmed.scientific

end Binary32

end QuestScript
