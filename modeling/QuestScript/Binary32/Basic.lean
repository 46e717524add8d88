/-!
# Numbers of 32 bits with a floating point

Float literals are kept as bit patterns. A finite pattern stands for `mantissa * 2 ^ exponent`,
and `Binary32.ofRatio` gives the pattern nearest to a quotient of naturals, all in exact
arithmetic.
-/

namespace QuestScript

/-- A floating point number of 32 bits, given by its bit pattern. -/
structure Binary32 where
  bits : UInt32
  deriving DecidableEq, Inhabited

/-- The quotient of naturals rounded to a natural; a half goes to the even neighbour. -/
def roundHalfEven (num den : Nat) : Nat :=
  let down := num / den
  let rest := 2 * (num % den)
  if rest < den then down
  else if den < rest then down + 1
  else down + down % 2

/-- The natural nearest to `n` that is `m * 2 ^ k` with `m` of at most `bits` bits; a half goes to
the even neighbour. -/
def roundToBits (bits n : Nat) : Nat :=
  let unit := Nat.pow 2 (n.log2 + 1 - bits)
  roundHalfEven n unit * unit

/-- The quotient `num / (den * 2 ^ q)` as numerator and denominator. -/
def scaleByPowerOfTwo (num den : Nat) (q : Int) : Nat × Nat :=
  (num * Nat.pow 2 (-q).toNat, den * Nat.pow 2 q.toNat)

namespace Binary32

/-- The pattern of positive infinity. -/
def infinityBits : Nat := 0x7f800000

/-- The sign bit is set. -/
def isNegative (x : Binary32) : Bool :=
  x.bits &&& 0x80000000 != 0

/-- The pattern without its sign bit. -/
def magnitudeBits (x : Binary32) : Nat :=
  (x.bits &&& 0x7fffffff).toNat

/-- The pattern stands for neither an infinity nor a missing number. -/
def isFinite (x : Binary32) : Bool :=
  x.magnitudeBits < infinityBits

/-- The pattern stands for a missing number. -/
def isNaN (x : Binary32) : Bool :=
  infinityBits < x.magnitudeBits

/-- The pattern stands for zero of either sign. -/
def isZero (x : Binary32) : Bool :=
  x.magnitudeBits == 0

/-- The mantissa of a finite number. -/
def mantissa (x : Binary32) : Nat :=
  let field := x.magnitudeBits / Nat.pow 2 23
  let fraction := x.magnitudeBits % Nat.pow 2 23
  if field = 0 then fraction else fraction + Nat.pow 2 23

/-- The binary exponent of a finite number. -/
def exponent (x : Binary32) : Int :=
  let field : Nat := x.magnitudeBits / Nat.pow 2 23
  if field = 0 then -149 else (field : Int) - 150

/-- The magnitude of a finite number as numerator and denominator. -/
def ratio (x : Binary32) : Nat × Nat :=
  (x.mantissa * Nat.pow 2 x.exponent.toNat, Nat.pow 2 (-x.exponent).toNat)

/-- Sets the sign of a pattern of magnitude bits. -/
def withSign (negative : Bool) (magnitude : Nat) : Binary32 :=
  ⟨UInt32.ofNat magnitude ||| (if negative then 0x80000000 else 0)⟩

/-- The binary exponent at which `num / den` has a mantissa of 24 bits, or the least exponent of
all when the quotient is too small for that. -/
def exponentFor (num den : Nat) : Int :=
  let guess := max ((num.log2 : Int) - den.log2 - 24) (-149)
  let (n, d) := scaleByPowerOfTwo num den guess
  if n / d < Nat.pow 2 24 then guess else guess + 1

/-- The number nearest to `num / den`; of two that are equally near, the one with an even
mantissa. A quotient beyond the largest finite number becomes infinite. -/
def ofRatio (negative : Bool) (num den : Nat) : Binary32 :=
  if num = 0 then withSign negative 0
  else
    let q := exponentFor num den
    let (n, d) := scaleByPowerOfTwo num den q
    let magnitude := (q + 149).toNat * Nat.pow 2 23 + roundHalfEven n d
    withSign negative (min magnitude infinityBits)

/-- The number of decimal digits of a positive natural. -/
def digitCount (n : Nat) : Nat :=
  (Nat.toDigits 10 n).length

/-- The number nearest to `digits * 10 ^ exponent`. Powers far outside the range are cut short:
the result is infinite or zero whatever the digits are. -/
def ofDecimal (negative : Bool) (digits : Nat) (exponent : Int) : Binary32 :=
  let top := exponent + digitCount digits
  if digits = 0 ∨ top < -60 then withSign negative 0
  else if 60 < top then withSign negative infinityBits
  else ofRatio negative (digits * Nat.pow 10 exponent.toNat) (Nat.pow 10 (-exponent).toNat)

end Binary32

end QuestScript
