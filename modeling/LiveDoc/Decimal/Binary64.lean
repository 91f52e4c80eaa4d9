/-!
# Binary numbers of double precision

The finite numbers of the 64-bit binary format, and the rounding of exact quotients to them. A
number is `significand * 2 ^ exponent`, with a sign of its own so that zero has two.
-/

set_option autoImplicit false
set_option relaxedAutoImplicit false

namespace LiveDoc.Decimal

/-- A finite number of the 64-bit format. The significand has at most 53 bits, and exactly 53 unless
the exponent is the least one, -1074. -/
structure Binary64 where
  negative : Bool
  significand : Nat
  exponent : Int
deriving DecidableEq, Repr

structure Quotient where
  numerator : Nat
  denominator : Nat
deriving DecidableEq, Repr

namespace Quotient

def ofScaled (n : Nat) (e : Int) : Quotient :=
  if e < 0 then ⟨n, Nat.pow 2 e.natAbs⟩ else ⟨n * Nat.pow 2 e.natAbs, 1⟩

def mul (x y : Quotient) : Quotient :=
  ⟨x.numerator * y.numerator, x.denominator * y.denominator⟩

def div (x y : Quotient) : Quotient :=
  ⟨x.numerator * y.denominator, x.denominator * y.numerator⟩

def nearest (x : Quotient) : Nat :=
  let whole := x.numerator / x.denominator
  let rest := 2 * (x.numerator % x.denominator)
  if rest < x.denominator then whole
  else if rest = x.denominator then whole + whole % 2
  else whole + 1

/-- The greatest `e` with `2 ^ e` at most the quotient, which is not zero. -/
def log2 (x : Quotient) : Int :=
  let guess : Int := (x.numerator.log2 : Int) - x.denominator.log2
  let power := ofScaled 1 guess
  if x.numerator * power.denominator < power.numerator * x.denominator then guess - 1 else guess

end Quotient

namespace Binary64

def zero (negative : Bool) : Binary64 :=
  ⟨negative, 0, -1074⟩

def magnitude (x : Binary64) : Quotient :=
  .ofScaled x.significand x.exponent

/-- The number nearest to a quotient, ties to the even significand; none if it is beyond all finite
numbers. -/
def round (x : Quotient) : Option Binary64 :=
  if x.numerator = 0 then some (zero false)
  else
    let exponent := max (x.log2 - 52) (-1074)
    let significand := (x.div (.ofScaled 1 exponent)).nearest
    let (significand, exponent) :=
      if significand = Nat.pow 2 53 then (Nat.pow 2 52, exponent + 1) else (significand, exponent)
    if exponent > 971 then none else some ⟨false, significand, exponent⟩

def mul? (x y : Binary64) : Option Binary64 :=
  round (x.magnitude.mul y.magnitude)

def div? (x y : Binary64) : Option Binary64 :=
  round (x.magnitude.div y.magnitude)

def withSign (negative : Bool) (x : Binary64) : Binary64 :=
  { x with negative }

/-- The magnitude times a power of ten, in the steps of double precision: the power itself is
rounded first, and below `10 ^ -308` the division is done in several steps. None on overflow. -/
def scaleTen? (x : Binary64) (e : Int) : Option Binary64 :=
  if x.significand = 0 ∧ e < -308 then some x
  else if e > 308 then if x.significand = 0 then some x else none
  else if e < -308 then do
    let least ← round ⟨Nat.pow 10 308, 1⟩
    let smaller ← x.div? least
    smaller.scaleTen? (e + 308)
  else do
    let power ← round ⟨Nat.pow 10 e.natAbs, 1⟩
    if e < 0 then x.div? power else x.mul? power
termination_by e.natAbs
decreasing_by omega

end Binary64

end LiveDoc.Decimal
