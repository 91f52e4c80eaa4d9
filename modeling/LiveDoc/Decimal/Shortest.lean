import LiveDoc.Decimal.Binary64

/-!
# Shortest decimals

The decimal with the fewest digits among those that round to a given binary number, and of these the
nearest; of two equally near ones the one with the even last digit.
-/

set_option autoImplicit false
set_option relaxedAutoImplicit false

namespace LiveDoc.Decimal

structure Digits where
  digits : List Char
  point : Int
deriving DecidableEq, Repr

namespace Shortest

/-- The least `k` with the quotient below `10 ^ k`; the quotient is not zero. -/
def scaleOf (x : Quotient) : Int :=
  if x.denominator ≤ x.numerator then ((Nat.toDigits 10 (x.numerator / x.denominator)).length : Int)
  else 1 - ((Nat.toDigits 10 ((x.denominator - 1) / x.numerator)).length : Int)

/-- The reals that round to a number: its bounds in quarters of a unit of its last place, and
whether they belong to it. The lower neighbour of a power of two is nearer than the upper one. -/
structure Interval where
  low : Nat
  high : Nat
  closed : Bool

def intervalOf (x : Binary64) : Interval :=
  let below := if x.significand = Nat.pow 2 52 ∧ -1074 < x.exponent then 1 else 2
  ⟨4 * x.significand - below, 4 * x.significand + 2, x.significand % 2 = 0⟩

/-- Whether `n / denominator` quarter units lie in the interval. -/
def Interval.holds (i : Interval) (n denominator : Nat) : Bool :=
  if i.closed then i.low * denominator ≤ n && n ≤ i.high * denominator
  else i.low * denominator < n && n < i.high * denominator

/-- A decimal with `count` digits that rounds to the number, the nearest if there are two, and the
even one if they are equally near: it is one of the two neighbours on the grid of that many
digits. -/
def withDigits? (x : Binary64) (count : Nat) : Option Nat :=
  let quarter := Quotient.ofScaled 1 (x.exponent - 2)
  let scale := scaleOf x.magnitude
  let step : Quotient :=
    if scale < count then ⟨1, Nat.pow 10 (count - scale).natAbs⟩
    else ⟨Nat.pow 10 (scale - count).natAbs, 1⟩
  -- One grid step, in quarter units.
  let ratio := step.div quarter
  let interval := intervalOf x
  let value := 4 * x.significand * ratio.denominator
  let lower := value / ratio.numerator
  let upper := lower + 1
  let fits (n : Nat) : Bool := interval.holds (n * ratio.numerator) ratio.denominator
  match fits lower, fits upper with
  | true, true => some (Quotient.nearest ⟨value, ratio.numerator⟩)
  | true, false => some lower
  | false, true => some upper
  | false, false => none

/-- The first count of digits, from `count` on, that has a decimal which rounds to the number. -/
def search (x : Binary64) : Nat → Nat → Option (Nat × Nat)
  | 0, _ => none
  | fuel + 1, count =>
    match withDigits? x count with
    | some n => some (n, count)
    | none => search x fuel (count + 1)

def stripZeros (ds : List Char) : List Char :=
  (ds.reverse.dropWhile (· == '0')).reverse

end Shortest

/-- The shortest digits of a magnitude. Seventeen always suffice. -/
def Binary64.shortest (x : Binary64) : Digits :=
  if x.significand = 0 then ⟨['0'], 1⟩
  else
    match Shortest.search x 17 1 with
    | some (n, count) =>
      let ds := Nat.toDigits 10 n
      ⟨Shortest.stripZeros ds, Shortest.scaleOf x.magnitude + (ds.length - count)⟩
    | none => ⟨Nat.toDigits 10 x.significand, (Nat.toDigits 10 x.significand).length⟩

end LiveDoc.Decimal
