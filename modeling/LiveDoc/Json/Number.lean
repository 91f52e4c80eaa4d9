import LiveDoc.Decimal.Binary64
import LiveDoc.Decimal.Shortest

/-!
# Numbers of JSON

A numeral without fraction and exponent that fits a 64-bit word, signed or unsigned, is an integer;
every other numeral is a binary number of double precision.
-/

set_option autoImplicit false
set_option relaxedAutoImplicit false

namespace LiveDoc.Json

open LiveDoc.Decimal (Binary64 Quotient)

inductive Number
  | int (n : Int)
  | float (x : Binary64)
deriving DecidableEq, Repr

namespace Number

/-- The parts of a numeral: sign, digits before the point, digits after it and the exponent. -/
structure Numeral where
  negative : Bool
  whole : List Nat
  fraction : Option (List Nat)
  exponent : Option (Bool × List Nat)

def digitOf (c : Char) : Nat :=
  c.toNat - '0'.toNat

/-- The digits at the front of a text, at least one, and what follows them. -/
def digits? (cs : List Char) : Option (List Nat × List Char) :=
  match cs.takeWhile Char.isDigit with
  | [] => none
  | ds => some (ds.map digitOf, cs.dropWhile Char.isDigit)

def fraction? : List Char → Option (Option (List Nat) × List Char)
  | '.' :: rest => (digits? rest).map fun (ds, after) => (some ds, after)
  | rest => some (none, rest)

/-- The exponent at the front of a text, if `e` or `E` begins one: whether it is negative, and its
digits. -/
def exponent? : List Char → Option (Option (Bool × List Nat) × List Char)
  | c :: rest =>
    if c = 'e' ∨ c = 'E' then
      match rest with
      | '-' :: ds => (digits? ds).map fun (ds, after) => (some (true, ds), after)
      | '+' :: ds => (digits? ds).map fun (ds, after) => (some (false, ds), after)
      | ds => (digits? ds).map fun (ds, after) => (some (false, ds), after)
    else some (none, c :: rest)
  | [] => some (none, [])

/-- Takes a numeral apart. A leading zero stands alone. -/
def Numeral.ofChars? (cs : List Char) : Option Numeral := do
  let (negative, cs) := match cs with
    | '-' :: rest => (true, rest)
    | cs => (false, cs)
  let (whole, cs) ← digits? cs
  if whole.head? = some 0 ∧ whole.length ≠ 1 then none
  let (fraction, cs) ← fraction? cs
  let (exponent, cs) ← exponent? cs
  if cs.isEmpty then some { negative, whole, fraction, exponent } else none

/-- Takes in digits while the significand fits 64 bits; the digits from the first that does not are
left over. -/
def gather (significand : Nat) : List Nat → Nat × List Nat
  | [] => (significand, [])
  | d :: ds =>
    if significand * 10 + d < Nat.pow 2 64 then gather (significand * 10 + d) ds
    else (significand, d :: ds)

def ofDigits (ds : List Nat) : Nat :=
  ds.foldl (fun n d => n * 10 + d) 0

/-- The binary number of a significand and a power of ten; none if it is too large. -/
def scaled? (negative : Bool) (significand : Nat) (e : Int) : Option Number := do
  let x ← Binary64.round ⟨significand, 1⟩
  let y ← x.scaleTen? e
  some (.float (y.withSign negative))

/-- The integer of a significand with its sign. Zero with a minus sign and what a signed word does
not hold are binary numbers. -/
def ofInteger? (negative : Bool) (significand : Nat) : Option Number :=
  if negative then
    if significand = 0 then some (.float (.zero true))
    else if significand ≤ Nat.pow 2 63 then some (.int (-significand))
    else scaled? true significand 0
  else some (.int significand)

/-- The number of a numeral. Digits beyond 64 bits of significand count only by their place. -/
def Numeral.value? (n : Numeral) : Option Number :=
  let (significand, left) := gather 0 n.whole
  match n.fraction, n.exponent with
  | none, none =>
    if left.isEmpty then ofInteger? n.negative significand
    else scaled? n.negative significand left.length
  | fraction, exponent =>
    let after := fraction.getD []
    let (significand, unread) := gather significand after
    let place : Int := (left.length : Int) - ((after.length : Int) - unread.length)
    match exponent with
    | none => scaled? n.negative significand place
    | some (down, ds) =>
      let size := ofDigits ds
      if size < Nat.pow 2 31 then
        scaled? n.negative significand (if down then place - size else place + size)
      else if significand = 0 ∨ down then some (.float (.zero n.negative))
      else none

def ofChars? (cs : List Char) : Option Number :=
  (Numeral.ofChars? cs).bind Numeral.value?

/-- The digits of a binary number laid out: positional from `10 ^ -5` up to `10 ^ 16`, always with a
fraction; outside of that with one digit before the point and a signed exponent. -/
def layout (d : Decimal.Digits) : List Char :=
  let zeros (n : Int) : List Char := List.replicate n.toNat '0'
  let count : Int := d.digits.length
  if -5 < d.point ∧ d.point ≤ 16 then
    if d.point ≤ 0 then '0' :: '.' :: (zeros (-d.point) ++ d.digits)
    else if count ≤ d.point then d.digits ++ zeros (d.point - count) ++ ['.', '0']
    else d.digits.take d.point.toNat ++ '.' :: d.digits.drop d.point.toNat
  else
    let e := d.point - 1
    let lead := match d.digits with
      | first :: [] => [first]
      | first :: rest => first :: '.' :: rest
      | [] => ['0']
    lead ++ 'e' :: (if e < 0 then '-' else '+') :: Nat.toDigits 10 e.natAbs

/-- The text of a number: digits of an integer, the shortest decimal of a binary number. -/
def text : Number → String
  | .int n => String.ofList ((if n < 0 then ['-'] else []) ++ Nat.toDigits 10 n.natAbs)
  | .float x => String.ofList ((if x.negative then ['-'] else []) ++ layout x.shortest)

def quotient : Number → Bool × Quotient
  | .int n => (n < 0, ⟨n.natAbs, 1⟩)
  | .float x => (x.negative, x.magnitude)

def compare (x y : Number) : Ordering :=
  let side (n : Number) (other : Quotient) : Int :=
    let (negative, q) := n.quotient
    let size : Int := q.numerator * other.denominator
    if negative then -size else size
  Ord.compare (side x y.quotient.2) (side y x.quotient.2)

def isWhole : Number → Bool
  | .int _ => true
  | .float x => x.magnitude.numerator % x.magnitude.denominator = 0

end Number

end LiveDoc.Json
