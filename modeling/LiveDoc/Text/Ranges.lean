/-!
# Ranges of code points

Sets of code points by their ranges, looked up by halving, and the packed text in which tables of
them are written.
-/

set_option autoImplicit false
set_option relaxedAutoImplicit false

namespace LiveDoc.Text

/-- The first and the last code point of every range, ascending and apart from one another. -/
structure Ranges where
  bounds : Array (Nat × Nat)
deriving DecidableEq, Repr

namespace Ranges

/-- Whether a code point lies in one of `count` ranges from the one at `first` on. -/
def hasFrom (ranges : Ranges) (code first count : Nat) : Bool :=
  if _ : count = 0 then false
  else
    match ranges.bounds[first + count / 2]? with
    | none => false
    | some (low, high) =>
      if code < low then ranges.hasFrom code first (count / 2)
      else if code ≤ high then true
      else ranges.hasFrom code (first + count / 2 + 1) (count - count / 2 - 1)
termination_by count
decreasing_by all_goals omega

def has (ranges : Ranges) (code : Nat) : Bool :=
  ranges.hasFrom code 0 ranges.bounds.size

/-- Ranges in the order of their beginnings, with those joined that meet. -/
def joined : List (Nat × Nat) → List (Nat × Nat)
  | [] => []
  | [range] => [range]
  | first :: second :: rest =>
    if second.1 ≤ first.2 + 1 then joined ((first.1, max first.2 second.2) :: rest)
    else first :: joined (second :: rest)
termination_by ranges => ranges.length

def union (sets : List Ranges) : Ranges :=
  let all := sets.flatMap fun ranges => ranges.bounds.toList
  ⟨(joined (all.mergeSort fun a b => a.1 ≤ b.1)).toArray⟩

/-- The value of a digit: decimal digits come first, then capital and small letters. -/
def digitValue (c : Char) : Nat :=
  if c.isDigit then c.toNat - '0'.toNat
  else if c.isUpper then c.toNat - 'A'.toNat + 10
  else c.toNat - 'a'.toNat + 36

/-- The numbers that packed digits spell behind a first part of the next one. There are 31 digits,
and a digit that is 31 more tells that others follow. -/
def numbers (part : Nat) : List Char → List Nat
  | [] => []
  | c :: rest =>
    if digitValue c < 31 then (part * 31 + digitValue c) :: numbers 0 rest
    else numbers (part * 31 + (digitValue c - 31)) rest

/-- The ranges that pairs of numbers give, from `next` on: how far away the next range is, and how
long. A distance of zero stands for so many single code points, every second one. -/
def spread (next : Nat) : List Nat → List (Nat × Nat)
  | 0 :: count :: rest =>
    (List.range count).map (fun i => (next + 2 * i + 1, next + 2 * i + 1)) ++
      spread (next + 2 * count) rest
  | gap :: length :: rest =>
    (next + gap - 1, next + gap - 1 + length - 1) :: spread (next + gap - 1 + length) rest
  | _ => []

def unpack (s : String) : Ranges :=
  ⟨(spread 0 (numbers 0 s.toList)).toArray⟩

end Ranges

end LiveDoc.Text
