/-!
# Digits

Numbers spelled by the digits of a base.
-/

set_option autoImplicit false
set_option relaxedAutoImplicit false

namespace LiveDoc.Text

/-- The value of a digit in a base of at most sixteen; letters count in both cases. -/
def digit? (base : Nat) (c : Char) : Option Nat :=
  let value :=
    if c.isDigit then c.toNat - '0'.toNat
    else if 'a' ≤ c ∧ c ≤ 'f' then c.toNat - 'a'.toNat + 10
    else if 'A' ≤ c ∧ c ≤ 'F' then c.toNat - 'A'.toNat + 10
    else base
  if value < base then some value else none

/-- The number that digits spell, of which there has to be one at least. -/
def number? (base : Nat) (digits : List Char) : Option Nat :=
  if digits.isEmpty then none
  else digits.foldlM (fun n c => (digit? base c).map (n * base + ·)) 0

def codePoint? (base : Nat) (digits : List Char) : Option Char := do
  let code ← number? base digits
  if h : code.isValidChar then some (Char.ofNatAux code h) else none

end LiveDoc.Text
