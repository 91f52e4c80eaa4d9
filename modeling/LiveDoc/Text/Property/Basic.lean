import LiveDoc.Text.Ranges

/-!
# Properties of characters

Sets of characters that have names of their own. The tables of them are those of version 16 of
Unicode.
-/

set_option autoImplicit false
set_option relaxedAutoImplicit false

namespace LiveDoc.Text

/-- A set of characters and its names, in small letters without blanks and dashes. -/
structure Property where
  names : List String
  ranges : Ranges
deriving DecidableEq, Repr

namespace Property

def has (p : Property) (c : Char) : Bool := p.ranges.has c.toNat

def find? (name : String) (properties : List Property) : Option Property :=
  properties.find? fun p => p.names.contains name

def union (names : List String) (properties : List Property) : Property :=
  ⟨names, .union (properties.map ranges)⟩

end Property

end LiveDoc.Text
