import LiveDoc.Text.CaseFolding
import LiveDoc.Text.Property.Category
import LiveDoc.Text.Property.Script
import LiveDoc.Text.Property.Trait

/-!
# Sets of characters

Sets as they are described: by ranges, properties and the operations on sets.
-/

set_option autoImplicit false
set_option relaxedAutoImplicit false

namespace LiveDoc.Text

/-- A set of characters. The case of its members counts unless `anyCase` says otherwise; `plain`
then keeps to the cases of the first 128 characters. -/
inductive CharSet
  | empty
  | range (low high : Char)
  | property (p : Property)
  | outside (a : CharSet)
  | union (a b : CharSet)
  | inter (a b : CharSet)
  | anyCase (plain : Bool) (a : CharSet)
deriving DecidableEq, Repr

namespace CharSet

/-- Whether a character belongs to a set. -/
def has : CharSet → Char → Bool
  | .empty, _ => false
  | .range low high, c => low ≤ c && c ≤ high
  | .property p, c => p.has c
  | .outside a, c => !a.has c
  | .union a b, c => a.has c || b.has c
  | .inter a b, c => a.has c && b.has c
  | .anyCase plain a, c => (if plain then plainCasesOf c else casesOf c).any fun d => a.has d

def single (c : Char) : CharSet := .range c c

/-- The characters of one set that do not belong to another. -/
def diff (a b : CharSet) : CharSet := .inter a (.outside b)

def symmDiff (a b : CharSet) : CharSet := .union (a.diff b) (b.diff a)

def unions : List CharSet → CharSet
  | [] => .empty
  | [a] => a
  | a :: rest => .union a (unions rest)

def ofRanges (ranges : List (Char × Char)) : CharSet :=
  unions (ranges.map fun range => .range range.1 range.2)

def digits : CharSet := .property Category.decimalNumber

def blanks : CharSet := .property Trait.whiteSpace

def wordChars : CharSet :=
  .property (.union ["word"]
    [Trait.alphabetic, Category.mark, Category.decimalNumber, Category.connectorPunctuation,
      Trait.joinControl])

def plainDigits : CharSet := .range '0' '9'

def plainBlanks : CharSet := ofRanges [('\t', '\r'), (' ', ' ')]

def plainWordChars : CharSet := ofRanges [('0', '9'), ('A', 'Z'), ('_', '_'), ('a', 'z')]

/-- A name as names are compared: in small letters, without blanks and dashes and without a leading
`is`. What is left of the name of a property that is no set keeps its lead. -/
def comparable (name : String) : String :=
  let letters (cs : List Char) : List Char :=
    (cs.filter fun c => c ≠ ' ' ∧ c ≠ '_' ∧ c ≠ '-' ∧ c.toNat < 128).map Char.toLower
  match name.toList with
  | i :: s :: rest =>
    if i.toLower = 'i' ∧ s.toLower = 's' then
      if letters rest = ['c'] then "isc" else String.ofList (letters rest)
    else String.ofList (letters name.toList)
  | cs => String.ofList (letters cs)

def unassigned : CharSet := .outside (.property Category.assigned)

def ofCategory? (name : String) : Option CharSet :=
  match name with
  | "any" => some (.outside .empty)
  | "ascii" => some (.range (Char.ofNat 0) (Char.ofNat 127))
  | "cn" | "unassigned" => some unassigned
  | "c" | "other" =>
    some (unions (unassigned ::
      [Category.control, Category.format, Category.privateUse].map .property))
  | name =>
    (Property.find? name (Category.assigned :: Category.groups ++ Category.all)).map .property

def ofScript? (name : String) : Option CharSet :=
  (Property.find? name Script.all).map .property

def ofUse? (name : String) : Option CharSet :=
  ((Property.find? name Script.extended).or (Property.find? name Script.all)).map .property

def ofName? (name : String) : Option CharSet :=
  let name := comparable name
  ((Property.find? name Trait.all).map .property).or ((ofCategory? name).or (ofScript? name))

/-- The set of the characters with a value of a property that has several. -/
def ofValue? (property value : String) : Option CharSet :=
  let property := comparable property
  let value := comparable value
  if property = "generalcategory" ∨ property = "gc" then ofCategory? value
  else if property = "script" ∨ property = "sc" then ofScript? value
  else if property = "scriptextensions" ∨ property = "scx" then ofUse? value
  else none

/-- About how much room a set takes when it is put into tables, in bytes: a range about two states
of a table of bytes, and what lies outside of a set a thousand bytes more. -/
def room : CharSet → Nat
  | .empty => 64
  | .range low high => if high.toNat < 128 then 8 else if low = high then 64 else 160
  | .property p => 64 * p.ranges.bounds.size
  | .outside a => a.room + 1000
  | .union a b => a.room + b.room
  | .inter a b => max a.room b.room
  | .anyCase _ a => 2 * a.room

end CharSet

end LiveDoc.Text
