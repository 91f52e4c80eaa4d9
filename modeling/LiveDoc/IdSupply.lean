import LiveDoc.Text.Checksum

/-!
# Id supplies

Fresh ids in sequence: a seed, a dash and a number, with the reserved ids left out. And the id that
a document without one gets from its text.
-/

set_option autoImplicit false
set_option relaxedAutoImplicit false

namespace LiveDoc

/-- The id that the text of a document gives it. -/
def documentId (source : String) : String :=
  "doc-" ++ Text.Checksum.hex (Text.Checksum.ofText source)

/-- A supply of ids: what they start with, the number of the last one, the ids that are taken. -/
structure IdSupply where
  seed : String
  count : Nat
  reserved : List String
deriving DecidableEq, Repr

namespace IdSupply

def name (seed : String) (n : Nat) : String := seed ++ "-" ++ toString n

def ofSeed (seed : String) (reserved : List String) : IdSupply := ⟨seed, 0, reserved⟩

def reserve (s : IdSupply) (ids : List String) : IdSupply :=
  { s with reserved := s.reserved ++ ids }

/-- The first number from `n` on whose id is not reserved, among `tries + 1` of them. -/
def firstFree (seed : String) (reserved : List String) : Nat → Nat → Nat
  | 0, n => n
  | tries + 1, n => if name seed n ∈ reserved then firstFree seed reserved tries (n + 1) else n

/-- The next id, and the supply after it. There are fewer reserved ids than numbers tried. -/
def next (s : IdSupply) : String × IdSupply :=
  let n := firstFree s.seed s.reserved s.reserved.length (s.count + 1)
  (name s.seed n, { s with count := n })

def take (s : IdSupply) : Nat → List String × IdSupply
  | 0 => ([], s)
  | n + 1 =>
    let (first, s) := s.next
    let (others, s) := s.take n
    (first :: others, s)

end IdSupply

end LiveDoc
