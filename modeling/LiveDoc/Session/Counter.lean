import LiveDoc.IdSupply

/-!
# Counters of ids

A supply of ids as it is used: it is told of further ids that are taken and asked for new ones, in
any order. And a counter of 32 bits for the same demands, which counts on turn after turn until it
comes to an id that is free.
-/

set_option autoImplicit false
set_option relaxedAutoImplicit false

namespace LiveDoc

namespace IdSupply

/-- What is asked of a supply: to leave out some ids, or to give the next one. -/
inductive Demand where
  | reserve (idents : List String)
  | next
deriving DecidableEq, Repr

/-- The ids that some demands take out of a supply. -/
def reservedBy (demands : List Demand) : List String :=
  demands.flatMap fun
    | .reserve idents => idents
    | .next => []

/-- Meets demands in turn: the ids that are given, and the supply after them. -/
def serve (s : IdSupply) : List Demand → List String × IdSupply
  | [] => ([], s)
  | .reserve idents :: rest => (s.reserve idents).serve rest
  | .next :: rest =>
    let (ident, s) := s.next
    let (others, s) := s.serve rest
    (ident :: others, s)

/-- How many steps are counted to meet demands from the beginning. -/
def steps (seed : String) (demands : List Demand) : Nat :=
  ((ofSeed seed []).serve demands).2.count

end IdSupply

namespace Session

/-- A counter of ids: what they start with, the number that it shows, the ids that are taken. -/
structure Counter where
  seed : String
  count : UInt32
  reserved : List String
deriving DecidableEq, Repr

namespace Counter

def ofSeed (seed : String) : Counter := ⟨seed, 0, []⟩

def reserve (c : Counter) (idents : List String) : Counter :=
  { c with reserved := c.reserved ++ idents }

/-- Counts one further; zero comes behind the last number of 32 bits. -/
def tick (c : Counter) : Counter :=
  { c with count := c.count + 1 }

/-- The id with the number that is shown. -/
def ident (c : Counter) : String :=
  IdSupply.name c.seed c.count.toNat

/-- One turn of the search for a new id: the id that comes next if it is free, else the counter that
goes on from there. -/
def turn (c : Counter) : (String × Counter) ⊕ Counter :=
  if c.tick.ident ∈ c.reserved then .inr c.tick else .inl (c.tick.ident, c.tick)

end Counter

end Session

end LiveDoc
