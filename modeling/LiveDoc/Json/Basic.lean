import LiveDoc.Json.Number
import LiveDoc.Table

/-!
# JSON values

The values themselves, equality, and the canonical form in which the members of every object stand
in ascending order of name and no name stands twice.
-/

set_option autoImplicit false
set_option relaxedAutoImplicit false

namespace LiveDoc

/-- A value of JSON. The members of an object are listed as they are written. -/
inductive Json where
  | null
  | bool (b : Bool)
  | num (n : Json.Number)
  | str (s : String)
  | arr (items : List Json)
  | obj (members : List (String × Json))

namespace Json

mutual

def decEq : (a b : Json) → Decidable (a = b)
  | .null, b =>
    match b with
    | .null => isTrue rfl
    | .bool _ | .num _ | .str _ | .arr _ | .obj _ => isFalse nofun
  | .bool x, b =>
    match b with
    | .bool y => decidable_of_iff (x = y) (by simp)
    | .null | .num _ | .str _ | .arr _ | .obj _ => isFalse nofun
  | .num x, b =>
    match b with
    | .num y => decidable_of_iff (x = y) (by simp)
    | .null | .bool _ | .str _ | .arr _ | .obj _ => isFalse nofun
  | .str x, b =>
    match b with
    | .str y => decidable_of_iff (x = y) (by simp)
    | .null | .bool _ | .num _ | .arr _ | .obj _ => isFalse nofun
  | .arr xs, b =>
    match b with
    | .arr ys =>
      have := decEqItems xs ys
      decidable_of_iff (xs = ys) (by simp)
    | .null | .bool _ | .num _ | .str _ | .obj _ => isFalse nofun
  | .obj xs, b =>
    match b with
    | .obj ys =>
      have := decEqMembers xs ys
      decidable_of_iff (xs = ys) (by simp)
    | .null | .bool _ | .num _ | .str _ | .arr _ => isFalse nofun
termination_by structural a => a

def decEqItems : (xs ys : List Json) → Decidable (xs = ys)
  | [], [] => isTrue rfl
  | [], _ :: _ => isFalse nofun
  | _ :: _, [] => isFalse nofun
  | x :: xs, y :: ys =>
    have := x.decEq y
    have := decEqItems xs ys
    decidable_of_iff (x = y ∧ xs = ys) (by simp)
termination_by structural xs => xs

def decEqMembers : (xs ys : List (String × Json)) → Decidable (xs = ys)
  | [], [] => isTrue rfl
  | [], _ :: _ => isFalse nofun
  | _ :: _, [] => isFalse nofun
  | (k, x) :: xs, (l, y) :: ys =>
    have := x.decEq y
    have := decEqMembers xs ys
    decidable_of_iff (k = l ∧ x = y ∧ xs = ys) (by simp [and_assoc])
termination_by structural xs => xs

end

instance : DecidableEq Json := decEq

instance : Inhabited Json := ⟨.null⟩

mutual

/-- The value with the members of every object in ascending order of name; of two members with one
name the later counts. -/
def canonical : Json → Json
  | .arr items => .arr (canonicalItems items)
  | .obj members => .obj (Table.ofList (canonicalMembers members))
  | .null => .null
  | .bool b => .bool b
  | .num n => .num n
  | .str s => .str s
termination_by structural j => j

def canonicalItems : List Json → List Json
  | [] => []
  | item :: rest => item.canonical :: canonicalItems rest
termination_by structural items => items

/-- Every member in canonical form, the members themselves where they were. -/
def canonicalMembers : List (String × Json) → List (String × Json)
  | [] => []
  | (name, value) :: rest => (name, value.canonical) :: canonicalMembers rest
termination_by structural members => members

end

def ofNat (n : Nat) : Json := .num (.int n)

def ofStrings (ss : List String) : Json := .arr (ss.map .str)

/-- The object with the given members, in canonical order. -/
def record (members : List (String × Json)) : Json := .obj (Table.ofList members)

def nat? : Json → Option Nat
  | .num (.int n) => if 0 ≤ n then some n.toNat else none
  | _ => none

def string? : Json → Option String
  | .str s => some s
  | _ => none

end Json

end LiveDoc
