import LiveDoc.Node.Basic

/-!
# Forests

Walking through a forest in document order, finding a node by its id, and changing the list of
siblings at the place where it stands. Of several nodes with one id the first in document order
counts.
-/

set_option autoImplicit false
set_option relaxedAutoImplicit false

namespace LiveDoc

mutual

/-- A node and all below it, each before what is below it. -/
def Node.preorder : Node → List Node
  | .block head none => [.block head none]
  | .block head (some children) => .block head (some children) :: Forest.preorder children
  | .call c => [.call c]
termination_by structural n => n

/-- All nodes of a forest in document order. -/
def Forest.preorder : List Node → List Node
  | [] => []
  | n :: rest => n.preorder ++ Forest.preorder rest
termination_by structural ns => ns

end

mutual

/-- How many nodes there are from a node down. -/
def Node.count : Node → Nat
  | .block _ none => 1
  | .block _ (some children) => Forest.count children + 1
  | .call _ => 1
termination_by structural n => n

def Forest.count : List Node → Nat
  | [] => 0
  | n :: rest => n.count + Forest.count rest
termination_by structural ns => ns

end

theorem Forest.count_append (ns ms : List Node) : count (ns ++ ms) = count ns + count ms := by
  induction ns with
  | nil => simp [count]
  | cons n rest ih => simp [count, ih, Nat.add_assoc]

theorem Node.count_eq (n : Node) : n.count = Forest.count (n.children?.getD []) + 1 := by
  match n with
  | .block _ none => simp [Node.count, Node.children?, Forest.count]
  | .block _ (some _) => simp [Node.count, Node.children?]
  | .call _ => simp [Node.count, Node.children?, Forest.count]

namespace Forest

/-- The nodes reached by taking the first one that waits and letting its children wait before the
others. -/
def walk : List Node → List Node
  | [] => []
  | n :: waiting => n :: walk (n.children?.getD [] ++ waiting)
termination_by ns => count ns
decreasing_by
  simp only [count, count_append]
  have := n.count_eq
  omega

/-- The ids of a forest in document order. -/
def ids (ns : Forest) : List String := (preorder ns).map Node.id

def find? (ident : String) (ns : Forest) : Option Node :=
  (walk ns).find? (·.id = ident)

def has (ident : String) (ns : Forest) : Bool :=
  (find? ident ns).isSome

/-- The calls of a forest in document order. -/
def calls (ns : Forest) : List Call := (preorder ns).filterMap Node.call?

end Forest

mutual

/-- Puts nodes in the place of the first one with an id below a node; none if there is none. -/
def Node.spliceBelow? (ident : String) (f : Node → List Node) : Node → Option Node
  | .block _ none => none
  | .block head (some children) =>
    (Forest.splice? ident f children).map fun changed => .block head (some changed)
  | .call _ => none
termination_by structural n => n

/-- Puts nodes in the place of the first one with an id, into the same list of siblings. -/
def Forest.splice? (ident : String) (f : Node → List Node) : List Node → Option (List Node)
  | [] => none
  | n :: rest =>
    if n.id = ident then some (f n ++ rest)
    else
      match n.spliceBelow? ident f with
      | some changed => some (changed :: rest)
      | none => (Forest.splice? ident f rest).map (n :: ·)
termination_by structural ns => ns

end

mutual

/-- The indices that lead from a node down to the first one with an id below it. -/
def Node.locateBelow? (ident : String) : Node → Option (List Nat)
  | .block _ none => none
  | .block _ (some children) => Forest.locate? ident children
  | .call _ => none
termination_by structural n => n

/-- The indices that lead to the first node with an id. -/
def Forest.locate? (ident : String) : List Node → Option (List Nat)
  | [] => none
  | n :: rest =>
    if n.id = ident then some [0]
    else
      match n.locateBelow? ident with
      | some path => some (0 :: path)
      | none => (Forest.locate? ident rest).map fun path =>
          match path with
          | i :: below => (i + 1) :: below
          | [] => []
termination_by structural ns => ns

end

namespace Forest

def at? : List Nat → Forest → Option Node
  | [], _ => none
  | [i], ns => ns[i]?
  | i :: path, ns => do
    let n ← ns[i]?
    let children ← n.children?
    at? path children

/-- The list of siblings to which indices lead; without indices the forest itself. -/
def siblings? : List Nat → Forest → Option Forest
  | [], ns => some ns
  | i :: path, ns => do
    let n ← ns[i]?
    let children ← n.children?
    siblings? path children

def modify? (ident : String) (f : Node → Node) (ns : Forest) : Option Forest :=
  splice? ident (fun n => [f n]) ns

def remove? (ident : String) (ns : Forest) : Option (Node × Forest) := do
  let n ← find? ident ns
  let rest ← splice? ident (fun _ => []) ns
  some (n, rest)

/-- Puts nodes right behind the first one with an id. -/
def insertAfter? (ident : String) (new : List Node) (ns : Forest) : Option Forest :=
  splice? ident (fun n => n :: new) ns

end Forest

end LiveDoc
