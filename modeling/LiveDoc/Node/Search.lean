import LiveDoc.Node.Forest

/-!
# Searches in forests

Going through a forest step by step with a list of waiting nodes, and access to the first node with
an id for a change: the node as it is there, and the forest with another node in its place.
-/

set_option autoImplicit false
set_option relaxedAutoImplicit false

namespace LiveDoc

/-- A walk through a forest in progress, by the nodes that wait. The next one is the last of
them. -/
structure Walker where
  waiting : List Node

namespace Walker

def start (ns : Forest) : Walker := ⟨ns.reverse⟩

/-- The next node, and the walk behind it: its children wait now too, the first of them last. -/
def next? (w : Walker) : Option (Node × Walker) :=
  w.waiting.getLast?.map fun n =>
    (n, ⟨w.waiting.dropLast ++ (n.children?.getD []).reverse⟩)

end Walker

mutual

/-- The first node with an id below a node, and the node with another one in its place. -/
def Node.focusBelow? (ident : String) : Node → Option (Node × (Node → Node))
  | .block _ none => none
  | .block head (some children) =>
    (Forest.focus? ident children).map fun found =>
      (found.1, fun new => .block head (some (found.2 new)))
  | .call _ => none
termination_by structural n => n

/-- The first node with an id, and the forest with another one in its place. -/
def Forest.focus? (ident : String) : List Node → Option (Node × (Node → List Node))
  | [] => none
  | n :: rest =>
    if n.id = ident then some (n, fun new => new :: rest)
    else
      match n.focusBelow? ident with
      | some found => some (found.1, fun new => found.2 new :: rest)
      | none =>
        (Forest.focus? ident rest).map fun found => (found.1, fun new => n :: found.2 new)
termination_by structural ns => ns

end

end LiveDoc
