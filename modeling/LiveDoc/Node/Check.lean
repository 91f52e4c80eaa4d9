import LiveDoc.Document.Basic
import LiveDoc.Finding
import LiveDoc.Node.Forest
import LiveDoc.Text.Blank
import LiveDoc.Text.Pattern.Reader

/-!
# Checking trees

The demands on a tree of nodes that do not come from a grammar: no id is blank, no two nodes have
one id, and the functions of calls have proper names.
-/

set_option autoImplicit false
set_option relaxedAutoImplicit false

namespace LiveDoc

/-- The pattern of function names: a name, and a module in front of it if there is one. -/
def functionNames : Option Text.Pattern :=
  Text.Pattern.whole? "(?:[A-Za-z_][A-Za-z0-9_.-]*:)?[A-Za-z_][A-Za-z0-9_-]*"

/-- Whether a text is the name of a function. -/
def isFunctionName (name : String) : Bool :=
  functionNames.any (·.occursIn name)

mutual

/-- A node and all below it in document order, each with the indices that lead to it. -/
def Node.placed (path : List Nat) : Node → List (List Nat × Node)
  | .block head none => [(path, .block head none)]
  | .block head (some children) =>
    (path, .block head (some children)) :: Forest.placedFrom path 0 children
  | .call c => [(path, .call c)]
termination_by structural n => n

/-- The nodes of a list of siblings from an index on, each with the indices that lead to it. -/
def Forest.placedFrom (path : List Nat) (index : Nat) : List Node → List (List Nat × Node)
  | [] => []
  | n :: rest => n.placed (path ++ [index]) ++ Forest.placedFrom path (index + 1) rest
termination_by structural ns => ns

end

namespace Forest

/-- All nodes of a forest in document order, each with the indices that lead to it. -/
def placed (ns : Forest) : List (List Nat × Node) := placedFrom [] 0 ns

def placeText : List Nat → String
  | [] => "nodes"
  | first :: below =>
    "nodes[" ++ toString first ++ "]" ++
      String.join (below.map fun index => ".children[" ++ toString index ++ "]")

/-- What is wrong with the id of a node, after those seen before with their places. -/
def checkId (seen : List (String × List Nat)) (path : List Nat) (ident : String) : List Finding :=
  if Text.isAllBlank ident then
    [⟨.emptyId, placeText path, "Node id must not be empty"⟩]
  else
    match seen.find? (·.1 = ident) with
    | some (_, first) =>
      [⟨.duplicateId, placeText path,
        "Duplicate node id '" ++ ident ++ "' (first used at " ++ placeText first ++ ")"⟩]
    | none => []

def checkFunction (path : List Nat) : Node → List Finding
  | .call c =>
    if isFunctionName c.function then []
    else
      [⟨.invalidFunctionName, placeText path,
        "Invalid function name '" ++ c.function ++ "': expected (module:)?name"⟩]
  | .block .. => []

/-- What is wrong with nodes in document order, after those seen before. -/
def checkFrom (seen : List (String × List Nat)) : List (List Nat × Node) → List Finding
  | [] => []
  | (path, n) :: rest =>
    checkId seen path n.id ++ checkFunction path n ++ checkFrom (seen ++ [(n.id, path)]) rest

/-- Everything wrong with a forest, in document order. -/
def check (ns : Forest) : List Finding := checkFrom [] ns.placed

end Forest

/-- Everything wrong with the nodes of a document. -/
def Document.check (d : Document) : List Finding := Forest.check d.nodes

end LiveDoc
