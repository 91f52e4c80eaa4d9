import LiveDoc.Finding
import LiveDoc.Grammar.Reach
import LiveDoc.Text.Pattern.Reader

/-!
# Grammars

A grammar in the form in which it is used: the elements that its rules reach, with what may stand in
them, and the check of their attributes. Making one never fails; what is wrong with the rules is
left out and kept as a list of diagnostics.
-/

set_option autoImplicit false
set_option relaxedAutoImplicit false

namespace LiveDoc

namespace Grammar

inductive Diagnostic
  | unresolvedReference (name : String)
  | duplicateRule (name : String)
  | invalidPattern (element attr : String)
deriving DecidableEq, Repr

def Diagnostic.message? : Diagnostic → Option String
  | .unresolvedReference name => some ("Unresolved rule reference '" ++ name ++ "'")
  | .duplicateRule name => some ("Duplicate rule name '" ++ name ++ "'")
  | .invalidPattern _ _ => none

/-- An element as a grammar keeps it: the elements that may stand in it, if it has a rule for them,
and the patterns of its attributes. -/
structure Entry where
  spec : ElementSpec
  allowed : Option (List String)
  patterns : List (String × Text.Pattern)

def Entry.type (e : Entry) : String := typeOf e.spec.name

/-- The pattern for an attribute; of several the last. -/
def Entry.pattern? (e : Entry) (name : String) : Option Text.Pattern :=
  (e.patterns.reverse.find? (·.1 = name)).map Prod.snd

def patternsOf (spec : ElementSpec) : List (String × Text.Pattern) :=
  spec.attributes.filterMap fun a => do
    let pattern ← Text.Pattern.whole? (← a.pattern)
    some (a.name, pattern)

def badPatterns (spec : ElementSpec) : List Diagnostic :=
  spec.attributes.filterMap fun a => do
    if (Text.Pattern.whole? (← a.pattern)).isSome then none
    else some (.invalidPattern spec.name a.name)

def entryOf (rules : Rules) (t : Terminal) : Entry :=
  ⟨t.spec, t.children.map rules.allowed, patternsOf t.spec⟩

/-- The names that stand a second time or more often, each time they do. -/
def repeatedNames : List String → List String → List String
  | _, [] => []
  | seen, name :: rest =>
    if name ∈ seen then name :: repeatedNames seen rest else repeatedNames (name :: seen) rest

end Grammar

/-- A grammar: its elements, no two of one name, and what is wrong with its rules. -/
structure Grammar where
  entries : List Grammar.Entry
  diagnostics : List Grammar.Diagnostic

namespace Grammar

def ofRules (rules : Rules) : Grammar :=
  let met := rules.terminals
  { entries := met.terminals.map (entryOf rules)
    diagnostics :=
      (repeatedNames [] (rules.map Prod.fst)).map .duplicateRule ++
        met.dangling.map .unresolvedReference ++
        met.terminals.flatMap fun t => badPatterns t.spec }

variable (g : Grammar)

def entry? (element : String) : Option Entry :=
  g.entries.find? (·.spec.name = element)

def spec? (element : String) : Option ElementSpec :=
  (g.entry? element).map Entry.spec

def has (element : String) : Bool := (g.entry? element).isSome

def type? (element : String) : Option String := (g.entry? element).map Entry.type

def elementsOf (type : String) : List String :=
  (g.entries.filter (·.type = type)).map (·.spec.name)

/-- Whether an element may stand in one that makes a type: some element of this type allows it. -/
def allows (type element : String) : Bool :=
  g.entries.any fun e => e.type = type && (e.allowed.getD []).contains element

/-- How the inside of an element is read. -/
def model? (element : String) : Option ContentModel :=
  (g.spec? element).map ElementSpec.content

def isInline (element : String) : Bool :=
  (g.spec? element).any (·.kind = .inline)

def hasChildrenRule (element : String) : Bool :=
  (g.entry? element).any (·.allowed.isSome)

def inlineElements : List String :=
  (g.entries.filter (·.spec.kind = .inline)).map (·.spec.name)

def blockTypes : List String :=
  ((g.entries.filter fun e => e.spec.kind = .block || e.spec.kind = .executable).map
    Entry.type).eraseDups

/-- What is wrong with the value of an attribute: the values it may have, then its pattern, then its
check. -/
def checkValue (e : Entry) (a : AttributeSpec) (value : String) : List Finding :=
  let element := e.spec.name
  let place := element ++ "@" ++ a.name
  let subject := "Attribute '" ++ a.name ++ "' on <" ++ element ++ ">"
  let ofValues :=
    match a.values with
    | some values =>
      if values.contains value then []
      else [⟨.invalidValue, place,
        subject ++ " must be one of [" ++ String.intercalate ", " values ++ "], got '" ++ value ++
          "'"⟩]
    | none => []
  let ofPattern :=
    match e.pattern? a.name with
    | some pattern =>
      if pattern.occursIn value then []
      else [⟨.patternMismatch, place,
        subject ++ " does not match pattern '" ++ a.pattern.getD "" ++ "'"⟩]
    | none => []
  let ofCheck :=
    match a.check.bind (· value) with
    | some complaint => [⟨.customCheck, place, complaint⟩]
    | none => []
  ofValues ++ ofPattern ++ ofCheck

/-- Everything wrong with the attributes of an element, in the order of its description. -/
def checkAttributes (element : String) (attributes : List (String × String)) : List Finding :=
  match g.entry? element with
  | none => [⟨.unknownElement, element, "Unknown element <" ++ element ++ ">"⟩]
  | some e =>
    e.spec.attributes.flatMap fun a =>
      match attributes.find? (·.1 = a.name) with
      | some (_, value) => checkValue e a value
      | none =>
        if a.required then
          [⟨.missingAttribute, element ++ "@" ++ a.name,
            "Missing required attribute '" ++ a.name ++ "' on <" ++ element ++ ">"⟩]
        else []

end Grammar

end LiveDoc
