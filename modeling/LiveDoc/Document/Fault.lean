import LiveDoc.Finding
import LiveDoc.Markup.Fault

/-!
# Faults of sources

Why a source is refused. A fault in what the elements mean has a path: the root, and from there the
elements that lead to the place.
-/

set_option autoImplicit false
set_option relaxedAutoImplicit false

namespace LiveDoc

/-- A step from an element to one inside it: one of a sequence, with its number, or the only one of
its name. -/
inductive Path.Step
  | nth (name : String) (index : Nat)
  | only (name : String)
deriving DecidableEq, Repr

def Path.Step.text : Path.Step → String
  | .nth name index => name ++ "[" ++ toString index ++ "]"
  | .only name => name

/-- A place in a source: the name of the root and the steps from it. -/
structure Path where
  root : String
  steps : List Path.Step
deriving DecidableEq, Repr

def Path.down (p : Path) (step : Path.Step) : Path := { p with steps := p.steps ++ [step] }

def Path.text (p : Path) : String :=
  "/" ++ String.intercalate "/" (p.root :: p.steps.map Path.Step.text)

inductive JsonFlaw
  | notJson
  | notAnObject
deriving DecidableEq, Repr

/-- What is said against the form of a source, whatever its grammar. -/
inductive Complaint
  | textDirectlyInside (element : String)
  | mustNotContainText (element : String)
  | textOutsideContent (element : String)
  | duplicate (inner element : String)
  | notABlock (element : String)
  | notInline (element type : String)
  | notAnOperation (element : String)
  | unexpectedRoot (element : String)
  | expectedDocument
  | expectedDiff
deriving DecidableEq, Repr

def Complaint.message : Complaint → String
  | .textDirectlyInside element => "text is not allowed directly inside <" ++ element ++ ">"
  | .mustNotContainText element => "<" ++ element ++ "> must not contain text"
  | .textOutsideContent element => "text inside <" ++ element ++ "> must be wrapped in <content>"
  | .duplicate inner element => "duplicate <" ++ inner ++ "> in <" ++ element ++ ">"
  | .notABlock element => "<" ++ element ++ "> is not a block element"
  | .notInline element type => "<" ++ element ++ "> (" ++ type ++ ") is not an inline element"
  | .notAnOperation element => "<" ++ element ++ "> is not an edit operation"
  | .unexpectedRoot element =>
    "expected <document>, <agent> or <diff> as root element, found <" ++ element ++ ">"
  | .expectedDocument => "expected a document, found a diff"
  | .expectedDiff => "expected a <diff> document"

inductive Cause
  | unknownElement (element : String)
  | invalidChild (parent child : String)
  | invalidAttributes (findings : List Finding)
  | invalidJson (flaw : JsonFlaw)
  | invalidForm (complaint : Complaint)
deriving DecidableEq, Repr

/-- Why a source is refused: it is no markup, or something at a place in it is wrong. -/
inductive Fault
  | markup (fault : Markup.Fault)
  | at (path : Path) (cause : Cause)
deriving DecidableEq, Repr

namespace Fault

def message? : Fault → Option String
  | .markup fault => do
    let wording ← fault.wording?
    let position ← fault.position?
    some ("Malformed XML at byte " ++ toString position ++ ": " ++ wording)
  | .at path (.unknownElement element) =>
    some ("Unknown element <" ++ element ++ "> at " ++ path.text)
  | .at path (.invalidChild parent child) =>
    some ("Element <" ++ child ++ "> is not allowed inside <" ++ parent ++ "> at " ++ path.text)
  | .at path (.invalidAttributes findings) =>
    some ("Invalid attributes at " ++ path.text ++ ": " ++ Finding.messages findings)
  | .at path (.invalidJson .notAnObject) =>
    some ("Invalid JSON at " ++ path.text ++ ": expected a JSON object")
  | .at _ (.invalidJson .notJson) => none
  | .at path (.invalidForm complaint) =>
    some ("Invalid syntax at " ++ path.text ++ ": " ++ complaint.message)

end Fault

end LiveDoc
