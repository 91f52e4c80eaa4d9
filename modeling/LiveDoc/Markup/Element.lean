/-!
# Elements

The tree of a piece of markup: elements with attributes, and between them character data, which is
either escaped text or a section of unescaped text.
-/

set_option autoImplicit false
set_option relaxedAutoImplicit false

namespace LiveDoc.Markup

/-- What stands in an element: character data in one of its two forms, or an element. -/
inductive Item (α : Type) where
  | text (chars : String)
  | literal (chars : String)
  | element (inner : α)

/-- An element with its attributes and what stands in it, both in their order. -/
structure Element where
  name : String
  attributes : List (String × String)
  items : List (Item Element)

namespace Element

def attr? (e : Element) (name : String) : Option String :=
  (e.attributes.find? (·.1 = name)).map Prod.snd

/-- The value of an attribute, empty if it is missing. -/
def attr (e : Element) (name : String) : String :=
  (e.attr? name).getD ""

/-- Whether an attribute is set to `true`. -/
def flag (e : Element) (name : String) : Bool :=
  e.attr? name = some "true"

def firstChild? (e : Element) : Option Element :=
  e.items.findSome? fun item => match item with
    | .element inner => some inner
    | .text _ | .literal _ => none

/-- The character data directly inside, put together. -/
def text (e : Element) : String :=
  String.join (e.items.map fun item => match item with
    | .text chars | .literal chars => chars
    | .element _ => "")

mutual

/-- Every `id` attribute in the element, from outside in and in order. -/
def ids : Element → List String
  | ⟨_, attributes, items⟩ =>
    ((attributes.find? (·.1 = "id")).map Prod.snd).toList ++ idsOfItems items
termination_by structural e => e

def idsOfItems : List (Item Element) → List String
  | [] => []
  | .text _ :: rest => idsOfItems rest
  | .literal _ :: rest => idsOfItems rest
  | .element inner :: rest => inner.ids ++ idsOfItems rest
termination_by structural items => items

end

end Element

end LiveDoc.Markup
