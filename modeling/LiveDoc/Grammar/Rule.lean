/-!
# Grammar rules

A grammar says which elements there are, which attributes they take and which elements may stand in
them. It is written as named rules over terminals, each of which describes one element.
-/

set_option autoImplicit false
set_option relaxedAutoImplicit false

namespace LiveDoc

inductive ContentModel
  | text | rich | json | none
deriving DecidableEq, Repr

def ContentModel.name : ContentModel → String
  | .text => "text"
  | .rich => "rich"
  | .json => "json"
  | .none => "none"

inductive ElementKind
  | block | inline | executable | structural | operation
deriving DecidableEq, Repr

def ElementKind.name : ElementKind → String
  | .block => "block"
  | .inline => "inline"
  | .executable => "executable"
  | .structural => "structural"
  | .operation => "operation"

/-- An attribute that an element takes: the values it may have, a pattern for them, and a check that
answers with a complaint. -/
structure AttributeSpec where
  name : String
  required : Bool := false
  values : Option (List String) := none
  pattern : Option String := none
  check : Option (String → Option String) := none

structure ElementSpec where
  name : String
  kind : ElementKind
  content : ContentModel := .none
  attributes : List AttributeSpec := []

namespace Grammar

/-- A rule over elements. A terminal is an element with a rule for its children, if it may have
any. -/
inductive Rule where
  | terminal (spec : ElementSpec) (children : Option Rule)
  | choice (alternatives : List Rule)
  | sequence (parts : List Rule)
  | repeated (inner : Rule)
  | optional (inner : Rule)
  | ref (name : String)

/-- Rules by name. Of several rules with one name the first counts. -/
abbrev Rules := List (String × Rule)

def Rules.get? (rules : Rules) (name : String) : Option Rule :=
  (rules.find? (·.1 = name)).map Prod.snd

/-- The type of node or content that an element makes; most elements have that of their name. -/
def typeOf (element : String) : String :=
  match element with
  | "h1" | "h2" | "h3" | "h4" | "h5" | "h6" => "heading"
  | "fncall" => "function_call"
  | "p" => "paragraph"
  | "ul" => "bullet_list"
  | "ol" => "numbered_list"
  | "li" => "list_item"
  | "blockquote" => "quote"
  | "pre" => "code"
  | "hr" => "separator"
  | "function" => "function_definition"
  | "tool" => "tool_definition"
  | "b" | "strong" => "bold"
  | "i" | "em" => "italic"
  | "u" => "underline"
  | "s" | "del" => "strikethrough"
  | "code" => "inline_code"
  | other => other

end Grammar

end LiveDoc
