import LiveDoc.Document.Fault
import LiveDoc.Grammar.Basic
import LiveDoc.Inline.Basic
import LiveDoc.Markup.Element
import LiveDoc.Text.Blank

/-!
# Reading inline content

Inline elements as content. Elements of formatting leave nothing but the styles of the text in them,
so however they are nested, text of the same styles comes out as one piece.
-/

set_option autoImplicit false
set_option relaxedAutoImplicit false

namespace LiveDoc.Reading

open Markup (Element Item)

variable (g : Grammar) (path : Path)

def complain {α : Type} (complaint : Complaint) : Except Fault α :=
  .error (.at path (.invalidForm complaint))

def refuseChild {α : Type} (parent child : String) : Except Fault α :=
  .error (.at path (.invalidChild parent child))

/-- Demands that nothing is wrong with the attributes of an element. -/
def checkAttributes (name : String) (attributes : List (String × String)) : Except Fault Unit :=
  match g.checkAttributes name attributes with
  | [] => .ok ()
  | findings => .error (.at path (.invalidAttributes findings))

def typeOf (name : String) : Except Fault String :=
  match g.type? name with
  | some type => .ok type
  | none => .error (.at path (.unknownElement name))

/-- Demands that the grammar knows a child and allows it in its parent. -/
def checkChild (parent type child : String) : Except Fault Unit :=
  if !g.has child then .error (.at path (.unknownElement child))
  else if !g.allows type child then refuseChild path parent child
  else .ok ()

/-- Demands that an element holds neither elements nor text other than blanks. -/
def checkEmpty (e : Element) : Except Fault Unit :=
  match e.firstChild? with
  | some child => refuseChild path e.name child.name
  | none =>
    if Text.isAllBlank e.text then .ok () else complain path (.mustNotContainText e.name)

/-- The style that a formatting element of a type gives to the text in it. -/
def styleOf? (type : String) : Option String :=
  match type with
  | "bold" => some "bold"
  | "italic" => some "italic"
  | "underline" => some "underline"
  | "strikethrough" => some "strikethrough"
  | "inline_code" => some "code"
  | _ => none

mutual

/-- The content of an inline element that stands in text of some styles. -/
def inline (styles : List String) : Element → Except Fault (List Inline)
  | ⟨name, attributes, items⟩ => do
    let e : Element := ⟨name, attributes, items⟩
    checkAttributes g path name attributes
    let type ← typeOf g path name
    match styleOf? type with
    | some style => rich name type (Style.canonical (styles ++ [style])) items
    | none =>
      match type with
      | "span" => rich name type (Style.canonical (styles ++ Text.words (e.attr "styles"))) items
      | "link" => do
        let content ← rich name type styles items
        .ok [.link (e.attr "href") content]
      | "annotation" => do
        let content ← rich name type styles items
        .ok [.note (e.attr? "title") (e.attr? "comment") content]
      | "variable" => do
        checkEmpty path e
        let prompt := (e.attr? "prompt").filter (!·.isEmpty)
        .ok [.var (e.attr "name") prompt ((e.attr? "value").map .str)]
      | "mention" => do
        checkEmpty path e
        .ok [.mention (e.attr "type") (e.attr "id") (e.attr "label")]
      | other => complain path (.notInline name other)
termination_by structural e => e

/-- The content that items make in an element of inline content only. -/
def rich (parent type : String) (styles : List String) :
    List (Item Element) → Except Fault (List Inline)
  | [] => .ok []
  | .text chars :: rest => do
    let after ← rich parent type styles rest
    .ok (Inline.glue (.text chars styles) after)
  | .literal chars :: rest => do
    let after ← rich parent type styles rest
    .ok (Inline.glue (.text chars styles) after)
  | .element inner :: rest => do
    checkChild g path parent type inner.name
    if !g.isInline inner.name then refuseChild path parent inner.name
    else
      let found ← inline styles inner
      let after ← rich parent type styles rest
      .ok (Inline.glueAll found after)
termination_by structural items => items

end

end LiveDoc.Reading
