import LiveDoc.Grammar.Standard
import LiveDoc.Inline.Printer
import LiveDoc.Node.Basic
import LiveDoc.Text.Digits

/-!
# Writing nodes

Nodes as markup, one block to a line and its children further in. Children that stand behind inline
content are written on its line, since blanks count there.
-/

set_option autoImplicit false
set_option relaxedAutoImplicit false

namespace LiveDoc

open Markup (Layout attr attr? escape closingTag sections)

/-- A natural number of 64 bits in digits, with or without a plus sign. -/
def wordOfText? (s : String) : Option Nat :=
  let digits := match s.toList with
    | '+' :: rest => rest
    | cs => cs
  (Text.number? 10 digits).filter fun n => n < Nat.pow 2 64

def tableAttrs (besides : List String) (table : Table Json) : String :=
  String.join ((table.filter (!besides.contains ·.1)).map fun entry =>
    attr entry.1 entry.2.plainText)

namespace Block

/-- The level of a heading, a number or the text of one, brought into the range from one to six. -/
def level (b : Block) : Nat :=
  let written :=
    match b.props.get? "level" with
    | some (.str s) => wordOfText? (Text.trim s)
    | some value => value.nat?
    | none => none
  min 6 (max 1 (written.getD 1))

/-- The element that a block is written as. A type without an element is its own. -/
def element (b : Block) : String :=
  if b.kind = "heading" then "h" ++ toString b.level
  else ((Grammar.Standard.grammar.elementsOf b.kind).head?).getD b.kind

def model (b : Block) : ContentModel :=
  (Grammar.Standard.grammar.model? b.element).getD .none

/-- The attributes of a block. The level of a heading stands in the name of its element. -/
def attrs (b : Block) : String :=
  attr "id" b.id ++ tableAttrs (if b.kind = "heading" then ["level"] else []) b.props

def childLayout (b : Block) (l : Layout) : Layout :=
  match b.model with
  | .rich => l.onOneLine
  | .text | .json | .none => l.deeper

def plainText (b : Block) : String :=
  String.join (b.content.map fun item => match item with
    | .text chars _ => escape chars
    | _ => "")

/-- The markup of a block around that of its children, of which there may be none. -/
def print (b : Block) (l : Layout) (childless : Bool) (children : String) : String :=
  let opening := l.margin ++ "<" ++ b.element ++ b.attrs
  if b.content.isEmpty && childless then opening ++ "/>" ++ l.lineEnd
  else
    let inside :=
      match b.model with
      | .text => b.plainText
      | .rich => Inline.printAll b.content ++ children
      | .json | .none => l.lineEnd ++ children ++ l.margin
    opening ++ ">" ++ inside ++ closingTag b.element ++ l.lineEnd

end Block

namespace CallKind

def element : CallKind → String
  | .invocation => "fncall"
  | .trigger => "trigger"

def functionAttr : CallKind → String
  | .invocation => "idyll-fn"
  | .trigger => "idyll-trigger"

end CallKind

namespace Call

def attrs (c : Call) : String :=
  attr "id" c.id ++ attr c.kind.functionAttr c.function ++
    (if c.enabled then "" else attr "enabled" "false") ++ tableAttrs [] c.extra

def line (l : Layout) (name inside : String) : String :=
  l.margin ++ "<" ++ name ++ ">" ++ inside ++ closingTag name ++ l.lineEnd

def print (c : Call) (l : Layout) : String :=
  let opening := l.margin ++ "<" ++ c.kind.element ++ c.attrs
  if c.parameters.isEmpty && c.instructions.isEmpty then opening ++ "/>" ++ l.lineEnd
  else
    let parameters :=
      if c.parameters.isEmpty then ""
      else line l.deeper "params" (sections (Json.obj c.parameters).text)
    let instructions :=
      if c.instructions.isEmpty then ""
      else line l.deeper "content" (Inline.printAll c.instructions)
    opening ++ ">" ++ l.lineEnd ++ parameters ++ instructions ++ l.margin ++
      closingTag c.kind.element ++ l.lineEnd

end Call

mutual

def Node.print (l : Layout) : Node → String
  | .block head none => head.print l true ""
  | .block head (some children) =>
    head.print l children.isEmpty (Forest.print (head.childLayout l) children)
  | .call c => c.print l
termination_by structural n => n

def Forest.print (l : Layout) : List Node → String
  | [] => ""
  | n :: rest => n.print l ++ Forest.print l rest
termination_by structural ns => ns

end

end LiveDoc
