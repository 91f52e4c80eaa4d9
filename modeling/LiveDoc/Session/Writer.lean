import LiveDoc.Document.Printer

/-!
# Writers for many texts

A writer is kept from one text to the next. It remembers a layout, which it changes on its way into
children and changes back behind them, and adds to the text in hand piece by piece.
-/

set_option autoImplicit false
set_option relaxedAutoImplicit false

namespace LiveDoc.Session

open Edit (Operation)
open Markup (Layout attr attr? closingTag sections)

/-- A writer: the layout of what comes next, and the text so far. -/
structure Writer where
  layout : Layout
  output : String

abbrev Writing := StateM Writer Unit

def put (chars : String) : Writing :=
  modify fun w => { w with output := w.output ++ chars }

def putMargin : Writing := do
  put (← get).layout.margin

def putLineEnd : Writing := do
  put (← get).layout.lineEnd

def deeper (writing : Writing) : Writing := do
  modify fun w => { w with layout.level := w.layout.level + 1 }
  writing
  modify fun w => { w with layout.level := w.layout.level - 1 }

def onOneLine (writing : Writing) : Writing := do
  let compact := (← get).layout.compact
  modify fun w => { w with layout.compact := true }
  writing
  modify fun w => { w with layout.compact := compact }

def unlessAbsent (absent : Bool) (writing : Writing) : Writing :=
  if absent then pure () else writing

def writeInside (b : Block) (childless : Bool) (children : Writing) : Writing :=
  match b.model with
  | .text => put b.plainText
  | .rich => do
    put (Inline.printAll b.content)
    unlessAbsent childless (onOneLine children)
  | .json | .none => do
    putLineEnd
    deeper children
    putMargin

/-- Writes a block around its children, of which there may be none. -/
def writeBlock (b : Block) (childless : Bool) (children : Writing) : Writing := do
  putMargin
  put ("<" ++ b.element ++ b.attrs)
  if b.content.isEmpty && childless then
    put "/>"
    putLineEnd
  else
    put ">"
    writeInside b childless children
    put (closingTag b.element)
    putLineEnd

def writeLine (name inside : String) : Writing := do
  putMargin
  put ("<" ++ name ++ ">")
  put inside
  put (closingTag name)
  putLineEnd

def writeCall (c : Call) : Writing := do
  putMargin
  put ("<" ++ c.kind.element ++ c.attrs)
  if c.parameters.isEmpty && c.instructions.isEmpty then
    put "/>"
    putLineEnd
  else
    put ">"
    putLineEnd
    deeper do
      unlessAbsent c.parameters.isEmpty
        (writeLine "params" (sections (Json.obj c.parameters).text))
      unlessAbsent c.instructions.isEmpty
        (writeLine "content" (Inline.printAll c.instructions))
    putMargin
    put (closingTag c.kind.element)
    putLineEnd

mutual

def writeNode : Node → Writing
  | .block head none => writeBlock head true (pure ())
  | .block head (some children) => writeBlock head children.isEmpty (writeNodes children)
  | .call c => writeCall c
termination_by structural n => n

def writeNodes : List Node → Writing
  | [] => pure ()
  | n :: rest => do
    writeNode n
    writeNodes rest
termination_by structural ns => ns

end

def writeRoot (d : Document) (element identity : String) : Writing := do
  put ("<" ++ element ++ attr "id" d.id ++ identity ++ tableAttrs [] (d.metadata.getD []))
  if d.nodes.isEmpty then put "/>\n"
  else
    put ">\n"
    deeper (writeNodes d.nodes)
    put (closingTag element ++ "\n")

/-- Writes the inside and end of an operation that carries nodes. -/
def writeCarried (element : String) (nodes : Forest) : Writing :=
  if nodes.isEmpty then put "/>"
  else do
    put ">\n"
    deeper (writeNodes nodes)
    putMargin
    put (closingTag element)

def writeRest (o : Operation) : Writing :=
  match o with
  | .setProp block name value => do
    put (attr "blockId" block ++ attr "name" name ++ attr "value" value.plainText)
    put "/>"
  | .setContent block content => do
    put (attr "blockId" block ++ ">")
    put (Inline.printAll content)
    put (closingTag o.name)
  | .setParameters block parameters => do
    put (attr "blockId" block)
    if parameters.isEmpty then put "/>"
    else
      put ">"
      put (sections (Json.obj parameters).text)
      put (closingTag o.name)
  | .rename block new => do
    put (attr "blockId" block ++ attr "newId" new)
    put "/>"
  | .delete block => do
    put (attr "blockId" block)
    put "/>"
  | .insert place nodes => do
    put place.attrs
    writeCarried o.name nodes
  | .replace block nodes => do
    put (attr "blockId" block)
    writeCarried o.name nodes
  | .move targets place => do
    put (targets.attrs ++ place.attrs)
    put "/>"

def writeOperation (o : Operation) : Writing := do
  putMargin
  put ("<" ++ o.name)
  writeRest o
  put "\n"

def writeOperations : List Operation → Writing
  | [] => pure ()
  | o :: rest => do
    writeOperation o
    writeOperations rest

def writeDiff (d : Diff) : Writing := do
  put ("<diff" ++ attr? "target" d.target)
  if d.operations.isEmpty then put "/>\n"
  else
    put ">\n"
    deeper (writeOperations d.operations)
    put "</diff>\n"

/-- What a writer can be asked for: a source, a document, or nodes without a root element. -/
inductive Request where
  | source (s : Source)
  | document (d : Document)
  | nodes (ns : Forest)

namespace Request

def write : Request → Writing
  | .source (.document d) | .document d => writeRoot d "document" ""
  | .source (.agent a) =>
    writeRoot a.document "agent"
      (attr? "name" a.name ++ attr? "description" a.description ++ attr? "model" a.model)
  | .source (.diff d) => writeDiff d
  | .nodes ns => writeNodes ns

def print (l : Layout) : Request → String
  | .source s => s.print l
  | .document d => d.print l
  | .nodes ns => Forest.print l ns

end Request

namespace Writer

/-- A writer that has written nothing, with what one level is indented by. -/
def new (indent : String) : Writer := ⟨{ indent }, ""⟩

/-- The text that a writer makes on request, and the writer behind it. -/
def make (w : Writer) (r : Request) : String × Writer :=
  let (_, after) := r.write.run { w with output := "" }
  (after.output, after)

def makeAll (w : Writer) : List Request → List String
  | [] => []
  | r :: rest =>
    let (text, after) := w.make r
    text :: after.makeAll rest

end Writer

end LiveDoc.Session
