import LiveDoc.Document.Basic
import LiveDoc.Node.Printer

/-!
# Writing sources

Documents, agents and batches of operations as markup, each element of the first level on a line of
its own.
-/

set_option autoImplicit false
set_option relaxedAutoImplicit false

namespace LiveDoc

open Markup (Layout attr attr? closingTag sections)

def Document.printAs (d : Document) (l : Layout) (element identity : String) : String :=
  let opening := "<" ++ element ++ attr "id" d.id ++ identity ++ tableAttrs [] (d.metadata.getD [])
  if d.nodes.isEmpty then opening ++ "/>\n"
  else opening ++ ">\n" ++ Forest.print l.deeper d.nodes ++ closingTag element ++ "\n"

def Document.print (d : Document) (l : Layout) : String := d.printAs l "document" ""

def Agent.print (a : Agent) (l : Layout) : String :=
  a.document.printAs l "agent"
    (attr? "name" a.name ++ attr? "description" a.description ++ attr? "model" a.model)

namespace Edit

def Markers.attrs (m : Markers) : String :=
  attr? "afterBlockId" m.after ++ (if m.atStart then attr "atStart" "true" else "") ++
    (if m.atEnd then attr "atEnd" "true" else "")

def Targets.attrs (t : Targets) : String :=
  attr? "blockId" t.block ++ attr? "blockIds" (t.blocks.map (String.intercalate ",")) ++
    attr? "fromBlockId" t.first ++ attr? "toBlockId" t.last

def printNodes (l : Layout) (element : String) (nodes : Forest) : String :=
  if nodes.isEmpty then "/>"
  else ">\n" ++ Forest.print l.deeper nodes ++ l.margin ++ closingTag element

def Operation.printRest (l : Layout) (o : Operation) : String :=
  match o with
  | .setProp block name value =>
    attr "blockId" block ++ attr "name" name ++ attr "value" value.plainText ++ "/>"
  | .setContent block content =>
    attr "blockId" block ++ ">" ++ Inline.printAll content ++ closingTag o.name
  | .setParameters block parameters =>
    attr "blockId" block ++
      (if parameters.isEmpty then "/>"
      else ">" ++ sections (Json.obj parameters).text ++ closingTag o.name)
  | .rename block new => attr "blockId" block ++ attr "newId" new ++ "/>"
  | .delete block => attr "blockId" block ++ "/>"
  | .insert place nodes => place.attrs ++ printNodes l o.name nodes
  | .replace block nodes => attr "blockId" block ++ printNodes l o.name nodes
  | .move targets place => targets.attrs ++ place.attrs ++ "/>"

def Operation.print (l : Layout) (o : Operation) : String :=
  l.margin ++ "<" ++ o.name ++ o.printRest l ++ "\n"

end Edit

def Diff.print (d : Diff) (l : Layout) : String :=
  let opening := "<diff" ++ attr? "target" d.target
  if d.operations.isEmpty then opening ++ "/>\n"
  else
    opening ++ ">\n" ++ String.join (d.operations.map (Edit.Operation.print l.deeper)) ++
      "</diff>\n"

def Source.print (s : Source) (l : Layout) : String :=
  match s with
  | .document d => d.print l
  | .agent a => a.print l
  | .diff d => d.print l

end LiveDoc
