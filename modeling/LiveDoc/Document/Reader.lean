import LiveDoc.Document.Basic
import LiveDoc.Edit.Reader
import LiveDoc.Grammar.Standard
import LiveDoc.Markup.Event

/-!
# Reading sources

A whole source by a grammar. Ids that are given nowhere in the source are made up from the id of the
document, so that they are new.
-/

set_option autoImplicit false
set_option relaxedAutoImplicit false

namespace LiveDoc

namespace Reading

open Markup (Element)

variable (g : Grammar)

/-- The document that a root element makes; attributes other than the given ones are metadata. -/
def document (root : Element) (ident : String) (besides : List String) : Read Document := do
  let path : Path := ⟨root.name, []⟩
  checkAttributes g path root.name root.attributes
  let type ← typeOf g path root.name
  let nodes ← blocks g path root.name type 0 root.items
  let metadata := textTable besides root.attributes
  pure { id := ident, nodes, metadata := if metadata.isEmpty then none else some metadata }

def agent (root : Element) (ident : String) : Read Agent := do
  let document ← document g root ident ["id", "name", "description", "model"]
  pure
    { document
      name := root.attr? "name"
      description := root.attr? "description"
      model := root.attr? "model" }

def diff (root : Element) : Read Diff := do
  let path : Path := ⟨root.name, []⟩
  checkAttributes g path root.name root.attributes
  let type ← typeOf g path root.name
  let operations ← operations g path root.name type 0 root.items
  pure { target := root.attr? "target", operations }

def source (root : Element) (ident : String) : Read Source :=
  match root.name with
  | "document" => do
    let d ← document g root ident ["id"]
    pure (.document d)
  | "agent" => do
    let a ← agent g root ident
    pure (.agent a)
  | "diff" => do
    let d ← diff g root
    pure (.diff d)
  | other => complain ⟨other, []⟩ (.unexpectedRoot other)

end Reading

namespace Source

/-- What a text holds, and the supply of ids that are new to it. -/
def readWithSupply (g : Grammar) (text : String) : Except Fault (Source × IdSupply) :=
  match Markup.Element.ofText text with
  | .error fault => .error (.markup fault)
  | .ok root =>
    let ident := (root.attr? "id").getD (documentId text)
    (Reading.source g root ident).run (.ofSeed ident root.ids)

def read (g : Grammar) (text : String) : Except Fault Source :=
  (readWithSupply g text).map Prod.fst

/-- What a text holds by the standard grammar. -/
def parse (text : String) : Except Fault Source := read Grammar.Standard.grammar text

end Source

def Document.parse (text : String) : Except Fault Document := do
  match ← Source.parse text with
  | .document d => .ok d
  | .agent a => .ok a.document
  | .diff _ => Reading.complain ⟨"diff", []⟩ .expectedDocument

def Diff.parse (text : String) : Except Fault Diff := do
  match ← Source.parse text with
  | .diff d => .ok d
  | .document _ | .agent _ => Reading.complain ⟨"", []⟩ .expectedDiff

end LiveDoc
