import LiveDoc.Document.Printer
import LiveDoc.Proofs.Markup.Spelling
import LiveDoc.Proofs.Reading.NodeForm
import LiveDoc.Proofs.Reading.Operation

/-!
# Reading what has been written

Documents and agents that have been read are read again from what they are written as, with all ids
that were made up for them.
-/

set_option autoImplicit false
set_option relaxedAutoImplicit false

namespace LiveDoc

open Markup (Element Item Layout Spells Unquoted Writable given value?)
open Grammar.Standard (isId)

variable {g : Grammar} {l : Layout}

namespace Document

/-- The attributes that a document is written with, around those that are its identity. -/
def attributes (d : Document) (identity : List (String × String)) : List (String × String) :=
  ("id", d.id) :: (identity ++ tableAttributes [] (d.metadata.getD []))

def outline (d : Document) (l : Layout) (element : String) (identity : List (String × String)) :
    Element :=
  ⟨element, d.attributes identity,
    if d.nodes.isEmpty then [] else .text "\n" :: Forest.outline l.deeper d.nodes⟩

/-- A document in the form in which it is read from a root with some attributes besides metadata. -/
structure Canonical (g : Grammar) (element : String) (besides : List String)
    (identity : List (String × String)) (d : Document) : Prop where
  nodes : ∃ type, g.type? element = some type ∧ Forest.Canonical g type d.nodes
  writable : Writable element (d.attributes identity)
  checked : g.checkAttributes element (d.attributes identity) = []
  table : Reading.textTable besides (d.attributes identity) = d.metadata.getD []
  metadata : d.metadata ≠ some []

variable {d : Document} {element written : String} {besides : List String}
  {identity : List (String × String)}

/-- A written document is read as the element that it was written as, but for how its character data
is cut into pieces. -/
theorem ofText_printAs (hwritable : Writable element (d.attributes identity))
    (hnodes : ∀ n ∈ Forest.preorder d.nodes, Writable n.element n.attributes)
    (hl : Text.isAllBlank l.indent = true)
    (hidentity : written.toList = Markup.attributeChars identity) :
    ∃ found, Element.ofText (d.printAs l element written) = .ok found ∧
      found.joined = (d.outline l element identity).joined := by
  have hattributes :
      (Markup.attr "id" d.id ++ written ++ tableAttrs [] (d.metadata.getD [])).toList =
        Markup.attributeChars (d.attributes identity) := by
    rw [attributes, Markup.attributeChars_cons, Markup.attributeChars_append, ← hidentity,
      ← toList_tableAttrs, ← Markup.toList_attr]
    simp
  have htail : Text.isAllBlank "\n" = true := by decide
  rw [printAs, outline]
  split
  · have hread := Markup.ofText_append_of_spells
      (Markup.spells_single hwritable hattributes) htail
    simpa [String.append_assoc] using hread
  · have hinside : Spells (.text "\n" :: Forest.outline l.deeper d.nodes)
        ("\n" ++ Forest.print l.deeper d.nodes).toList := by
      rw [String.toList_append]
      exact (Markup.spells_blank htail).append (Forest.spells_print hnodes (l := l.deeper) hl)
    have hread := Markup.ofText_append_of_spells
      (Markup.spells_pair hwritable hattributes hinside) htail
    have hopen : (">\n" : String) = ">" ++ "\n" := by decide
    rw [hopen]
    simpa only [String.append_assoc] using hread

end Document

namespace Reading

open Document (Canonical)

variable {d : Document} {besides : List String} {identity : List (String × String)} {name : String}

theorem document_reread (hg : g.Printable) (hs : g.Supported) (besides : List String)
    {type : String}
    (htype : g.type? name = some type) (hnodes : Forest.Legible g type d.nodes)
    (hchecked : g.checkAttributes name (d.attributes identity) = [])
    (hl : Text.isAllBlank l.indent = true) (supply : IdSupply) :
    document g (d.outline l name identity) d.id besides supply =
      .ok (⟨d.id, Forest.reread g d.nodes,
        if (textTable besides (d.attributes identity)).isEmpty then none
        else some (textTable besides (d.attributes identity))⟩, supply) := by
  have hblocks : blocks g ⟨name, []⟩ name type 0 (d.outline l name identity).items supply =
      .ok (Forest.reread g d.nodes, supply) := by
    rw [Document.outline]
    split
    · rename_i hempty
      simp [List.isEmpty_iff.1 hempty, Forest.reread, blocks, Read.pure_eq_ok_iff]
    · have htail (index : Nat) :
          blocks g ⟨name, []⟩ name type index [] supply = .ok ([], supply) := by
        simp [blocks, Read.pure_eq_ok_iff]
      have hread := blocks_reread hg hs hnodes (l := l.deeper) hl ⟨name, []⟩ name 0 supply htail
      rw [List.append_nil] at hread
      simpa [blocks, show Text.isAllBlank "\n" = true by decide] using hread
  simp only [document, Read.bind_eq_ok_iff, Read.lift_eq_ok_iff, Read.pure_eq_ok_iff]
  exact ⟨(), supply, ⟨checkAttributes_eq_ok_iff.2 hchecked, rfl⟩, type, supply,
    ⟨typeOf_eq_ok_iff.2 htype, rfl⟩, _, supply, hblocks, rfl, rfl⟩

theorem document_outline (hg : g.Printable) (hs : g.Supported)
    (h : d.Canonical g name besides identity) (hl : Text.isAllBlank l.indent = true)
    (supply : IdSupply) :
    document g (d.outline l name identity) d.id besides supply = .ok (d, supply) := by
  obtain ⟨type, htype, hnodes⟩ := h.nodes
  have hread := document_reread hg hs besides htype hnodes.legible h.checked hl supply
  have hmetadata : (if (textTable besides (d.attributes identity)).isEmpty then none
      else some (textTable besides (d.attributes identity))) = d.metadata := by
    rw [h.table]
    cases hd : d.metadata with
    | none => rfl
    | some metadata =>
      cases metadata with
      | nil => exact absurd hd h.metadata
      | cons entry rest => rfl
  rwa [hnodes.reread_eq, hmetadata] at hread

variable {root : Element} {ident : String} {supply left : IdSupply}

/-- The attributes of the identity of a root, besides its id, are those of the root. -/
structure Identifies (besides : List String) (identity : List (String × String)) (root : Element) :
    Prop where
  names : ∀ a ∈ identity, a.1 ∈ besides ∧ a.1 ≠ "id" ∧ Markup.isAttributeName a.1 = true
  nodup : (identity.map Prod.fst).Nodup
  values : ∀ name ∈ besides, name ≠ "id" → value? name identity = root.attr? name

theorem isId_root (hg : g.Printable) (hroot : root.name = "document" ∨ root.name = "agent")
    (hcheck : g.checkAttributes root.name root.attributes = []) (text : String) :
    isId ((root.attr? "id").getD (documentId text)) = true := by
  obtain ⟨entry, hentry, haccepts⟩ := Grammar.checkAttributes_eq_nil_iff.1 hcheck
  obtain ⟨hmem, hname⟩ := Grammar.entry?_eq_some hentry
  obtain ⟨hids, a, ha, hid⟩ := hg.root_ids entry hmem (hname.symm ▸ hroot)
  cases hvalue : root.attr? "id" with
  | none => exact Grammar.Standard.isId_documentId text
  | some given =>
    have haccept := haccepts a ha
    rw [hid, ← attr?_eq_value?, hvalue] at haccept
    exact (hids.accepts_iff ha hid).1 haccept

theorem checkAttributes_of_document (h : document g root ident besides supply = .ok (d, left)) :
    g.checkAttributes root.name root.attributes = [] := by
  simp only [document, Read.bind_eq_ok_iff, Read.lift_eq_ok_iff] at h
  obtain ⟨⟨⟩, _, ⟨hcheck, -⟩, -⟩ := h
  exact checkAttributes_eq_ok_iff.1 hcheck

/-- A document that is read is canonical, if its attributes can be written again and the numbers in
parameters are integers. -/
theorem document_canonical (hg : g.Printable)
    (hroot : root.name = "document" ∨ root.name = "agent")
    (hgiven : ∀ e ∈ root.elements, Rewritable e) (hident : isId ident = true)
    (hseed : isId supply.seed = true) (hbesides : "id" ∈ besides)
    (hidentity : Identifies besides identity root)
    (h : document g root ident besides supply = .ok (d, left))
    (hintegers : ∀ c ∈ Forest.calls d.nodes, c.HasIntegers) :
    d.Canonical g root.name besides identity ∧ d.id = ident := by
  obtain ⟨name, attributes, items⟩ := root
  obtain ⟨he, hitems⟩ : Rewritable ⟨name, attributes, items⟩ ∧
    ∀ e ∈ Element.elementsOfItems items, Rewritable e := List.forall_mem_cons.1 hgiven
  simp only [document, Read.bind_eq_ok_iff, Read.lift_eq_ok_iff, Read.pure_eq_ok_iff,
    typeOf_eq_ok_iff] at h
  obtain ⟨⟨⟩, _, ⟨hchecked, rfl⟩, type, _, ⟨htype, rfl⟩, nodes, _, hblocks, hd, rfl⟩ := h
  have hcheck := checkAttributes_eq_ok_iff.1 hchecked
  have htable : d.metadata.getD [] = textTable besides attributes := by
    rw [← hd]
    cases textTable besides attributes <;> rfl
  have hattributes : d.attributes identity =
      (("id", ident) :: identity) ++ tableAttributes [] (textTable besides attributes) := by
    rw [Document.attributes, htable, ← hd, List.cons_append]
  have hfront : ∀ a ∈ ("id", ident) :: identity,
      a.1 ∈ besides ∧ Markup.isAttributeName a.1 = true := by
    have hid : Markup.isAttributeName "id" = true := by decide
    refine List.forall_mem_cons.2 ⟨⟨hbesides, hid⟩, fun a ha => ?_⟩
    obtain ⟨hin, -, hname⟩ := hidentity.names a ha
    exact ⟨hin, hname⟩
  obtain ⟨entry, hentry, -⟩ := Grammar.type?_eq_some_iff.1 htype
  obtain ⟨hmem, hname⟩ := Grammar.entry?_eq_some hentry
  subst hname
  have hnodes : Forest.Canonical g type d.nodes := by
    rw [← hd] at hintegers ⊢
    exact (blocks_canonical hg hseed hintegers items hitems hblocks).1
  refine ⟨⟨⟨type, htype, hnodes⟩, ?_, ?_, ?_, ?_⟩, by rw [← hd]⟩
  · rw [hattributes]
    refine writable_append he (hg.names entry hmem) hfront ?_
    rw [List.map_cons, List.nodup_cons]
    refine ⟨fun hid => ?_, hidentity.nodup⟩
    obtain ⟨a, ha, heq⟩ := List.mem_map.1 hid
    exact (hidentity.names a ha).2.1 heq
  · rw [hattributes]
    refine checkAttributes_append he.given hentry hcheck (fun a ha => (hfront a ha).1) (by simp)
      fun a ha hin haccepts => ?_
    by_cases hid : a.name = "id"
    · rw [hid, Markup.value?_cons_self]
      exact ((hg.root_ids entry hmem hroot).1.accepts_iff ha hid).2 hident
    · rwa [Markup.value?_cons_of_ne (Ne.symm hid), hidentity.values a.name hin hid]
  · rw [hattributes, htable]
    exact textTable_append_tableAttributes (fun a ha => (hfront a ha).1) (isTextTable_textTable _ _)
  · rw [← hd]
    cases htexts : textTable besides attributes <;> simp

end Reading

namespace Agent

def besides : List String := ["id", "name", "description", "model"]

def identity (a : Agent) : List (String × String) :=
  given "name" a.name ++ (given "description" a.description ++ given "model" a.model)

theorem value?_identity (a : Agent) :
    value? "name" a.identity = a.name ∧ value? "description" a.identity = a.description ∧
      value? "model" a.identity = a.model := by
  refine ⟨?_, ?_, ?_⟩
  all_goals
    simp [identity, Markup.value?_append, Markup.value?_given_self, Markup.value?_given_of_ne]

theorem map_fst_identity (a : Agent) :
    (a.identity.map Prod.fst).Sublist ["name", "description", "model"] := by
  rw [identity, List.map_append, List.map_append]
  exact (Markup.map_fst_given "name" a.name).append
    ((Markup.map_fst_given "description" a.description).append
      (Markup.map_fst_given "model" a.model))

theorem identifies (a : Agent) {root : Element} (hname : a.name = root.attr? "name")
    (hdescription : a.description = root.attr? "description")
    (hmodel : a.model = root.attr? "model") : Reading.Identifies besides a.identity root := by
  refine ⟨fun b hb => ?_, a.map_fst_identity.nodup (by decide), ?_⟩
  · have hall : ∀ name ∈ ["name", "description", "model"],
        name ∈ besides ∧ name ≠ "id" ∧ Markup.isAttributeName name = true := by decide
    exact hall b.1 (a.map_fst_identity.subset (List.mem_map_of_mem hb))
  · obtain ⟨hvalueName, hvalueDescription, hvalueModel⟩ := a.value?_identity
    intro name hin hid
    simp only [besides, List.mem_cons, List.not_mem_nil, or_false, hid, false_or] at hin
    rcases hin with rfl | rfl | rfl
    · rw [hvalueName, hname]
    · rw [hvalueDescription, hdescription]
    · rw [hvalueModel, hmodel]

end Agent

namespace Reading

variable {d : Document} {a : Agent} {root : Element} {s : Source} {ident : String}
  {identity : List (String × String)} {supply left : IdSupply}

theorem of_source (h : source g root ident supply = .ok (s, left)) (hs : s.diff? = none) :
    (∃ d, s = .document d ∧ root.name = "document" ∧
      document g root ident ["id"] supply = .ok (d, left)) ∨
    ∃ a : Agent, s = .agent a ∧ root.name = "agent" ∧
      document g root ident Agent.besides supply = .ok (a.document, left) ∧
        Identifies Agent.besides a.identity root := by
  cases source_eq_ok_iff.1 h with
  | document name inside => exact .inl ⟨_, rfl, name, inside⟩
  | @agent a _ name inside =>
    simp only [agent, Read.bind_eq_ok_iff, Read.pure_eq_ok_iff] at inside
    obtain ⟨d, _, hd, ha, rfl⟩ := inside
    refine .inr ⟨a, rfl, name, ?_, ?_⟩
    · rw [← ha]
      exact hd
    · exact a.identifies (by rw [← ha]) (by rw [← ha]) (by rw [← ha])
  | diff name inside => simp [Source.diff?] at hs

private theorem attr?_outline {element name : String} {besides : List String}
    {identity : List (String × String)} (h : d.Canonical g element besides identity)
    (hname : name ∈ besides) (hid : "id" ≠ name) :
    (d.outline l element identity).attr? name = value? name identity := by
  have htable := isTextTable_textTable besides (d.attributes identity)
  rw [h.table] at htable
  have hnone := htable.value?_eq_none hname []
  rw [attr?_eq_value?, Document.outline, Document.attributes, Markup.value?_cons_of_ne hid,
    Markup.value?_append, hnone, Option.or_none]

theorem parse_of_joined {text : String} {e : Element}
    (hfound : ∃ found, Element.ofText text = .ok found ∧ found.joined = e.joined)
    (hmade : ∀ supply, source Grammar.Standard.grammar e
      ((e.attr? "id").getD (documentId text)) supply = .ok (s, supply)) :
    Source.parse text = .ok s := by
  obtain ⟨found, htext, hjoined⟩ := hfound
  have hident : found.attr? "id" = e.attr? "id" := by
    rw [← Element.attr?_joined, hjoined, Element.attr?_joined]
  have hread := hmade (.ofSeed ((e.attr? "id").getD (documentId text)) found.ids)
  rw [← source_joined, ← hjoined, source_joined, ← hident] at hread
  exact parse_eq_ok_iff.2 ⟨found, htext, _, hread⟩

theorem attr?_id_outline {element : String} :
    (d.outline l element identity).attr? "id" = some d.id := by
  rw [attr?_eq_value?]
  exact Markup.value?_cons_self _ _ _

theorem source_outline_document (hg : g.Printable) (hs : g.Supported)
    (h : d.Canonical g "document" ["id"] []) (hl : Text.isAllBlank l.indent = true)
    (supply : IdSupply) :
    source g (d.outline l "document" []) d.id supply = .ok (.document d, supply) := by
  have hread := document_outline hg hs h hl supply
  have hname : (d.outline l "document" []).name = "document" := rfl
  simp only [source, hname, Read.bind_eq_ok_iff, Read.pure_eq_ok_iff]
  exact ⟨d, supply, hread, rfl, rfl⟩

theorem source_outline_agent (hg : g.Printable) (hs : g.Supported)
    (h : a.document.Canonical g "agent" Agent.besides a.identity)
    (hl : Text.isAllBlank l.indent = true) (supply : IdSupply) :
    source g (a.document.outline l "agent" a.identity) a.document.id supply =
      .ok (.agent a, supply) := by
  have hread := document_outline hg hs h hl supply
  have hname : (a.document.outline l "agent" a.identity).name = "agent" := rfl
  obtain ⟨hvalueName, hvalueDescription, hvalueModel⟩ := a.value?_identity
  simp only [source, agent, hname, Read.bind_eq_ok_iff, Read.pure_eq_ok_iff]
  refine ⟨a, supply, ⟨a.document, supply, hread, ?_, rfl⟩, rfl, rfl⟩
  rw [attr?_outline h (by decide) (by decide), attr?_outline h (by decide) (by decide),
    attr?_outline h (by decide) (by decide), hvalueName, hvalueDescription, hvalueModel]

end Reading

namespace Source

open Reading

/-- A document or an agent that has been read from a text, in which no quotes stand in names of
attributes and the numbers in parameters are integers, that is, numerals that fit a word of 64 bits,
is read again from what it is written as. -/
theorem parse_print {text : String} {root : Element} {s : Source}
    (hroot : Element.ofText text = .ok root)
    (hunquoted : ∀ e ∈ root.elements, ∀ a ∈ e.attributes, Unquoted a.1)
    (hread : Source.parse text = .ok s) (hsource : s.diff? = none)
    (hintegers : ∀ c ∈ Forest.calls s.nodes, c.HasIntegers)
    (hindent : Text.isAllBlank l.indent = true) : Source.parse (s.print l) = .ok s := by
  have hg := Grammar.Standard.printable
  have hs := Grammar.Standard.supported
  obtain ⟨_, hroot', left, hmade⟩ := parse_eq_ok_iff.1 hread
  obtain rfl := Except.ok.inj (hroot.symm.trans hroot')
  have hgiven (e : Element) (he : e ∈ root.elements) : Rewritable e :=
    ⟨Markup.given_of_ofText hroot e he, hunquoted e he⟩
  generalize hident : (root.attr? "id").getD (documentId text) = ident at hmade
  have hcanonical {d : Document} {besides : List String} {identity : List (String × String)}
      (hname : root.name = "document" ∨ root.name = "agent") (hbesides : "id" ∈ besides)
      (hidentity : Identifies besides identity root) (hnodes : d.nodes = s.nodes)
      (hd : Reading.document Grammar.Standard.grammar root ident besides
        (.ofSeed ident root.ids) = .ok (d, left)) :
      d.Canonical Grammar.Standard.grammar root.name besides identity := by
    have hid : isId ident = true := by
      rw [← hident]
      exact isId_root hg hname (checkAttributes_of_document hd) text
    exact (document_canonical hg hname hgiven hid hid hbesides hidentity hd (hnodes ▸ hintegers)).1
  obtain ⟨d, rfl, hname, hd⟩ | ⟨a, rfl, hname, hd, hidentity⟩ := of_source hmade hsource
  · have hidentity : Identifies ["id"] [] root :=
      ⟨by simp, .nil, fun name hin hid => absurd (List.mem_singleton.1 hin) hid⟩
    have hcanonical := hcanonical (.inl hname) (by simp) hidentity rfl hd
    rw [hname] at hcanonical
    have hwritten : "".toList = Markup.attributeChars [] := rfl
    obtain ⟨_, _, hnodes⟩ := hcanonical.nodes
    refine parse_of_joined
      (d.ofText_printAs hcanonical.writable hnodes.writable hindent hwritten) fun supply => ?_
    rw [attr?_id_outline, Option.getD_some]
    exact source_outline_document hg hs hcanonical hindent supply
  · have hcanonical := hcanonical (.inr hname) (by decide) hidentity rfl hd
    rw [hname] at hcanonical
    have hwritten : (Markup.attr? "name" a.name ++ Markup.attr? "description" a.description ++
        Markup.attr? "model" a.model).toList = Markup.attributeChars a.identity := by
      rw [Agent.identity, Markup.attributeChars_append, Markup.attributeChars_append,
        ← Markup.toList_attr?, ← Markup.toList_attr?, ← Markup.toList_attr?]
      simp
    obtain ⟨_, _, hnodes⟩ := hcanonical.nodes
    refine parse_of_joined
      (a.document.ofText_printAs hcanonical.writable hnodes.writable hindent hwritten)
        fun supply => ?_
    rw [attr?_id_outline, Option.getD_some]
    exact source_outline_agent hg hs hcanonical hindent supply

theorem unquoted_of_all {text : String} {root : Element}
    (hroot : Element.ofText text = .ok root)
    (hall : (Element.ofText text).toOption.map (fun root => root.elements.all fun e =>
      e.attributes.all fun a => decide (Unquoted a.1)) = some true) :
    ∀ e ∈ root.elements, ∀ a ∈ e.attributes, Unquoted a.1 := by
  rw [hroot, Except.toOption, Option.map_some, Option.some_inj] at hall
  simpa only [List.all_eq_true, decide_eq_true_eq] using hall

/-- A document with a heading, styled text in a nested list and a call, none of which has an id. -/
theorem parse_print_nested :
    let text := "<document id=\"d\"><h2 align=\"left\">A <strong>b</strong></h2>" ++
      "<ul><li>c<ul><li/></ul></li></ul>" ++
      "<fncall idyll-fn=\"f\"><params>\x7b\"n\":-3\x7d</params></fncall></document>"
    let item (ident : String) (content : List Inline) (children : Option Forest) : Node :=
      .block ⟨ident, "list_item", [], content⟩ children
    let list (ident : String) (items : Forest) : Node :=
      .block ⟨ident, "bullet_list", [], []⟩ (some items)
    let s := Source.document ⟨"d",
      [.block ⟨"d-1", "heading", [("align", .str "left"), ("level", .ofNat 2)],
          [.plain "A ", .text "b" ["bold"]]⟩ none,
        list "d-2" [item "d-3" [.plain "c"] (some [list "d-4" [item "d-5" [] none]])],
        .call ⟨"d-6", .invocation, "f", [("n", .num (.int (-3)))], [], true, []⟩], none⟩
    Source.parse text = .ok s ∧ Source.parse (s.print ⟨"\t", 0, false⟩) = .ok s := by
  intro text item list s
  have hread : Source.parse text = .ok s := toOption_eq_some_iff.1 (by decide +kernel)
  obtain ⟨root, hroot, -⟩ := parse_eq_ok_iff.1 hread
  have hunquoted := unquoted_of_all hroot (by decide +kernel)
  have hintegers : ∀ c ∈ Forest.calls s.nodes, c.HasIntegers := by
    decide +kernel
  exact ⟨hread, parse_print hroot hunquoted hread rfl hintegers (by decide)⟩

-- A whole number that fits no word is kept as a binary one and read again as another.
example :
    ∃ s ∈ (Source.parse ("<document id=\"d\"><fncall id=\"c\" idyll-fn=\"f\">" ++
      "<params>\x7b\"n\":123456789012345678901\x7d</params></fncall></document>")).toOption,
      s.diff? = none ∧ (Source.parse (s.print ⟨"  ", 0, false⟩)).toOption ≠ some s := by
  decide +kernel

end Source

end LiveDoc
