import LiveDoc.Proofs.Document.RoundTrip
import LiveDoc.Proofs.Node.Values

/-!
# Values of variables in documents

A document with values in its variables is written and read again. A value of any type comes back as
its text, so the document is another one, but as plain text its content is the same.
-/

set_option autoImplicit false
set_option relaxedAutoImplicit false

namespace LiveDoc

open Grammar.Standard (isId)
open Markup (Element Layout Unquoted)
open Reading (Identifies Rewritable)

variable {g : Grammar} {l : Layout}

namespace Source

/-- A source with other nodes; a batch of operations has none. -/
def mapNodes (change : Forest → Forest) : Source → Source
  | .document d => .document { d with nodes := change d.nodes }
  | .agent a => .agent { a with document := { a.document with nodes := change a.document.nodes } }
  | .diff d => .diff d

theorem mapNodes_mapNodes (s : Source) (change after : Forest → Forest) :
    (s.mapNodes change).mapNodes after = s.mapNodes fun ns => after (change ns) := by
  cases s <;> rfl

theorem nodes_mapNodes {s : Source} (h : s.diff? = none) (change : Forest → Forest) :
    (s.mapNodes change).nodes = change s.nodes := by
  cases s with
  | document d => rfl
  | agent a => rfl
  | diff d => simp [diff?] at h

/-- How the document that a source holds is framed: by a root with a name, some attributes of which
are no metadata and some the identity of the source besides its id. -/
inductive Frames : Source → Document → String → List String → List (String × String) → Prop
  | document (d : Document) : Frames (.document d) d "document" ["id"] []
  | agent (a : Agent) : Frames (.agent a) a.document "agent" Agent.besides a.identity

/-- A source that holds a document in the form in which it is read. -/
def Canonical (g : Grammar) (s : Source) : Prop :=
  ∃ d element besides identity, s.Frames d element besides identity ∧
    d.Canonical g element besides identity

variable {s : Source} {d : Document} {element : String} {besides : List String}
  {identity : List (String × String)}

namespace Frames

theorem nodes_eq (h : s.Frames d element besides identity) : d.nodes = s.nodes := by
  cases h <;> rfl

theorem mapNodes (h : s.Frames d element besides identity) (change : Forest → Forest) :
    (s.mapNodes change).Frames { d with nodes := change d.nodes } element besides identity := by
  cases h with
  | document d => exact .document _
  | agent a =>
    exact .agent { a with document := { a.document with nodes := change a.document.nodes } }

theorem exists_written (h : s.Frames d element besides identity) (l : Layout) :
    ∃ written, written.toList = Markup.attributeChars identity ∧
      s.print l = d.printAs l element written := by
  cases h with
  | document d => exact ⟨"", rfl, rfl⟩
  | agent a =>
    refine ⟨_, ?_, rfl⟩
    rw [Agent.identity, Markup.attributeChars_append, Markup.attributeChars_append,
      ← Markup.toList_attr?, ← Markup.toList_attr?, ← Markup.toList_attr?]
    simp

theorem source_outline (h : s.Frames d element besides identity) (hg : g.Printable)
    (hs : g.Supported) (hd : d.Canonical g element besides identity)
    (hl : Text.isAllBlank l.indent = true) (supply : IdSupply) :
    Reading.source g (d.outline l element identity) d.id supply = .ok (s, supply) := by
  cases h with
  | document d => exact Reading.source_outline_document hg hs hd hl supply
  | agent a => exact Reading.source_outline_agent hg hs hd hl supply

end Frames

theorem frames_of_read {root : Element} {ident : String} {supply left : IdSupply}
    (h : Reading.source g root ident supply = .ok (s, left)) (hs : s.diff? = none) :
    ∃ d besides identity, s.Frames d root.name besides identity ∧
      Identifies besides identity root ∧ "id" ∈ besides ∧
      (root.name = "document" ∨ root.name = "agent") ∧
      Reading.document g root ident besides supply = .ok (d, left) := by
  obtain ⟨d, rfl, hname, hd⟩ | ⟨a, rfl, hname, hd, hidentity⟩ := Reading.of_source h hs
  · have hidentity : Identifies ["id"] [] root :=
      ⟨by simp, .nil, fun name hin hid => absurd (List.mem_singleton.1 hin) hid⟩
    exact ⟨d, _, _, hname ▸ .document d, hidentity, by simp, .inl hname, hd⟩
  · exact ⟨a.document, _, _, hname ▸ .agent a, hidentity, by decide, .inr hname, hd⟩

theorem canonical_of_parse {text : String} {root : Element} (hroot : Element.ofText text = .ok root)
    (hunquoted : ∀ e ∈ root.elements, ∀ a ∈ e.attributes, Unquoted a.1)
    (hread : Source.parse text = .ok s) (hsource : s.diff? = none)
    (hintegers : ∀ c ∈ Forest.calls s.nodes, c.HasIntegers) :
    s.Canonical Grammar.Standard.grammar := by
  have hg := Grammar.Standard.printable
  obtain ⟨_, hroot', left, hmade⟩ := Reading.parse_eq_ok_iff.1 hread
  obtain rfl := Except.ok.inj (hroot.symm.trans hroot')
  obtain ⟨d, besides, identity, hframes, hidentity, hbesides, hname, hd⟩ :=
    frames_of_read hmade hsource
  have hgiven (e : Element) (he : e ∈ root.elements) : Rewritable e :=
    ⟨Markup.given_of_ofText hroot e he, hunquoted e he⟩
  have hident := Reading.isId_root hg hname (Reading.checkAttributes_of_document hd) text
  rw [← hframes.nodes_eq] at hintegers
  exact ⟨d, root.name, besides, identity, hframes,
    (Reading.document_canonical hg hname hgiven hident hident hbesides hidentity hd hintegers).1⟩

namespace Canonical

theorem reread (h : s.Canonical Grammar.Standard.grammar)
    (hindent : Text.isAllBlank l.indent = true) : Source.parse (s.print l) = .ok s := by
  obtain ⟨d, element, besides, identity, hframes, hd⟩ := h
  obtain ⟨written, hwritten, hprint⟩ := hframes.exists_written l
  obtain ⟨_, _, hnodes⟩ := hd.nodes
  rw [hprint]
  refine Reading.parse_of_joined
    (d.ofText_printAs hd.writable hnodes.writable hindent hwritten) fun supply => ?_
  rw [Reading.attr?_id_outline, Option.getD_some]
  exact hframes.source_outline Grammar.Standard.printable Grammar.Standard.supported hd hindent
    supply

theorem mapValues (h : s.Canonical g) (hg : g.Printable)
    {f : String → Option Json → Option Json} (hf : ∀ name own, ∀ j ∈ f name own, ∃ s, j = .str s) :
    (s.mapNodes (Forest.mapValues f)).Canonical g := by
  obtain ⟨d, element, besides, identity, hframes, hd⟩ := h
  obtain ⟨type, htype, hnodes⟩ := hd.nodes
  exact ⟨_, element, besides, identity, hframes.mapNodes _,
    ⟨type, htype, hnodes.mapValues hg hf⟩, hd.writable, hd.checked, hd.table, hd.metadata⟩

end Canonical

theorem print_mapValues {f : String → Option Json → Option Json}
    (hf : ∀ name own, (f name own).map Json.plainText = own.map Json.plainText) (s : Source) :
    (s.mapNodes (Forest.mapValues f)).print l = s.print l := by
  have hprint (d : Document) (element written : String) :
      Document.printAs { d with nodes := Forest.mapValues f d.nodes } l element written =
        d.printAs l element written := by
    rw [Document.printAs, Document.printAs, Forest.isEmpty_mapValues, Forest.print_mapValues hf]
  cases s with
  | document d => exact hprint d _ _
  | agent a => exact hprint a.document _ _
  | diff d => rfl

/-- A document or an agent that has been read, in which no quotes stand in names of attributes and
the numbers in parameters are integers, that is, numerals that fit a word of 64 bits, is read again
after values have been put into its variables. Their texts then stand in the places of the values,
and every node is the same plain text. -/
theorem parse_print_withValues {text : String} {root : Element}
    (hroot : Element.ofText text = .ok root)
    (hunquoted : ∀ e ∈ root.elements, ∀ a ∈ e.attributes, Unquoted a.1)
    (hread : Source.parse text = .ok s) (hsource : s.diff? = none)
    (hintegers : ∀ c ∈ Forest.calls s.nodes, c.HasIntegers)
    (hindent : Text.isAllBlank l.indent = true) (values : Table Json) :
    let resolved := s.mapNodes (Forest.withValues values)
    let reloaded := resolved.mapNodes (Forest.mapValues Inline.asText)
    Source.parse (resolved.print l) = .ok reloaded ∧
      ∀ others : Table Json,
        (Forest.preorder reloaded.nodes).map
          (fun n => (n.id, Inline.interpolate others n.content)) =
          (Forest.preorder resolved.nodes).map
            fun n => (n.id, Inline.interpolate others n.content) := by
  intro resolved reloaded
  have hcanonical := canonical_of_parse hroot hunquoted hread hsource hintegers
  have hreloaded : reloaded.Canonical Grammar.Standard.grammar := by
    have hmapped : reloaded = s.mapNodes (Forest.mapValues fun name own =>
        Inline.asText name (Inline.given values name own)) := by
      simp only [reloaded, resolved, mapNodes_mapNodes, Forest.withValues_eq,
        Forest.mapValues_mapValues]
    rw [hmapped]
    exact hcanonical.mapValues Grammar.Standard.printable fun _ _ => Inline.eq_str_of_mem_asText
  have hprint : reloaded.print l = resolved.print l :=
    print_mapValues Inline.plainText_asText resolved
  refine ⟨hprint ▸ hreloaded.reread hindent, fun others => ?_⟩
  have hnodes : reloaded.nodes = Forest.mapValues Inline.asText resolved.nodes := by
    simp only [reloaded, resolved, mapNodes_mapNodes, nodes_mapNodes hsource]
  rw [hnodes, Forest.preorder_mapValues, List.map_map]
  refine List.map_congr_left fun n _ => ?_
  simp [Inline.interpolate_asText]

/-- Values of three types in the variables of a link, of a styled item in a list and of a call. -/
theorem parse_print_withValues_nested :
    let text := "<document id=\"d\"><p id=\"p\">To <link href=\"u\"><variable name=\"x\"/>, " ++
      "<annotation><variable name=\"y\" value=\"&lt;old&gt;\"/></annotation></link></p>" ++
      "<ul id=\"l\"><li id=\"i\"><variable name=\"x\" prompt=\"?\"/></li></ul><fncall " ++
      "id=\"c\" idyll-fn=\"f\"><content><variable name=\"z\"/></content></fncall></document>"
    let values : Table Json := [("x", .null), ("z", .obj [("k", .str "<\"&")])]
    let nodes (x y z : Option Json) : Forest :=
      [.block ⟨"p", "paragraph", [], [.plain "To ",
          .link "u" [.var "x" none x, .plain ", ", .note none none [.var "y" none y]]]⟩ none,
        .block ⟨"l", "bullet_list", [], []⟩
          (some [.block ⟨"i", "list_item", [], [.var "x" (some "?") x]⟩ none]),
        .call ⟨"c", .invocation, "f", [], [.var "z" none z], true, []⟩]
    let source (x y z : Option Json) : Source := .document ⟨"d", nodes x y z, none⟩
    let read := source none (some (.str "<old>")) none
    let resolved := source (some .null) (some (.str "<old>")) (some (.obj [("k", .str "<\"&")]))
    let reloaded := source (some (.str "null")) (some (.str "<old>"))
      (some (.str "\x7b\"k\":\"<\\\"&\"\x7d"))
    Source.parse text = .ok read ∧ read.mapNodes (Forest.withValues values) = resolved ∧
      Source.parse (resolved.print ⟨"  ", 0, false⟩) = .ok reloaded ∧
      (Forest.preorder reloaded.nodes).map (fun n =>
        Inline.interpolate [("y", .bool true)] n.content) =
        ["To null, true", "", "null", "\x7b\"k\":\"<\\\"&\"\x7d"] := by
  intro text values nodes source read resolved reloaded
  have htext : text = String.ofList _ :=
    append_eq_ofList (append_eq_ofList (append_eq_ofList rfl rfl) rfl) rfl
  have hread : Source.parse text = .ok read := by
    rw [parse_eq_ofChars htext]
    exact toOption_eq_some_iff.1 (by decide +kernel)
  obtain ⟨root, hroot, -⟩ := Reading.parse_eq_ok_iff.1 hread
  have hunquoted := unquoted_of_all hroot (by
    rw [Element.ofText_eq_ofChars htext]
    decide +kernel)
  have hintegers : ∀ c ∈ Forest.calls read.nodes, c.HasIntegers := by decide +kernel
  have hresolved : read.mapNodes (Forest.withValues values) = resolved := by decide +kernel
  have hreloaded : resolved.mapNodes (Forest.mapValues Inline.asText) = reloaded := by
    decide +kernel
  obtain ⟨hreread, -⟩ := parse_print_withValues (l := ⟨"  ", 0, false⟩) hroot hunquoted hread rfl
    hintegers (by decide) values
  rw [hresolved, hreloaded] at hreread
  exact ⟨hread, hresolved, hreread, by decide +kernel⟩

end Source

end LiveDoc
