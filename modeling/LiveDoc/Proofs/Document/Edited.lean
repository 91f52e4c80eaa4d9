import LiveDoc.Proofs.Document.RoundTrip
import LiveDoc.Proofs.Edit.Batch
import LiveDoc.Proofs.Edit.Sound
import LiveDoc.Proofs.Reading.Account

/-!
# Reading edited documents

An edited document can be read again from what it is written as exactly if its nodes stand where the
grammar allows them and are labelled as it demands, which no edit sees to.
-/

set_option autoImplicit false
set_option relaxedAutoImplicit false

namespace LiveDoc

open Edit (Operation)
open Grammar.Standard (grammar isId)
open Markup (Element Item Layout)
open Reading (Accounted IsTextTable)

variable {g : Grammar} {l : Layout}

/-- What holds of every document that is read and what no edit takes from it. -/
structure Document.Sound (g : Grammar) (d : Document) : Prop where
  id : isId d.id = true
  metadata : ∃ besides, "id" ∈ besides ∧ IsTextTable besides (d.metadata.getD [])
  nodes : ∀ n ∈ Forest.preorder d.nodes, n.Sound g

namespace Reading

theorem document_sound (hg : g.Printable) (hedit : g.Editable) {root : Element} {text : String}
    {besides : List String} {d : Document} {supply left : IdSupply}
    (hroot : root.name = "document" ∨ root.name = "agent") (hbesides : "id" ∈ besides)
    (hgiven : ∀ e ∈ root.elements, Markup.Given e.name e.attributes)
    (h : document g root ((root.attr? "id").getD (documentId text)) besides supply =
      .ok (d, left)) : d.Sound g := by
  have hid := isId_root hg hroot (checkAttributes_of_document h) text
  simp only [document, Read.bind_eq_ok_iff, Read.lift_eq_ok_iff, Read.pure_eq_ok_iff] at h
  obtain ⟨⟨⟩, _, -, type, _, -, nodes, _, hblocks, rfl, -⟩ := h
  refine ⟨hid, ⟨besides, hbesides, ?_⟩, ?_⟩
  · have htable := isTextTable_textTable besides root.attributes
    revert htable
    cases textTable besides root.attributes <;> exact id
  · exact blocks_sound hg hedit (fun e he => hgiven e (Element.mem_elements_of_items he)) hblocks

end Reading

theorem Document.sound_of_parse {text : String} {d : Document} (h : Document.parse text = .ok d) :
    d.Sound grammar := by
  have hg := Grammar.Standard.printable
  have hedit := Grammar.Standard.editable
  simp only [Document.parse, bind_eq_ok_iff] at h
  obtain ⟨s, hparse, h⟩ := h
  obtain ⟨root, hroot, left, hsource⟩ := Reading.parse_eq_ok_iff.1 hparse
  have hgiven := Markup.given_of_ofText hroot
  cases Reading.source_eq_ok_iff.1 hsource with
  | document name inside =>
    obtain rfl := Except.ok.inj h
    exact Reading.document_sound hg hedit (.inl name) (by simp) hgiven inside
  | agent name inside =>
    obtain rfl := Except.ok.inj h
    simp only [Reading.agent, Reading.Read.bind_eq_ok_iff, Reading.Read.pure_eq_ok_iff] at inside
    obtain ⟨d, _, hd, rfl, -⟩ := inside
    exact Reading.document_sound hg hedit (.inr name) (by simp) hgiven hd
  | diff name inside => simp [Reading.complain] at h

theorem Diff.sound_of_parse {text : String} {batch : Diff} (h : Diff.parse text = .ok batch) :
    ∀ o ∈ batch.operations, o.Sound grammar := by
  simp only [Diff.parse, bind_eq_ok_iff] at h
  obtain ⟨s, hparse, h⟩ := h
  obtain ⟨root, hroot, left, hsource⟩ := Reading.parse_eq_ok_iff.1 hparse
  have hgiven := Markup.given_of_ofText hroot
  cases Reading.source_eq_ok_iff.1 hsource with
  | document name inside => simp [Reading.complain] at h
  | agent name inside => simp [Reading.complain] at h
  | diff name inside =>
    obtain rfl := Except.ok.inj h
    simp only [Reading.diff, Reading.Read.bind_eq_ok_iff, Reading.Read.pure_eq_ok_iff] at inside
    obtain ⟨⟨⟩, _, -, type, _, -, os, _, hos, rfl, -⟩ := inside
    exact Reading.operations_sound Grammar.Standard.printable Grammar.Standard.editable
      (fun e he => hgiven e (Element.mem_elements_of_items he)) hos

theorem Edit.applyDiff_eq_ok {order : SetOrder} {d d' : Document} {batch : Diff}
    (h : Edit.applyDiff order d batch = .ok d') :
    ∃ nodes, Edit.applyBatch order d.nodes batch.operations = .ok nodes ∧
      d' = { d with nodes } := by
  have hnodes
      (h : (do let nodes ← Edit.applyBatch order d.nodes batch.operations; .ok { d with nodes }) =
        (.ok d' : Except Edit.BatchFailure Document)) :
      ∃ nodes, Edit.applyBatch order d.nodes batch.operations = .ok nodes ∧
        d' = { d with nodes } := by
    obtain ⟨nodes, hnodes, heq⟩ := bind_eq_ok_iff.1 h
    exact ⟨nodes, hnodes, (Except.ok.inj heq).symm⟩
  unfold Edit.applyDiff at h
  split at h
  · split at h
    · exact hnodes h
    · simp [bind, Except.bind] at h
  · exact hnodes h

theorem Document.Sound.applyDiff {order : Edit.SetOrder} {d d' : Document} {batch : Diff}
    (h : d.Sound g)
    (hbatch : ∀ o ∈ batch.operations, o.Sound g) (happly : Edit.applyDiff order d batch = .ok d') :
    d'.Sound g := by
  obtain ⟨nodes, hnodes, rfl⟩ := Edit.applyDiff_eq_ok happly
  obtain ⟨-, hvalid, hrun, -⟩ := Edit.applyBatch_eq_ok_iff.1 hnodes
  refine ⟨h.id, h.metadata, ?_⟩
  exact Edit.applyFrom_induct (P := fun ns => ∀ n ∈ Forest.preorder ns, n.Sound g)
    (fun o ho ns out hns => (hbatch o ho).apply (hvalid o ho) hns) h.nodes hrun

theorem Forest.element_mem_outline {ns : Forest} {n : Node} (h : n ∈ ns) :
    .element (n.outline l) ∈ Forest.outline l ns := by
  induction ns with
  | nil => simp at h
  | cons first rest ih =>
    rw [Forest.outline, List.mem_append]
    rcases List.mem_cons.1 h with rfl | h
    · exact .inl (by simp [lined])
    · exact .inr (ih h)

theorem Node.Sound.outline_children (hg : g.Printable) (hedit : g.Editable) {n : Node}
    (h : n.Sound g) :
    ∃ l', ∀ item ∈ Forest.outline l' (n.children?.getD []), item ∈ (n.outline l).items := by
  match n with
  | .call c => exact ⟨l, by simp [Node.children?, Forest.outline]⟩
  | .block b none => exact ⟨l, by simp [Node.children?, Forest.outline]⟩
  | .block b (some []) => exact ⟨l, by simp [Node.children?, Forest.outline]⟩
  | .block b (some (first :: rest)) =>
    have hmodel : b.model ≠ .text := by
      obtain ⟨e, hentry, hkind, htype⟩ := h.1.entry hg hedit
      rw [Block.model_eq hg hentry hkind]
      exact h.2 rfl e (Grammar.entry?_eq_some hentry).1 hkind htype
    refine ⟨b.childLayout l, fun item hitem => ?_⟩
    rw [Node.outline_block, Block.outline]
    simp only [Node.children?, Option.getD_some, List.isEmpty_cons, Bool.and_false,
      Bool.false_eq_true, if_false] at hitem ⊢
    cases hb : b.model with
    | text => exact absurd hb hmodel
    | rich => exact List.mem_append_right _ hitem
    | json => exact List.mem_cons_of_mem _ (List.mem_append_left _ hitem)
    | none => exact List.mem_cons_of_mem _ (List.mem_append_left _ hitem)

theorem Node.Sound.type?_eq (hg : g.Printable) (hedit : g.Editable) {n child : Node} (h : n.Sound g)
    (hchild : child ∈ n.children?.getD []) : g.type? n.element = some n.typeName := by
  cases n with
  | block b children =>
    obtain ⟨e, hentry, -, htype⟩ := h.1.entry hg hedit
    exact Grammar.type?_eq_some_iff.2 ⟨e, hentry, htype⟩
  | call c => simp [Node.children?] at hchild

theorem Forest.outline_mem_elements (hg : g.Printable) (hedit : g.Editable) {ns : Forest}
    (hsound : ∀ n ∈ Forest.preorder ns, n.Sound g) (l : Layout) :
    ∀ n ∈ Forest.preorder ns,
      ∃ l', n.outline l' ∈ Element.elementsOfItems (Forest.outline l ns) := by
  have hcons {first : Node} {rest : Forest} {l : Layout} (hfirst : first.Sound g)
      (hchildren : ∀ l, ∀ n ∈ Forest.preorder (first.children?.getD []), ∃ l', n.outline l' ∈
        Element.elementsOfItems (Forest.outline l (first.children?.getD [])))
      (hrest : ∀ n ∈ Forest.preorder rest, ∃ l', n.outline l' ∈
        Element.elementsOfItems (Forest.outline l rest)) :
      ∀ n ∈ Forest.preorder (first :: rest), ∃ l', n.outline l' ∈
        Element.elementsOfItems (Forest.outline l (first :: rest)) := by
    intro n hn
    rw [Forest.preorder_cons, List.cons_append, List.mem_cons, List.mem_append] at hn
    simp only [Forest.outline, Element.mem_elementsOfItems_iff,
      List.mem_append] at hchildren hrest ⊢
    rcases hn with rfl | hn | hn
    · exact ⟨l, _, .inl (by simp [lined]), Element.mem_elements_self _⟩
    · obtain ⟨inside, hinside⟩ := hfirst.outline_children (l := l) hg hedit
      obtain ⟨l', inner, hinner, hmem⟩ := hchildren inside n hn
      have hbelow := Element.mem_elements_of_items
        (Element.mem_elementsOfItems_iff.2 ⟨inner, hinside _ hinner, hmem⟩)
      exact ⟨l', _, .inl (by simp [lined]), hbelow⟩
    · obtain ⟨l', inner, hinner, hmem⟩ := hrest n hn
      exact ⟨l', inner, .inr hinner, hmem⟩
  induction ns using Forest.induct generalizing l with
  | nil => simp [Forest.preorder]
  | leaf head rest ih =>
    simp only [Forest.preorder_cons, List.cons_append, List.forall_mem_cons,
      List.forall_mem_append] at hsound
    exact hcons hsound.1 (by simp [Node.children?, Forest.preorder]) (ih hsound.2.2 l)
  | inner head children rest ihc ih =>
    simp only [Forest.preorder_cons, List.cons_append, List.forall_mem_cons,
      List.forall_mem_append] at hsound
    exact hcons hsound.1 (ihc hsound.2.1) (ih hsound.2.2 l)
  | call c rest ih =>
    simp only [Forest.preorder_cons, List.cons_append, List.forall_mem_cons,
      List.forall_mem_append] at hsound
    exact hcons hsound.1 (by simp [Node.children?, Forest.preorder]) (ih hsound.2.2 l)

private theorem type?_document : grammar.type? "document" = some "document" := by
  decide +kernel

/-- A document whose nodes stand where the grammar allows them and are labelled as it demands. -/
structure Document.InPlace (g : Grammar) (d : Document) : Prop where
  top : ∀ n ∈ d.nodes, g.allows "document" n.element = true
  inside : ∀ n ∈ Forest.preorder d.nodes, ∀ child ∈ n.children?.getD [],
    g.allows n.typeName child.element = true
  labelled : ∀ n ∈ Forest.preorder d.nodes, n.IsLabelled

/-- Whether the names of all attributes that a document is written with are names. -/
def Document.HasNames (d : Document) : Prop :=
  (∀ a ∈ d.attributes [], Markup.isAttributeName a.1 = true) ∧
    ∀ n ∈ Forest.preorder d.nodes, ∀ a ∈ n.attributes, Markup.isAttributeName a.1 = true

namespace Document.Sound

variable {d : Document}

theorem ofText_print (h : d.Sound grammar) (hnames : d.HasNames)
    (hl : Text.isAllBlank l.indent = true) :
    ∃ found, Element.ofText (d.print l) = .ok found ∧
      found.joined = (d.outline l "document" []).joined := by
  obtain ⟨besides, hid, htable⟩ := h.metadata
  refine d.ofText_printAs ⟨by decide, hnames.1, ?_⟩ (fun n hn => ?_) hl rfl
  · rw [Document.attributes, List.nil_append, List.map_cons, List.nodup_cons]
    refine ⟨fun hmem => ?_, Reading.tableAttributes_nodup [] htable.sorted⟩
    obtain ⟨a, ha, heq⟩ := List.mem_map.1 hmem
    obtain ⟨entry, hentry, rfl⟩ := List.mem_map.1 ha
    exact htable.names entry (List.mem_filter.1 hentry).1 (heq ▸ hid)
  · exact (h.nodes n hn).writable Grammar.Standard.printable Grammar.Standard.editable
      (hnames.2 n hn)

theorem exists_parse (h : d.Sound grammar) (hnames : d.HasNames)
    (hl : Text.isAllBlank l.indent = true) (hplace : d.InPlace grammar) :
    ∃ s, Source.parse (d.print l) = .ok s := by
  have hg := Grammar.Standard.printable
  have hedit := Grammar.Standard.editable
  have hlegible := Forest.legible_of_sound hg hedit h.nodes hplace.labelled hplace.top hplace.inside
  have hchecked : grammar.checkAttributes "document" (d.attributes []) = [] := by
    obtain ⟨e, hentry, -⟩ := Grammar.type?_eq_some_iff.1 type?_document
    obtain ⟨hmem, hname⟩ := Grammar.entry?_eq_some hentry
    refine Grammar.checkAttributes_eq_nil_iff.2 ⟨e, hentry, fun a ha => ?_⟩
    have hid := hedit.document_attributes e hmem hname a ha
    rw [hid, Document.attributes, Markup.value?_cons_self,
      (hg.root_ids e hmem (.inl hname)).1.accepts_iff ha hid]
    exact h.id
  obtain ⟨again, hread⟩ : ∃ again, ∀ supply,
      Reading.document grammar (d.outline l "document" []) d.id ["id"] supply =
        .ok (again, supply) :=
    ⟨_, Reading.document_reread hg Grammar.Standard.supported _ type?_document hlegible hchecked hl⟩
  refine ⟨.document again, Reading.parse_of_joined (h.ofText_print hnames hl) fun supply => ?_⟩
  rw [Reading.attr?_id_outline, Option.getD_some]
  exact Reading.source_eq_ok_iff.2 (.document rfl (hread supply))

theorem inPlace_of_parse (h : d.Sound grammar) (hnames : d.HasNames)
    (hl : Text.isAllBlank l.indent = true) {s : Source} (hread : Source.parse (d.print l) = .ok s) :
    d.InPlace grammar := by
  have hg := Grammar.Standard.printable
  have hedit := Grammar.Standard.editable
  obtain ⟨found, hfound, hjoined⟩ := h.ofText_print hnames hl
  obtain ⟨_, hfound', left, hsource⟩ := Reading.parse_eq_ok_iff.1 hread
  obtain rfl := Except.ok.inj (hfound.symm.trans hfound')
  rw [← Reading.source_joined, hjoined, Reading.source_joined] at hsource
  obtain ⟨found, hdocument⟩ : ∃ d', Reading.document grammar (d.outline l "document" [])
      ((found.attr? "id").getD (documentId (d.print l))) ["id"]
        (.ofSeed ((found.attr? "id").getD (documentId (d.print l))) found.ids) =
        .ok (d', left) := by
    cases Reading.source_eq_ok_iff.1 hsource with
    | document name inside => exact ⟨_, inside⟩
    | agent name inside => simp [Document.outline] at name
    | diff name inside => simp [Document.outline] at name
  have haccounted := Reading.document_accounted Grammar.Standard.supported hdocument
  have hitems : ∀ item ∈ Forest.outline l.deeper d.nodes,
      item ∈ (d.outline l "document" []).items := by
    intro item hitem
    rw [Document.outline]
    split
    · rename_i hempty
      simp [List.isEmpty_iff.1 hempty, Forest.outline] at hitem
    · exact List.mem_cons_of_mem _ hitem
  have hnodes : ∀ n ∈ Forest.preorder d.nodes, ∃ l', Accounted grammar (n.outline l') := by
    intro n hn
    obtain ⟨l', hmem⟩ := Forest.outline_mem_elements hg hedit h.nodes l.deeper n hn
    obtain ⟨inner, hinner, hbelow⟩ := Element.mem_elementsOfItems_iff.1 hmem
    exact ⟨l', haccounted _ (Element.mem_elements_of_items
      (Element.mem_elementsOfItems_iff.2 ⟨inner, hitems _ hinner, hbelow⟩))⟩
  refine ⟨fun n hn => ?_, fun n hn child hchild => ?_, fun n hn => ?_⟩
  · have hroot := haccounted _ (Element.mem_elements_self _)
    have hallowed := hroot.children (n.outline l.deeper)
      (List.mem_filterMap.2 ⟨_, hitems _ (Forest.element_mem_outline hn), rfl⟩) "document"
        type?_document
    rwa [Node.name_outline] at hallowed
  · obtain ⟨l', hn'⟩ := hnodes n hn
    obtain ⟨inside, hinside⟩ := (h.nodes n hn).outline_children (l := l') hg hedit
    have hallowed := hn'.children (child.outline inside)
      (List.mem_filterMap.2 ⟨_, hinside _ (Forest.element_mem_outline hchild), rfl⟩) n.typeName
    rw [Node.name_outline, Node.name_outline] at hallowed
    exact hallowed ((h.nodes n hn).type?_eq hg hedit hchild)
  · obtain ⟨l', hn'⟩ := hnodes n hn
    have hattributes := hn'.attributes
    rw [Node.name_outline, Node.attributes_outline] at hattributes
    exact ((h.nodes n hn).checkAttributes_iff hg hedit).1 hattributes

end Document.Sound

namespace Document

variable {d : Document}

theorem inPlace_iff : d.InPlace g ↔ (∀ n ∈ d.nodes, g.allows "document" n.element = true) ∧
    (∀ n ∈ Forest.preorder d.nodes, (∀ child ∈ n.children?.getD [],
      g.allows n.typeName child.element = true) ∧ n.IsLabelled) :=
  ⟨fun h => ⟨h.top, fun n hn => ⟨h.inside n hn, h.labelled n hn⟩⟩,
    fun h => ⟨h.1, fun n hn => (h.2 n hn).1, fun n hn => (h.2 n hn).2⟩⟩

instance : Decidable (d.InPlace g) := decidable_of_iff _ inPlace_iff.symm

instance : Decidable d.HasNames := inferInstanceAs (Decidable (_ ∧ _))

/-- A document that has been edited by a batch, and in which the names of attributes are names, is
read again from what it is written as exactly if its nodes stand where the grammar allows them and
are labelled as it demands. -/
theorem parse_print_applyDiff_iff {order : Edit.SetOrder} {text diffText : String}
    {d d' : Document} {batch : Diff}
    (hdocument : Document.parse text = .ok d) (hdiff : Diff.parse diffText = .ok batch)
    (happly : Edit.applyDiff order d batch = .ok d') (hnames : d'.HasNames)
    (hindent : Text.isAllBlank l.indent = true) :
    (∃ s, Source.parse (d'.print l) = .ok s) ↔ d'.InPlace grammar := by
  have hsound : d'.Sound grammar :=
    (sound_of_parse hdocument).applyDiff (Diff.sound_of_parse hdiff) happly
  constructor
  · rintro ⟨s, hread⟩
    exact hsound.inPlace_of_parse hnames hindent hread
  · exact hsound.exists_parse hnames hindent

/-- A list put behind a paragraph that gets another prop and other content, and an item moved within
it. -/
theorem parse_print_applyDiff_iff_list :
    let text := "<document id=\"d\" by=\"u\"><p id=\"a\">x</p></document>"
    let diffText := "<diff><insert afterBlockId=\"a\"><ul id=\"l\"><li id=\"i\">y</li>" ++
      "<li id=\"n\">z</li></ul></insert><move blockId=\"i\" afterBlockId=\"n\"/>" ++
      "<edit:attr blockId=\"a\" name=\"note\" value=\"v\"/>" ++
      "<edit:content blockId=\"a\"><b>w</b></edit:content></diff>"
    let item (ident chars : String) : Node := .block ⟨ident, "list_item", [], [.plain chars]⟩ none
    let d' : Document := ⟨"d",
      [.block ⟨"a", "paragraph", [("note", .str "v")], [.text "w" ["bold"]]⟩ none,
        .block ⟨"l", "bullet_list", [], []⟩ (some [item "n" "z", item "i" "y"])],
      some [("by", .str "u")]⟩
    (∃ d batch, Document.parse text = .ok d ∧ Diff.parse diffText = .ok batch ∧
      Edit.applyDiff .written d batch = .ok d') ∧
      ∃ s, Source.parse (d'.print ⟨"\t", 0, false⟩) = .ok s := by
  intro text diffText item d'
  have htext : text = String.ofList _ := rfl
  have hdiffText : diffText = String.ofList _ :=
    append_eq_ofList (append_eq_ofList (append_eq_ofList rfl rfl) rfl) rfl
  have hrun : ∃ d ∈ (Document.parse text).toOption, ∃ batch ∈ (Diff.parse diffText).toOption,
      (Edit.applyDiff .written d batch).toOption = some d' := by
    rw [Document.parse, Diff.parse, Source.parse_eq_ofChars htext,
      Source.parse_eq_ofChars hdiffText]
    decide +kernel
  obtain ⟨d, hd, batch, hbatch, happly⟩ := hrun
  have hdocument := toOption_eq_some_iff.1 hd
  have hdiff := toOption_eq_some_iff.1 hbatch
  rw [toOption_eq_some_iff] at happly
  exact ⟨⟨d, batch, hdocument, hdiff, happly⟩,
    (parse_print_applyDiff_iff hdocument hdiff happly (by decide +kernel) (by decide)).2
      (by decide +kernel)⟩

/-- A paragraph can be put into a list by an edit, but the list is not read again with it. -/
theorem parse_print_applyDiff_misplaced :
    let text := "<document id=\"d\"><ul id=\"l\"><li id=\"i\"/></ul></document>"
    let diffText := "<diff><insert afterBlockId=\"i\"><p id=\"n\">x</p></insert></diff>"
    ∃ d batch d', Document.parse text = .ok d ∧ Diff.parse diffText = .ok batch ∧
      Edit.applyDiff .written d batch = .ok d' ∧ d'.HasNames ∧
        ∀ s, Source.parse (d'.print ⟨"  ", 0, false⟩) ≠ .ok s := by
  intro text diffText
  have htext : text = String.ofList _ := rfl
  have hdiffText : diffText = String.ofList _ := rfl
  have hrun : ∃ d ∈ (Document.parse text).toOption, ∃ batch ∈ (Diff.parse diffText).toOption,
      ∃ d' ∈ (Edit.applyDiff .written d batch).toOption, d'.HasNames ∧
        (Source.parse (d'.print ⟨"  ", 0, false⟩)).toOption = none := by
    rw [Document.parse, Diff.parse, Source.parse_eq_ofChars htext,
      Source.parse_eq_ofChars hdiffText]
    decide +kernel
  obtain ⟨d, hd, batch, hbatch, d', happly, hnames, hunread⟩ := hrun
  refine ⟨d, batch, d', toOption_eq_some_iff.1 hd, toOption_eq_some_iff.1 hbatch,
    toOption_eq_some_iff.1 happly, hnames, fun s hread => ?_⟩
  rw [hread] at hunread
  simp [Except.toOption] at hunread

end Document

end LiveDoc
