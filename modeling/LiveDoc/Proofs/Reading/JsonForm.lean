import LiveDoc.Proofs.Document.JsonForm
import LiveDoc.Proofs.Edit.Sound

/-!
# The JSON form of what is read

Nothing that is read of a text is lost in its JSON form: attributes and parameters are kept in
order, no variable has null for a value, and what says whether a call is enabled is not kept a
second time.
-/

set_option autoImplicit false
set_option relaxedAutoImplicit false

namespace LiveDoc

open Markup (Element Item Given)

variable {g : Grammar}

theorem Reading.IsTextTable.isOrdered {besides : List String} {table : Table Json}
    (h : IsTextTable besides table) : (Json.obj table).IsOrdered := by
  refine Json.isOrdered_obj h.sorted fun entry hentry => ?_
  obtain ⟨s, hs⟩ := h.texts entry hentry
  rw [hs]
  rfl

private theorem isOrdered_of_read {parameters : Table Json}
    (h : parameters = [] ∨ ∃ s, Json.read? s = some (.obj parameters)) :
    (Json.obj parameters).IsOrdered := by
  rcases h with rfl | ⟨s, hread⟩
  · rfl
  · exact (Json.of_read? hread).1

namespace Inline

mutual

theorem Canonical.pieces_kept : ∀ {i : Inline}, i.Canonical g →
    ∀ p ∈ i.pieces, p.IsOrdered ∧ p.IsTold
  | .text _ _, _ | .mention _ _ _, _ => by simp [pieces, IsOrdered, IsTold, resolved?]
  | .var _ _ _, .var _ _ htext => by
    rw [pieces, List.forall_mem_singleton]
    refine ⟨fun j hj => ?_, fun hnull => ?_⟩
    · obtain ⟨s, rfl⟩ := htext j hj
      rfl
    · obtain ⟨s, hs⟩ := htext .null hnull
      simp at hs
  | .link .., .link _ inside | .note .., .note _ inside => by
    rw [pieces, List.forall_mem_cons]
    exact ⟨by simp [IsOrdered, IsTold, resolved?], inside.pieces_kept⟩

theorem CanonicalAll.pieces_kept : ∀ {content : List Inline}, CanonicalAll g content →
    ∀ p ∈ piecesOf content, p.IsOrdered ∧ p.IsTold
  | [], _ => by simp [piecesOf]
  | _ :: _, .cons first _ after => by
    rw [piecesOf, List.forall_mem_append]
    exact ⟨first.pieces_kept, after.pieces_kept⟩

end

end Inline

namespace Reading

variable {path : Path} {e : Element} {supply left : IdSupply} {ns : Forest}

private theorem isOrdered_blockProps (name type : String) (attributes : List (String × String)) :
    (Json.obj (blockProps name type attributes)).IsOrdered := by
  have htable := isTextTable_textTable ["id"] attributes
  rw [blockProps]
  split
  · exact htable.isOrdered.put _ rfl
  · exact htable.isOrdered

private theorem block_kept {b : Block} {children : Option Forest}
    (hcontent : Inline.CanonicalAll g b.content) (hprops : (Json.obj b.props).IsOrdered) :
    (Node.block b children).IsOrdered ∧ (Node.block b children).IsTold := by
  refine ⟨⟨?_, fun p hp => (hcontent.pieces_kept p hp).1⟩,
    ⟨fun p hp => (hcontent.pieces_kept p hp).2, by simp [Node.call?]⟩⟩
  simpa [Node.tables] using hprops

theorem node_kept (hg : g.Printable) (hedit : g.Editable) {n : Node}
    (he : Given e.name e.attributes) (h : node g path e supply = .ok (n, left)) :
    n.IsOrdered ∧ n.IsTold := by
  have hsound := node_sound hg hedit he h
  obtain ⟨-, hmakes⟩ := node_eq_ok_iff.1 h
  cases hmakes with
  | @call c _ kind inside =>
    have hinstructions := hsound.instructions.pieces_kept
    have hextra := isTextTable_textTable ["id", "enabled", c.kind.functionAttr] c.attributes
    rw [hsound.extra] at hextra
    refine ⟨⟨?_, fun p hp => (hinstructions p hp).1⟩,
      ⟨fun p hp => (hinstructions p hp).2, fun d hd hmem => ?_⟩⟩
    · simpa [Node.tables] using ⟨isOrdered_of_read hsound.parameters, hextra.isOrdered⟩
    · obtain rfl := Option.some.inj hd
      obtain ⟨entry, hentry, hname⟩ := List.mem_map.1 hmem
      exact hextra.names entry hentry (by simp [hname])
  | rich | text | blocks | empty =>
    exact block_kept hsound.1.content (isOrdered_blockProps _ _ _)

theorem blocks_kept (hg : g.Printable) (hedit : g.Editable) {parent type : String} {index : Nat}
    {items : List (Item Element)}
    (hgiven : ∀ d ∈ Element.elementsOfItems items, Given d.name d.attributes)
    (h : blocks g path parent type index items supply = .ok (ns, left)) :
    ∀ n ∈ Forest.preorder ns, n.IsOrdered ∧ n.IsTold := by
  intro n hn
  obtain ⟨d, hd, place, from?, to?, hread⟩ := blocks_originates items h n hn
  exact node_kept hg hedit (hgiven d hd) hread

theorem operation_kept (hg : g.Printable) (hedit : g.Editable) {o : Edit.Operation}
    (hgiven : ∀ d ∈ e.elements, Given d.name d.attributes)
    (h : operation g path e supply = .ok (o, left)) : o.IsOrdered ∧ o.IsTold := by
  have hsound := operation_sound hg hedit hgiven h
  have hitems : ∀ d ∈ Element.elementsOfItems e.items, Given d.name d.attributes :=
    fun d hd => hgiven d (Element.mem_elements_of_items hd)
  obtain ⟨-, type, -, hperforms⟩ := operation_eq_ok_iff.1 h
  have hvalues : ∀ j ∈ o.values, j.IsOrdered := by
    cases hperforms with
    | setProp => exact List.forall_mem_singleton.2 rfl
    | setParameters => exact List.forall_mem_singleton.2 (isOrdered_of_read hsound)
    | _ => simp [Edit.Operation.values]
  have hpieces : ∀ p ∈ o.pieces, p.IsOrdered ∧ p.IsTold := by
    cases hperforms with
    | setContent => exact Inline.CanonicalAll.pieces_kept hsound
    | _ => simp [Edit.Operation.pieces]
  have hnodes : ∀ n ∈ Forest.preorder o.carried, n.IsOrdered ∧ n.IsTold := by
    cases hperforms with
    | insert name inside | replace name inside => exact blocks_kept hg hedit hitems inside
    | _ => simp [Edit.Operation.carried, Forest.preorder]
  exact ⟨⟨hvalues, fun p hp => (hpieces p hp).1, fun n hn => (hnodes n hn).1⟩,
    ⟨fun p hp => (hpieces p hp).2, fun n hn => (hnodes n hn).2⟩⟩

private theorem document_kept (hg : g.Printable) (hedit : g.Editable) {ident : String}
    {besides : List String} {d : Document}
    (hgiven : ∀ d ∈ e.elements, Given d.name d.attributes)
    (h : document g e ident besides supply = .ok (d, left)) : d.IsOrdered ∧ d.IsTold := by
  simp only [document, Read.bind_eq_ok_iff, Read.lift_eq_ok_iff, Read.pure_eq_ok_iff] at h
  obtain ⟨⟨⟩, _, -, type, _, -, nodes, _, hblocks, rfl, -⟩ := h
  have hnodes := blocks_kept hg hedit
    (fun inner hinner => hgiven inner (Element.mem_elements_of_items hinner)) hblocks
  refine ⟨⟨fun t ht => ?_, fun n hn => (hnodes n hn).1⟩, fun n hn => (hnodes n hn).2⟩
  have htable := isTextTable_textTable besides e.attributes
  simp only [Option.mem_def, Option.ite_none_left_eq_some] at ht
  exact Option.some.inj ht.2 ▸ htable.isOrdered

end Reading

/-- A source that is read of a text is in order, and its JSON form tells everything about it. -/
theorem Source.kept_of_parse {text : String} {s : Source} (h : Source.parse text = .ok s) :
    s.IsOrdered ∧ s.IsTold := by
  have hg := Grammar.Standard.printable
  have hedit := Grammar.Standard.editable
  obtain ⟨root, hroot, left, hsource⟩ := Reading.parse_eq_ok_iff.1 h
  have hgiven := Markup.given_of_ofText hroot
  cases Reading.source_eq_ok_iff.1 hsource with
  | document name inside => exact Reading.document_kept hg hedit hgiven inside
  | agent name inside =>
    simp only [Reading.agent, Reading.Read.bind_eq_ok_iff, Reading.Read.pure_eq_ok_iff] at inside
    obtain ⟨d, _, hd, rfl, -⟩ := inside
    exact Reading.document_kept hg hedit hgiven hd
  | diff name inside =>
    simp only [Reading.diff, Reading.Read.bind_eq_ok_iff, Reading.Read.pure_eq_ok_iff] at inside
    obtain ⟨⟨⟩, _, -, type, _, -, os, _, hos, rfl, -⟩ := inside
    have hoperations (o : Edit.Operation) (ho : o ∈ os) : o.IsOrdered ∧ o.IsTold := by
      obtain ⟨e, he, place, from?, to?, hread⟩ := Reading.operations_originate hos o ho
      refine Reading.operation_kept hg hedit (fun d hd => hgiven d ?_) hread
      exact Element.mem_elements_of_items (Element.mem_elementsOfItems_iff.2 ⟨e, he, hd⟩)
    exact ⟨fun o ho => (hoperations o ho).1, fun o ho => (hoperations o ho).2⟩

theorem Source.ofJson?_toJson_of_parse {text : String} {s : Source}
    (h : Source.parse text = .ok s) : Source.ofJson? s.toJson = some s :=
  Source.ofJson?_toJson (kept_of_parse h).1 (kept_of_parse h).2

end LiveDoc
