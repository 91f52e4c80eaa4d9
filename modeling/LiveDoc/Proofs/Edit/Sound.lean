import LiveDoc.Proofs.Edit.DistinctIds
import LiveDoc.Proofs.Reading.NodeSound
import LiveDoc.Proofs.Reading.Operation

/-!
# Edits keep nodes sound

Operations that are read bring only sound nodes along, and content and parameters in the form in
which they are read. Whatever they do to a forest of sound nodes, its nodes are sound again.
-/

set_option autoImplicit false
set_option relaxedAutoImplicit false

namespace LiveDoc.Edit

variable {g : Grammar}

/-- An operation that brings only sound nodes along, and content and parameters as they are read. -/
def Operation.Sound (g : Grammar) : Operation → Prop
  | .setContent _ content => Inline.CanonicalAll g content
  | .setParameters _ parameters => parameters = [] ∨ ∃ s, Json.read? s = some (.obj parameters)
  | .insert _ nodes | .replace _ nodes => ∀ n ∈ Forest.preorder nodes, n.Sound g
  | .setProp .. | .rename .. | .delete _ | .move .. => True

theorem Operation.Sound.edited {o : Operation} (ho : o.Sound g)
    (hvalid : o.validate = .ok ()) {n : Node} (h : n.Sound g) : (o.edited n).Sound g := by
  cases o with
  | setProp block name value =>
    cases n with
    | block b children =>
      obtain ⟨hb, hchildren⟩ := h
      have hid : name ≠ "id" := by
        rintro rfl
        simp only [Operation.validate, bind_eq_ok_iff] at hvalid
        obtain ⟨-, -, hvalid⟩ := hvalid
        split at hvalid <;> simp at hvalid
      refine ⟨⟨hb.kind, hb.sorted.put name value, ?_, hb.content⟩, hchildren⟩
      exact fun hmem => (Table.mem_names_put hmem).elim (Ne.symm hid) hb.props
    | call c => exact h
  | setContent block content =>
    cases n with
    | block b children => exact ⟨⟨h.1.kind, h.1.sorted, h.1.props, ho⟩, h.2⟩
    | call c => exact ⟨h.kind, h.extra, h.parameters, ho⟩
  | setParameters block parameters =>
    cases n with
    | block b children => exact h
    | call c => exact ⟨h.kind, h.extra, ho, h.instructions⟩
  | rename block new =>
    cases n with
    | block b children => exact ⟨⟨h.1.kind, h.1.sorted, h.1.props, h.1.content⟩, h.2⟩
    | call c => exact Call.Sound.withId h new
  | insert place nodes => exact h
  | delete block => exact h
  | replace block nodes => exact h
  | move targets place => exact h

theorem Operation.Sound.apply {order : SetOrder} {o : Operation} (ho : o.Sound g)
    (hvalid : o.validate = .ok ()) {ns out : Forest} (hns : ∀ n ∈ Forest.preorder ns, n.Sound g)
    (h : o.apply order ns = .ok out) : ∀ n ∈ Forest.preorder out, n.Sound g := by
  have hheads (ms : Forest) :
      (∀ n ∈ Forest.heads ms, n.Sound g) ↔ ∀ n ∈ Forest.preorder ms, n.Sound g := by
    simp [Forest.heads, Node.sound_bare]
  rw [← hheads] at hns ⊢
  refine o.apply_forall_heads ?_ (fun n => ho.edited hvalid) hns h
  rw [hheads]
  cases o with
  | insert place nodes => exact ho
  | replace block nodes => exact ho
  | _ => simp [Operation.carried, Forest.preorder]

end LiveDoc.Edit

namespace LiveDoc.Reading

open Edit (Operation)
open Markup (Element Item Given)

variable {g : Grammar} {path : Path} {supply left : IdSupply}

theorem operation_sound (hg : g.Printable) (hedit : g.Editable) {e : Element} {o : Operation}
    (hgiven : ∀ d ∈ e.elements, Given d.name d.attributes)
    (h : operation g path e supply = .ok (o, left)) : o.Sound g := by
  obtain ⟨-, type, -, hperforms⟩ := operation_eq_ok_iff.1 h
  have hitems : ∀ d ∈ Element.elementsOfItems e.items, Given d.name d.attributes :=
    fun d hd => hgiven d (Element.mem_elements_of_items hd)
  cases hperforms with
  | setContent name inside => exact rich_canonical hg (List.nil_sublist _) e.items inside
  | setParameters name inside => exact read?_of_jsonObject inside
  | insert name inside | replace name inside => exact blocks_sound hg hedit hitems inside
  | _ => exact trivial

theorem operations_sound (hg : g.Printable) (hedit : g.Editable) {parent type : String}
    {index : Nat}
    {os : List Operation} {items : List (Item Element)}
    (hgiven : ∀ d ∈ Element.elementsOfItems items, Given d.name d.attributes)
    (h : operations g path parent type index items supply = .ok (os, left)) :
    ∀ o ∈ os, o.Sound g := by
  intro o ho
  obtain ⟨e, he, place, from?, to?, hread⟩ := operations_originate h o ho
  exact operation_sound hg hedit
    (fun d hd => hgiven d (Element.mem_elementsOfItems_iff.2 ⟨e, he, hd⟩)) hread

end LiveDoc.Reading
