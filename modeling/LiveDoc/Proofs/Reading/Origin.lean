import LiveDoc.Proofs.Forest.Traversal
import LiveDoc.Proofs.Reading.Node

/-!
# Where nodes come from

Every node that is read, at any depth, has been read from an element of its own in the markup.
-/

set_option autoImplicit false
set_option relaxedAutoImplicit false

namespace LiveDoc.Reading

open Markup (Element Item)

variable {g : Grammar}

/-- A node has been read from one of some elements. -/
def Originates (g : Grammar) (es : List Element) (n : Node) : Prop :=
  ∃ e ∈ es, ∃ (path : Path) (supply left : IdSupply), node g path e supply = .ok (n, left)

theorem Originates.mono {es more : List Element} {n : Node} (h : Originates g es n)
    (hsub : ∀ e ∈ es, e ∈ more) : Originates g more n := by
  obtain ⟨e, he, hread⟩ := h
  exact ⟨e, hsub e he, hread⟩

private theorem originates_block {e : Element} {path : Path} {supply left : IdSupply}
    {b : Block} {children : Option Forest}
    (hself : node g path e supply = .ok (.block b children, left))
    (hinside : ∀ m ∈ Forest.preorder (children.getD []),
      Originates g (Element.elementsOfItems e.items) m) :
    ∀ m ∈ Forest.preorder [.block b children], Originates g e.elements m := by
  obtain ⟨name, attributes, items⟩ := e
  rw [Forest.preorder_cons, List.cons_append, List.forall_mem_cons]
  refine ⟨⟨_, List.mem_cons_self, path, supply, left, hself⟩, fun m hm => ?_⟩
  have hm : m ∈ Forest.preorder (children.getD []) := by
    simpa [Forest.preorder, Node.children?] using hm
  exact (hinside m hm).mono fun d hd => List.mem_cons_of_mem _ hd

private theorem originates_cons {inner : Element} {rest : List (Item Element)} {first : Node}
    {others : Forest} (hfirst : ∀ m ∈ Forest.preorder [first], Originates g inner.elements m)
    (hothers : ∀ m ∈ Forest.preorder others, Originates g (Element.elementsOfItems rest) m) :
    ∀ m ∈ Forest.preorder (first :: others),
      Originates g (Element.elementsOfItems (.element inner :: rest)) m := by
  intro m hm
  rw [← List.singleton_append, Forest.preorder_append] at hm
  rcases List.mem_append.1 hm with hm | hm
  · exact (hfirst m hm).mono fun d hd => List.mem_append_left _ hd
  · exact (hothers m hm).mono fun d hd => List.mem_append_right _ hd

mutual

theorem node_originates {path : Path} {n : Node} {supply left : IdSupply} :
    ∀ e : Element, node g path e supply = .ok (n, left) →
      ∀ m ∈ Forest.preorder [n], Originates g e.elements m
  | ⟨name, attributes, items⟩, h => by
    obtain ⟨-, hmakes⟩ := node_eq_ok_iff.1 h
    cases hmakes with
    | call kind inside =>
      simp only [Forest.preorder, Node.preorder, List.append_nil, List.mem_singleton, forall_eq]
      exact ⟨_, List.mem_cons_self, path, supply, left, h⟩
    | @rich type ident mid _ content children head model inside =>
      refine originates_block h fun m hm => mixed_originates items inside m ?_
      cases children with
      | nil => simp [Forest.preorder] at hm
      | cons first others => exact hm
    | text head model inside => exact originates_block h (by simp [Forest.preorder])
    | blocks head model rule inside => exact originates_block h (blocks_originates items inside)
    | empty head model rule inside => exact originates_block h (by simp [Forest.preorder])
termination_by structural e => e

theorem blocks_originates {path : Path} {parent type : String} {index : Nat} {ns : Forest}
    {supply left : IdSupply} : ∀ items : List (Item Element),
      blocks g path parent type index items supply = .ok (ns, left) →
        ∀ m ∈ Forest.preorder ns, Originates g (Element.elementsOfItems items) m
  | [], h => by
    obtain ⟨rfl, rfl⟩ := Read.pure_eq_ok_iff.1 h
    simp [Forest.preorder]
  | .text chars :: rest, h => by
    simp only [blocks] at h
    split at h
    · exact blocks_originates rest h
    · simp [Read.lift_eq_ok_iff] at h
  | .literal chars :: rest, h => by
    simp only [blocks] at h
    split at h
    · exact blocks_originates rest h
    · simp [Read.lift_eq_ok_iff] at h
  | .element inner :: rest, h => by
    simp only [blocks, Read.bind_eq_ok_iff, Read.lift_eq_ok_iff, Read.pure_eq_ok_iff] at h
    obtain ⟨⟨⟩, _, ⟨-, rfl⟩, first, mid, hinner, others, _, hrest, rfl, rfl⟩ := h
    exact originates_cons (node_originates inner hinner) (blocks_originates rest hrest)
termination_by structural items => items

theorem mixed_originates {path : Path} {parent type : String} {index : Nat} {content : List Inline}
    {ns : Forest} {supply left : IdSupply} : ∀ items : List (Item Element),
      mixed g path parent type index items supply = .ok ((content, ns), left) →
        ∀ m ∈ Forest.preorder ns, Originates g (Element.elementsOfItems items) m
  | [], h => by
    obtain ⟨heq, rfl⟩ := Read.pure_eq_ok_iff.1 h
    obtain ⟨rfl, rfl⟩ := Prod.mk.inj heq
    simp [Forest.preorder]
  | .text chars :: rest, h => by
    simp only [mixed, Read.bind_eq_ok_iff, Read.pure_eq_ok_iff, Prod.mk.injEq] at h
    obtain ⟨⟨after, others⟩, _, hrest, ⟨rfl, rfl⟩, rfl⟩ := h
    exact mixed_originates rest hrest
  | .literal chars :: rest, h => by
    simp only [mixed, Read.bind_eq_ok_iff, Read.pure_eq_ok_iff, Prod.mk.injEq] at h
    obtain ⟨⟨after, others⟩, _, hrest, ⟨rfl, rfl⟩, rfl⟩ := h
    exact mixed_originates rest hrest
  | .element inner :: rest, h => by
    simp only [mixed, Read.bind_eq_ok_iff, Read.lift_eq_ok_iff] at h
    obtain ⟨⟨⟩, _, ⟨-, rfl⟩, h⟩ := h
    split at h
    · simp only [Read.bind_eq_ok_iff, Read.lift_eq_ok_iff, Read.pure_eq_ok_iff, Prod.mk.injEq] at h
      obtain ⟨found, _, ⟨-, rfl⟩, ⟨after, others⟩, _, hrest, ⟨rfl, rfl⟩, rfl⟩ := h
      exact fun m hm =>
        (mixed_originates rest hrest m hm).mono fun d hd => List.mem_append_right _ hd
    · simp only [Read.bind_eq_ok_iff, Read.pure_eq_ok_iff, Prod.mk.injEq] at h
      obtain ⟨first, mid, hinner, ⟨after, others⟩, _, hrest, ⟨rfl, rfl⟩, rfl⟩ := h
      exact originates_cons (node_originates inner hinner) (mixed_originates rest hrest)
termination_by structural items => items

end

end LiveDoc.Reading
