import LiveDoc.Proofs.Grammar.Standard
import LiveDoc.Proofs.Reading.Steps

/-!
# How elements make nodes

The cases in which an element is read as a node, by its kind and the model of what stands in it.
-/

set_option autoImplicit false
set_option relaxedAutoImplicit false

namespace LiveDoc.Reading

open Markup (Element)

variable {g : Grammar} {path : Path} {e : Element} {n : Node} {supply left : IdSupply}

/-- The element is one of a block of some type, for which there is an id. -/
structure Heads (g : Grammar) (e : Element) (supply : IdSupply) (type ident : String)
    (left : IdSupply) : Prop where
  kind : (g.spec? e.name).map ElementSpec.kind = some .block
  type : g.type? e.name = some type
  ident : nodeId e supply = .ok (ident, left)

theorem Heads.entry {type ident : String} (h : Heads g e supply type ident left) :
    ∃ entry ∈ g.entries, g.entry? e.name = some entry ∧ entry.spec.kind = .block ∧
      entry.type = type := by
  obtain ⟨entry, hentry, htype⟩ := Grammar.type?_eq_some_iff.1 h.type
  refine ⟨entry, (Grammar.entry?_eq_some hentry).1, hentry, ?_, htype⟩
  simpa [Grammar.spec?, hentry] using h.kind

/-- A node that an element makes: a call, or a block with what its model takes out of the
element. -/
inductive Makes (g : Grammar) (path : Path) (e : Element) (supply : IdSupply) :
    Node → IdSupply → Prop
  | call {c : Call} {left : IdSupply}
    (kind : (g.spec? e.name).map ElementSpec.kind = some .executable)
    (inside : call g path e supply = .ok (c, left)) : Makes g path e supply (.call c) left
  | rich {type ident : String} {mid left : IdSupply} {content : List Inline} {children : Forest}
    (head : Heads g e supply type ident mid) (model : g.model? e.name = some .rich)
    (inside : mixed g path e.name type 0 e.items mid = .ok ((content, children), left)) :
    Makes g path e supply
      (.block ⟨ident, type, blockProps e.name type e.attributes, content⟩
        (if children.isEmpty then none else some children)) left
  | text {type ident : String} {left : IdSupply} (head : Heads g e supply type ident left)
    (model : g.model? e.name = some .text) (inside : e.children = []) :
    Makes g path e supply
      (.block ⟨ident, type, blockProps e.name type e.attributes, plainContent e.text⟩ none) left
  | blocks {type ident : String} {mid left : IdSupply} {children : Forest}
    (head : Heads g e supply type ident mid)
    (model : g.model? e.name = some .json ∨ g.model? e.name = some .none)
    (rule : g.hasChildrenRule e.name = true)
    (inside : blocks g path e.name type 0 e.items mid = .ok (children, left)) :
    Makes g path e supply
      (.block ⟨ident, type, blockProps e.name type e.attributes, []⟩ (some children)) left
  | empty {type ident : String} {left : IdSupply} (head : Heads g e supply type ident left)
    (model : g.model? e.name = some .json ∨ g.model? e.name = some .none)
    (rule : g.hasChildrenRule e.name = false)
    (inside : e.children = [] ∧ Text.isAllBlank e.text = true) :
    Makes g path e supply
      (.block ⟨ident, type, blockProps e.name type e.attributes, []⟩ none) left

theorem Makes.kind (h : Makes g path e supply n left) :
    (g.spec? e.name).map ElementSpec.kind = some .block ∨
      (g.spec? e.name).map ElementSpec.kind = some .executable := by
  cases h with
  | call kind => exact .inr kind
  | rich head | text head | blocks head | empty head => exact .inl head.kind

theorem model?_isSome {kind : ElementKind} (h : (g.spec? e.name).map ElementSpec.kind = some kind) :
    ∃ model, g.model? e.name = some model := by
  obtain ⟨spec, hspec, -⟩ := Option.map_eq_some_iff.1 h
  exact ⟨spec.content, by simp [Grammar.model?, hspec]⟩

theorem node_eq_ok_iff :
    node g path e supply = .ok (n, left) ↔
      g.checkAttributes e.name e.attributes = [] ∧ Makes g path e supply n left := by
  obtain ⟨name, attributes, items⟩ := e
  simp only [node, Read.bind_eq_ok_iff, Read.lift_eq_ok_iff]
  constructor
  · rintro ⟨⟨⟩, _, ⟨hcheck, rfl⟩, h⟩
    refine ⟨checkAttributes_eq_ok_iff.1 hcheck, ?_⟩
    cases hkind : (g.spec? name).map ElementSpec.kind with
    | none => simp [hkind, Read.lift_eq_ok_iff] at h
    | some kind =>
      cases kind with
      | executable =>
        simp only [hkind, Read.bind_eq_ok_iff, Read.pure_eq_ok_iff] at h
        obtain ⟨c, _, hcall, rfl, rfl⟩ := h
        exact .call hkind hcall
      | block =>
        simp only [hkind, Read.bind_eq_ok_iff, Read.lift_eq_ok_iff, typeOf_eq_ok_iff] at h
        obtain ⟨type, _, ⟨htype, rfl⟩, ident, mid, hident, h⟩ := h
        have head : Heads g ⟨name, attributes, items⟩ supply type ident mid :=
          ⟨hkind, htype, hident⟩
        obtain ⟨model, hmodel⟩ := model?_isSome (e := ⟨name, attributes, items⟩) hkind
        simp only [] at hmodel
        cases model with
        | rich =>
          simp only [hmodel, Option.getD_some, Read.bind_eq_ok_iff, Read.pure_eq_ok_iff] at h
          obtain ⟨⟨content, children⟩, _, hmixed, rfl, rfl⟩ := h
          exact .rich head hmodel hmixed
        | text =>
          cases hchild : Element.firstChild? ⟨name, attributes, items⟩ with
          | some child => simp [hmodel, hchild, Read.lift_eq_ok_iff] at h
          | none =>
            simp only [hmodel, Option.getD_some, hchild, Read.pure_eq_ok_iff] at h
            obtain ⟨rfl, rfl⟩ := h
            exact .text head hmodel (Element.firstChild?_eq_none_iff.1 hchild)
        | _ =>
          have hmodels : g.model? name = some .json ∨ g.model? name = some .none := by
            simp [hmodel]
          simp only [hmodel, Option.getD_some] at h
          cases hrule : g.hasChildrenRule name with
          | true =>
            simp only [hrule, if_true, Read.bind_eq_ok_iff, Read.pure_eq_ok_iff] at h
            obtain ⟨children, _, hblocks, rfl, rfl⟩ := h
            exact .blocks head hmodels hrule hblocks
          | false =>
            simp only [hrule, Bool.false_eq_true, if_false, Read.bind_eq_ok_iff,
              Read.lift_eq_ok_iff, Read.pure_eq_ok_iff] at h
            obtain ⟨⟨⟩, _, ⟨hempty, rfl⟩, rfl, rfl⟩ := h
            exact .empty head hmodels hrule (checkEmpty_eq_ok_iff.1 hempty)
      | _ => simp [hkind, Read.lift_eq_ok_iff] at h
  · rintro ⟨hcheck, hmakes⟩
    refine ⟨(), supply, ⟨checkAttributes_eq_ok_iff.2 hcheck, rfl⟩, ?_⟩
    cases hmakes with
    | call kind inside =>
      simp only [kind, Read.bind_eq_ok_iff, Read.pure_eq_ok_iff]
      exact ⟨_, _, inside, rfl, rfl⟩
    | rich head model inside =>
      simp only [head.kind, model, Option.getD_some, Read.bind_eq_ok_iff, Read.lift_eq_ok_iff,
        typeOf_eq_ok_iff, Read.pure_eq_ok_iff]
      exact ⟨_, _, ⟨head.type, rfl⟩, _, _, head.ident, _, _, inside, rfl, rfl⟩
    | text head model inside =>
      have hchild := Element.firstChild?_eq_none_iff.2 inside
      simp only [head.kind, model, Option.getD_some, hchild, Read.bind_eq_ok_iff,
        Read.lift_eq_ok_iff, typeOf_eq_ok_iff, Read.pure_eq_ok_iff]
      exact ⟨_, _, ⟨head.type, rfl⟩, _, _, head.ident, rfl, rfl⟩
    | blocks head model rule inside =>
      simp only [head.kind, Read.bind_eq_ok_iff, Read.lift_eq_ok_iff, typeOf_eq_ok_iff]
      refine ⟨_, _, ⟨head.type, rfl⟩, _, _, head.ident, ?_⟩
      rcases model with model | model <;>
        simp only [model, Option.getD_some, rule, if_true, Read.bind_eq_ok_iff,
          Read.pure_eq_ok_iff] <;>
        exact ⟨_, _, inside, rfl, rfl⟩
    | empty head model rule inside =>
      simp only [head.kind, Read.bind_eq_ok_iff, Read.lift_eq_ok_iff, typeOf_eq_ok_iff]
      refine ⟨_, _, ⟨head.type, rfl⟩, _, _, head.ident, ?_⟩
      rcases model with model | model <;>
        simp only [model, Option.getD_some, rule, Bool.false_eq_true, if_false,
          Read.bind_eq_ok_iff, Read.lift_eq_ok_iff, Read.pure_eq_ok_iff] <;>
        exact ⟨(), _, ⟨checkEmpty_eq_ok_iff.2 inside, rfl⟩, trivial, rfl⟩

end LiveDoc.Reading
