import LiveDoc.Proofs.Reading.Refusal

/-!
# Where sources are refused

The path of a fault leads from the root to an element in which something is wrong: with the element
itself, with a child of it, or inside its inline content, which paths do not enter.
-/

set_option autoImplicit false
set_option relaxedAutoImplicit false

namespace LiveDoc.Source

open Grammar.Standard (grammar)
open Markup (Element)
open Reading (Against InlineChild Leads)
open Relation (ReflTransGen TransGen)

/-- If the markup of an element is refused, the path of the fault starts at the root and leads
through elements that the grammar accepts to just one element. What the fault says is so of this
element, of a child of it, of an inline element that is reached from it through inline elements, or
of a child of one. -/
theorem fault_leads_to_place {text : String} {root : Element} {fault : Fault}
    (hroot : Element.ofText text = .ok root) (h : parse text = .error fault) :
    ∃ (steps : List Path.Step) (cause : Cause), fault = .at ⟨root.name, steps⟩ cause ∧
      Path.text ⟨root.name, steps⟩ =
        "/" ++ root.name ++ String.join (steps.map fun step => "/" ++ step.text) ∧
      ∃ place, Leads grammar root steps place ∧
        (∀ other, Leads grammar root steps other → other = place) ∧
        ∃ holder inner, ReflTransGen (InlineChild grammar) place holder ∧
          (inner = holder ∨ inner ∈ holder.children) ∧ Against grammar holder inner cause := by
  obtain ⟨ident, supply, h⟩ := Reading.source_eq_error hroot h
  obtain ⟨steps, place, hleads, holder, inner, cause, rfl, hreach, hagainst⟩ :=
    Reading.fault_of_source Grammar.Standard.placing Grammar.Standard.shaping h
  exact ⟨steps, cause, rfl, Path.text_eq _, place, hleads, fun other hother => hother.unique hleads,
    holder, inner, hreach, hagainst.near, hagainst⟩

private theorem unknown_name {holder inner : Element} {name : String}
    (h : Against grammar holder inner (.unknownElement name)) : inner.name = name := by
  generalize hcause : Cause.unknownElement name = cause at h
  cases h <;> simp_all

/-- Text in a mention in italics in the content of a call in a list in a document. -/
theorem fault_leads_to_content :
    let text := "<document id=\"d\"><p id=\"a\"/><ul id=\"l\"><li id=\"i\">x <b>y</b>" ++
      "<ul id=\"m\"/><fncall id=\"c\" idyll-fn=\"f\"><content>z <i><mention id=\"q\" type=\"t\"" ++
      " label=\"l\">w</mention></i></content></fncall></li></ul></document>"
    let steps : List Path.Step := [.nth "ul" 1, .nth "li" 0, .nth "fncall" 1, .only "content"]
    let cause : Cause := .invalidForm (.mustNotContainText "mention")
    parse text = .error (.at ⟨"document", steps⟩ cause) ∧
      Path.text ⟨"document", steps⟩ = "/document/ul[1]/li[0]/fncall[1]/content" ∧
      ∃ root place, Element.ofText text = .ok root ∧ Leads grammar root steps place ∧
        ∃ holder inner, ReflTransGen (InlineChild grammar) place holder ∧
          Against grammar holder inner cause := by
  intro text steps cause
  have htext : text = String.ofList _ := append_eq_ofList (append_eq_ofList rfl rfl) rfl
  have hparse : parse text = .error (.at ⟨"document", steps⟩ cause) := by
    rw [parse_eq_ofChars htext]
    decide +kernel
  obtain ⟨root, hroot⟩ : ∃ root, Element.ofText text = .ok root := by
    have hsome : (Element.ofText text).toOption.isSome := by
      rw [Element.ofText_eq_ofChars htext]
      decide +kernel
    obtain ⟨root, hroot⟩ := Option.isSome_iff_exists.1 hsome
    exact ⟨root, toOption_eq_some_iff.1 hroot⟩
  obtain ⟨steps', cause', heq, htext, place, hleads, -, holder, inner, hreach, -, hagainst⟩ :=
    fault_leads_to_place hroot hparse
  obtain ⟨hpath, rfl⟩ := Fault.at.inj heq
  obtain ⟨hname, rfl⟩ := Path.mk.inj hpath
  refine ⟨hparse, ?_, root, place, hroot, hleads, holder, inner, hreach, hagainst⟩
  rw [hname, htext, ← hname]
  decide +kernel

/-- The path of a fault does not say in which inline element an unknown one stands: here the
unknown element is neither the one to which the path leads nor a child nor inline. -/
theorem fault_inside_inline_child :
    ¬∀ text root fault, Element.ofText text = .ok root → parse text = .error fault →
      ∃ (steps : List Path.Step) (cause : Cause), fault = .at ⟨root.name, steps⟩ cause ∧
        ∃ place, Leads grammar root steps place ∧ ∃ holder inner,
          Against grammar holder inner cause ∧
          (inner = place ∨ inner ∈ place.children ∨
            TransGen (InlineChild grammar) place inner) := by
  intro h
  let bold : Element := ⟨"b", [], [.element ⟨"foo", [], []⟩]⟩
  let paragraph : Element := ⟨"p", [("id", "a")], [.element bold]⟩
  let root : Element := ⟨"document", [("id", "d")], [.element paragraph]⟩
  obtain ⟨steps, cause, heq, place, hleads, holder, inner, hagainst, hinner⟩ :=
    h "<document id=\"d\"><p id=\"a\"><b><foo/></b></p></document>" root
      (.at ⟨"document", [.nth "p" 0]⟩ (.unknownElement "foo")) (by decide +kernel)
      (by decide +kernel)
  obtain ⟨hpath, rfl⟩ := Fault.at.inj heq
  obtain ⟨-, rfl⟩ := Path.mk.inj hpath
  have haccepts : grammar.Accepts root paragraph :=
    ⟨by decide +kernel, "document", by decide +kernel, by decide +kernel⟩
  have hplace : Leads grammar root [.nth "p" 0] paragraph :=
    .nth (List.nil_append [paragraph]).symm rfl (by decide +kernel) rfl haccepts (.here paragraph)
  obtain rfl := hleads.unique hplace
  have hname : inner.name = "foo" := unknown_name hagainst
  have hinline : ∀ x, TransGen (InlineChild grammar) paragraph x → x = bold := by
    intro x hx
    induction hx with
    | single hchild => exact List.mem_singleton.1 hchild.1
    | tail _ hchild ih =>
      subst ih
      obtain rfl := List.mem_singleton.1 hchild.1
      exact absurd hchild.2 (by decide +kernel)
  rcases hinner with rfl | hchild | hreach
  · exact absurd hname (by decide)
  · rw [List.mem_singleton.1 hchild] at hname
    exact absurd hname (by decide)
  · rw [hinline inner hreach] at hname
    exact absurd hname (by decide)

end LiveDoc.Source
