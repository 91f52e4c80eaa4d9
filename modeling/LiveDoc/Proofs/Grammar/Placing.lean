import LiveDoc.Proofs.Grammar.Shaping

/-!
# What an element takes

Which elements a grammar accepts in an element, and what readers take for granted of a grammar when
they report what stands where it may not: elements that they read as inline content take inline
content only, those that they read as sequences take none, and the others nothing at all.
-/

set_option autoImplicit false
set_option relaxedAutoImplicit false

namespace LiveDoc.Grammar

open Markup (Element)

variable {g : Grammar} {name type child : String}

def Accepts (g : Grammar) (outer inner : Element) : Prop :=
  g.has inner.name = true ∧
    ∃ type, g.type? outer.name = some type ∧ g.allows type inner.name = true

theorem not_accepts {outer inner : Element} (htype : g.type? outer.name = some type)
    (h : g.allows type inner.name = false) : ¬g.Accepts outer inner := by
  rintro ⟨-, type', htype', hallows⟩
  obtain rfl : type = type' := Option.some_inj.1 (htype.symm.trans htype')
  simp [h] at hallows

theorem typeOf_of_type?_eq_some (h : g.type? name = some type) : type = typeOf name := by
  obtain ⟨e, he, rfl⟩ := type?_eq_some_iff.1 h
  rw [Entry.type, (entry?_eq_some he).2]

def inlineHolders : List String :=
  ["bold", "italic", "underline", "strikethrough", "inline_code", "span", "link", "annotation",
    "content", "edit:content"]

def closedTypes : List String :=
  ["variable", "mention", "params", "edit:params", "code", "separator"]

/-- The types of elements that are read as sequences of blocks or of operations. -/
def sequenceTypes : List String := "diff" :: nodeHolders ++ listTypes ++ definitionTypes

/-- What readers take for granted of a grammar about what stands in elements of a type. -/
structure Placing (g : Grammar) : Prop where
  in_inline : ∀ e ∈ g.entries, e.type ∈ inlineHolders → ∀ name ∈ e.allowed.getD [],
    g.isInline name = true
  in_closed : ∀ e ∈ g.entries, e.type ∈ closedTypes → e.allowed.getD [] = []
  in_sequence : ∀ e ∈ g.entries, e.type ∈ sequenceTypes → ∀ name ∈ e.allowed.getD [],
    g.isInline name = false
  in_call : ∀ e ∈ g.entries, e.spec.kind = .executable → ∀ other ∈ g.entries,
    other.type = e.type → ∀ name ∈ other.allowed.getD [], name = "params" ∨ name = "content"

namespace Placing

theorem isInline_of_holder (hg : g.Placing) (htype : type ∈ inlineHolders)
    (h : g.allows type child = true) : g.isInline child = true := by
  obtain ⟨e, he, rfl, hchild⟩ := allows_eq_true_iff.1 h
  exact hg.in_inline e he htype child hchild

theorem allows_closed (hg : g.Placing) (htype : type ∈ closedTypes) (child : String) :
    g.allows type child = false := by
  refine Bool.eq_false_iff.2 fun h => ?_
  obtain ⟨e, he, rfl, hchild⟩ := allows_eq_true_iff.1 h
  simp [hg.in_closed e he htype] at hchild

theorem not_isInline_of_sequence (hg : g.Placing) (htype : type ∈ sequenceTypes)
    (h : g.allows type child = true) : g.isInline child = false := by
  obtain ⟨e, he, rfl, hchild⟩ := allows_eq_true_iff.1 h
  exact hg.in_sequence e he htype child hchild

theorem part_of_call (hg : g.Placing)
    (hkind : (g.spec? name).map ElementSpec.kind = some .executable)
    (htype : g.type? name = some type) (h : g.allows type child = true) :
    child = "params" ∨ child = "content" := by
  obtain ⟨e, he, rfl⟩ := type?_eq_some_iff.1 htype
  obtain ⟨other, hother, heq, hchild⟩ := allows_eq_true_iff.1 h
  have hexecutable : e.spec.kind = .executable := by simpa [spec?, he] using hkind
  exact hg.in_call e (entry?_eq_some he).1 hexecutable other hother heq child hchild

end Placing

theorem Standard.placing : Standard.grammar.Placing where
  in_inline := by decide +kernel
  in_closed := by decide +kernel
  in_sequence := by decide +kernel
  in_call := by decide +kernel

end LiveDoc.Grammar
