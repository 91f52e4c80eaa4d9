import LiveDoc.Grammar.Standard
import LiveDoc.Inline.Reader

/-!
# Facts about the standard grammar

What readers and printers take for granted of the elements of the standard grammar.
-/

set_option autoImplicit false
set_option relaxedAutoImplicit false

namespace LiveDoc.Grammar

section Lookup

variable {g : Grammar} {name type child : String} {e : Entry}

theorem entry?_eq_some (h : g.entry? name = some e) : e ∈ g.entries ∧ e.spec.name = name :=
  ⟨List.mem_of_find?_eq_some h, by simpa using List.find?_some h⟩

theorem type?_eq_some_iff :
    g.type? name = some type ↔ ∃ e, g.entry? name = some e ∧ e.type = type := by
  simp [type?]

theorem has_of_type?_eq_some (h : g.type? name = some type) : g.has name = true := by
  obtain ⟨e, he, -⟩ := type?_eq_some_iff.1 h
  simp [has, he]

theorem exists_type? (h : g.has name = true) : ∃ type, g.type? name = some type := by
  obtain ⟨e, he⟩ := Option.isSome_iff_exists.1 h
  exact ⟨e.type, type?_eq_some_iff.2 ⟨e, he, rfl⟩⟩

theorem allows_eq_true_iff :
    g.allows type child = true ↔ ∃ e ∈ g.entries, e.type = type ∧ child ∈ e.allowed.getD [] := by
  simp [allows]

end Lookup

def bareOperations : List String := ["edit:attr", "edit:id", "delete", "move"]

/-- What readers take for granted of a grammar: which elements hold inline content or JSON, and that
the operations that take nothing may hold nothing. -/
structure Supported (g : Grammar) : Prop where
  rich_of_inline_type : ∀ e ∈ g.entries,
    (Reading.styleOf? e.type).isSome ∨ e.type ∈ ["span", "link", "annotation"] →
      e.spec.content = .rich
  model_content : g.model? "content" = some .rich
  model_params : g.model? "params" = some .json
  model_editContent : g.model? "edit:content" = some .rich
  model_editParams : g.model? "edit:params" = some .json
  attributes_content : (g.entry? "content").map (·.spec.attributes.isEmpty) = some true
  type_bare : ∀ name ∈ bareOperations, g.type? name = some name
  bare_holds_nothing : ∀ e ∈ g.entries,
    e.type ∈ bareOperations → e.allowed.getD [] = [] ∧ e.spec.content = .none

namespace Supported

variable {g : Grammar} {name type : String}

theorem checkAttributes_content (hg : g.Supported) (attributes : List (String × String)) :
    g.checkAttributes "content" attributes = [] := by
  obtain ⟨e, he, hempty⟩ := Option.map_eq_some_iff.1 hg.attributes_content
  simp [checkAttributes, he, List.isEmpty_iff.1 hempty]

theorem model_of_inline_type (hg : g.Supported) (h : g.type? name = some type)
    (htype : (Reading.styleOf? type).isSome ∨ type ∈ ["span", "link", "annotation"]) :
    g.model? name = some .rich := by
  obtain ⟨e, he, rfl⟩ := type?_eq_some_iff.1 h
  have hrich := hg.rich_of_inline_type e (entry?_eq_some he).1 htype
  simp [model?, spec?, he, hrich]

end Supported

theorem Standard.supported : Standard.grammar.Supported where
  rich_of_inline_type := by decide +kernel
  model_content := by decide +kernel
  model_params := by decide +kernel
  model_editContent := by decide +kernel
  model_editParams := by decide +kernel
  attributes_content := by decide +kernel
  type_bare := by decide +kernel
  bare_holds_nothing := by decide +kernel

end LiveDoc.Grammar
