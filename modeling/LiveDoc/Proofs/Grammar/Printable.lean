import LiveDoc.Node.Printer
import LiveDoc.Node.Reader
import LiveDoc.Proofs.Grammar.Attributes
import LiveDoc.Proofs.Grammar.Standard
import LiveDoc.Proofs.Inline.Outline
import LiveDoc.Proofs.Inline.Style

/-!
# What the printer takes for granted

The elements that the printer writes, and what it takes for granted of a grammar: that they are read
again as what they were written for.
-/

set_option autoImplicit false
set_option relaxedAutoImplicit false

namespace LiveDoc.Grammar

/-- The elements that inline content is written as, with the attributes they need. -/
def writtenInlines : List (String × List String) :=
  [("span", []), ("variable", ["name"]), ("mention", ["id", "type", "label"]), ("link", ["href"]),
    ("annotation", [])]

def writtenBlock? (type : String) : Option String := (Standard.grammar.elementsOf type).head?

structure Printable (g : Grammar) : Prop where
  names : ∀ e ∈ g.entries, Markup.isTagName e.spec.name = true
  inline_type : ∀ written ∈ writtenInlines, g.type? written.1 = some written.1
  inline_kind : ∀ written ∈ writtenInlines, g.isInline written.1 = true
  inline_needs : ∀ e ∈ g.entries, ∀ written ∈ writtenInlines, e.spec.name = written.1 →
    written.1 = "span" ∨ e.Needs written.2
  inline_name : ∀ e ∈ g.entries, e.type ∈ writtenInlines.map Prod.fst → e.spec.name = e.type
  rich_allows : ∀ e ∈ g.entries, e.spec.content = .rich →
    ∀ written ∈ writtenInlines, written.1 ∈ e.allowed.getD []
  span_attributes : ∀ e, g.entry? "span" = some e →
    e.spec.attributes = [Standard.checked "styles" Standard.styleList]
  span_patterns : ∀ e ∈ g.entries, e.spec.name = "span" → e.patterns.isEmpty = true
  block_model : ∀ e ∈ g.entries, e.spec.kind = .block →
    Standard.grammar.model? e.spec.name = some e.spec.content
  block_written : ∀ e ∈ g.entries, e.spec.kind = .block → e.type ≠ "heading" →
    writtenBlock? e.type = some e.spec.name
  heading_written : ∀ e ∈ g.entries, e.type = "heading" →
    (∀ a ∈ e.spec.attributes, a.name ≠ "level") ∧
      ∃ level ∈ List.range' 1 6, Reading.headingLevel e.spec.name = level ∧
        e.spec.name = "h" ++ toString level
  call_written : ∀ e ∈ g.entries, e.spec.kind = .executable →
    (Reading.callKind e.spec.name).element = e.spec.name
  call_needs : ∀ e ∈ g.entries, e.spec.kind = .executable →
    (∀ a ∈ e.spec.attributes, a.name = "enabled" → a.required = false) ∧
      ∃ a ∈ e.spec.attributes,
        a.name = (Reading.callKind e.spec.name).functionAttr ∧ a.required = true
  call_allows : ∀ e ∈ g.entries, e.spec.kind = .executable →
    "params" ∈ e.allowed.getD [] ∧ "content" ∈ e.allowed.getD []
  type_params : g.type? "params" = some "params"
  type_content : g.type? "content" = some "content"
  params_attributes : (g.checkAttributes "params" []).isEmpty = true
  node_ids : ∀ e ∈ g.entries, e.spec.kind = .block ∨ e.spec.kind = .executable → e.TakesIds
  root_ids : ∀ e ∈ g.entries, e.spec.name = "document" ∨ e.spec.name = "agent" →
    e.TakesIds ∧ ∃ a ∈ e.spec.attributes, a.name = "id"

-- The check of an attribute is a function, so the entry itself has to be computed here.
set_option maxRecDepth 100000 in
private theorem entry?_span : (Standard.grammar.entry? "span").map (·.spec.attributes) =
    some [Standard.checked "styles" Standard.styleList] := by
  rfl

namespace Printable

variable {g : Grammar} {name type : String} {attributes : List (String × String)}

theorem allows_written (hg : g.Printable) (htype : g.type? name = some type)
    (hmodel : g.model? name = some .rich) {written : String × List String}
    (hwritten : written ∈ writtenInlines) : g.allows type written.1 = true := by
  obtain ⟨e, he, rfl⟩ := type?_eq_some_iff.1 htype
  have hcontent : e.spec.content = .rich := by
    simpa [model?, spec?, he] using hmodel
  have hmem := (entry?_eq_some he).1
  exact allows_eq_true_iff.2 ⟨e, hmem, rfl, hg.rich_allows e hmem hcontent written hwritten⟩

theorem checkAttributes_span_iff (hg : g.Printable) :
    g.checkAttributes "span" attributes = [] ↔
      ∀ styles ∈ Markup.value? "styles" attributes, ∀ style ∈ Text.words styles,
        style ∈ Style.known := by
  obtain ⟨e, he, -⟩ := type?_eq_some_iff.1 (hg.inline_type _ (by decide : ("span", []) ∈ _))
  obtain ⟨hmem, hname⟩ := entry?_eq_some he
  have hpattern : e.pattern? "styles" = none := by
    have hpatterns := hg.span_patterns e hmem hname
    rw [List.isEmpty_iff] at hpatterns
    simp [Entry.pattern?, hpatterns]
  have haccepts (value : Option String) :
      e.Accepts (Standard.checked "styles" Standard.styleList) value ↔
        ∀ styles ∈ value, ∀ style ∈ Text.words styles, style ∈ Style.known := by
    cases value with
    | none => simp [Entry.Accepts, Standard.checked]
    | some styles =>
      have hlist : Standard.styleList styles = none ↔
          ∀ style ∈ Text.words styles, style ∈ Style.known := by
        simp [Standard.styleList]
      simp only [Option.mem_def, Option.some.injEq, forall_eq', ← hlist]
      simp only [Entry.Accepts, checkValue, Standard.checked, hpattern]
      cases hcheck : Standard.styleList styles <;> simp [hcheck]
  rw [checkAttributes_eq_nil_iff]
  simp only [he, Option.some.injEq, exists_eq_left', hg.span_attributes e he, List.mem_singleton,
    forall_eq]
  exact haccepts _

end Printable

theorem Standard.printable : Standard.grammar.Printable where
  names := by decide +kernel
  inline_type := by decide +kernel
  inline_kind := by decide +kernel
  inline_needs := by decide +kernel
  inline_name := by decide +kernel
  rich_allows := by decide +kernel
  span_attributes := by
    intro e he
    have hspan := entry?_span
    rw [he] at hspan
    exact Option.some.inj hspan
  span_patterns := by decide +kernel
  block_model := by decide +kernel
  block_written := by decide +kernel
  heading_written := by decide +kernel
  call_written := by decide +kernel
  call_needs := by decide +kernel
  call_allows := by decide +kernel
  type_params := by decide +kernel
  type_content := by decide +kernel
  params_attributes := by decide +kernel
  node_ids := by decide +kernel
  root_ids := by decide +kernel

end LiveDoc.Grammar
