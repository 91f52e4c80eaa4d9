import LiveDoc.Proofs.Grammar.Printable

/-!
# What edited documents take for granted

What a grammar has to say so that an edited document can be written and read again: there are
headings of all levels, and nothing is demanded of props but that definitions have names.
-/

set_option autoImplicit false
set_option relaxedAutoImplicit false

namespace LiveDoc.Grammar

def definitionTypes : List String := ["function_definition", "tool_definition"]

def isNamed (value : Option String) : Bool := value.any (!Text.isAllBlank ·)

structure Editable (g : Grammar) : Prop where
  headings : ∀ level ∈ List.range' 1 6,
    (g.spec? ("h" ++ toString level)).map ElementSpec.kind = some .block ∧
      g.type? ("h" ++ toString level) = some "heading"
  childless : ∀ e ∈ g.entries, e.spec.kind = .block → e.allowed.isNone = true →
    ∀ other ∈ g.entries, other.type = e.type → other.allowed.getD [] = []
  models_alike : ∀ e ∈ g.entries, e.spec.kind = .block →
    ∀ other ∈ g.entries, other.type = e.type → other.spec.content = e.spec.content
  have_ids : ∀ e ∈ g.entries, e.spec.kind = .block ∨ e.spec.kind = .executable →
    ∃ a ∈ e.spec.attributes, a.name = "id"
  props : ∀ e ∈ g.entries, e.spec.kind = .block → ∀ a ∈ e.spec.attributes,
    a.name = "id" ∨ e.isFree a = true ∧ a.required = false ∨
      a.name = "name" ∧ e.type ∈ definitionTypes
  definitions : ∀ e ∈ g.entries, e.type ∈ definitionTypes →
    (∃ a ∈ e.spec.attributes, a.name = "name") ∧
      ∀ a ∈ e.spec.attributes, a.name = "name" → ∀ value, e.Accepts a value ↔ isNamed value = true
  document_attributes : ∀ e ∈ g.entries, e.spec.name = "document" →
    ∀ a ∈ e.spec.attributes, a.name = "id"

-- As the check is a function, the attributes themselves have to be computed here.
set_option maxRecDepth 100000 in
private theorem attributes_definitions :
    (Standard.grammar.entries.filter (·.type ∈ definitionTypes)).map (·.spec.attributes) =
      List.replicate 2 [Standard.idRef "id",
        Standard.needed (Standard.checked "name" Standard.notBlank),
        Standard.free "description"] := by
  rfl

private theorem pattern?_definitions : ∀ e ∈ Standard.grammar.entries, e.type ∈ definitionTypes →
    (e.pattern? "name").isNone = true := by
  decide +kernel

theorem Standard.editable : Standard.grammar.Editable where
  headings := by decide +kernel
  childless := by decide +kernel
  models_alike := by decide +kernel
  have_ids := by decide +kernel
  props := by decide +kernel
  definitions := by
    intro e he htype
    have hmem : e.spec.attributes ∈ (Standard.grammar.entries.filter
        (·.type ∈ definitionTypes)).map (·.spec.attributes) :=
      List.mem_map_of_mem (List.mem_filter.2 ⟨he, by simpa using htype⟩)
    rw [attributes_definitions] at hmem
    have hattributes := List.eq_of_mem_replicate hmem
    have hpattern := pattern?_definitions e he htype
    rw [Option.isNone_iff_eq_none] at hpattern
    refine ⟨⟨Standard.needed (Standard.checked "name" Standard.notBlank), ?_, rfl⟩, ?_⟩
    · simp [hattributes]
    intro a ha hname value
    have ha' : a = Standard.needed (Standard.checked "name" Standard.notBlank) := by
      rw [hattributes] at ha
      simp only [List.mem_cons, List.not_mem_nil, or_false] at ha
      rcases ha with rfl | rfl | rfl
      · simp [Standard.idRef] at hname
      · rfl
      · simp [Standard.free] at hname
    subst ha'
    cases value with
    | none => simp [Entry.Accepts, Standard.needed, isNamed]
    | some value =>
      cases hblank : Text.isAllBlank value <;>
        simp [Entry.Accepts, checkValue, Standard.needed, Standard.checked, Standard.notBlank,
          hpattern, hblank, isNamed]
  document_attributes := by decide +kernel

end LiveDoc.Grammar
