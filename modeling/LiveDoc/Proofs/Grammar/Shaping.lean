import LiveDoc.Proofs.Grammar.Editable

/-!
# Which nodes stand where

The types of blocks by where they stand and what they hold, and what the readers of nodes take for
granted of a grammar: that its models and rules for children keep these types apart.
-/

set_option autoImplicit false
set_option relaxedAutoImplicit false

namespace LiveDoc.Grammar

def flatTypes : List String := ["paragraph", "heading", "quote"]

def listTypes : List String := ["bullet_list", "numbered_list"]

/-- The types of blocks that may stand outside of lists. -/
def outsideTypes : List String := flatTypes ++ ["code", "separator"] ++ listTypes ++ definitionTypes

/-- The elements besides definitions in which nodes stand outside of lists. -/
def nodeHolders : List String := ["document", "agent", "insert", "replace"]

/-- What readers take for granted of a grammar about where nodes stand. -/
structure Shaping (g : Grammar) : Prop where
  holder_type : ∀ name ∈ nodeHolders, g.type? name = some name
  rich_type : ∀ e ∈ g.entries, e.spec.kind = .block → e.spec.content = .rich →
    e.type = "list_item" ∨ e.type ∈ flatTypes
  text_type : ∀ e ∈ g.entries, e.spec.kind = .block → e.spec.content = .text → e.type = "code"
  holding_type : ∀ e ∈ g.entries, e.spec.kind = .block → e.spec.content ∈ [.json, .none] →
    e.allowed.isSome = true → e.type ∈ listTypes ∨ e.type ∈ definitionTypes
  empty_type : ∀ e ∈ g.entries, e.spec.kind = .block → e.spec.content ∈ [.json, .none] →
    e.allowed.isSome = false → e.type = "separator"
  in_flat : ∀ e ∈ g.entries, e.type ∈ flatTypes → ∀ name ∈ e.allowed.getD [],
    g.isInline name = true
  in_list : ∀ e ∈ g.entries, e.type ∈ listTypes → ∀ name ∈ e.allowed.getD [],
    (g.spec? name).map ElementSpec.kind = some .block ∧ g.type? name = some "list_item"
  in_item : ∀ e ∈ g.entries, e.type = "list_item" → ∀ name ∈ e.allowed.getD [],
    (g.spec? name).map ElementSpec.kind = some .block → ∀ type ∈ g.type? name, type ∈ listTypes
  outside : ∀ e ∈ g.entries, e.type ∈ nodeHolders ++ definitionTypes → ∀ name ∈ e.allowed.getD [],
    (g.spec? name).map ElementSpec.kind = some .block → ∀ type ∈ g.type? name, type ∈ outsideTypes

theorem Standard.shaping : Standard.grammar.Shaping where
  holder_type := by decide +kernel
  rich_type := by decide +kernel
  text_type := by decide +kernel
  holding_type := by decide +kernel
  empty_type := by decide +kernel
  in_flat := by decide +kernel
  in_list := by decide +kernel
  in_item := by decide +kernel
  outside := by decide +kernel

end LiveDoc.Grammar
