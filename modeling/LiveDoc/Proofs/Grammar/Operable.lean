import LiveDoc.Proofs.Grammar.Printable
import LiveDoc.Proofs.Text.Commas

/-!
# What the printer of operations takes for granted

The attributes that operations are written with, and what their printer takes for granted of a
grammar: that it asks for no others and leaves out only what it does not ask for.
-/

set_option autoImplicit false
set_option relaxedAutoImplicit false

namespace LiveDoc.Grammar

open Markup (value?)
open Reading (IsIdList)

/-- The elements of operations with the attributes that they need and those that they may have. -/
def writtenOperations : List (String × List String × List String) :=
  let place := ["afterBlockId", "atStart", "atEnd"]
  [("edit:attr", ["blockId", "name", "value"], []), ("edit:content", ["blockId"], []),
    ("edit:params", ["blockId"], []), ("edit:id", ["blockId", "newId"], []), ("insert", [], place),
    ("delete", ["blockId"], []), ("replace", ["blockId"], []),
    ("move", [], ["blockId", "blockIds", "fromBlockId", "toBlockId"] ++ place)]

/-- What the printer of operations takes for granted of a grammar. -/
structure Operable (g : Grammar) : Prop where
  attributes : ∀ e ∈ g.entries, ∀ written ∈ writtenOperations, e.spec.name = written.1 →
    (∀ name ∈ written.2.1, ∃ a ∈ e.spec.attributes, a.name = name ∧ a.required = true) ∧
      ∀ a ∈ e.spec.attributes,
        a.name ∈ written.2.1 ∨ a.name ∈ written.2.2 ∧ a.required = false
  id_lists : ∀ e, g.entry? "move" = some e → (∃ a ∈ e.spec.attributes, a.name = "blockIds") ∧
    ∀ a ∈ e.spec.attributes, a.name = "blockIds" →
      a.values = none ∧ e.pattern? a.name = none ∧ a.check = some Standard.idList
  diff_attributes : ∀ e ∈ g.entries, e.spec.name = "diff" →
    ∀ a ∈ e.spec.attributes, a.name = "target" ∧ a.required = false

-- As the check is a function, the entry itself has to be computed here.
set_option maxRecDepth 100000 in
private theorem entry?_move : (Standard.grammar.entry? "move").map (·.spec.attributes) =
    some (Standard.markers ++ [Standard.idRef "blockId",
      Standard.checked "blockIds" Standard.idList, Standard.idRef "fromBlockId",
      Standard.idRef "toBlockId"]) := by
  rfl

private theorem pattern?_move : ∀ e ∈ Standard.grammar.entries, e.spec.name = "move" →
    (e.pattern? "blockIds").isNone = true := by
  decide +kernel

theorem Standard.operable : Standard.grammar.Operable where
  attributes := by decide +kernel
  id_lists := by
    intro e he
    obtain ⟨hmem, hmove⟩ := entry?_eq_some he
    have hattributes := entry?_move
    rw [he, Option.map_some, Option.some_inj] at hattributes
    refine ⟨⟨Standard.checked "blockIds" Standard.idList, ?_, rfl⟩, fun a ha hname => ?_⟩
    · simp [hattributes]
    have hpattern := pattern?_move e hmem hmove
    rw [Option.isNone_iff_eq_none, ← hname] at hpattern
    rw [hattributes] at ha
    simp only [Standard.markers, Standard.idRef, Standard.flag, Standard.checked, List.cons_append,
      List.nil_append, List.mem_cons, List.not_mem_nil, or_false] at ha
    rcases ha with rfl | rfl | rfl | rfl | rfl | rfl | rfl <;> simp at hname
    exact ⟨rfl, hpattern, rfl⟩
  diff_attributes := by decide +kernel

namespace Operable

variable {g : Grammar} {e : Entry} {a : AttributeSpec} {value : String}
  {attributes : List (String × String)}

theorem accepts_iff (ho : g.Operable) (he : g.entry? "move" = some e) (ha : a ∈ e.spec.attributes)
    (hname : a.name = "blockIds") : e.Accepts a (some value) ↔ IsIdList value := by
  obtain ⟨hvalues, hpattern, hcheck⟩ := (ho.id_lists e he).2 a ha hname
  have hlist : Standard.idList value = none ↔ IsIdList value := by
    simp only [Standard.idList, IsIdList, ite_eq_right_iff, reduceCtorEq, imp_false,
      Bool.not_eq_true, List.any_eq_false]
  rw [← hlist]
  simp only [Entry.Accepts, checkValue, hvalues, hpattern, hcheck]
  cases hfound : Standard.idList value <;> simp [hfound]

theorem isIdList (ho : g.Operable) (h : g.checkAttributes "move" attributes = [])
    (hvalue : value? "blockIds" attributes = some value) : IsIdList value := by
  obtain ⟨e, he, haccepts⟩ := checkAttributes_eq_nil_iff.1 h
  obtain ⟨a, ha, hname⟩ := (ho.id_lists e he).1
  have haccept := haccepts a ha
  rw [hname, hvalue] at haccept
  exact (ho.accepts_iff he ha hname).1 haccept

end Operable

end LiveDoc.Grammar
