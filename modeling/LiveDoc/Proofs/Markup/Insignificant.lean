import LiveDoc.Proofs.Grammar.Attributes
import LiveDoc.Proofs.Markup.Joined
import LiveDoc.Text.Blank
import Mathlib.Logic.Relation

/-!
# Insignificant markup

Changes of markup that mean nothing: the order of the attributes of an element, how character data
is cut into pieces of text and sections, and blanks between elements where only elements are
expected.
-/

set_option autoImplicit false
set_option relaxedAutoImplicit false

namespace LiveDoc.Markup

/-- The elements in which blanks between other elements mean nothing. -/
def padded : List String :=
  ["document", "agent", "diff", "insert", "replace", "ul", "ol", "function", "tool", "fncall",
    "trigger"]

/-- A change of the character data at the front of some items, in an element of a name. -/
inductive Recuts (name : String) : List (Item Element) → List (Item Element) → Prop
  | literal (chars : String) (rest : List (Item Element)) :
    Recuts name (.literal chars :: rest) (.text chars :: rest)
  | cut (first second : String) (rest : List (Item Element)) :
    Recuts name (.text (first ++ second) :: rest) (.text first :: .text second :: rest)
  | empty (rest : List (Item Element)) : Recuts name (.text "" :: rest) rest
  | padding (chars : String) (rest : List (Item Element)) (pads : name ∈ padded)
    (blank : Text.isAllBlank chars = true) : Recuts name (.text chars :: rest) rest

/-- A single change that means nothing, somewhere in an element. -/
inductive Respells : Element → Element → Prop
  | attributes (name : String) {attributes others : List (String × String)}
    (items : List (Item Element)) (perm : attributes.Perm others) :
    Respells ⟨name, attributes, items⟩ ⟨name, others, items⟩
  | data (name : String) (attributes : List (String × String)) (front : List (Item Element))
    {items others : List (Item Element)} (recuts : Recuts name items others) :
    Respells ⟨name, attributes, front ++ items⟩ ⟨name, attributes, front ++ others⟩
  | inside (name : String) (attributes : List (String × String)) (front rest : List (Item Element))
    {inner other : Element} (respells : Respells inner other) :
    Respells ⟨name, attributes, front ++ .element inner :: rest⟩
      ⟨name, attributes, front ++ .element other :: rest⟩

/-- Elements that are equal up to changes that mean nothing. -/
def Alike : Element → Element → Prop := Relation.EqvGen Respells

theorem Alike.inside {inner other : Element} (h : Alike inner other) (name : String)
    (attributes : List (String × String)) (front rest : List (Item Element)) :
    Alike ⟨name, attributes, front ++ .element inner :: rest⟩
      ⟨name, attributes, front ++ .element other :: rest⟩ := by
  induction h with
  | rel _ _ h => exact .rel _ _ (.inside name attributes front rest h)
  | refl _ => exact .refl _
  | symm _ _ _ ih => exact .symm _ _ ih
  | trans _ _ _ _ _ ih ih' => exact .trans _ _ _ ih ih'

section Attributes

variable {attributes others : List (String × String)}

theorem value?_perm (hnodup : (attributes.map Prod.fst).Nodup) (hperm : attributes.Perm others)
    (name : String) : value? name attributes = value? name others := by
  have hothers : (others.map Prod.fst).Nodup := (hperm.map Prod.fst).nodup_iff.1 hnodup
  refine Option.ext fun value => ?_
  rw [value?_eq_some_iff hnodup, value?_eq_some_iff hothers, hperm.mem_iff]

end Attributes

def Element.HasDistinctAttributes (e : Element) : Prop :=
  ∀ d ∈ e.elements, (d.attributes.map Prod.fst).Nodup

namespace Element.HasDistinctAttributes

theorem mk_iff {name : String} {attributes : List (String × String)}
    {items : List (Item Element)} :
    HasDistinctAttributes ⟨name, attributes, items⟩ ↔ (attributes.map Prod.fst).Nodup ∧
      ∀ inner, .element inner ∈ items → inner.HasDistinctAttributes := by
  simp only [HasDistinctAttributes, elements, List.forall_mem_cons, mem_elementsOfItems_iff]
  exact and_congr_right fun _ =>
    ⟨fun h inner hinner d hd => h d ⟨inner, hinner, hd⟩,
      fun h d ⟨inner, hinner, hd⟩ => h inner hinner d hd⟩

theorem respells_iff {e other : Element} (h : Respells e other) :
    e.HasDistinctAttributes ↔ other.HasDistinctAttributes := by
  induction h with
  | attributes name items perm => rw [mk_iff, mk_iff, (perm.map Prod.fst).nodup_iff]
  | data name attributes front recuts => cases recuts <;> simp [mk_iff]
  | inside name attributes front rest respells ih =>
    simp only [mk_iff, List.mem_append, List.mem_cons, Item.element.injEq]
    refine and_congr_right fun _ => ⟨fun h inner hinner => ?_, fun h inner hinner => ?_⟩
    · rcases hinner with hinner | rfl | hinner
      · exact h inner (.inl hinner)
      · exact ih.1 (h _ (.inr (.inl rfl)))
      · exact h inner (.inr (.inr hinner))
    · rcases hinner with hinner | rfl | hinner
      · exact h inner (.inl hinner)
      · exact ih.2 (h _ (.inr (.inl rfl)))
      · exact h inner (.inr (.inr hinner))

end Element.HasDistinctAttributes

end LiveDoc.Markup
