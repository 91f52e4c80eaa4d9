import LiveDoc.Proofs.Grammar.Ids
import LiveDoc.Proofs.Markup.Written

/-!
# Checking attributes

The check of attributes looks at nothing but the value under each name that the grammar describes.
So attributes pass it if they have the values of others that do.
-/

set_option autoImplicit false
set_option relaxedAutoImplicit false

namespace LiveDoc.Markup

def value? (name : String) (attributes : List (String × String)) : Option String :=
  (attributes.find? (·.1 = name)).map Prod.snd

section Values

variable {name other value : String} {attributes : List (String × String)}

theorem value?_append (name : String) (first second : List (String × String)) :
    value? name (first ++ second) = (value? name first).or (value? name second) := by
  simp [value?, List.find?_append, Option.map_or]

theorem value?_cons_self (name value : String) (rest : List (String × String)) :
    value? name ((name, value) :: rest) = some value := by
  simp [value?]

theorem value?_cons_of_ne (h : other ≠ name) (value : String) (rest : List (String × String)) :
    value? name ((other, value) :: rest) = value? name rest := by
  simp [value?, h]

theorem value?_given_self (name : String) (value : Option String) :
    value? name (given name value) = value := by
  cases value <;> simp [value?, given]

theorem value?_given_of_ne (h : other ≠ name) (value : Option String) :
    value? name (given other value) = none := by
  cases value <;> simp [value?, given, h]

theorem value?_eq_none (h : name ∉ attributes.map Prod.fst) : value? name attributes = none := by
  simp only [value?, Option.map_eq_none_iff, List.find?_eq_none, decide_eq_true_eq]
  rintro a ha rfl
  exact h (List.mem_map_of_mem ha)

theorem value?_eq_some_iff (h : (attributes.map Prod.fst).Nodup) :
    value? name attributes = some value ↔ (name, value) ∈ attributes := by
  induction attributes with
  | nil => simp [value?]
  | cons a rest ih =>
    obtain ⟨other, old⟩ := a
    rw [List.map_cons, List.nodup_cons] at h
    by_cases hname : other = name
    · subst hname
      rw [value?_cons_self]
      have hrest : (other, value) ∉ rest := fun hmem =>
        h.1 (List.mem_map.2 ⟨(other, value), hmem, rfl⟩)
      simp [hrest, eq_comm]
    · rw [value?_cons_of_ne hname, ih h.2]
      simp [Ne.symm hname]

end Values

end LiveDoc.Markup

namespace LiveDoc.Grammar

open Markup (value?)

/-- Whether a value, or that there is none, is in order for an attribute. -/
def Entry.Accepts (e : Entry) (a : AttributeSpec) : Option String → Prop
  | some value => checkValue e a value = []
  | none => a.required = false

def Entry.isFree (e : Entry) (a : AttributeSpec) : Bool :=
  a.values.isNone && (e.pattern? a.name).isNone && a.check.isNone

/-- An element that has to have certain attributes, and all others of which may be anything. -/
def Entry.Needs (e : Entry) (names : List String) : Prop :=
  (∀ name ∈ names, ∃ a ∈ e.spec.attributes, a.name = name ∧ a.required = true) ∧
    ∀ a ∈ e.spec.attributes, a.name ∈ names ∨ e.isFree a = true ∧ a.required = false

instance (e : Entry) (names : List String) : Decidable (e.Needs names) :=
  inferInstanceAs (Decidable (_ ∧ _))

/-- An element that has the ids of the standard grammar for ids. -/
def Entry.TakesIds (e : Entry) : Prop :=
  ∀ a ∈ e.spec.attributes, a.name = "id" →
    a.values = none ∧ a.check.isNone = true ∧
      e.pattern? a.name = some (.named Standard.idFirst Standard.idLater)

instance (e : Entry) : Decidable e.TakesIds :=
  inferInstanceAs (Decidable (∀ a ∈ e.spec.attributes, a.name = "id" → _))

section Check

variable {g : Grammar} {e : Entry} {a : AttributeSpec} {name value : String}
  {attributes others : List (String × String)}

theorem checkAttributes_eq_nil_iff :
    g.checkAttributes name attributes = [] ↔
      ∃ e, g.entry? name = some e ∧
        ∀ a ∈ e.spec.attributes, e.Accepts a (value? a.name attributes) := by
  unfold checkAttributes
  cases g.entry? name with
  | none => simp
  | some e =>
    simp only [List.flatMap_eq_nil_iff, Option.some.injEq, exists_eq_left']
    refine forall_congr' fun a => forall_congr' fun _ => ?_
    unfold value?
    cases attributes.find? (·.1 = a.name) with
    | none => cases hrequired : a.required <;> simp [Entry.Accepts, hrequired]
    | some found => simp [Entry.Accepts]

theorem checkAttributes_of_accepts (hentry : g.entry? name = some e)
    (h : g.checkAttributes name attributes = [])
    (hother : ∀ a ∈ e.spec.attributes, e.Accepts a (value? a.name attributes) →
      e.Accepts a (value? a.name others)) : g.checkAttributes name others = [] := by
  obtain ⟨e', he', haccepts⟩ := checkAttributes_eq_nil_iff.1 h
  obtain rfl := Option.some.inj (hentry.symm.trans he')
  exact checkAttributes_eq_nil_iff.2 ⟨e, hentry, fun a ha => hother a ha (haccepts a ha)⟩

theorem Entry.accepts_of_isFree (h : e.isFree a = true) (hrequired : a.required = false)
    (value : Option String) : e.Accepts a value := by
  simp only [Entry.isFree, Bool.and_eq_true, Option.isNone_iff_eq_none] at h
  cases value with
  | none => exact hrequired
  | some value => simp [Entry.Accepts, checkValue, h]

theorem exists_value (hentry : g.entry? name = some e)
    (h : g.checkAttributes name attributes = []) (ha : a ∈ e.spec.attributes)
    (hrequired : a.required = true) : ∃ value, value? a.name attributes = some value := by
  obtain ⟨e', he', haccepts⟩ := checkAttributes_eq_nil_iff.1 h
  obtain rfl := Option.some.inj (hentry.symm.trans he')
  have haccept := haccepts a ha
  cases hvalue : value? a.name attributes with
  | none => simp [hvalue, Entry.Accepts, hrequired] at haccept
  | some value => exact ⟨value, rfl⟩

theorem checkAttributes_of_needs {names : List String} (hentry : g.entry? name = some e)
    (hneeds : e.Needs names) (h : g.checkAttributes name attributes = [])
    (hothers : ∀ needed ∈ names, value? needed others = some ((value? needed attributes).getD "")) :
    g.checkAttributes name others = [] := by
  refine checkAttributes_of_accepts hentry h fun a ha haccepts => ?_
  rcases hneeds.2 a ha with hname | ⟨hfree, hrequired⟩
  · obtain ⟨b, hb, hbname, hbrequired⟩ := hneeds.1 a.name hname
    obtain ⟨value, hvalue⟩ := exists_value hentry h hb hbrequired
    rw [hbname] at hvalue
    rw [hvalue] at haccepts
    rwa [hothers a.name hname, hvalue, Option.getD_some]
  · exact Entry.accepts_of_isFree hfree hrequired _

theorem Entry.TakesIds.accepts_iff (h : e.TakesIds) (ha : a ∈ e.spec.attributes)
    (hname : a.name = "id") : e.Accepts a (some value) ↔ Standard.isId value = true := by
  obtain ⟨hvalues, hcheck, hpattern⟩ := h a ha hname
  rw [Option.isNone_iff_eq_none] at hcheck
  by_cases hid : Standard.isId value = true
  · have hoccurs := hid
    rw [Standard.isId] at hoccurs
    simp [Entry.Accepts, checkValue, hvalues, hcheck, hpattern, hoccurs, hid]
  · have hoccurs := hid
    rw [Standard.isId] at hoccurs
    simp [Entry.Accepts, checkValue, hvalues, hcheck, hpattern, hoccurs, hid]

end Check

end LiveDoc.Grammar
