import LiveDoc.Proofs.Grammar.Placing
import LiveDoc.Proofs.Reading.Steps
import Mathlib.Logic.Relation

/-!
# Places of faults

The element to which the steps of a path lead, and what the cause of a fault says about an element
and its children. Inline elements have no steps of their own: a fault inside them has the path of
the element that holds them.
-/

set_option autoImplicit false
set_option relaxedAutoImplicit false

namespace LiveDoc

open Markup (Element Item)

def Path.along (p : Path) (steps : List Path.Step) : Path := { p with steps := p.steps ++ steps }

namespace Path

variable (p : Path)

@[simp] theorem along_nil : p.along [] = p := by simp [along]

@[simp] theorem down_along (step : Path.Step) (steps : List Path.Step) :
    (p.down step).along steps = p.along (step :: steps) := by simp [along, down]

theorem text_eq (p : Path) :
    p.text = "/" ++ p.root ++ String.join (p.steps.map fun step => "/" ++ step.text) := by
  have hjoin (first : String) (rest : List String) :
      String.intercalate "/" (first :: rest) = first ++ String.join (rest.map ("/" ++ ·)) := by
    induction rest generalizing first with
    | nil => simp
    | cons second rest ih => simp [ih, String.append_assoc]
  rw [text, hjoin, List.map_map, String.append_assoc]
  rfl

end Path

namespace Reading

variable {g : Grammar} {path : Path} {e inner : Element} {fault : Fault} {cause : Cause}

/-- Steps lead from an element to one below it, through elements that the grammar accepts where they
stand. A step with a number leads to the child of a name before which there are so many children
that are not inline, a step without a number from a call to the first child of a name. -/
inductive Leads (g : Grammar) : Element → List Path.Step → Element → Prop
  | here (e : Element) : Leads g e [] e
  | nth {e inner place : Element} {before after : List Element} {name : String} {index : Nat}
    {steps : List Path.Step} (children : e.children = before ++ inner :: after)
    (named : inner.name = name) (block : g.isInline name = false)
    (counted : (before.countP fun child => !g.isInline child.name) = index)
    (accepted : g.Accepts e inner) (rest : Leads g inner steps place) :
    Leads g e (.nth name index :: steps) place
  | only {e inner place : Element} {name : String} {steps : List Path.Step}
    (call : (g.spec? e.name).map ElementSpec.kind = some .executable)
    (part : name = "params" ∨ name = "content")
    (first : e.children.find? (·.name = name) = some inner)
    (accepted : g.Accepts e inner) (rest : Leads g inner steps place) :
    Leads g e (.only name :: steps) place

private theorem eq_of_countP {α : Type} {p : α → Bool} {before before' after after' : List α}
    {a b : α} (h : before ++ a :: after = before' ++ b :: after')
    (hcount : before.countP p = before'.countP p) (ha : p a = true) (hb : p b = true) : a = b := by
  induction before generalizing before' with
  | nil =>
    cases before' with
    | nil => exact (List.cons.inj h).1
    | cons c rest =>
      obtain rfl : a = c := (List.cons.inj h).1
      simp [ha] at hcount
  | cons c rest ih =>
    cases before' with
    | nil =>
      obtain rfl : c = b := (List.cons.inj h).1
      simp [hb] at hcount
    | cons d rest' =>
      obtain ⟨rfl, hrest⟩ := List.cons.inj h
      exact ih hrest (by simpa [List.countP_cons] using hcount)

theorem Leads.unique {steps : List Path.Step} {place other : Element} (h : Leads g e steps place)
    (hother : Leads g e steps other) : place = other := by
  induction h with
  | here => cases hother; rfl
  | nth children named block counted _ _ ih =>
    cases hother with
    | nth children' named' _ counted' _ rest' =>
      have heq := eq_of_countP (p := fun child : Element => !g.isInline child.name)
        (children.symm.trans children') (counted.trans counted'.symm) (by simp [named, block])
        (by simp [named', block])
      exact ih (heq ▸ rest')
  | only _ _ first _ _ ih =>
    cases hother with
    | only _ _ first' _ rest' =>
      obtain rfl := Option.some_inj.1 (first.symm.trans first')
      exact ih rest'

/-- The second element is an inline child of the first. -/
def InlineChild (g : Grammar) (outer inner : Element) : Prop :=
  inner ∈ outer.children ∧ g.isInline inner.name = true

/-- What a cause says is so: the second element is at fault, seen from the first, which is the same
one or its parent. -/
inductive Against (g : Grammar) (e : Element) : Element → Cause → Prop
  | unknown {inner : Element} (child : inner ∈ e.children) (unknown : g.has inner.name = false) :
    Against g e inner (.unknownElement inner.name)
  | misplaced {inner : Element} (child : inner ∈ e.children) (refused : ¬g.Accepts e inner) :
    Against g e inner (.invalidChild e.name inner.name)
  | repeated {inner : Element} {before after : List Element}
    (children : e.children = before ++ inner :: after)
    (earlier : inner.name ∈ before.map Element.name) :
    Against g e inner (.invalidForm (.duplicate inner.name e.name))
  | attributes (found : g.checkAttributes e.name e.attributes ≠ []) :
    Against g e e (.invalidAttributes (g.checkAttributes e.name e.attributes))
  | notJson (written : Json.read? (Text.trim e.text) = none) :
    Against g e e (.invalidJson .notJson)
  | notAnObject {value : Json} (written : Json.read? (Text.trim e.text) = some value)
    (other : ∀ members, value ≠ .obj members) : Against g e e (.invalidJson .notAnObject)
  | text {complaint : Complaint}
    (said : complaint ∈ [.textDirectlyInside e.name, .mustNotContainText e.name,
      .textOutsideContent e.name]) (text : Text.isAllBlank e.text = false) :
    Against g e e (.invalidForm complaint)
  | notABlock (kind : (g.spec? e.name).map ElementSpec.kind ∉ [some .block, some .executable]) :
    Against g e e (.invalidForm (.notABlock e.name))
  | notInline {type : String} (made : g.type? e.name = some type) (unstyled : styleOf? type = none)
    (other : type ∉ ["span", "link", "annotation", "variable", "mention"]) :
    Against g e e (.invalidForm (.notInline e.name type))
  | notAnOperation (other : ∀ o : Edit.Operation, o.name ≠ e.name) :
    Against g e e (.invalidForm (.notAnOperation e.name))
  | unexpectedRoot (name : e.name ∉ ["document", "agent", "diff"]) :
    Against g e e (.invalidForm (.unexpectedRoot e.name))

theorem Against.near (h : Against g e inner cause) : inner = e ∨ inner ∈ e.children := by
  cases h with
  | unknown child | misplaced child => exact .inr child
  | repeated children => exact .inr (by simp [children])
  | _ => exact .inl rfl

/-- A fault at a path with what is wrong in an element or in an inline element that is reached from
it through inline elements. -/
def FaultIn (g : Grammar) (path : Path) (e : Element) (fault : Fault) : Prop :=
  ∃ holder inner cause, fault = .at path cause ∧
    Relation.ReflTransGen (InlineChild g) e holder ∧ Against g holder inner cause

/-- A fault at the path that leads on to some element, with what is wrong in that element. -/
def FaultBelow (g : Grammar) (path : Path) (e : Element) (fault : Fault) : Prop :=
  ∃ steps place, Leads g e steps place ∧ FaultIn g (path.along steps) place fault

theorem Against.faultIn (h : Against g e inner cause) : FaultIn g path e (.at path cause) :=
  ⟨e, inner, cause, rfl, .refl, h⟩

theorem FaultIn.of_child (hinner : inner ∈ e.children) (hinline : g.isInline inner.name = true)
    (h : FaultIn g path inner fault) : FaultIn g path e fault := by
  obtain ⟨holder, found, cause, rfl, hreach, hagainst⟩ := h
  exact ⟨holder, found, cause, rfl, .head ⟨hinner, hinline⟩ hreach, hagainst⟩

theorem FaultIn.below (h : FaultIn g path e fault) : FaultBelow g path e fault :=
  ⟨[], e, .here e, by rwa [Path.along_nil]⟩

theorem FaultBelow.of_nth {before after : List Element}
    (children : e.children = before ++ inner :: after) (block : g.isInline inner.name = false)
    (accepted : g.Accepts e inner)
    (h : FaultBelow g (path.down (.nth inner.name
      (before.countP fun child => !g.isInline child.name))) inner fault) :
    FaultBelow g path e fault := by
  obtain ⟨steps, place, hleads, hfault⟩ := h
  rw [Path.down_along] at hfault
  exact ⟨_, place, .nth children rfl block rfl accepted hleads, hfault⟩

theorem FaultBelow.of_only (call : (g.spec? e.name).map ElementSpec.kind = some .executable)
    (part : inner.name = "params" ∨ inner.name = "content")
    (first : e.children.find? (·.name = inner.name) = some inner) (accepted : g.Accepts e inner)
    (h : FaultBelow g (path.down (.only inner.name)) inner fault) : FaultBelow g path e fault := by
  obtain ⟨steps, place, hleads, hfault⟩ := h
  rw [Path.down_along] at hfault
  exact ⟨_, place, .only call part first accepted hleads, hfault⟩

end Reading

end LiveDoc
