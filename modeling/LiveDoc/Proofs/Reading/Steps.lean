import LiveDoc.Document.Reader
import LiveDoc.Proofs.Markup.Elements
import LiveDoc.Proofs.Outcome

/-!
# Steps of reading

When the single checks of a reader succeed, what a chain of readings that take ids from a supply
goes through, and what is read from a text that is given by its characters.
-/

set_option autoImplicit false
set_option relaxedAutoImplicit false

namespace LiveDoc.Reading

open Markup (Element)

section Checks

variable {α : Type} {g : Grammar} {path : Path} {name type child : String}

@[simp] theorem complain_ne_ok {complaint : Complaint} {a : α} :
    complain path complaint ≠ .ok a := by
  simp [complain]

@[simp] theorem refuseChild_ne_ok {parent : String} {a : α} :
    refuseChild path parent child ≠ .ok a := by
  simp [refuseChild]

theorem checkAttributes_eq_ok_iff {attributes : List (String × String)} :
    checkAttributes g path name attributes = .ok () ↔ g.checkAttributes name attributes = [] := by
  unfold checkAttributes
  split <;> simp_all

theorem typeOf_eq_ok_iff : typeOf g path name = .ok type ↔ g.type? name = some type := by
  unfold typeOf
  split <;> simp_all

theorem checkChild_eq_ok_iff {parent : String} :
    checkChild g path parent type child = .ok () ↔
      g.has child = true ∧ g.allows type child = true := by
  unfold checkChild
  split
  · simp_all
  · split <;> simp_all

theorem checkEmpty_eq_ok_iff {e : Element} :
    checkEmpty path e = .ok () ↔ e.children = [] ∧ Text.isAllBlank e.text = true := by
  rw [← Element.firstChild?_eq_none_iff]
  unfold checkEmpty
  split
  · simp_all
  · split <;> simp_all

end Checks

namespace Read

variable {α β : Type} {supply rest : IdSupply}

theorem bind_eq_ok_iff {x : Read α} {f : α → Read β} {b : β} :
    (x >>= f) supply = .ok (b, rest) ↔
      ∃ a mid, x supply = .ok (a, mid) ∧ f a mid = .ok (b, rest) := by
  simp only [bind, StateT.bind, Except.bind]
  cases x supply with
  | error fault => simp
  | ok pair => simp [Prod.ext_iff, and_assoc]

theorem bind_eq_error_iff {x : Read α} {f : α → Read β} {fault : Fault} :
    (x >>= f) supply = .error fault ↔
      x supply = .error fault ∨ ∃ a mid, x supply = .ok (a, mid) ∧ f a mid = .error fault := by
  simp only [bind, StateT.bind, Except.bind]
  cases x supply with
  | error other => simp
  | ok pair => simp [Prod.ext_iff, and_assoc]

theorem pure_ne_error {a : α} {fault : Fault} : (pure a : Read α) supply ≠ .error fault :=
  nofun

theorem bind_pure_eq_error_iff {x : Read α} {f : α → β} {fault : Fault} :
    (x >>= fun a => pure (f a)) supply = .error fault ↔ x supply = .error fault := by
  simp only [bind_eq_error_iff, pure_ne_error, and_false, exists_false, or_false]

theorem pure_eq_ok_iff {a b : α} :
    (pure a : Read α) supply = .ok (b, rest) ↔ a = b ∧ supply = rest := by
  show (Except.ok (a, supply) : Except Fault (α × IdSupply)) = .ok (b, rest) ↔ _
  simp

theorem lift_eq_ok_iff {x : Except Fault α} {a : α} :
    (liftM x : Read α) supply = .ok (a, rest) ↔ x = .ok a ∧ supply = rest := by
  cases x <;> simp [liftM, monadLift, MonadLift.monadLift, StateT.lift, bind, Except.bind, pure,
    Except.pure]

theorem lift_eq_error_iff {x : Except Fault α} {fault : Fault} :
    (liftM x : Read α) supply = .error fault ↔ x = .error fault := by
  cases x <;> simp [liftM, monadLift, MonadLift.monadLift, StateT.lift, bind, Except.bind, pure,
    Except.pure]

end Read

theorem nodeId_ne_error {e : Element} {supply : IdSupply} {fault : Fault} :
    nodeId e supply ≠ .error fault := by
  unfold nodeId
  cases e.attr? "id" with
  | some ident => exact Read.pure_ne_error
  | none => exact nofun

theorem parse_eq_ok_iff {text : String} {s : Source} :
    Source.parse text = .ok s ↔ ∃ root, Element.ofText text = .ok root ∧ ∃ left,
      source Grammar.Standard.grammar root ((root.attr? "id").getD (documentId text))
        (.ofSeed ((root.attr? "id").getD (documentId text)) root.ids) = .ok (s, left) := by
  simp only [Source.parse, Source.read, Source.readWithSupply, map_eq_ok_iff]
  cases Element.ofText text with
  | error fault => simp
  | ok root => simp [StateT.run]

theorem source_eq_error {text : String} {root : Element} {fault : Fault}
    (hroot : Element.ofText text = .ok root) (h : Source.parse text = .error fault) :
    ∃ ident supply, source Grammar.Standard.grammar root ident supply = .error fault := by
  rw [Source.parse, Source.read, map_eq_error_iff, Source.readWithSupply, hroot] at h
  exact ⟨_, _, h⟩

end LiveDoc.Reading

namespace LiveDoc

open Markup (Element Token Event)

/-! A text is kept as bytes. What is read from a literal is computed from its characters instead,
which the literal is defined by. -/

theorem append_eq_ofList {s t : String} {cs ds : List Char} (hs : s = String.ofList cs)
    (ht : t = String.ofList ds) : s ++ t = String.ofList (cs ++ ds) := by
  rw [hs, ht, String.ofList_append]

variable {text : String} {cs : List Char}

def Markup.Element.ofChars (cs : List Char) : Except Markup.Fault Element :=
  let cut := Token.scan 0 0 (.text []) (Token.withoutMark cs)
  let stop := (cut.tokens.getLast?.map Markup.Placed.stop).getD 0
  Element.ofEvents (Event.ofTokens cut.fault cut.tokens) stop

theorem Markup.Element.ofText_eq_ofChars (h : text = String.ofList cs) :
    Element.ofText text = Element.ofChars cs := by
  rw [Element.ofText, Token.ofText, h, String.toList_ofList, Element.ofChars]

def Source.ofChars (cs : List Char) : Except Fault Source :=
  match Element.ofChars cs with
  | .error fault => .error (.markup fault)
  | .ok root =>
    let ident := (root.attr? "id").getD (documentId (String.ofList cs))
    ((Reading.source Grammar.Standard.grammar root ident).run (.ofSeed ident root.ids)).map Prod.fst

theorem Source.parse_eq_ofChars (h : text = String.ofList cs) :
    Source.parse text = Source.ofChars cs := by
  rw [Source.parse, Source.read, Source.readWithSupply, Element.ofText_eq_ofChars h,
    Source.ofChars, h]
  cases Element.ofChars cs <;> rfl

end LiveDoc
