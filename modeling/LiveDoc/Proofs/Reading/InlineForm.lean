import LiveDoc.Proofs.Inline.Canonical

/-!
# The form of inline content that is read

All inline content that is read is canonical.
-/

set_option autoImplicit false
set_option relaxedAutoImplicit false

namespace LiveDoc

namespace Inline

variable {g : Grammar} {rest found : List Inline}

theorem CanonicalAll.glue_text {chars : String} {styles : List String}
    (h : CanonicalAll g rest) (hknown : styles.Sublist Style.known) :
    CanonicalAll g (glue (.text chars styles) rest) := by
  by_cases hchars : chars = ""
  · have hempty : glue (.text chars styles) rest = rest := by simp [glue, hchars]
    rwa [hempty]
  · cases h with
    | nil =>
      have hglue : glue (.text chars styles) [] = [.text chars styles] := by simp [glue, hchars]
      rw [hglue]
      exact .cons (.text hchars hknown) rfl .nil
    | @cons item after first apart hafter =>
      by_cases hjoins : joins (.text chars styles) (item :: after) = true
      · cases item with
        | text more others =>
          obtain rfl : styles = others := by simpa [joins] using hjoins
          have hglue : glue (.text chars styles) (.text more styles :: after) =
              .text (chars ++ more) styles :: after := by
            simp [glue, hchars]
          rw [hglue]
          refine .cons (.text (by simp [hchars]) hknown) ?_ hafter
          cases after with
          | nil => rfl
          | cons next _ => cases next <;> first | rfl | exact apart
        | _ => simp [joins] at hjoins
      · have hitem : Canonical g (.text chars styles) := .text hchars hknown
        rw [Bool.not_eq_true] at hjoins
        rw [hitem.glue_eq hjoins]
        exact .cons hitem hjoins (.cons first apart hafter)

theorem CanonicalAll.glue {item : Inline} (h : CanonicalAll g rest) (hitem : item.Canonical g) :
    CanonicalAll g (glue item rest) := by
  cases hitem with
  | text ne known => exact h.glue_text known
  | var checked prompted text => exact .cons (.var checked prompted text) rfl h
  | mention checked => exact .cons (.mention checked) rfl h
  | link checked inside => exact .cons (.link checked inside) rfl h
  | note checked inside => exact .cons (.note checked inside) rfl h

theorem CanonicalAll.glueAll (h : CanonicalAll g rest) (hfound : CanonicalAll g found) :
    CanonicalAll g (glueAll found rest) := by
  induction found with
  | nil => exact h
  | cons item after ih =>
    cases hfound with
    | cons first apart hafter => exact (ih hafter).glue first

theorem CanonicalAll.singleton {item : Inline} (h : item.Canonical g) : CanonicalAll g [item] :=
  .cons h (by cases item <;> rfl) .nil

end Inline

namespace Reading

open Markup (Element Item given value?)
open Inline (CanonicalAll)

variable {g : Grammar}

theorem known_of_styleOf? {type style : String} (h : styleOf? type = some style) :
    style ∈ Style.known := by
  unfold styleOf? at h
  split at h <;> simp at h <;> subst h <;> decide

private theorem sublist_canonical_append {styles more : List String}
    (hstyles : styles.Sublist Style.known) (hmore : ∀ style ∈ more, style ∈ Style.known) :
    (Style.canonical (styles ++ more)).Sublist Style.known := by
  refine Style.sublist_canonical fun style hstyle => ?_
  rcases List.mem_append.1 hstyle with hstyle | hstyle
  · exact hstyles.subset hstyle
  · exact hmore style hstyle

theorem checkAttributes_written (hg : g.Printable) {name type : String}
    {attributes others : List (String × String)} {needed : List String}
    (hwritten : (type, needed) ∈ Grammar.writtenInlines) (hspan : type ≠ "span")
    (htype : g.type? name = some type) (hcheck : g.checkAttributes name attributes = [])
    (hothers : ∀ n ∈ needed, value? n others = some ((value? n attributes).getD "")) :
    g.checkAttributes type others = [] := by
  obtain ⟨e, he, rfl⟩ := Grammar.type?_eq_some_iff.1 htype
  obtain ⟨hmem, rfl⟩ := Grammar.entry?_eq_some he
  have hname := hg.inline_name e hmem (List.mem_map.2 ⟨_, hwritten, rfl⟩)
  have hneeds := (hg.inline_needs e hmem _ hwritten hname).resolve_left hspan
  rw [hname] at he hcheck
  exact Grammar.checkAttributes_of_needs he hneeds hcheck hothers

theorem words_known (hg : g.Printable) {name : String} {e : Element}
    (htype : g.type? name = some "span") (hcheck : g.checkAttributes name e.attributes = []) :
    ∀ style ∈ Text.words (e.attr "styles"), style ∈ Style.known := by
  obtain ⟨entry, hentry, hspan⟩ := Grammar.type?_eq_some_iff.1 htype
  obtain ⟨hmem, rfl⟩ := Grammar.entry?_eq_some hentry
  have hname := hg.inline_name entry hmem (hspan ▸ (by decide))
  rw [hname, hspan, hg.checkAttributes_span_iff] at hcheck
  intro style hstyle
  cases hvalue : value? "styles" e.attributes with
  | none =>
    have hattr : e.attr "styles" = "" := by
      rw [Element.attr, Element.attr?, ← value?, hvalue, Option.getD_none]
    have hwords : Text.words "" = [] := by decide
    rw [hattr, hwords] at hstyle
    simp at hstyle
  | some styles =>
    have hattr : e.attr "styles" = styles := by
      rw [Element.attr, Element.attr?, ← value?, hvalue, Option.getD_some]
    rw [hattr] at hstyle
    exact hcheck styles hvalue style hstyle

mutual

theorem inline_canonical (hg : g.Printable) {path : Path} {styles : List String}
    {found : List Inline} (hstyles : styles.Sublist Style.known) :
    ∀ e : Element, inline g path styles e = .ok found → CanonicalAll g found
  | ⟨name, attributes, items⟩, h => by
    simp only [inline, bind_eq_ok_iff, typeOf_eq_ok_iff] at h
    obtain ⟨⟨⟩, hcheck, type, htype, h⟩ := h
    have hattributes := checkAttributes_eq_ok_iff.1 hcheck
    split at h
    · rename_i style hstyle
      have hknown := known_of_styleOf? hstyle
      exact rich_canonical hg (sublist_canonical_append hstyles (by simpa using hknown)) items h
    · split at h
      · refine rich_canonical hg (sublist_canonical_append hstyles ?_) items h
        exact words_known hg htype hattributes
      · obtain ⟨content, hcontent, hlink⟩ := bind_eq_ok_iff.1 h
        obtain rfl := Except.ok.inj hlink
        refine .singleton (.link ?_ (rich_canonical hg hstyles items hcontent))
        refine checkAttributes_written hg (by decide : ("link", ["href"]) ∈ _) (by decide) htype
          hattributes ?_
        simp [Inline.attributes, value?, Element.attr, Element.attr?]
      · obtain ⟨content, hcontent, hnote⟩ := bind_eq_ok_iff.1 h
        obtain rfl := Except.ok.inj hnote
        refine .singleton (.note ?_ (rich_canonical hg hstyles items hcontent))
        exact checkAttributes_written hg (by decide : ("annotation", []) ∈ _) (by decide) htype
          hattributes (by simp)
      · obtain ⟨⟨⟩, hempty, hvar⟩ := bind_eq_ok_iff.1 h
        obtain rfl := Except.ok.inj hvar
        refine .singleton (.var ?_ ?_ ?_)
        · refine checkAttributes_written hg (by decide : ("variable", ["name"]) ∈ _) (by decide)
            htype hattributes ?_
          simp [Inline.attributes, value?, Element.attr, Element.attr?]
        · intro hprompt
          have hkept := (Option.filter_eq_some_iff.1 hprompt).2
          simp at hkept
        · intro j hj
          obtain ⟨s, -, rfl⟩ := Option.map_eq_some_iff.1 hj
          exact ⟨s, rfl⟩
      · obtain ⟨⟨⟩, hempty, hmention⟩ := bind_eq_ok_iff.1 h
        obtain rfl := Except.ok.inj hmention
        refine .singleton (.mention ?_)
        refine checkAttributes_written hg (by decide : ("mention", ["id", "type", "label"]) ∈ _)
          (by decide) htype hattributes ?_
        simp [Inline.attributes, value?, Element.attr, Element.attr?]
      · simp at h
termination_by structural e => e

theorem rich_canonical (hg : g.Printable) {path : Path} {parent type : String}
    {styles : List String} {found : List Inline} (hstyles : styles.Sublist Style.known) :
    ∀ items : List (Item Element),
      rich g path parent type styles items = .ok found → CanonicalAll g found
  | [], h => by
    obtain rfl := Except.ok.inj h
    exact .nil
  | .text chars :: rest, h => by
    obtain ⟨after, hafter, hglue⟩ := bind_eq_ok_iff.1 h
    obtain rfl := Except.ok.inj hglue
    exact (rich_canonical hg hstyles rest hafter).glue_text hstyles
  | .literal chars :: rest, h => by
    obtain ⟨after, hafter, hglue⟩ := bind_eq_ok_iff.1 h
    obtain rfl := Except.ok.inj hglue
    exact (rich_canonical hg hstyles rest hafter).glue_text hstyles
  | .element inner :: rest, h => by
    obtain ⟨⟨⟩, hcheck, h⟩ := bind_eq_ok_iff.1 h
    split at h
    · simp at h
    · obtain ⟨first, hfirst, h⟩ := bind_eq_ok_iff.1 h
      obtain ⟨after, hafter, hglue⟩ := bind_eq_ok_iff.1 h
      obtain rfl := Except.ok.inj hglue
      exact (rich_canonical hg hstyles rest hafter).glueAll
        (inline_canonical hg hstyles inner hfirst)
termination_by structural items => items

end

end Reading

end LiveDoc
