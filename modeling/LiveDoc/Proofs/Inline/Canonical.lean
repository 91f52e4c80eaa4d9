import LiveDoc.Proofs.Grammar.Printable
import LiveDoc.Proofs.Reading.Steps

/-!
# Canonical inline content

Inline content in the form in which it is read: no text is empty or stands beside text of the same
styles, styles are known ones in canonical form, and the attributes of every piece are in order.
What such content is written as is read as this content.
-/

set_option autoImplicit false
set_option relaxedAutoImplicit false

namespace LiveDoc

namespace Inline

/-- Whether a piece is text that joins the text at the front of some content. -/
def joins : Inline → List Inline → Bool
  | .text _ styles, .text _ others :: _ => styles = others
  | _, _ => false

mutual

/-- A piece in the form in which it is read. -/
inductive Canonical (g : Grammar) : Inline → Prop
  | text {chars : String} {styles : List String} (ne : chars ≠ "")
    (known : styles.Sublist Style.known) : Canonical g (.text chars styles)
  | var {name : String} {prompt : Option String} {value : Option Json}
    (checked : g.checkAttributes "variable" (Inline.var name prompt value).attributes = [])
    (prompted : prompt ≠ some "") (text : ∀ j ∈ value, ∃ s, j = .str s) :
    Canonical g (.var name prompt value)
  | mention {kind ident label : String}
    (checked : g.checkAttributes "mention" (Inline.mention kind ident label).attributes = []) :
    Canonical g (.mention kind ident label)
  | link {href : String} {content : List Inline}
    (checked : g.checkAttributes "link" (Inline.link href content).attributes = [])
    (inside : CanonicalAll g content) : Canonical g (.link href content)
  | note {title comment : Option String} {content : List Inline}
    (checked : g.checkAttributes "annotation" (Inline.note title comment content).attributes = [])
    (inside : CanonicalAll g content) : Canonical g (.note title comment content)

inductive CanonicalAll (g : Grammar) : List Inline → Prop
  | nil : CanonicalAll g []
  | cons {item : Inline} {rest : List Inline} (first : Canonical g item)
    (apart : joins item rest = false) (after : CanonicalAll g rest) : CanonicalAll g (item :: rest)

end

variable {g : Grammar} {item : Inline} {rest content : List Inline}

theorem Canonical.glue_eq (h : item.Canonical g) (happart : joins item rest = false) :
    glue item rest = item :: rest := by
  cases h with
  | @text chars styles ne known =>
    have hchars : chars.isEmpty = false := by simpa using ne
    cases rest with
    | nil => simp [glue, hchars]
    | cons next after => cases next <;> simp_all [glue, joins]
  | _ => rfl

theorem eq_text_of_outline {chars : String} (h : item.outline = .text chars) :
    item = .text chars [] := by
  cases item with
  | text more styles =>
    rw [outline] at h
    split at h
    · rename_i hstyles
      obtain rfl := Markup.Item.text.inj h
      rw [List.isEmpty_iff.1 hstyles]
    · simp at h
  | _ => simp [outline] at h

theorem outline_ne_literal (item : Inline) (chars : String) : item.outline ≠ .literal chars := by
  cases item with
  | text more styles =>
    rw [outline]
    split <;> simp
  | _ => simp [outline]

theorem name_of_outline {inner : Markup.Element} (h : item.outline = .element inner) :
    ∃ written ∈ Grammar.writtenInlines, inner.name = written.1 := by
  cases item with
  | text more styles =>
    rw [outline] at h
    split at h
    · simp at h
    · obtain rfl := Markup.Item.element.inj h
      exact ⟨("span", []), by decide, rfl⟩
  | var name prompt value =>
    obtain rfl := Markup.Item.element.inj h
    exact ⟨("variable", ["name"]), by decide, rfl⟩
  | mention kind ident label =>
    obtain rfl := Markup.Item.element.inj h
    exact ⟨("mention", ["id", "type", "label"]), by decide, rfl⟩
  | link href content =>
    obtain rfl := Markup.Item.element.inj h
    exact ⟨("link", ["href"]), by decide, rfl⟩
  | note title comment content =>
    obtain rfl := Markup.Item.element.inj h
    exact ⟨("annotation", []), by decide, rfl⟩

end Inline

namespace Reading

open Markup (Element Item)
open Inline (outlineAll)

variable {g : Grammar} {path : Path}

theorem rich_cons_element {parent type : String} {styles : List String} {inner : Element}
    {rest : List (Item Element)} {found after : List Inline}
    (hallow : g.has inner.name = true ∧ g.allows type inner.name = true)
    (hinline : g.isInline inner.name = true) (hfound : inline g path styles inner = .ok found)
    (hafter : rich g path parent type styles rest = .ok after) :
    rich g path parent type styles (.element inner :: rest) = .ok (Inline.glueAll found after) := by
  rw [rich, checkChild_eq_ok_iff.2 hallow]
  simp [bind, Except.bind, hinline, hfound, hafter]

/-- A child that holds inline content may stand in some type of element. -/
def TakesInlines (g : Grammar) (type : String) : Prop :=
  ∀ written ∈ Grammar.writtenInlines, g.has written.1 = true ∧ g.allows type written.1 = true ∧
    g.isInline written.1 = true

theorem takesInlines (hg : g.Printable) {name type : String} (htype : g.type? name = some type)
    (hmodel : g.model? name = some .rich) : TakesInlines g type := fun written hwritten =>
  ⟨Grammar.has_of_type?_eq_some (hg.inline_type written hwritten),
    hg.allows_written htype hmodel hwritten, hg.inline_kind written hwritten⟩

section Inlines

variable (hg : g.Printable) (hs : g.Supported)

include hg in
private theorem typeOf_written {name : String} (path : Path)
    (hname : name ∈ Grammar.writtenInlines.map Prod.fst) : typeOf g path name = .ok name := by
  obtain ⟨written, hwritten, rfl⟩ := List.mem_map.1 hname
  exact typeOf_eq_ok_iff.2 (hg.inline_type written hwritten)

include hg hs in
private theorem takesInlines_written {name : String}
    (hname : name ∈ ["link", "annotation"]) : TakesInlines g name := by
  have htype : g.type? name = some name := by
    have hwritten : name ∈ Grammar.writtenInlines.map Prod.fst := by
      revert name
      decide
    exact typeOf_eq_ok_iff.1 (typeOf_written hg ⟨"", []⟩ hwritten)
  refine takesInlines hg htype (hs.model_of_inline_type htype (.inr ?_))
  exact List.mem_cons_of_mem _ hname

include hg in
private theorem inline_span {chars : String} {styles : List String} (path : Path)
    (hchars : chars ≠ "") (hknown : styles.Sublist Style.known) :
    inline g path [] ⟨"span", (Inline.text chars styles).attributes, [.text chars]⟩ =
      .ok [.text chars styles] := by
  have hcanonical := Style.canonical_eq_self hknown
  have hchecked : g.checkAttributes "span" (Inline.text chars styles).attributes = [] := by
    rw [hg.checkAttributes_span_iff, Inline.attributes, Markup.value?_cons_self, hcanonical]
    rintro _ ⟨rfl⟩ style hstyle
    rw [Style.words_intercalate hknown] at hstyle
    exact hknown.subset hstyle
  have hwords :
      Element.attr ⟨"span", (Inline.text chars styles).attributes, [.text chars]⟩ "styles" =
      String.intercalate " " styles := by
    simp [Element.attr, Element.attr?, Inline.attributes, hcanonical]
  rw [inline, checkAttributes_eq_ok_iff.2 hchecked, typeOf_written hg path (by decide)]
  simp [bind, Except.bind, styleOf?, hwords, Style.words_intercalate hknown, hcanonical, rich,
    Inline.glue, hchars]

theorem attr?_eq_value? (e : Element) (name : String) :
    e.attr? name = Markup.value? name e.attributes := rfl

include hg in
private theorem inline_variable {name : String} {prompt : Option String} {value : Option Json}
    (path : Path)
    (hchecked : g.checkAttributes "variable" (Inline.var name prompt value).attributes = [])
    (hprompt : prompt ≠ some "") (hvalue : ∀ j ∈ value, ∃ s, j = .str s) :
    inline g path [] ⟨"variable", (Inline.var name prompt value).attributes, []⟩ =
      .ok [.var name prompt value] := by
  have hkept : prompt.filter (!·.isEmpty) = prompt := by
    cases prompt with
    | none => rfl
    | some prompt => simpa using hprompt
  have htext : (value.map Json.plainText).map Json.str = value := by
    cases value with
    | none => rfl
    | some j =>
      obtain ⟨s, rfl⟩ := hvalue j rfl
      rfl
  have hempty : checkEmpty path ⟨"variable", (Inline.var name prompt value).attributes, []⟩ =
      .ok () := rfl
  rw [inline, checkAttributes_eq_ok_iff.2 hchecked, typeOf_written hg path (by decide)]
  simp only [bind, Except.bind, styleOf?, hempty, Element.attr, attr?_eq_value?]
  rw [Inline.attributes, Markup.value?_cons_self, Markup.value?_cons_of_ne (by decide),
    Markup.value?_cons_of_ne (by decide), Markup.value?_append, Markup.value?_append,
    Markup.value?_given_self, Markup.value?_given_self, Markup.value?_given_of_ne (by decide),
    Markup.value?_given_of_ne (by decide)]
  simp [hkept, htext]

include hg in
private theorem inline_mention {kind ident label : String} (path : Path)
    (hchecked : g.checkAttributes "mention" (Inline.mention kind ident label).attributes = []) :
    inline g path [] ⟨"mention", (Inline.mention kind ident label).attributes, []⟩ =
      .ok [.mention kind ident label] := by
  have hempty : checkEmpty path ⟨"mention", (Inline.mention kind ident label).attributes, []⟩ =
      .ok () := rfl
  rw [inline, checkAttributes_eq_ok_iff.2 hchecked, typeOf_written hg path (by decide)]
  simp only [bind, Except.bind, styleOf?, hempty]
  simp [Element.attr, Element.attr?, Inline.attributes]

mutual

theorem inline_outline (hg : g.Printable) (hs : g.Supported) : ∀ {item : Inline},
    item.Canonical g → ∀ (path : Path) (inner : Element),
    item.outline = .element inner → inline g path [] inner = .ok [item]
  | _, @Inline.Canonical.text _ chars styles ne known, path, inner, h => by
    rw [Inline.outline] at h
    split at h
    · simp at h
    · obtain rfl := (Item.element.inj h).symm
      exact inline_span hg path ne known
  | _, .var checked prompted text, path, inner, h => by
    obtain rfl := (Item.element.inj h).symm
    exact inline_variable hg path checked prompted text
  | _, .mention checked, path, inner, h => by
    obtain rfl := (Item.element.inj h).symm
    exact inline_mention hg path checked
  | _, @Inline.Canonical.link _ href content checked inside, path, inner, h => by
    obtain rfl := (Item.element.inj h).symm
    have hcontent := rich_outlineAll hg hs inside path "link" "link"
      (takesInlines_written hg hs (by decide))
    rw [inline, checkAttributes_eq_ok_iff.2 checked, typeOf_written hg path (by decide)]
    simp only [bind, Except.bind, styleOf?, hcontent]
    simp [Element.attr, Element.attr?, Inline.attributes]
  | _, @Inline.Canonical.note _ title comment content checked inside, path, inner, h => by
    obtain rfl := (Item.element.inj h).symm
    have hcontent := rich_outlineAll hg hs inside path "annotation" "annotation"
      (takesInlines_written hg hs (by decide))
    rw [inline, checkAttributes_eq_ok_iff.2 checked, typeOf_written hg path (by decide)]
    simp only [bind, Except.bind, styleOf?, hcontent, attr?_eq_value?]
    rw [Inline.attributes, Markup.value?_append, Markup.value?_append, Markup.value?_given_self,
      Markup.value?_given_self, Markup.value?_given_of_ne (by decide),
      Markup.value?_given_of_ne (by decide)]
    simp

theorem rich_outlineAll (hg : g.Printable) (hs : g.Supported) : ∀ {content : List Inline},
    Inline.CanonicalAll g content →
    ∀ (path : Path) (parent type : String), TakesInlines g type →
      rich g path parent type [] (outlineAll content) = .ok content
  | _, .nil, path, parent, type, _ => rfl
  | _, @Inline.CanonicalAll.cons _ item rest first apart after, path, parent, type, htakes => by
    have hafter := rich_outlineAll hg hs after path parent type htakes
    rw [outlineAll]
    cases hitem : item.outline with
    | text chars =>
      obtain rfl := Inline.eq_text_of_outline hitem
      simp [rich, hafter, bind, Except.bind, first.glue_eq apart]
    | literal chars => exact absurd hitem (Inline.outline_ne_literal item chars)
    | element inner =>
      have hfound := inline_outline hg hs first path inner hitem
      obtain ⟨written, hwritten, hname⟩ := Inline.name_of_outline hitem
      obtain ⟨hhas, hallows, hinline⟩ := htakes written hwritten
      rw [← hname] at hhas hallows hinline
      rw [rich_cons_element ⟨hhas, hallows⟩ hinline hfound hafter]
      simp [Inline.glueAll, first.glue_eq apart]

end

end Inlines

end Reading

end LiveDoc
