import LiveDoc.Proofs.Grammar.Standard
import LiveDoc.Proofs.Reading.Node
import LiveDoc.Proofs.Reading.Operation

/-!
# Accounting for what stands in a source

Whether every element of a source that can be read is known, has proper attributes and holds nothing
that its parent may not hold. All routines of the reader see to that, but for the operations that
take nothing: what stands in their elements is passed over without a look.
-/

set_option autoImplicit false
set_option relaxedAutoImplicit false

namespace LiveDoc.Reading

open Markup (Element Item)
open Markup.Element (elements elementsOfItems)
open Grammar (bareOperations)

variable {g : Grammar}

/-- An element is known, nothing is wrong with its attributes, its type allows all children, and if
there is text in it that is not blank, it is an element of text, rich text or JSON. -/
structure Accounted (g : Grammar) (e : Element) : Prop where
  known : g.has e.name = true
  attributes : g.checkAttributes e.name e.attributes = []
  children : ∀ inner ∈ e.children, ∀ type, g.type? e.name = some type →
    g.allows type inner.name = true
  text : Text.isAllBlank e.text = false →
    g.model? e.name ∈ [some .rich, some .text, some .json]

/-- Items of an element of a type that are in order: it allows the elements among them, and these
are accounted for with all below them. -/
structure ItemsAccounted (g : Grammar) (type : String) (items : List (Item Element)) : Prop where
  allowed : ∀ inner, .element inner ∈ items → g.allows type inner.name = true
  accounted : ∀ d ∈ elementsOfItems items, Accounted g d

def Blank (items : List (Item Element)) : Prop :=
  ∀ item ∈ items, Text.isAllBlank item.chars = true

namespace ItemsAccounted

variable {name type chars : String} {rest items : List (Item Element)} {inner : Element}
  {attributes : List (String × String)}

theorem nil : ItemsAccounted g type [] := ⟨by simp, by simp [elementsOfItems]⟩

theorem text (h : ItemsAccounted g type rest) : ItemsAccounted g type (.text chars :: rest) :=
  ⟨by simpa using h.allowed, by simpa [elementsOfItems] using h.accounted⟩

theorem literal (h : ItemsAccounted g type rest) : ItemsAccounted g type (.literal chars :: rest) :=
  ⟨by simpa using h.allowed, by simpa [elementsOfItems] using h.accounted⟩

theorem element (hallowed : g.allows type inner.name = true)
    (hinner : ∀ d ∈ inner.elements, Accounted g d) (h : ItemsAccounted g type rest) :
    ItemsAccounted g type (.element inner :: rest) := by
  refine ⟨fun other hother => ?_, fun d hd => ?_⟩
  · rcases List.mem_cons.1 hother with heq | hrest
    · obtain rfl : other = inner := Item.element.inj heq
      exact hallowed
    · exact h.allowed other hrest
  · rcases List.mem_append.1 hd with hd | hd
    · exact hinner d hd
    · exact h.accounted d hd

theorem of_childless {e : Element} (h : e.children = []) : ItemsAccounted g type e.items := by
  refine ⟨fun inner hinner => ?_, by simp [Element.elementsOfItems_eq_nil h]⟩
  have hmem : inner ∈ e.children := List.mem_filterMap.2 ⟨_, hinner, rfl⟩
  simp [h] at hmem

theorem elements {e : Element} (h : ItemsAccounted g type e.items)
    (htype : g.type? e.name = some type)
    (hattributes : g.checkAttributes e.name e.attributes = [])
    (htext : Text.isAllBlank e.text = false →
      g.model? e.name ∈ [some .rich, some .text, some .json]) :
    ∀ d ∈ e.elements, Accounted g d := by
  obtain ⟨name, attributes, items⟩ := e
  intro d hd
  rcases List.mem_cons.1 hd with rfl | hd
  · refine ⟨Grammar.has_of_type?_eq_some htype, hattributes, fun inner hinner type' htype' => ?_,
      htext⟩
    obtain rfl : type = type' := Option.some_inj.1 (htype.symm.trans htype')
    obtain ⟨item, hitem, heq⟩ := List.mem_filterMap.1 hinner
    cases item with
    | text chars => simp [Item.element?] at heq
    | literal chars => simp [Item.element?] at heq
    | element other =>
      obtain rfl := Option.some_inj.1 heq
      exact h.allowed _ hitem
  · exact h.accounted d hd

end ItemsAccounted

theorem text_of_blank {e : Element} {p : Prop} (h : Blank e.items) :
    Text.isAllBlank e.text = false → p := by
  rw [Element.isAllBlank_text_iff.2 h]
  simp

mutual

theorem inline_accounted (hg : g.Supported) {path : Path} {styles : List String}
    {found : List Inline} :
    ∀ e : Element, inline g path styles e = .ok found → ∀ d ∈ e.elements, Accounted g d
  | ⟨name, attributes, items⟩, h => by
    simp only [inline, bind_eq_ok_iff, typeOf_eq_ok_iff] at h
    obtain ⟨⟨⟩, hcheck, type, htype, h⟩ := h
    have hattributes := checkAttributes_eq_ok_iff.1 hcheck
    have hholds (hin : (styleOf? type).isSome ∨ type ∈ ["span", "link", "annotation"])
        (hitems : ItemsAccounted g type items) :
        ∀ d ∈ elements ⟨name, attributes, items⟩, Accounted g d :=
      hitems.elements htype hattributes fun _ => by simp [hg.model_of_inline_type htype hin]
    have hempty (h : checkEmpty path ⟨name, attributes, items⟩ = .ok ()) :
        ∀ d ∈ elements ⟨name, attributes, items⟩, Accounted g d := by
      obtain ⟨hchildless, hblank⟩ := checkEmpty_eq_ok_iff.1 h
      exact (ItemsAccounted.of_childless hchildless).elements htype hattributes
        (text_of_blank (Element.isAllBlank_text_iff.1 hblank))
    split at h
    · rename_i style hstyle
      exact hholds (.inl (by simp [hstyle])) (rich_accounted hg items h)
    · split at h
      · exact hholds (by simp) (rich_accounted hg items h)
      · obtain ⟨content, hcontent, -⟩ := bind_eq_ok_iff.1 h
        exact hholds (by simp) (rich_accounted hg items hcontent)
      · obtain ⟨content, hcontent, -⟩ := bind_eq_ok_iff.1 h
        exact hholds (by simp) (rich_accounted hg items hcontent)
      · obtain ⟨⟨⟩, hcheck, -⟩ := bind_eq_ok_iff.1 h
        exact hempty hcheck
      · obtain ⟨⟨⟩, hcheck, -⟩ := bind_eq_ok_iff.1 h
        exact hempty hcheck
      · simp at h
termination_by structural e => e

theorem rich_accounted (hg : g.Supported) {path : Path} {parent type : String}
    {styles : List String}
    {found : List Inline} : ∀ items : List (Item Element),
      rich g path parent type styles items = .ok found → ItemsAccounted g type items
  | [], _ => .nil
  | .text chars :: rest, h => by
    obtain ⟨after, hafter, -⟩ := bind_eq_ok_iff.1 h
    exact (rich_accounted hg rest hafter).text
  | .literal chars :: rest, h => by
    obtain ⟨after, hafter, -⟩ := bind_eq_ok_iff.1 h
    exact (rich_accounted hg rest hafter).literal
  | .element inner :: rest, h => by
    obtain ⟨⟨⟩, hcheck, h⟩ := bind_eq_ok_iff.1 h
    obtain ⟨-, hallowed⟩ := checkChild_eq_ok_iff.1 hcheck
    split at h
    · simp at h
    · obtain ⟨content, hinner, h⟩ := bind_eq_ok_iff.1 h
      obtain ⟨after, hafter, -⟩ := bind_eq_ok_iff.1 h
      exact .element hallowed (inline_accounted hg inner hinner) (rich_accounted hg rest hafter)
termination_by structural items => items

end

theorem jsonObject_accounted {path : Path} {e : Element} {members : Table Json}
    {type : String} (h : jsonObject g path e = .ok members) (htype : g.type? e.name = some type)
    (hmodel : g.model? e.name = some .json) : ∀ d ∈ e.elements, Accounted g d := by
  obtain ⟨⟨⟩, hcheck, h⟩ := bind_eq_ok_iff.1 h
  split at h
  · simp at h
  · rename_i hnone
    have hchildless := Element.firstChild?_eq_none_iff.1 hnone
    exact (ItemsAccounted.of_childless hchildless).elements htype
      (checkAttributes_eq_ok_iff.1 hcheck) fun _ => by simp [hmodel]

theorem callParts_accounted (hg : g.Supported) {path : Path} {name type : String}
    {parts found : CallParts} {items : List (Item Element)}
    (h : callParts g path name type parts items = .ok found) :
    ItemsAccounted g type items ∧ Blank items := by
  induction items generalizing parts with
  | nil => exact ⟨.nil, by simp [Blank]⟩
  | cons item rest ih =>
    have hskip {chars : String} (hblank : Text.isAllBlank chars = true)
        (hrest : callParts g path name type parts rest = .ok found) :
        (ItemsAccounted g type (.text chars :: rest) ∧ Blank (.text chars :: rest)) ∧
          (ItemsAccounted g type (.literal chars :: rest) ∧ Blank (.literal chars :: rest)) := by
      obtain ⟨hitems, hblanks⟩ := ih hrest
      simp only [Blank, List.mem_cons, forall_eq_or_imp, Item.chars, hblank]
      exact ⟨⟨hitems.text, trivial, hblanks⟩, hitems.literal, trivial, hblanks⟩
    cases item with
    | text chars =>
      simp only [callParts] at h
      split at h
      · rename_i hblank
        exact (hskip hblank h).1
      · simp at h
    | literal chars =>
      simp only [callParts] at h
      split at h
      · rename_i hblank
        exact (hskip hblank h).2
      · simp at h
    | element inner =>
      obtain ⟨⟨⟩, hcheck, h⟩ := bind_eq_ok_iff.1 h
      obtain ⟨hknown, hallowed⟩ := checkChild_eq_ok_iff.1 hcheck
      have hdone {parts : CallParts} (hinner : ∀ d ∈ inner.elements, Accounted g d)
          (hrest : callParts g path name type parts rest = .ok found) :
          ItemsAccounted g type (.element inner :: rest) ∧ Blank (.element inner :: rest) := by
        obtain ⟨hitems, hblanks⟩ := ih hrest
        simp only [Blank, List.mem_cons, forall_eq_or_imp]
        exact ⟨.element hallowed hinner hitems, rfl, hblanks⟩
      simp only [] at h
      split at h
      · rename_i hparams
        obtain ⟨parameters, hparameters, h⟩ := bind_eq_ok_iff.1 h
        obtain ⟨e, he⟩ := Option.isSome_iff_exists.1 hknown
        have htype : g.type? inner.name = some e.type := Grammar.type?_eq_some_iff.2 ⟨e, he, rfl⟩
        have hmodel : g.model? inner.name = some .json := by rw [hparams.1, hg.model_params]
        exact hdone (jsonObject_accounted hparameters htype hmodel) h
      · split at h
        · rename_i hcontent
          obtain ⟨innerType, htype, h⟩ := bind_eq_ok_iff.1 h
          obtain ⟨instructions, hrich, h⟩ := bind_eq_ok_iff.1 h
          have hattributes : g.checkAttributes inner.name inner.attributes = [] := by
            rw [hcontent.1, hg.checkAttributes_content]
          have hmodel : g.model? inner.name = some .rich := by rw [hcontent.1, hg.model_content]
          exact hdone ((rich_accounted hg inner.items hrich).elements (typeOf_eq_ok_iff.1 htype)
            hattributes fun _ => by simp [hmodel]) h
        · simp at h

theorem call_accounted (hg : g.Supported) {path : Path} {e : Element} {c : Call}
    {supply rest : IdSupply} (h : call g path e supply = .ok (c, rest))
    (hattributes : g.checkAttributes e.name e.attributes = []) :
    ∀ d ∈ e.elements, Accounted g d := by
  simp only [call, Read.bind_eq_ok_iff, Read.lift_eq_ok_iff] at h
  obtain ⟨type, _, ⟨htype, -⟩, _, _, -, parts, _, ⟨hparts, -⟩, -⟩ := h
  obtain ⟨hitems, hblank⟩ := callParts_accounted hg hparts
  exact hitems.elements (typeOf_eq_ok_iff.1 htype) hattributes (text_of_blank hblank)

mutual

theorem node_accounted (hg : g.Supported) {path : Path} {n : Node} {supply left : IdSupply} :
    ∀ e : Element, node g path e supply = .ok (n, left) → ∀ d ∈ e.elements, Accounted g d
  | ⟨name, attributes, items⟩, h => by
    obtain ⟨hattributes, hmakes⟩ := node_eq_ok_iff.1 h
    cases hmakes with
    | call kind inside => exact call_accounted hg inside hattributes
    | rich head model inside =>
      have hitems := mixed_accounted hg items inside
      exact hitems.elements head.type hattributes fun _ => by simp [model]
    | text head model inside =>
      refine (ItemsAccounted.of_childless inside).elements head.type hattributes fun _ => ?_
      simp [model]
    | blocks head model rule inside =>
      obtain ⟨hitems, hblank⟩ := blocks_accounted hg items inside
      exact hitems.elements head.type hattributes (text_of_blank hblank)
    | empty head model rule inside =>
      have hblank := Element.isAllBlank_text_iff.1 inside.2
      exact (ItemsAccounted.of_childless inside.1).elements head.type hattributes
        (text_of_blank hblank)
termination_by structural e => e

theorem blocks_accounted (hg : g.Supported) {path : Path} {parent type : String} {index : Nat}
    {ns : Forest} {supply left : IdSupply} : ∀ items : List (Item Element),
      blocks g path parent type index items supply = .ok (ns, left) →
        ItemsAccounted g type items ∧ Blank items
  | [], _ => ⟨.nil, by simp [Blank]⟩
  | .text chars :: rest, h => by
    simp only [blocks] at h
    split at h
    · rename_i hblank
      obtain ⟨hitems, hblanks⟩ := blocks_accounted hg rest h
      exact ⟨hitems.text, List.forall_mem_cons.2 ⟨hblank, hblanks⟩⟩
    · simp [Read.lift_eq_ok_iff] at h
  | .literal chars :: rest, h => by
    simp only [blocks] at h
    split at h
    · rename_i hblank
      obtain ⟨hitems, hblanks⟩ := blocks_accounted hg rest h
      exact ⟨hitems.literal, List.forall_mem_cons.2 ⟨hblank, hblanks⟩⟩
    · simp [Read.lift_eq_ok_iff] at h
  | .element inner :: rest, h => by
    simp only [blocks, Read.bind_eq_ok_iff, Read.lift_eq_ok_iff] at h
    obtain ⟨⟨⟩, _, ⟨hcheck, -⟩, first, _, hinner, others, _, hrest, -⟩ := h
    obtain ⟨-, hallowed⟩ := checkChild_eq_ok_iff.1 hcheck
    obtain ⟨hitems, hblanks⟩ := blocks_accounted hg rest hrest
    exact ⟨.element hallowed (node_accounted hg inner hinner) hitems,
      List.forall_mem_cons.2 ⟨rfl, hblanks⟩⟩
termination_by structural items => items

theorem mixed_accounted (hg : g.Supported) {path : Path} {parent type : String} {index : Nat}
    {found : List Inline × Forest} {supply left : IdSupply} : ∀ items : List (Item Element),
      mixed g path parent type index items supply = .ok (found, left) → ItemsAccounted g type items
  | [], _ => .nil
  | .text chars :: rest, h => by
    obtain ⟨⟨content, children⟩, _, hrest, -⟩ := Read.bind_eq_ok_iff.1 h
    exact (mixed_accounted hg rest hrest).text
  | .literal chars :: rest, h => by
    obtain ⟨⟨content, children⟩, _, hrest, -⟩ := Read.bind_eq_ok_iff.1 h
    exact (mixed_accounted hg rest hrest).literal
  | .element inner :: rest, h => by
    simp only [mixed, Read.bind_eq_ok_iff, Read.lift_eq_ok_iff] at h
    obtain ⟨⟨⟩, _, ⟨hcheck, -⟩, h⟩ := h
    obtain ⟨-, hallowed⟩ := checkChild_eq_ok_iff.1 hcheck
    split at h
    · simp only [Read.bind_eq_ok_iff, Read.lift_eq_ok_iff] at h
      obtain ⟨content, _, ⟨hinner, -⟩, ⟨after, children⟩, _, hrest, -⟩ := h
      exact .element hallowed (inline_accounted hg inner hinner) (mixed_accounted hg rest hrest)
    · simp only [Read.bind_eq_ok_iff] at h
      obtain ⟨first, _, hinner, ⟨content, children⟩, _, hrest, -⟩ := h
      exact .element hallowed (node_accounted hg inner hinner) (mixed_accounted hg rest hrest)
termination_by structural items => items

end

/-- There is nothing in an element but blank text. -/
structure Hollow (e : Element) : Prop where
  childless : e.children = []
  blank : Text.isAllBlank e.text = true

/-- An operation is accounted for, unless it is one of those that take nothing and is not hollow. -/
theorem operation_accounted (hg : g.Supported) {path : Path} {e : Element} {o : Edit.Operation}
    {supply left : IdSupply} (h : operation g path e supply = .ok (o, left))
    (hhollow : e.name ∈ bareOperations → Hollow e) : ∀ d ∈ e.elements, Accounted g d := by
  obtain ⟨hattributes, type, htype, hperforms⟩ := operation_eq_ok_iff.1 h
  have hbare (hname : e.name ∈ bareOperations) : ∀ d ∈ e.elements, Accounted g d := by
    obtain ⟨hchildless, hblank⟩ := hhollow hname
    exact (ItemsAccounted.of_childless hchildless).elements htype hattributes
      (text_of_blank (Element.isAllBlank_text_iff.1 hblank))
  have hnodes {ns : Forest} {supply left : IdSupply}
      (h : blocks g path e.name type 0 e.items supply = .ok (ns, left)) :
      ∀ d ∈ e.elements, Accounted g d := by
    obtain ⟨hitems, hblank⟩ := blocks_accounted hg e.items h
    exact hitems.elements htype hattributes (text_of_blank hblank)
  cases hperforms with
  | setContent name inside =>
    have hmodel : g.model? e.name = some .rich := by rw [name, hg.model_editContent]
    exact (rich_accounted hg e.items inside).elements htype hattributes fun _ => by simp [hmodel]
  | setParameters name inside =>
    exact jsonObject_accounted inside htype (by rw [name, hg.model_editParams])
  | insert name inside | replace name inside => exact hnodes inside
  | setProp name | rename name | delete name | move name =>
    exact hbare (by simp [name, bareOperations])

theorem operations_accounted (hg : g.Supported) {path : Path} {parent type : String} {index : Nat}
    {items : List (Item Element)} {os : List Edit.Operation} {supply left : IdSupply}
    (h : operations g path parent type index items supply = .ok (os, left))
    (hhollow : ∀ d ∈ elementsOfItems items, d.name ∈ bareOperations → Hollow d) :
    ItemsAccounted g type items ∧ Blank items := by
  induction items generalizing index os supply left with
  | nil => exact ⟨.nil, by simp [Blank]⟩
  | cons item rest ih =>
    cases item with
    | text chars =>
      simp only [operations] at h
      split at h
      · rename_i hblank
        obtain ⟨hitems, hblanks⟩ := ih h hhollow
        exact ⟨hitems.text, List.forall_mem_cons.2 ⟨hblank, hblanks⟩⟩
      · simp [Read.lift_eq_ok_iff] at h
    | literal chars =>
      simp only [operations] at h
      split at h
      · rename_i hblank
        obtain ⟨hitems, hblanks⟩ := ih h hhollow
        exact ⟨hitems.literal, List.forall_mem_cons.2 ⟨hblank, hblanks⟩⟩
      · simp [Read.lift_eq_ok_iff] at h
    | element inner =>
      simp only [operations, Read.bind_eq_ok_iff, Read.lift_eq_ok_iff] at h
      obtain ⟨⟨⟩, _, ⟨hcheck, -⟩, first, _, hinner, others, _, hrest, -⟩ := h
      obtain ⟨-, hallowed⟩ := checkChild_eq_ok_iff.1 hcheck
      simp only [elementsOfItems, List.mem_append] at hhollow
      have hself : inner.name ∈ bareOperations → Hollow inner :=
        hhollow inner (.inl (Element.mem_elements_self inner))
      obtain ⟨hitems, hblanks⟩ := ih hrest fun d hd => hhollow d (.inr hd)
      exact ⟨.element hallowed (operation_accounted hg hinner hself) hitems,
        List.forall_mem_cons.2 ⟨rfl, hblanks⟩⟩

theorem document_accounted (hg : g.Supported) {root : Element} {ident : String}
    {besides : List String} {d : Document} {supply left : IdSupply}
    (h : document g root ident besides supply = .ok (d, left)) :
    ∀ d ∈ root.elements, Accounted g d := by
  simp only [document, Read.bind_eq_ok_iff, Read.lift_eq_ok_iff] at h
  obtain ⟨⟨⟩, _, ⟨hcheck, -⟩, type, _, ⟨htype, -⟩, nodes, _, hblocks, -⟩ := h
  obtain ⟨hitems, hblank⟩ := blocks_accounted hg root.items hblocks
  exact hitems.elements (typeOf_eq_ok_iff.1 htype) (checkAttributes_eq_ok_iff.1 hcheck)
    (text_of_blank hblank)

theorem source_accounted (hg : g.Supported) {root : Element} {ident : String} {s : Source}
    {supply left : IdSupply} (h : source g root ident supply = .ok (s, left))
    (hhollow : ∀ d ∈ root.elements, d.name ∈ bareOperations → Hollow d) :
    ∀ d ∈ root.elements, Accounted g d := by
  cases source_eq_ok_iff.1 h with
  | document name inside => exact document_accounted hg inside
  | agent name inside =>
    obtain ⟨d, _, hd, -⟩ := Read.bind_eq_ok_iff.1 inside
    exact document_accounted hg hd
  | diff name inside =>
    simp only [diff, Read.bind_eq_ok_iff, Read.lift_eq_ok_iff] at inside
    obtain ⟨⟨⟩, _, ⟨hcheck, -⟩, type, _, ⟨htype, -⟩, os, _, hos, -⟩ := inside
    obtain ⟨hitems, hblank⟩ := operations_accounted hg hos fun d hd =>
      hhollow d (Element.mem_elements_of_items hd)
    exact hitems.elements (typeOf_eq_ok_iff.1 htype) (checkAttributes_eq_ok_iff.1 hcheck)
      (text_of_blank hblank)

theorem hollow_of_accounted (hg : g.Supported) {e : Element} (h : Accounted g e)
    (hbare : e.name ∈ bareOperations) : Hollow e := by
  have htype := hg.type_bare e.name hbare
  refine ⟨?_, ?_⟩
  · rw [List.eq_nil_iff_forall_not_mem]
    intro inner hinner
    have hallowed := h.children inner hinner e.name htype
    obtain ⟨entry, hentry, hname, hin⟩ := Grammar.allows_eq_true_iff.1 hallowed
    have hnothing := (hg.bare_holds_nothing entry hentry (by rwa [hname])).1
    simp [hnothing] at hin
  · cases hblank : Text.isAllBlank e.text with
    | true => rfl
    | false =>
      obtain ⟨entry, hentry, hname⟩ := Grammar.type?_eq_some_iff.1 htype
      have hmem := (Grammar.entry?_eq_some hentry).1
      have hnone := (hg.bare_holds_nothing entry hmem (by rwa [hname])).2
      have hmodel := h.text hblank
      simp [Grammar.model?, Grammar.spec?, hentry, hnone] at hmodel

end LiveDoc.Reading

namespace LiveDoc

open Grammar (bareOperations)
open Grammar.Standard (grammar)

/-- In a source that can be read, every element is accounted for exactly if the operations that take
nothing hold nothing; what else they hold is passed over. -/
theorem Source.accounted_iff_hollow {text : String} {s : Source} (h : Source.parse text = .ok s) :
    ∃ root, Markup.Element.ofText text = .ok root ∧
      ((∀ e ∈ root.elements, Reading.Accounted grammar e) ↔
        ∀ e ∈ root.elements, e.name ∈ bareOperations → Reading.Hollow e) := by
  obtain ⟨root, hroot, left, hsource⟩ := Reading.parse_eq_ok_iff.1 h
  refine ⟨root, hroot, fun haccounted e he hbare => ?_, fun hhollow => ?_⟩
  · exact Reading.hollow_of_accounted Grammar.Standard.supported (haccounted e he) hbare
  · exact Reading.source_accounted Grammar.Standard.supported hsource hhollow

/-- A source can be read although there is text in an element that may not hold any. -/
theorem Source.accounted_iff_hollow_junk :
    let text := "<diff><delete blockId=\"a\">junk</delete></diff>"
    Source.parse text = .ok (.diff ⟨none, [.delete "a"]⟩) ∧
      ∃ root, Markup.Element.ofText text = .ok root ∧
        ¬ ∀ e ∈ root.elements, Reading.Accounted grammar e := by
  intro text
  have hparse : Source.parse text = .ok (.diff ⟨none, [.delete "a"]⟩) :=
    toOption_eq_some_iff.1 (by decide +kernel)
  obtain ⟨root, hroot, hiff⟩ := Source.accounted_iff_hollow hparse
  refine ⟨hparse, root, hroot, fun haccounted => ?_⟩
  have helements : (Markup.Element.ofText text).toOption.map
      (fun root => root.elements.map fun e => (e.name, e.text)) =
        some [("diff", ""), ("delete", "junk")] := by
    decide +kernel
  rw [hroot, Except.toOption, Option.map_some, Option.some_inj] at helements
  have hdelete : ("delete", "junk") ∈ root.elements.map fun e => (e.name, e.text) := by
    simp [helements]
  obtain ⟨e, he, heq⟩ := List.mem_map.1 hdelete
  obtain ⟨hname, hjunk⟩ := Prod.mk.inj heq
  have hblank := (hiff.1 haccounted e he (by simp [hname, bareOperations])).blank
  rw [hjunk] at hblank
  exact absurd hblank (by decide)

end LiveDoc
