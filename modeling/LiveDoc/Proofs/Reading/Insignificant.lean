import LiveDoc.Proofs.Markup.Insignificant
import LiveDoc.Proofs.Markup.Naming
import LiveDoc.Proofs.Reading.Joined
import LiveDoc.Proofs.Reading.Steps
import LiveDoc.Proofs.Reading.TextTable

/-!
# Reading past insignificant markup

Sources that differ in nothing but insignificant markup are read alike: what comes out is the same
tree, with the same ids that are made up, or the same fault at the same place.
-/

set_option autoImplicit false
set_option relaxedAutoImplicit false

namespace LiveDoc

open Markup (Element Item Alike Recuts Respells padded value?)
open Markup.Element (idsOfItems joinItems glueText)

/-- Nothing but elements is expected in those that may be padded. -/
structure Grammar.Spacious (g : Grammar) : Prop where
  not_inline : ∀ name ∈ padded, g.isInline name = false
  blocks : ∀ name ∈ padded, (g.spec? name).map ElementSpec.kind = some .block →
    g.model? name ∈ [some .json, some .none] ∧ g.hasChildrenRule name = true

theorem Grammar.Standard.spacious : Standard.grammar.Spacious where
  not_inline := by decide +kernel
  blocks := by decide +kernel

theorem Grammar.checkAttributes_congr (g : Grammar) {attributes others : List (String × String)}
    (h : ∀ name, value? name attributes = value? name others) (element : String) :
    g.checkAttributes element attributes = g.checkAttributes element others := by
  unfold checkAttributes
  cases g.entry? element with
  | none => rfl
  | some e =>
    have hfind (attributes : List (String × String)) (name : String) :
        attributes.find? (·.1 = name) = (value? name attributes).map (name, ·) := by
      unfold value?
      cases hfound : attributes.find? (·.1 = name) with
      | none => rfl
      | some a =>
        have hname : a.1 = name := by simpa using List.find?_some hfound
        simp [← hname]
    simp only [hfind, h]

namespace Reading

variable (g : Grammar)

/-- Attributes that no reader tells apart. -/
structure SameAttributes (attributes others : List (String × String)) : Prop where
  value : ∀ name, value? name attributes = value? name others
  table : ∀ besides, textTable besides attributes = textTable besides others

theorem SameAttributes.refl (attributes : List (String × String)) :
    SameAttributes attributes attributes :=
  ⟨fun _ => rfl, fun _ => rfl⟩

theorem sameAttributes_of_perm {attributes others : List (String × String)}
    (hnodup : (attributes.map Prod.fst).Nodup) (hperm : attributes.Perm others) :
    SameAttributes attributes others := by
  refine ⟨Markup.value?_perm hnodup hperm, fun besides => Table.ofList_perm ?_ ?_⟩
  · rw [List.map_map]
    exact (List.filter_sublist.map Prod.fst).nodup hnodup
  · exact (hperm.filter _).map _

structure SameItems (name : String) (items others : List (Item Element)) : Prop where
  ids : idsOfItems items = idsOfItems others
  child : (Element.firstChild? ⟨"", [], items⟩).map Element.name =
    (Element.firstChild? ⟨"", [], others⟩).map Element.name
  blocks : ∀ path parent type index,
    blocks g path parent type index items = blocks g path parent type index others
  callParts : ∀ path parent type parts,
    callParts g path parent type parts items = callParts g path parent type parts others
  operations : ∀ path parent type index,
    operations g path parent type index items = operations g path parent type index others
  text : name ∉ padded → Element.text ⟨"", [], items⟩ = Element.text ⟨"", [], others⟩
  rich : name ∉ padded → ∀ path parent type styles,
    rich g path parent type styles items = rich g path parent type styles others
  mixed : name ∉ padded → ∀ path parent type index,
    mixed g path parent type index items = mixed g path parent type index others

/-- Elements of which the same is read wherever they stand. -/
structure SameElement (e other : Element) : Prop where
  name : e.name = other.name
  ids : e.ids = other.ids
  ident : e.attr? "id" = other.attr? "id"
  inline : g.isInline e.name = true → ∀ path styles,
    inline g path styles e = inline g path styles other
  parameters : e.name ∉ padded → ∀ path, jsonObject g path e = jsonObject g path other
  instructions : e.name ∉ padded → ∀ path parent type,
    rich g path parent type [] e.items = rich g path parent type [] other.items
  node : ∀ path, node g path e = node g path other
  operation : ∀ path, operation g path e = operation g path other
  source : ∀ ident, source g e ident = source g other ident

variable {g} {name : String} {items others : List (Item Element)}

namespace SameElement

variable {e other changed : Element}

theorem refl (e : Element) : SameElement g e e := by
  constructor <;> intros <;> rfl

theorem symm (h : SameElement g e other) : SameElement g other e where
  name := h.name.symm
  ids := h.ids.symm
  ident := h.ident.symm
  inline hinline path styles := (h.inline (h.name ▸ hinline) path styles).symm
  parameters hname path := (h.parameters (h.name ▸ hname) path).symm
  instructions hname path parent type := (h.instructions (h.name ▸ hname) path parent type).symm
  node path := (h.node path).symm
  operation path := (h.operation path).symm
  source ident := (h.source ident).symm

theorem trans (h : SameElement g e other) (h' : SameElement g other changed) :
    SameElement g e changed where
  name := h.name.trans h'.name
  ids := h.ids.trans h'.ids
  ident := h.ident.trans h'.ident
  inline hinline path styles :=
    (h.inline hinline path styles).trans (h'.inline (h.name ▸ hinline) path styles)
  parameters hname path := (h.parameters hname path).trans (h'.parameters (h.name ▸ hname) path)
  instructions hname path parent type :=
    (h.instructions hname path parent type).trans
    (h'.instructions (h.name ▸ hname) path parent type)
  node path := (h.node path).trans (h'.node path)
  operation path := (h.operation path).trans (h'.operation path)
  source ident := (h.source ident).trans (h'.source ident)

end SameElement

theorem SameItems.refl (name : String) (items : List (Item Element)) :
    SameItems g name items items := by
  constructor <;> intros <;> rfl

theorem sameItems_of_joinItems (h : joinItems items = joinItems others) :
    SameItems g name items others where
  ids := by rw [← Element.idsOfItems_joinItems, h, Element.idsOfItems_joinItems]
  child := by
    have hchild (items : List (Item Element)) :
        (Element.firstChild? ⟨"", [], joinItems items⟩).map Element.name =
          (Element.firstChild? ⟨"", [], items⟩).map Element.name := by
      have hjoined := Element.firstChild?_joined ⟨"", [], items⟩
      rw [Element.joined] at hjoined
      simp [hjoined, Function.comp_def]
    rw [← hchild, h, hchild]
  blocks path parent type index := by
    rw [← blocks_joined, h, blocks_joined]
  callParts path parent type parts := by
    rw [← callParts_joined, h, callParts_joined]
  operations path parent type index := by
    rw [← operations_joined, h, operations_joined]
  text _ := by
    have htext (items : List (Item Element)) :
        Element.text ⟨"", [], joinItems items⟩ = Element.text ⟨"", [], items⟩ := by
      have hjoined := Element.text_joined ⟨"", [], items⟩
      rwa [Element.joined] at hjoined
    rw [← htext, h, htext]
  rich _ path parent type styles := by
    rw [← rich_joined, h, rich_joined]
  mixed _ path parent type index := by
    rw [← mixed_joined, h, mixed_joined]

theorem sameItems_of_recuts (h : Recuts name items others) : SameItems g name items others := by
  cases h with
  | literal chars rest => exact sameItems_of_joinItems (by simp [joinItems])
  | cut first second rest =>
    refine sameItems_of_joinItems ?_
    rw [joinItems, joinItems, joinItems, Element.glueText_glueText]
  | empty rest => exact sameItems_of_joinItems (by simp [joinItems])
  | padding chars rest pads blank =>
    exact
      { ids := rfl
        child := by simp [Element.firstChild?]
        blocks := fun _ _ _ _ => by simp [Reading.blocks, blank]
        callParts := fun _ _ _ _ => by simp [Reading.callParts, blank]
        operations := fun _ _ _ _ => by simp [Reading.operations, blank]
        text := fun hnot => absurd pads hnot
        rich := fun hnot => absurd pads hnot
        mixed := fun hnot => absurd pads hnot }

theorem SameItems.cons (h : SameItems g name items others) (item : Item Element) :
    SameItems g name (item :: items) (item :: others) where
  ids := by cases item <;> simp [idsOfItems, h.ids]
  child := by
    have hchild := h.child
    cases item <;> simp_all [Element.firstChild?]
  blocks path parent type index := by cases item <;> simp only [Reading.blocks, h.blocks]
  callParts path parent type parts := by
    cases item <;> simp only [Reading.callParts, h.callParts]
  operations path parent type index := by
    cases item <;> simp only [Reading.operations, h.operations]
  text hnot := by
    have htext := h.text hnot
    cases item <;> simp_all [Element.text]
  rich hnot path parent type styles := by
    cases item <;> simp only [Reading.rich, h.rich hnot]
  mixed hnot path parent type index := by
    cases item <;> simp only [Reading.mixed, h.mixed hnot]

theorem SameItems.append (h : SameItems g name items others) (front : List (Item Element)) :
    SameItems g name (front ++ items) (front ++ others) := by
  induction front with
  | nil => exact h
  | cons item rest ih => exact ih.cons item

theorem SameElement.sameItems {e other : Element} (h : SameElement g e other) (name : String)
    (rest : List (Item Element)) :
    SameItems g name (.element e :: rest) (.element other :: rest) where
  ids := by simp [idsOfItems, h.ids]
  child := by simp [Element.firstChild?, h.name]
  blocks path parent type index := by simp only [Reading.blocks, h.name, h.node]
  callParts path parent type parts := by
    simp only [Reading.callParts, ← h.name]
    by_cases hparameters : e.name = "params"
    · simp [hparameters, h.parameters (by simp [hparameters, padded])]
    · by_cases hinstructions : e.name = "content"
      · simp [hinstructions, h.instructions (by simp [hinstructions, padded])]
      · simp [hparameters, hinstructions]
  operations path parent type index := by simp only [Reading.operations, h.name, h.operation]
  text _ := by simp [Element.text]
  rich _ path parent type styles := by
    simp only [Reading.rich, ← h.name]
    cases hinline : g.isInline e.name with
    | true => simp only [h.inline hinline]
    | false => rfl
  mixed _ path parent type index := by
    simp only [Reading.mixed, ← h.name, h.node]
    cases hinline : g.isInline e.name with
    | true => simp only [h.inline hinline]
    | false => rfl

/-- Elements of one name with attributes and items that are read alike. -/
structure SameParts (g : Grammar) (e other : Element) : Prop where
  name : e.name = other.name
  attributes : SameAttributes e.attributes other.attributes
  items : SameItems g e.name e.items other.items

namespace SameParts

variable {e other : Element}

theorem attr? (h : SameParts g e other) (key : String) : e.attr? key = other.attr? key :=
  h.attributes.value key

theorem checkAttributes (h : SameParts g e other) (path : Path) (name : String) :
    checkAttributes g path name e.attributes = checkAttributes g path name other.attributes := by
  rw [Reading.checkAttributes, g.checkAttributes_congr h.attributes.value, Reading.checkAttributes]

theorem text (h : SameParts g e other) (hname : e.name ∉ padded) : e.text = other.text :=
  h.items.text hname

theorem firstChild?_cases (h : SameParts g e other) :
    (e.firstChild? = none ∧ other.firstChild? = none) ∨
      ∃ inner changed, e.firstChild? = some inner ∧ other.firstChild? = some changed ∧
        inner.name = changed.name := by
  have hchild : e.firstChild?.map Element.name = other.firstChild?.map Element.name := h.items.child
  cases hfirst : e.firstChild? with
  | none => exact .inl ⟨rfl, by simpa [hfirst] using hchild.symm⟩
  | some inner =>
    rw [hfirst] at hchild
    obtain ⟨changed, hchanged, hname⟩ := Option.map_eq_some_iff.1 hchild.symm
    exact .inr ⟨inner, changed, rfl, hchanged, hname.symm⟩

theorem checkEmpty (h : SameParts g e other) (hname : e.name ∉ padded) (path : Path) :
    checkEmpty path e = checkEmpty path other := by
  simp only [Reading.checkEmpty, h.text hname, h.name]
  obtain ⟨hnone, hother⟩ | ⟨inner, changed, hsome, hother, heq⟩ := h.firstChild?_cases
  · simp only [hnone, hother]
  · simp only [hsome, hother, heq]

theorem jsonObject (h : SameParts g e other) (hname : e.name ∉ padded) (path : Path) :
    jsonObject g path e = jsonObject g path other := by
  simp only [Reading.jsonObject, h.checkAttributes, h.text hname, h.name]
  obtain ⟨hnone, hother⟩ | ⟨inner, changed, hsome, hother, heq⟩ := h.firstChild?_cases
  · simp only [hnone, hother]
  · simp only [hsome, hother, heq]

theorem call (h : SameParts g e other) (path : Path) : call g path e = call g path other := by
  simp only [Reading.call, nodeId, Element.attr, h.attr?, ← h.name, h.items.callParts,
    h.attributes.table]

theorem inline (hg : g.Spacious) (h : SameParts g e other) (hinline : g.isInline e.name = true)
    (path : Path) (styles : List String) :
    inline g path styles e = inline g path styles other := by
  have hname : e.name ∉ padded := fun hmem => by simp [hg.not_inline _ hmem] at hinline
  obtain ⟨name, attributes, items⟩ := e
  obtain ⟨_, changed, others⟩ := other
  obtain rfl := h.name
  simp only [Reading.inline, h.checkAttributes, Element.attr, h.attr?, h.items.rich hname,
    h.checkEmpty hname]

theorem node (hg : g.Spacious) (h : SameParts g e other) (path : Path) :
    node g path e = node g path other := by
  obtain ⟨name, attributes, items⟩ := e
  obtain ⟨_, changed, others⟩ := other
  obtain rfl := h.name
  simp only [Reading.node, h.checkAttributes, nodeId, h.attr?, h.call, blockProps,
    h.attributes.table]
  cases hkind : (g.spec? name).map ElementSpec.kind with
  | none => rfl
  | some kind =>
    cases kind with
    | block =>
      by_cases hname : name ∈ padded
      · obtain ⟨hmodel, hrule⟩ := hg.blocks name hname hkind
        simp only [List.mem_cons, List.not_mem_nil, or_false] at hmodel
        rcases hmodel with hmodel | hmodel <;>
          simp only [hmodel, hrule, Option.getD_some, if_true, h.items.blocks]
      · simp only [h.items.blocks, h.items.mixed hname, h.checkEmpty hname, h.text hname]
        obtain ⟨hnone, hother⟩ | ⟨inner, other, hsome, hother, heq⟩ := h.firstChild?_cases
        · simp only [hnone, hother]
        · simp only [hsome, hother, heq]
    | _ => rfl

theorem operation (h : SameParts g e other) (path : Path) :
    operation g path e = operation g path other := by
  simp only [Reading.operation, h.checkAttributes, markers, targets, Element.attr, Element.flag,
    h.attr?, ← h.name, h.items.blocks]
  refine bind_congr fun _ => bind_congr fun type => ?_
  -- operations that hold content or parameters are not padded
  split <;> rename_i hname
  · rfl
  · rw [h.items.rich (by simp [hname, padded])]
  · rw [h.jsonObject (by simp [hname, padded])]
  all_goals rfl

theorem source (h : SameParts g e other) (ident : String) :
    source g e ident = source g other ident := by
  simp only [Reading.source, agent, document, diff, h.attr?, ← h.name, h.checkAttributes,
    h.items.blocks, h.items.operations, h.attributes.table]

theorem sameElement (hg : g.Spacious) (h : SameParts g e other) : SameElement g e other where
  name := h.name
  ids := by
    have hids := h.items.ids
    have hident := h.attr? "id"
    obtain ⟨name, attributes, items⟩ := e
    obtain ⟨_, changed, others⟩ := other
    simp only [Element.attr?] at hident
    rw [Element.ids, Element.ids, hids, hident]
  ident := h.attr? "id"
  inline := h.inline hg
  parameters := h.jsonObject
  instructions hname path parent type := h.items.rich hname path parent type []
  node := h.node hg
  operation := h.operation
  source := h.source

end SameParts

theorem sameElement_of_respells (hg : g.Spacious) {e other : Element} (h : Respells e other)
    (hdistinct : e.HasDistinctAttributes) : SameElement g e other := by
  induction h with
  | @attributes name attributes others items perm =>
    have hnodup := (Element.HasDistinctAttributes.mk_iff.1 hdistinct).1
    exact SameParts.sameElement hg ⟨rfl, sameAttributes_of_perm hnodup perm, .refl name items⟩
  | data name attributes front recuts =>
    exact SameParts.sameElement hg
      ⟨rfl, .refl attributes, (sameItems_of_recuts recuts).append front⟩
  | inside name attributes front rest respells ih =>
    have hinner := (Element.HasDistinctAttributes.mk_iff.1 hdistinct).2 _
      (List.mem_append_right front List.mem_cons_self)
    exact SameParts.sameElement hg
      ⟨rfl, .refl attributes, ((ih hinner).sameItems name rest).append front⟩

theorem sameElement_of_alike (hg : g.Spacious) {e other : Element} (h : Alike e other) :
    (e.HasDistinctAttributes ↔ other.HasDistinctAttributes) ∧
      (e.HasDistinctAttributes → SameElement g e other) := by
  induction h with
  | rel e other h =>
    exact ⟨Element.HasDistinctAttributes.respells_iff h, sameElement_of_respells hg h⟩
  | refl e => exact ⟨Iff.rfl, fun _ => .refl e⟩
  | symm e other _ ih => exact ⟨ih.1.symm, fun hother => (ih.2 (ih.1.2 hother)).symm⟩
  | trans e mid other _ _ ih ih' =>
    exact ⟨ih.1.trans ih'.1, fun he => (ih.2 he).trans (ih'.2 (ih.1.1 he))⟩

end Reading

namespace Source

/-- Texts of elements that are alike and have an id are read alike: as the same source, or with the
same fault. -/
theorem parse_eq_of_alike {text other : String} {root changed : Element} {ident : String}
    (htext : Element.ofText text = .ok root) (hother : Element.ofText other = .ok changed)
    (hident : root.attr? "id" = some ident) (h : Alike root changed) :
    Source.parse text = Source.parse other := by
  have hdistinct : root.HasDistinctAttributes := fun e he =>
    (Markup.given_of_ofText htext e he).nodup
  have hsame := (Reading.sameElement_of_alike Grammar.Standard.spacious h).2 hdistinct
  have hchanged : changed.attr? "id" = some ident := hsame.ident ▸ hident
  rw [Source.parse, Source.read, Source.readWithSupply, htext, Source.parse, Source.read,
    Source.readWithSupply, hother]
  simp only [hident, hchanged, Option.getD_some, hsame.ids, hsame.source]

/-- Attributes in another order, blanks in a list and behind it, a comment, and a text of which half
is a section. -/
theorem parse_eq_of_alike_list :
    let text := "<document id=\"d\" by=\"m\"><ul> <li>ab</li></ul></document>"
    let other := "<document by=\"m\" id=\"d\"><ul><!----><li>a<![CDATA[b]]></li></ul>\n</document>"
    ∃ root changed, Element.ofText text = .ok root ∧ Element.ofText other = .ok changed ∧
      root.attr? "id" = some "d" ∧ Alike root changed ∧ Source.parse text = Source.parse other := by
  intro text other
  let whole : Element := ⟨"li", [], [.text "ab"]⟩
  let halves : Element := ⟨"li", [], [.text "a", .literal "b"]⟩
  let root : Element := ⟨"document", [("id", "d"), ("by", "m")],
    [.element ⟨"ul", [], [.text " ", .element whole]⟩]⟩
  let changed : Element := ⟨"document", [("by", "m"), ("id", "d")],
    [.element ⟨"ul", [], [.element halves]⟩, .text "\n"]⟩
  have htext : Element.ofText text = .ok root := by
    simp only [text, root, whole]
    rfl
  have hother : Element.ofText other = .ok changed := by
    simp only [other, changed, halves]
    rfl
  have hitem : Alike whole halves :=
    .trans _ _ _ (.rel _ _ (.data "li" [] [] (.cut "a" "b" [])))
      (.symm _ _ (.rel _ _ (.data "li" [] [.text "a"] (.literal "b" []))))
  have hlist : Alike ⟨"ul", [], [.text " ", .element whole]⟩ ⟨"ul", [], [.element halves]⟩ :=
    .trans _ _ _ (.rel _ _ (.data "ul" [] [] (.padding " " _ (by decide) (by decide))))
      (hitem.inside "ul" [] [] [])
  have halike : Alike root changed := by
    refine .trans _ _ _ (.rel _ _ (.attributes "document" _ (.swap _ _ _))) ?_
    refine .trans _ _ _ (hlist.inside "document" _ [] []) ?_
    exact .symm _ _ (.rel _ _ (.data "document" _ [.element ⟨"ul", [], [.element halves]⟩]
      (.padding "\n" [] (by decide) (by decide))))
  exact ⟨root, changed, htext, hother, rfl, halike, parse_eq_of_alike htext hother rfl halike⟩

end Source

end LiveDoc
