import LiveDoc.Proofs.Grammar.Attributes
import LiveDoc.Proofs.Markup.Elements
import LiveDoc.Proofs.Reading.Place

/-!
# Where readers refuse

Every reader that fails does so at a path that leads from its element to one in or directly below
which something is wrong. The readers of sequences count what they have read; the number of a child
is that of the children before it that are not inline.
-/

set_option autoImplicit false
set_option relaxedAutoImplicit false

namespace LiveDoc.Reading

open Markup (Element Item)
open Grammar (Placing Shaping inlineHolders closedTypes sequenceTypes nodeHolders)

variable {g : Grammar} {path : Path} {e inner : Element} {fault : Fault} {type : String}

theorem fault_of_checkAttributes (h : checkAttributes g path e.name e.attributes = .error fault) :
    FaultIn g path e fault := by
  unfold checkAttributes at h
  split at h
  · cases h
  · rename_i hne
    obtain rfl := Except.error.inj h
    exact (Against.attributes hne).faultIn

theorem has_of_checkAttributes {attributes : List (String × String)} {name : String}
    (h : checkAttributes g path name attributes = .ok ()) : g.has name = true := by
  obtain ⟨entry, hentry, -⟩ :=
    Grammar.checkAttributes_eq_nil_iff.1 (checkAttributes_eq_ok_iff.1 h)
  rw [Grammar.has, hentry, Option.isSome_some]

theorem has_of_kind {name : String} {kind : ElementKind}
    (h : (g.spec? name).map ElementSpec.kind = some kind) : g.has name = true := by
  obtain ⟨spec, hspec, -⟩ := Option.map_eq_some_iff.1 h
  obtain ⟨entry, hentry, -⟩ := Option.map_eq_some_iff.1 hspec
  rw [Grammar.has, hentry, Option.isSome_some]

theorem typeOf_ne_error {name : String} (h : g.has name = true) :
    typeOf g path name ≠ .error fault := by
  obtain ⟨type, htype⟩ := Grammar.exists_type? h
  rw [typeOf, htype]
  exact nofun

theorem fault_of_checkChild (htype : g.type? e.name = some type) (hinner : inner ∈ e.children)
    (h : checkChild g path e.name type inner.name = .error fault) : FaultIn g path e fault := by
  unfold checkChild refuseChild at h
  split at h
  · rename_i hunknown
    obtain rfl := Except.error.inj h
    exact (Against.unknown hinner (by simpa using hunknown)).faultIn
  · split at h
    · rename_i hrefused
      obtain rfl := Except.error.inj h
      exact (Against.misplaced hinner
        (Grammar.not_accepts htype (by simpa using hrefused))).faultIn
    · cases h

theorem fault_of_firstChild? (hg : g.Placing) (htype : g.type? e.name = some type)
    (hclosed : type ∈ closedTypes) (hchild : e.firstChild? = some inner) :
    FaultIn g path e (.at path (.invalidChild e.name inner.name)) := by
  rw [Element.firstChild?_eq] at hchild
  exact (Against.misplaced (List.mem_of_head? hchild)
    (Grammar.not_accepts htype (hg.allows_closed hclosed inner.name))).faultIn

theorem fault_of_checkEmpty (hg : g.Placing) (htype : g.type? e.name = some type)
    (hclosed : type ∈ closedTypes) (h : checkEmpty path e = .error fault) :
    FaultIn g path e fault := by
  unfold checkEmpty refuseChild complain at h
  split at h
  · rename_i child hchild
    obtain rfl := Except.error.inj h
    exact fault_of_firstChild? hg htype hclosed hchild
  · split at h
    · cases h
    · rename_i htext
      obtain rfl := Except.error.inj h
      exact (Against.text (by simp) (by simpa using htext)).faultIn

theorem fault_of_jsonObject (hg : g.Placing) (hname : e.name = "params" ∨ e.name = "edit:params")
    (h : jsonObject g path e = .error fault) : FaultIn g path e fault := by
  simp only [jsonObject, bind_eq_error_iff] at h
  rcases h with h | ⟨⟨⟩, hcheck, h⟩
  · exact fault_of_checkAttributes h
  obtain ⟨type, htype⟩ := Grammar.exists_type? (has_of_checkAttributes hcheck)
  have hclosed : type ∈ closedTypes := by
    rw [Grammar.typeOf_of_type?_eq_some htype]
    rcases hname with hname | hname <;> rw [hname] <;> decide
  split at h
  · rename_i child hchild
    obtain rfl := Except.error.inj h
    exact fault_of_firstChild? hg htype hclosed hchild
  · split at h
    · cases h
    · split at h
      · cases h
      · rename_i value hother hread
        obtain rfl := Except.error.inj h
        exact (Against.notAnObject hread fun members heq => hother members heq).faultIn
      · rename_i hread
        obtain rfl := Except.error.inj h
        exact (Against.notJson hread).faultIn

private theorem mem_inlineHolders {style : String} (h : styleOf? type = some style) :
    type ∈ inlineHolders := by
  unfold styleOf? at h
  split at h <;> first | decide | cases h

mutual

theorem fault_of_inline (hg : g.Placing) {styles : List String} :
    ∀ e : Element, inline g path styles e = .error fault → FaultIn g path e fault
  | ⟨name, attributes, items⟩, h => by
    simp only [inline, bind_eq_error_iff] at h
    rcases h with h | ⟨⟨⟩, hcheck, h | ⟨type, hmade, h⟩⟩
    · exact fault_of_checkAttributes (e := ⟨name, attributes, items⟩) h
    · exact absurd h (typeOf_ne_error (has_of_checkAttributes hcheck))
    have htype := typeOf_eq_ok_iff.1 hmade
    have hholder {styles : List String} (hin : type ∈ inlineHolders)
        (h : rich g path name type styles items = .error fault) :
        FaultIn g path ⟨name, attributes, items⟩ fault :=
      fault_of_rich (e := ⟨name, attributes, items⟩) hg htype hin items (fun _ hitem => hitem) h
    split at h
    · rename_i hstyle
      exact hholder (mem_inlineHolders hstyle) h
    rename_i hunstyled
    split at h
    · exact hholder (by decide) h
    · rw [bind_ok_eq_error_iff] at h
      exact hholder (by decide) h
    · rw [bind_ok_eq_error_iff] at h
      exact hholder (by decide) h
    · rw [bind_ok_eq_error_iff] at h
      exact fault_of_checkEmpty hg htype (by decide) h
    · rw [bind_ok_eq_error_iff] at h
      exact fault_of_checkEmpty hg htype (by decide) h
    · rename_i hspan hlink hnote hvar hmention
      obtain rfl := Except.error.inj h
      exact (Against.notInline (e := ⟨name, attributes, items⟩) htype hunstyled
        (by simpa using ⟨hspan, hlink, hnote, hvar, hmention⟩)).faultIn
termination_by structural e => e

theorem fault_of_rich (hg : g.Placing) {e : Element} {type : String} {styles : List String}
    (htype : g.type? e.name = some type) (hholder : type ∈ inlineHolders) :
    ∀ items : List (Item Element), (∀ item ∈ items, item ∈ e.items) →
      rich g path e.name type styles items = .error fault → FaultIn g path e fault
  | [], _, h => by cases h
  | .text _ :: rest, hitems, h => by
    rw [rich, bind_ok_eq_error_iff] at h
    exact fault_of_rich hg htype hholder rest (List.forall_mem_cons.1 hitems).2 h
  | .literal _ :: rest, hitems, h => by
    rw [rich, bind_ok_eq_error_iff] at h
    exact fault_of_rich hg htype hholder rest (List.forall_mem_cons.1 hitems).2 h
  | .element inner :: rest, hitems, h => by
    have hinner : inner ∈ e.children :=
      Element.mem_children_iff.2 (hitems _ List.mem_cons_self)
    simp only [rich, bind_eq_error_iff] at h
    rcases h with h | ⟨⟨⟩, hchild, h⟩
    · exact fault_of_checkChild htype hinner h
    have hinline := hg.isInline_of_holder hholder (checkChild_eq_ok_iff.1 hchild).2
    simp only [hinline, Bool.not_true, Bool.false_eq_true, if_false, bind_eq_error_iff,
      reduceCtorEq, and_false, exists_false, or_false] at h
    rcases h with h | ⟨found, -, h⟩
    · exact (fault_of_inline hg inner h).of_child hinner hinline
    · exact fault_of_rich hg htype hholder rest (List.forall_mem_cons.1 hitems).2 h
termination_by structural items => items

end

def elementsAmong (items : List (Item Element)) : List Element := items.filterMap Item.element?

/-- How many elements that are not inline stand among some items. -/
def ordinal (g : Grammar) (items : List (Item Element)) : Nat :=
  (elementsAmong items).countP fun child => !g.isInline child.name

section Front

variable {front rest : List (Item Element)}

theorem elementsAmong_append_element :
    elementsAmong (front ++ [.element inner]) = elementsAmong front ++ [inner] := by
  simp [elementsAmong, Item.element?]

theorem elementsAmong_append_other {item : Item Element} (h : item.element? = none) :
    elementsAmong (front ++ [item]) = elementsAmong front := by
  simp [elementsAmong, h]

theorem ordinal_append_other {item : Item Element} (h : item.element? = none) :
    ordinal g (front ++ [item]) = ordinal g front := by
  rw [ordinal, elementsAmong_append_other h, ordinal]

theorem ordinal_append_inline (h : g.isInline inner.name = true) :
    ordinal g (front ++ [.element inner]) = ordinal g front := by
  simp [ordinal, elementsAmong_append_element, h]

theorem ordinal_append_block (h : g.isInline inner.name = false) :
    ordinal g (front ++ [.element inner]) = ordinal g front + 1 := by
  simp [ordinal, elementsAmong_append_element, h]

theorem children_eq (hitems : e.items = front ++ .element inner :: rest) :
    e.children = elementsAmong front ++ inner :: elementsAmong rest := by
  simp [Element.children, hitems, elementsAmong, Item.element?]

theorem mem_children_of_items (hitems : e.items = front ++ .element inner :: rest) :
    inner ∈ e.children := by
  simp [children_eq hitems]

theorem accepts_of_checkChild (htype : g.type? e.name = some type)
    (h : checkChild g path e.name type inner.name = .ok ()) : g.Accepts e inner := by
  obtain ⟨hhas, hallows⟩ := checkChild_eq_ok_iff.1 h
  exact ⟨hhas, type, htype, hallows⟩

theorem FaultBelow.of_next {index : Nat} (hitems : e.items = front ++ .element inner :: rest)
    (hindex : ordinal g front = index) (hblock : g.isInline inner.name = false)
    (haccepts : g.Accepts e inner)
    (h : FaultBelow g (path.down (.nth inner.name index)) inner fault) :
    FaultBelow g path e fault := by
  subst hindex
  exact .of_nth (children_eq hitems) hblock haccepts h

theorem fault_of_text {item : Item Element} (hitems : e.items = front ++ item :: rest)
    {complaint : Complaint} (hsaid : complaint ∈ [.textDirectlyInside e.name,
      .mustNotContainText e.name, .textOutsideContent e.name])
    (htext : Text.isAllBlank item.chars = false) :
    FaultIn g path e (.at path (.invalidForm complaint)) := by
  refine (Against.text hsaid ?_).faultIn
  refine Bool.eq_false_iff.2 fun hblank => ?_
  have hitem := Element.isAllBlank_text_iff.1 hblank item (by simp [hitems])
  simp [htext] at hitem

end Front

def namesAmong (items : List (Item Element)) : List String :=
  (elementsAmong items).map Element.name

theorem namesAmong_append_element {front : List (Item Element)} :
    namesAmong (front ++ [.element inner]) = namesAmong front ++ [inner.name] := by
  simp [namesAmong, elementsAmong_append_element]

theorem find?_of_new {front rest : List (Item Element)}
    (hitems : e.items = front ++ .element inner :: rest) (hnew : inner.name ∉ namesAmong front) :
    e.children.find? (·.name = inner.name) = some inner := by
  have hfront : (elementsAmong front).find? (·.name = inner.name) = none := by
    rw [List.find?_eq_none]
    intro other hother
    simpa using fun heq => hnew (List.mem_map.2 ⟨other, hother, heq⟩)
  rw [children_eq hitems, List.find?_append, hfront]
  simp

namespace CallParts

structure Met (parts : CallParts) (front : List (Item Element)) : Prop where
  parameters : parts.parameters.isSome = true ↔ "params" ∈ namesAmong front
  instructions : parts.instructions.isSome = true ↔ "content" ∈ namesAmong front

namespace Met

variable {parts : CallParts} {front : List (Item Element)}

theorem none : Met ⟨.none, .none⟩ [] :=
  ⟨by simp [namesAmong, elementsAmong], by simp [namesAmong, elementsAmong]⟩

theorem other {item : Item Element} (hmet : parts.Met front) (h : item.element? = .none) :
    parts.Met (front ++ [item]) := by
  have hnames : namesAmong (front ++ [item]) = namesAmong front := by
    rw [namesAmong, elementsAmong_append_other h, namesAmong]
  exact ⟨hnames ▸ hmet.parameters, hnames ▸ hmet.instructions⟩

theorem withParameters (hmet : parts.Met front) (hname : inner.name = "params")
    (parameters : Table Json) :
    Met { parts with parameters := some parameters } (front ++ [.element inner]) := by
  refine ⟨?_, ?_⟩
  · simp [namesAmong_append_element, hname]
  · simpa [namesAmong_append_element, hname] using hmet.instructions

theorem withInstructions (hmet : parts.Met front) (hname : inner.name = "content")
    (instructions : List Inline) :
    Met { parts with instructions := some instructions } (front ++ [.element inner]) := by
  refine ⟨?_, ?_⟩
  · simpa [namesAmong_append_element, hname] using hmet.parameters
  · simp [namesAmong_append_element, hname]

theorem params_new (hmet : parts.Met front) (h : parts.parameters.isNone = true) :
    "params" ∉ namesAmong front := by
  rw [← hmet.parameters]
  simpa using h

theorem content_new (hmet : parts.Met front) (h : parts.instructions.isNone = true) :
    "content" ∉ namesAmong front := by
  rw [← hmet.instructions]
  simpa using h

theorem earlier (hmet : parts.Met front) (hpart : inner.name = "params" ∨ inner.name = "content")
    (hparams : ¬(inner.name = "params" ∧ parts.parameters.isNone = true))
    (hcontent : ¬(inner.name = "content" ∧ parts.instructions.isNone = true)) :
    inner.name ∈ namesAmong front := by
  rcases hpart with hname | hname
  · rw [hname, ← hmet.parameters, Option.isSome_iff_ne_none]
    simpa [hname] using hparams
  · rw [hname, ← hmet.instructions, Option.isSome_iff_ne_none]
    simpa [hname] using hcontent

end Met

end CallParts

theorem fault_of_callParts (hg : g.Placing) (htype : g.type? e.name = some type)
    (hcall : (g.spec? e.name).map ElementSpec.kind = some .executable)
    {items front : List (Item Element)} {parts : CallParts} (hitems : e.items = front ++ items)
    (hmet : parts.Met front) (h : callParts g path e.name type parts items = .error fault) :
    FaultBelow g path e fault := by
  induction items generalizing front parts with
  | nil => cases h
  | cons item rest ih =>
    have hitems' : e.items = (front ++ [item]) ++ rest := by simp [hitems]
    cases item with
    | text chars | literal chars =>
      simp only [callParts] at h
      split at h
      · exact ih hitems' (hmet.other rfl) h
      · rename_i htext
        obtain rfl := Except.error.inj h
        exact (fault_of_text hitems (by simp) (by simpa [Item.chars] using htext)).below
    | element inner =>
      simp only [callParts, bind_eq_error_iff] at h
      rcases h with h | ⟨⟨⟩, hchild, h⟩
      · exact (fault_of_checkChild htype (mem_children_of_items hitems) h).below
      have haccepts := accepts_of_checkChild htype hchild
      have hpart := hg.part_of_call hcall htype (checkChild_eq_ok_iff.1 hchild).2
      split at h
      · rename_i hparams
        have hfirst := find?_of_new hitems (hparams.1 ▸ hmet.params_new hparams.2)
        rw [bind_eq_error_iff] at h
        rcases h with h | ⟨parameters, -, h⟩
        · exact .of_only hcall hpart hfirst haccepts
            (fault_of_jsonObject hg (.inl hparams.1) h).below
        · exact ih hitems' (hmet.withParameters hparams.1 parameters) h
      split at h
      · rename_i hcontent
        have hfirst := find?_of_new hitems (hcontent.1 ▸ hmet.content_new hcontent.2)
        simp only [bind_eq_error_iff] at h
        rcases h with h | ⟨innerType, hmade, h | ⟨instructions, -, h⟩⟩
        · exact absurd h (typeOf_ne_error haccepts.1)
        · have hinnerType := typeOf_eq_ok_iff.1 hmade
          have hholder : innerType ∈ inlineHolders := by
            rw [Grammar.typeOf_of_type?_eq_some hinnerType, hcontent.1]
            decide
          exact .of_only hcall hpart hfirst haccepts
            (fault_of_rich hg hinnerType hholder inner.items (fun _ hitem => hitem) h).below
        · exact ih hitems' (hmet.withInstructions hcontent.1 instructions) h
      · rename_i hparams hcontent
        obtain rfl := Except.error.inj h
        exact (Against.repeated (children_eq hitems)
          (hmet.earlier hpart hparams hcontent)).faultIn.below

theorem fault_of_call (hg : g.Placing) {supply : IdSupply}
    (hcall : (g.spec? e.name).map ElementSpec.kind = some .executable)
    (h : call g path e supply = .error fault) : FaultBelow g path e fault := by
  simp only [call, Read.bind_eq_error_iff, Read.lift_eq_error_iff, Read.lift_eq_ok_iff,
    typeOf_eq_ok_iff, Read.pure_ne_error, nodeId_ne_error, and_false, exists_false, or_false,
    false_or] at h
  rcases h with h | ⟨type, _, ⟨htype, -⟩, _, _, -, h⟩
  · exact absurd h (typeOf_ne_error (has_of_kind hcall))
  exact fault_of_callParts hg htype hcall (List.nil_append e.items).symm .none h

structure ModelsType (g : Grammar) (name type : String) : Prop where
  text : (g.model? name).getD .none = .text → type ∈ closedTypes
  blocks : (g.model? name).getD .none ∈ [.json, .none] → g.hasChildrenRule name = true →
    type ∈ sequenceTypes
  empty : (g.model? name).getD .none ∈ [.json, .none] → g.hasChildrenRule name = false →
    type ∈ closedTypes

theorem models_of_block (hs : g.Shaping) {name : String}
    (hkind : (g.spec? name).map ElementSpec.kind = some .block) (htype : g.type? name = some type) :
    ModelsType g name type := by
  obtain ⟨entry, hentry, rfl⟩ := Grammar.type?_eq_some_iff.1 htype
  have hmem := (Grammar.entry?_eq_some hentry).1
  have hblock : entry.spec.kind = .block := by simpa [Grammar.spec?, hentry] using hkind
  have hmodel : (g.model? name).getD .none = entry.spec.content := by
    simp [Grammar.model?, Grammar.spec?, hentry]
  have hrule : g.hasChildrenRule name = entry.allowed.isSome := by
    simp [Grammar.hasChildrenRule, hentry]
  refine ⟨fun htext => ?_, fun hcontent hchildren => ?_, fun hcontent hchildren => ?_⟩
  · rw [hs.text_type entry hmem hblock (hmodel ▸ htext)]
    decide
  · rcases hs.holding_type entry hmem hblock (hmodel ▸ hcontent) (hrule ▸ hchildren) with h | h <;>
      simp [sequenceTypes, h]
  · rw [hs.empty_type entry hmem hblock (hmodel ▸ hcontent) (hrule ▸ hchildren)]
    decide

inductive Refuses (g : Grammar) (path : Path) (e : Element) (supply : IdSupply) : Fault → Prop
  | attributes {fault : Fault} (wrong : checkAttributes g path e.name e.attributes = .error fault) :
    Refuses g path e supply fault
  | call {fault : Fault} (kind : (g.spec? e.name).map ElementSpec.kind = some .executable)
    (inside : call g path e supply = .error fault) : Refuses g path e supply fault
  | mixed {fault : Fault} {type : String} {mid : IdSupply} (type? : g.type? e.name = some type)
    (inside : mixed g path e.name type 0 e.items mid = .error fault) : Refuses g path e supply fault
  | text {type : String} {child : Element} (type? : g.type? e.name = some type)
    (closed : type ∈ closedTypes) (first : e.firstChild? = some child) :
    Refuses g path e supply (.at path (.invalidChild e.name child.name))
  | blocks {fault : Fault} {type : String} {mid : IdSupply} (type? : g.type? e.name = some type)
    (sequence : type ∈ sequenceTypes)
    (inside : blocks g path e.name type 0 e.items mid = .error fault) :
    Refuses g path e supply fault
  | empty {fault : Fault} {type : String} (type? : g.type? e.name = some type)
    (closed : type ∈ closedTypes) (inside : checkEmpty path e = .error fault) :
    Refuses g path e supply fault
  | notABlock (kind : (g.spec? e.name).map ElementSpec.kind ∉ [some .block, some .executable]) :
    Refuses g path e supply (.at path (.invalidForm (.notABlock e.name)))

theorem refuses_of_node (hs : g.Shaping) {supply : IdSupply}
    (h : node g path e supply = .error fault) : Refuses g path e supply fault := by
  obtain ⟨name, attributes, items⟩ := e
  simp only [node, Read.bind_eq_error_iff, Read.lift_eq_error_iff, Read.lift_eq_ok_iff] at h
  rcases h with h | ⟨⟨⟩, _, ⟨hcheck, rfl⟩, h⟩
  · exact .attributes h
  have hother (hkind : (g.spec? name).map ElementSpec.kind ∉ [some .block, some .executable])
      (h : complain path (.notABlock name) = (.error fault : Except Fault Node)) :
      Refuses g path ⟨name, attributes, items⟩ supply fault := by
    obtain rfl := Except.error.inj h
    exact .notABlock hkind
  cases hkind : (g.spec? name).map ElementSpec.kind with
  | none => exact hother (by simp [hkind]) (by simpa [hkind, Read.lift_eq_error_iff] using h)
  | some kind =>
    cases kind with
    | executable =>
      simp only [hkind, Read.bind_pure_eq_error_iff] at h
      exact .call hkind h
    | block =>
      simp only [hkind, Read.bind_eq_error_iff, Read.lift_eq_error_iff, Read.lift_eq_ok_iff,
        typeOf_eq_ok_iff, nodeId_ne_error, false_or] at h
      rcases h with h | ⟨type, _, ⟨htype, -⟩, _, _, -, h⟩
      · exact absurd h (typeOf_ne_error (has_of_checkAttributes hcheck))
      have hmodels := models_of_block hs hkind htype
      cases hmodel : (g.model? name).getD .none with
      | rich =>
        simp only [hmodel, Read.bind_eq_error_iff, Read.pure_ne_error, and_false, exists_false,
          or_false] at h
        exact .mixed htype h
      | text =>
        cases hchild : Element.firstChild? ⟨name, attributes, items⟩ with
        | none => simp [hmodel, hchild, Read.pure_ne_error] at h
        | some child =>
          simp only [hmodel, hchild, Read.lift_eq_error_iff] at h
          obtain rfl := Except.error.inj h
          exact .text htype (hmodels.text hmodel) hchild
      | json | none =>
        cases hrule : g.hasChildrenRule name with
        | true =>
          simp only [hmodel, hrule, if_true, Read.bind_pure_eq_error_iff] at h
          exact .blocks htype (hmodels.blocks (by simp [hmodel]) hrule) h
        | false =>
          simp only [hmodel, hrule, Bool.false_eq_true, if_false, Read.bind_pure_eq_error_iff,
            Read.lift_eq_error_iff] at h
          exact .empty htype (hmodels.empty (by simp [hmodel]) hrule) h
    | inline | structural | operation =>
      exact hother (by simp [hkind]) (by simpa [hkind, Read.lift_eq_error_iff] using h)

-- The items are cut in two, and the number that a reader has counted up to is the ordinal of the
-- front. Inline children do not count, so in mixed content the two go apart from the position.
mutual

theorem fault_of_node (hg : g.Placing) (hs : g.Shaping) :
    ∀ (e : Element) {path : Path} {supply : IdSupply}, node g path e supply = .error fault →
      FaultBelow g path e fault
  | ⟨name, attributes, items⟩, path, supply, h => by
    cases refuses_of_node hs h with
    | attributes wrong => exact (fault_of_checkAttributes wrong).below
    | call kind inside => exact fault_of_call hg kind inside
    | mixed type? inside =>
      exact fault_of_mixed hg hs type? items (List.nil_append items).symm rfl inside
    | text type? closed first => exact (fault_of_firstChild? hg type? closed first).below
    | blocks type? sequence inside =>
      exact fault_of_blocks hg hs type? sequence items (List.nil_append items).symm rfl inside
    | empty type? closed inside => exact (fault_of_checkEmpty hg type? closed inside).below
    | notABlock kind => exact (Against.notABlock kind).faultIn.below
termination_by structural e => e

theorem fault_of_blocks (hg : g.Placing) (hs : g.Shaping) {e : Element} {type : String}
    (htype : g.type? e.name = some type) (hsequence : type ∈ sequenceTypes) {path : Path} :
    ∀ (items : List (Item Element)) {front : List (Item Element)} {index : Nat}
      {supply : IdSupply}, e.items = front ++ items → ordinal g front = index →
      blocks g path e.name type index items supply = .error fault → FaultBelow g path e fault
  | [], _, _, _, _, _, h => by cases h
  | .text chars :: rest, front, _, _, hitems, hindex, h => by
    have hitems' : e.items = (front ++ [.text chars]) ++ rest := by simp [hitems]
    simp only [blocks] at h
    split at h
    · exact fault_of_blocks hg hs htype hsequence rest hitems'
        ((ordinal_append_other rfl).trans hindex) h
    · rename_i htext
      obtain rfl := Except.error.inj h
      exact (fault_of_text hitems (by simp) (by simpa [Item.chars] using htext)).below
  | .literal chars :: rest, front, _, _, hitems, hindex, h => by
    have hitems' : e.items = (front ++ [.literal chars]) ++ rest := by simp [hitems]
    simp only [blocks] at h
    split at h
    · exact fault_of_blocks hg hs htype hsequence rest hitems'
        ((ordinal_append_other rfl).trans hindex) h
    · rename_i htext
      obtain rfl := Except.error.inj h
      exact (fault_of_text hitems (by simp) (by simpa [Item.chars] using htext)).below
  | .element inner :: rest, front, _, _, hitems, hindex, h => by
    have hitems' : e.items = (front ++ [.element inner]) ++ rest := by simp [hitems]
    simp only [blocks, Read.bind_eq_error_iff, Read.lift_eq_error_iff, Read.lift_eq_ok_iff,
      Read.pure_ne_error, and_false, exists_false, or_false] at h
    rcases h with h | ⟨⟨⟩, _, ⟨hchild, -⟩, h⟩
    · exact (fault_of_checkChild htype (mem_children_of_items hitems) h).below
    have hblock := hg.not_isInline_of_sequence hsequence (checkChild_eq_ok_iff.1 hchild).2
    rcases h with h | ⟨_, _, -, h⟩
    · exact .of_next hitems hindex hblock (accepts_of_checkChild htype hchild)
        (fault_of_node hg hs inner h)
    · exact fault_of_blocks hg hs htype hsequence rest hitems'
        (by rw [ordinal_append_block hblock, hindex]) h
termination_by structural items => items

theorem fault_of_mixed (hg : g.Placing) (hs : g.Shaping) {e : Element} {type : String}
    (htype : g.type? e.name = some type) {path : Path} :
    ∀ (items : List (Item Element)) {front : List (Item Element)} {index : Nat}
      {supply : IdSupply}, e.items = front ++ items → ordinal g front = index →
      mixed g path e.name type index items supply = .error fault → FaultBelow g path e fault
  | [], _, _, _, _, _, h => by cases h
  | .text chars :: rest, front, _, _, hitems, hindex, h => by
    have hitems' : e.items = (front ++ [.text chars]) ++ rest := by simp [hitems]
    simp only [mixed, Read.bind_eq_error_iff, Read.pure_ne_error, and_false, exists_false,
      or_false] at h
    exact fault_of_mixed hg hs htype rest hitems' ((ordinal_append_other rfl).trans hindex) h
  | .literal chars :: rest, front, _, _, hitems, hindex, h => by
    have hitems' : e.items = (front ++ [.literal chars]) ++ rest := by simp [hitems]
    simp only [mixed, Read.bind_eq_error_iff, Read.pure_ne_error, and_false, exists_false,
      or_false] at h
    exact fault_of_mixed hg hs htype rest hitems' ((ordinal_append_other rfl).trans hindex) h
  | .element inner :: rest, front, _, _, hitems, hindex, h => by
    have hitems' : e.items = (front ++ [.element inner]) ++ rest := by simp [hitems]
    have hinner := mem_children_of_items hitems
    simp only [mixed, Read.bind_eq_error_iff, Read.lift_eq_error_iff, Read.lift_eq_ok_iff] at h
    rcases h with h | ⟨⟨⟩, _, ⟨hchild, -⟩, h⟩
    · exact (fault_of_checkChild htype hinner h).below
    cases hinline : g.isInline inner.name with
    | true =>
      simp only [hinline, if_true, Read.bind_eq_error_iff, Read.lift_eq_error_iff,
        Read.lift_eq_ok_iff, Read.pure_ne_error, and_false, exists_false, or_false] at h
      rcases h with h | ⟨_, _, -, h⟩
      · exact ((fault_of_inline hg inner h).of_child hinner hinline).below
      · exact fault_of_mixed hg hs htype rest hitems'
          ((ordinal_append_inline hinline).trans hindex) h
    | false =>
      simp only [hinline, Bool.false_eq_true, if_false, Read.bind_eq_error_iff,
        Read.pure_ne_error, and_false, exists_false, or_false] at h
      rcases h with h | ⟨_, _, -, h⟩
      · exact .of_next hitems hindex hinline (accepts_of_checkChild htype hchild)
          (fault_of_node hg hs inner h)
      · exact fault_of_mixed hg hs htype rest hitems'
          (by rw [ordinal_append_block hinline, hindex]) h
termination_by structural items => items

end

theorem sequence_of_name (h : e.name ∈ ["diff", "document", "agent", "insert", "replace"])
    (htype : g.type? e.name = some type) : type ∈ sequenceTypes := by
  rw [Grammar.typeOf_of_type?_eq_some htype]
  revert h
  generalize e.name = name
  revert name
  decide

theorem fault_of_operation (hg : g.Placing) (hs : g.Shaping) {supply : IdSupply}
    (h : operation g path e supply = .error fault) : FaultBelow g path e fault := by
  simp only [operation, Read.bind_eq_error_iff, Read.lift_eq_error_iff, Read.lift_eq_ok_iff,
    typeOf_eq_ok_iff] at h
  rcases h with h | ⟨⟨⟩, _, ⟨hcheck, -⟩, h | ⟨type, _, ⟨htype, -⟩, h⟩⟩
  · exact (fault_of_checkAttributes h).below
  · exact absurd h (typeOf_ne_error (has_of_checkAttributes hcheck))
  obtain ⟨r, hr, h⟩ : ∃ r : Read Edit.Operation, r = _ ∧ r _ = .error fault := ⟨_, rfl, h⟩
  split at hr <;> subst hr
  · exact absurd h Read.pure_ne_error
  · rename_i hname
    rw [Read.bind_pure_eq_error_iff, Read.lift_eq_error_iff] at h
    have hholder : type ∈ inlineHolders := by
      rw [Grammar.typeOf_of_type?_eq_some htype, hname]
      decide
    exact (fault_of_rich hg htype hholder e.items (fun _ hitem => hitem) h).below
  · rename_i hname
    rw [Read.bind_pure_eq_error_iff, Read.lift_eq_error_iff] at h
    exact (fault_of_jsonObject hg (.inr hname) h).below
  · exact absurd h Read.pure_ne_error
  · rename_i hname
    rw [Read.bind_pure_eq_error_iff] at h
    exact fault_of_blocks hg hs htype (sequence_of_name (by simp [hname]) htype) e.items
      (List.nil_append e.items).symm rfl h
  · exact absurd h Read.pure_ne_error
  · rename_i hname
    rw [Read.bind_pure_eq_error_iff] at h
    exact fault_of_blocks hg hs htype (sequence_of_name (by simp [hname]) htype) e.items
      (List.nil_append e.items).symm rfl h
  · exact absurd h Read.pure_ne_error
  · rename_i hattr hcontent hparams hid hinsert hdelete hreplace hmove
    rw [Read.lift_eq_error_iff] at h
    obtain rfl := Except.error.inj h
    refine (Against.notAnOperation fun o hname => ?_).faultIn.below
    cases o with
    | setProp => exact hattr hname.symm
    | setContent => exact hcontent hname.symm
    | setParameters => exact hparams hname.symm
    | rename => exact hid hname.symm
    | insert => exact hinsert hname.symm
    | delete => exact hdelete hname.symm
    | replace => exact hreplace hname.symm
    | move => exact hmove hname.symm

theorem fault_of_operations (hg : g.Placing) (hs : g.Shaping) (hname : e.name = "diff")
    (htype : g.type? e.name = some type) {items front : List (Item Element)} {index : Nat}
    {supply : IdSupply} (hitems : e.items = front ++ items) (hindex : ordinal g front = index)
    (h : operations g path e.name type index items supply = .error fault) :
    FaultBelow g path e fault := by
  induction items generalizing front index supply with
  | nil => cases h
  | cons item rest ih =>
    have hitems' : e.items = (front ++ [item]) ++ rest := by simp [hitems]
    cases item with
    | text chars | literal chars =>
      simp only [operations] at h
      split at h
      · exact ih hitems' ((ordinal_append_other rfl).trans hindex) h
      · rename_i htext
        obtain rfl := Except.error.inj h
        exact (fault_of_text hitems (by simp [hname]) (by simpa [Item.chars] using htext)).below
    | element inner =>
      simp only [operations, Read.bind_eq_error_iff, Read.lift_eq_error_iff, Read.lift_eq_ok_iff,
        Read.pure_ne_error, and_false, exists_false, or_false] at h
      rcases h with h | ⟨⟨⟩, _, ⟨hchild, -⟩, h⟩
      · exact (fault_of_checkChild htype (mem_children_of_items hitems) h).below
      have hblock := hg.not_isInline_of_sequence (sequence_of_name (by simp [hname]) htype)
        (checkChild_eq_ok_iff.1 hchild).2
      rcases h with h | ⟨_, _, -, h⟩
      · exact .of_next hitems hindex hblock (accepts_of_checkChild htype hchild)
          (fault_of_operation hg hs h)
      · exact ih hitems' (by rw [ordinal_append_block hblock, hindex]) h

theorem fault_of_document (hg : g.Placing) (hs : g.Shaping) {ident : String}
    {besides : List String} {supply : IdSupply} (hname : e.name = "document" ∨ e.name = "agent")
    (h : document g e ident besides supply = .error fault) :
    FaultBelow g ⟨e.name, []⟩ e fault := by
  simp only [document, Read.bind_eq_error_iff, Read.lift_eq_error_iff, Read.lift_eq_ok_iff,
    typeOf_eq_ok_iff, Read.pure_ne_error, and_false, exists_false, or_false] at h
  rcases h with h | ⟨⟨⟩, _, ⟨hcheck, -⟩, h | ⟨type, _, ⟨htype, -⟩, h⟩⟩
  · exact (fault_of_checkAttributes h).below
  · exact absurd h (typeOf_ne_error (has_of_checkAttributes hcheck))
  · have hsequence : type ∈ sequenceTypes :=
      sequence_of_name (by rcases hname with hname | hname <;> simp [hname]) htype
    exact fault_of_blocks hg hs htype hsequence e.items (List.nil_append e.items).symm rfl h

theorem fault_of_diff (hg : g.Placing) (hs : g.Shaping) {supply : IdSupply}
    (hname : e.name = "diff") (h : diff g e supply = .error fault) :
    FaultBelow g ⟨e.name, []⟩ e fault := by
  simp only [diff, Read.bind_eq_error_iff, Read.lift_eq_error_iff, Read.lift_eq_ok_iff,
    typeOf_eq_ok_iff, Read.pure_ne_error, and_false, exists_false, or_false] at h
  rcases h with h | ⟨⟨⟩, _, ⟨hcheck, -⟩, h | ⟨type, _, ⟨htype, -⟩, h⟩⟩
  · exact (fault_of_checkAttributes h).below
  · exact absurd h (typeOf_ne_error (has_of_checkAttributes hcheck))
  · exact fault_of_operations hg hs hname htype (List.nil_append e.items).symm rfl h

theorem fault_of_source (hg : g.Placing) (hs : g.Shaping) {ident : String} {supply : IdSupply}
    (h : source g e ident supply = .error fault) : FaultBelow g ⟨e.name, []⟩ e fault := by
  unfold source at h
  obtain ⟨r, hr, h⟩ : ∃ r : Read Source, r = _ ∧ r _ = .error fault := ⟨_, rfl, h⟩
  split at hr <;> subst hr
  · rename_i hname
    rw [Read.bind_pure_eq_error_iff] at h
    exact fault_of_document hg hs (.inl hname) h
  · rename_i hname
    simp only [agent, Read.bind_pure_eq_error_iff] at h
    exact fault_of_document hg hs (.inr hname) h
  · rename_i hname
    rw [Read.bind_pure_eq_error_iff] at h
    exact fault_of_diff hg hs hname h
  · rename_i hdocument hagent hdiff
    rw [Read.lift_eq_error_iff] at h
    obtain rfl := Except.error.inj h
    exact (Against.unexpectedRoot (by simpa using ⟨hdocument, hagent, hdiff⟩)).faultIn.below

end LiveDoc.Reading
