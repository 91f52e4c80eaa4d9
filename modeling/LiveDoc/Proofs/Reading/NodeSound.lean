import LiveDoc.Proofs.Markup.Naming
import LiveDoc.Proofs.Node.Sound
import LiveDoc.Proofs.Reading.InlineForm
import LiveDoc.Proofs.Reading.Origin

/-!
# Nodes that are read are sound

Every node that is read is sound, whatever the names of its attributes and the numbers in its
parameters. Its id is given or made up from the id of the source; only the given one is checked.
-/

set_option autoImplicit false
set_option relaxedAutoImplicit false

namespace LiveDoc.Reading

open Markup (Element Item Given given value?)

variable {g : Grammar} {path : Path} {e : Element} {entry : Grammar.Entry}
  {supply mid left : IdSupply} {type ident : String}

section Attributes

variable {besides without : List String} {front : List (String × String)}

theorem accepts_append (he : Given e.name e.attributes) {a : AttributeSpec}
    (haccepts : entry.Accepts a (value? a.name e.attributes)) (hnames : ∀ b ∈ front, b.1 ∈ besides)
    (hwithout : a.name ∉ without)
    (hfront : a.name ∈ besides → entry.Accepts a (value? a.name front)) :
    entry.Accepts a
      (value? a.name (front ++ tableAttributes without (textTable besides e.attributes))) := by
  rw [Markup.value?_append]
  by_cases hbesides : a.name ∈ besides
  · have htable := isTextTable_textTable besides e.attributes
    rw [htable.value?_eq_none hbesides, Option.or_none]
    exact hfront hbesides
  · have hnone : value? a.name front = none := by
      refine Markup.value?_eq_none fun hmem => ?_
      obtain ⟨b, hb, heq⟩ := List.mem_map.1 hmem
      exact hbesides (heq ▸ hnames b hb)
    rwa [hnone, Option.none_or, value?_tableAttributes_textTable he.nodup hbesides hwithout]

theorem checkAttributes_append (he : Given e.name e.attributes)
    (hentry : g.entry? e.name = some entry)
    (hcheck : g.checkAttributes e.name e.attributes = [])
    (hnames : ∀ a ∈ front, a.1 ∈ besides)
    (hwithout : ∀ a ∈ entry.spec.attributes, a.name ∉ without)
    (hfront : ∀ a ∈ entry.spec.attributes, a.name ∈ besides →
      entry.Accepts a (value? a.name e.attributes) → entry.Accepts a (value? a.name front)) :
    g.checkAttributes e.name
      (front ++ tableAttributes without (textTable besides e.attributes)) = [] :=
  Grammar.checkAttributes_of_accepts hentry hcheck fun a ha haccepts =>
    accepts_append he haccepts hnames (hwithout a ha) fun hbesides => hfront a ha hbesides haccepts

end Attributes

structure CallParts.Formed (g : Grammar) (parts : CallParts) : Prop where
  parameters : ∀ members ∈ parts.parameters, members = [] ∨ ∃ s, Json.read? s = some (.obj members)
  instructions : ∀ content ∈ parts.instructions, Inline.CanonicalAll g content

theorem read?_of_jsonObject {members : Table Json} (h : jsonObject g path e = .ok members) :
    members = [] ∨ ∃ s, Json.read? s = some (.obj members) := by
  obtain ⟨⟨⟩, hcheck, h⟩ := bind_eq_ok_iff.1 h
  split at h
  · simp at h
  · simp only [] at h
    split at h
    · exact .inl (Except.ok.inj h).symm
    · split at h
      · rename_i hread
        obtain rfl := Except.ok.inj h
        exact .inr ⟨_, hread⟩
      all_goals simp at h

private theorem callParts_formed (hg : g.Printable) {name : String} {parts found : CallParts}
    {items : List (Item Element)} (hparts : parts.Formed g)
    (h : callParts g path name type parts items = .ok found) : found.Formed g := by
  induction items generalizing parts with
  | nil => exact Except.ok.inj h ▸ hparts
  | cons item rest ih =>
    cases item with
    | text chars | literal chars =>
      simp only [callParts] at h
      split at h
      · exact ih hparts h
      · simp at h
    | element inner =>
      obtain ⟨⟨⟩, hcheck, h⟩ := bind_eq_ok_iff.1 h
      simp only [] at h
      split at h
      · obtain ⟨parameters, hparameters, h⟩ := bind_eq_ok_iff.1 h
        have hmore : CallParts.Formed g { parts with parameters := some parameters } := by
          refine ⟨fun members hmembers => ?_, hparts.instructions⟩
          obtain rfl := Option.some.inj hmembers
          exact read?_of_jsonObject hparameters
        exact ih hmore h
      · split at h
        · obtain ⟨innerType, htype, h⟩ := bind_eq_ok_iff.1 h
          obtain ⟨instructions, hrich, h⟩ := bind_eq_ok_iff.1 h
          have hmore : CallParts.Formed g { parts with instructions := some instructions } := by
            refine ⟨hparts.parameters, fun content hcontent => ?_⟩
            obtain rfl := Option.some.inj hcontent
            exact rich_canonical hg (List.nil_sublist _) inner.items hrich
          exact ih hmore h
        · simp at h

/-- The attributes that a call with an id and a function begins with. -/
private def callFront (kind : CallKind) (ident function : String) (switch : Option String) :
    List (String × String) :=
  ("id", ident) :: (kind.functionAttr, function) :: given "enabled" switch

private theorem callFront_names {kind : CallKind} {ident function : String}
    {switch : Option String} : ∀ a ∈ callFront kind ident function switch,
      a.1 ∈ ["id", "enabled", kind.functionAttr] ∧ Markup.isAttributeName a.1 = true := by
  cases kind <;> cases switch <;> simp [callFront, given, CallKind.functionAttr] <;> decide

private theorem callFront_accepts {kind : CallKind} {a : AttributeSpec}
    (hident : a.name = "id" → entry.Accepts a (some ident))
    (henabled : a.name = "enabled" → a.required = false)
    (hfunction : ∃ function, e.attr? kind.functionAttr = some function)
    (ha : a.name ∈ ["id", "enabled", kind.functionAttr])
    (haccepts : entry.Accepts a (value? a.name e.attributes)) :
    entry.Accepts a (value? a.name (callFront kind ident (e.attr kind.functionAttr)
      (if e.attr? "enabled" = some "false" then some "false" else none))) := by
  have hid : "id" ≠ kind.functionAttr := by cases kind <;> decide
  have hswitch : kind.functionAttr ≠ "enabled" := by cases kind <;> decide
  rw [← attr?_eq_value?] at haccepts
  simp only [List.mem_cons, List.not_mem_nil, or_false] at ha
  rw [callFront]
  rcases ha with hname | hname | hname
  · rw [hname, Markup.value?_cons_self]
    exact hident hname
  · rw [hname] at haccepts
    rw [hname, Markup.value?_cons_of_ne (by decide), Markup.value?_cons_of_ne hswitch,
      Markup.value?_given_self]
    split
    · rename_i hoff
      rwa [hoff] at haccepts
    · exact henabled hname
  · obtain ⟨function, hvalue⟩ := hfunction
    rw [hname, hvalue] at haccepts
    rwa [hname, Markup.value?_cons_of_ne hid, Markup.value?_cons_self, Element.attr, hvalue,
      Option.getD_some]

theorem nodeId_of_call {c : Call} (h : call g path e supply = .ok (c, left)) :
    nodeId e supply = .ok (c.id, left) := by
  simp only [call, Read.bind_eq_ok_iff, Read.lift_eq_ok_iff, Read.pure_eq_ok_iff] at h
  obtain ⟨type, _, ⟨-, rfl⟩, ident, mid, hident, parts, _, ⟨-, rfl⟩, rfl, rfl⟩ := h
  exact hident

theorem call_sound (hg : g.Printable) {c : Call} (he : Given e.name e.attributes)
    (hcheck : g.checkAttributes e.name e.attributes = [])
    (hkind : (g.spec? e.name).map ElementSpec.kind = some .executable)
    (h : call g path e supply = .ok (c, left)) :
    c.Sound g ∧ c.kind.element = e.name ∧
      ∀ a ∈ c.attributes, Markup.isAttributeName a.1 = true ∨ a ∈ e.attributes := by
  simp only [call, Read.bind_eq_ok_iff, Read.lift_eq_ok_iff, typeOf_eq_ok_iff,
    Read.pure_eq_ok_iff] at h
  obtain ⟨type, _, ⟨htype, rfl⟩, ident, mid, hident, parts, _, ⟨hparts, rfl⟩, hc, rfl⟩ := h
  obtain ⟨entry, hentry, -⟩ := Grammar.type?_eq_some_iff.1 htype
  obtain ⟨hmem, hname⟩ := Grammar.entry?_eq_some hentry
  have hexecutable : entry.spec.kind = .executable := by simpa [Grammar.spec?, hentry] using hkind
  have hformed := callParts_formed hg ⟨by simp, by simp⟩ hparts
  have hwritten := hg.call_written entry hmem hexecutable
  obtain ⟨henabled, needed, hneeded, hfunction, hrequired⟩ := hg.call_needs entry hmem hexecutable
  rw [hname] at hwritten hfunction
  have hgiven := Grammar.exists_value hentry hcheck hneeded hrequired
  generalize callKind e.name = kind at hc hwritten hfunction
  have hattribute : functionAttribute kind = kind.functionAttr := by cases kind <;> rfl
  rw [hfunction, ← attr?_eq_value?] at hgiven
  rw [hattribute] at hc
  have helement : c.kind.element = e.name := by rw [← hc, hwritten]
  have hattributes : c.attributes = callFront kind ident (e.attr kind.functionAttr)
      (if e.attr? "enabled" = some "false" then some "false" else none) ++
        tableAttributes [] (textTable ["id", "enabled", kind.functionAttr] e.attributes) := by
    rw [← hc]
    simp [Call.attributes, callFront]
  refine ⟨⟨⟨entry, helement ▸ hentry, hexecutable, fun a ha hid => ?_⟩, ?_, ?_, ?_⟩, helement,
    fun a ha => ?_⟩
  · obtain ⟨e', hentry', haccepts⟩ := Grammar.checkAttributes_eq_nil_iff.1 hcheck
    obtain rfl := Option.some.inj (hentry.symm.trans hentry')
    rw [hattributes]
    refine accepts_append he (haccepts a ha) (fun b hb => (callFront_names b hb).1) (by simp)
      fun hbesides => ?_
    exact callFront_accepts (fun hname => absurd hname hid) (henabled a ha) hgiven hbesides
      (haccepts a ha)
  · rw [hattributes, ← hc]
    exact textTable_append_tableAttributes (fun a ha => (callFront_names a ha).1)
      (isTextTable_textTable _ _)
  · have hparameters : c.parameters = parts.parameters.getD [] := by rw [← hc]
    cases hfound : parts.parameters with
    | none => exact .inl (by rw [hparameters, hfound, Option.getD_none])
    | some members =>
      rw [hparameters, hfound, Option.getD_some]
      exact hformed.parameters members hfound
  · have hinstructions : c.instructions = parts.instructions.getD [] := by rw [← hc]
    cases hfound : parts.instructions with
    | none =>
      rw [hinstructions, hfound, Option.getD_none]
      exact .nil
    | some content =>
      rw [hinstructions, hfound, Option.getD_some]
      exact hformed.instructions content hfound
  · rw [hattributes] at ha
    rcases List.mem_append.1 ha with ha | ha
    · exact .inl (callFront_names a ha).2
    · exact .inr ((mem_tableAttributes_textTable_iff he.nodup).1 ha).1

theorem mixed_content (hg : g.Printable) {parent : String} {index : Nat} {content : List Inline}
    {ns : Forest} {items : List (Item Element)}
    (h : mixed g path parent type index items supply = .ok ((content, ns), left)) :
    Inline.CanonicalAll g content := by
  induction items generalizing index supply content ns with
  | nil =>
    obtain ⟨heq, -⟩ := Read.pure_eq_ok_iff.1 h
    obtain ⟨rfl, -⟩ := Prod.mk.inj heq
    exact .nil
  | cons item rest ih =>
    cases item with
    | text chars | literal chars =>
      simp only [mixed, Read.bind_eq_ok_iff, Read.pure_eq_ok_iff, Prod.mk.injEq] at h
      obtain ⟨⟨after, others⟩, _, hrest, ⟨rfl, -⟩, rfl⟩ := h
      exact (ih hrest).glue_text (List.nil_sublist _)
    | element inner =>
      simp only [mixed, Read.bind_eq_ok_iff, Read.lift_eq_ok_iff] at h
      obtain ⟨⟨⟩, _, -, h⟩ := h
      split at h
      · simp only [Read.bind_eq_ok_iff, Read.lift_eq_ok_iff, Read.pure_eq_ok_iff, Prod.mk.injEq]
          at h
        obtain ⟨found, _, ⟨hinner, rfl⟩, ⟨after, others⟩, _, hrest, ⟨rfl, -⟩, rfl⟩ := h
        exact (ih hrest).glueAll (inline_canonical hg (List.nil_sublist _) inner hinner)
      · simp only [Read.bind_eq_ok_iff, Read.pure_eq_ok_iff, Prod.mk.injEq] at h
        obtain ⟨first, mid, -, ⟨after, others⟩, _, hrest, ⟨rfl, -⟩, rfl⟩ := h
        exact ih hrest

private theorem Heads.models_alike (hedit : g.Editable) (h : Heads g e supply type ident mid)
    {model : ContentModel} (hmodel : g.model? e.name = some model) :
    ∀ other ∈ g.entries, other.type = type → other.spec.content = model := by
  obtain ⟨entry, hmem, hentry, hkind, htype⟩ := h.entry
  have hcontent : entry.spec.content = model := by
    simpa [Grammar.model?, Grammar.spec?, hentry] using hmodel
  intro other hother hsame
  rw [← hcontent]
  exact hedit.models_alike entry hmem hkind other hother (hsame.trans htype.symm)

private theorem Heads.sound (h : Heads g e supply type ident mid) {content : List Inline}
    (hcontent : Inline.CanonicalAll g content) :
    (Block.mk ident type (blockProps e.name type e.attributes) content).Sound g := by
  obtain ⟨entry, -, hentry, hkind, htype⟩ := h.entry
  have hname := (Grammar.entry?_eq_some hentry).2
  have htable := isTextTable_textTable ["id"] e.attributes
  have hnoid : "id" ∉ (textTable ["id"] e.attributes).names := by
    intro hin
    obtain ⟨a, ha, heq⟩ := List.mem_map.1 hin
    exact htable.names a ha (by simp [heq])
  refine ⟨⟨entry, hname ▸ hentry, hkind, htype⟩, ?_, ?_, hcontent⟩
  · rw [blockProps]
    split
    · exact htable.sorted.put _ _
    · exact htable.sorted
  · rw [blockProps]
    split
    · exact fun hin => (Table.mem_names_put hin).elim (by decide) hnoid
    · exact hnoid

theorem node_sound (hg : g.Printable) (hedit : g.Editable) {n : Node}
    (he : Given e.name e.attributes) (h : node g path e supply = .ok (n, left)) : n.Sound g := by
  obtain ⟨hcheck, hmakes⟩ := node_eq_ok_iff.1 h
  cases hmakes with
  | call kind inside => exact (call_sound hg he hcheck kind inside).1
  | rich head model inside =>
    refine ⟨head.sound (mixed_content hg inside), fun _ other hother _ htype => ?_⟩
    simp [head.models_alike hedit model other hother htype]
  | @text type ident _ head model inside =>
    have hcontent : Inline.CanonicalAll g (plainContent e.text) := by
      rw [plainContent]
      split
      · exact .nil
      · rename_i hne
        exact .singleton (.text (by simpa using hne) (List.nil_sublist _))
    exact ⟨head.sound hcontent, by simp⟩
  | blocks head model rule inside =>
    refine ⟨head.sound .nil, fun _ other hother _ htype => ?_⟩
    rcases model with model | model <;>
      simp [head.models_alike hedit model other hother htype]
  | empty head model rule inside => exact ⟨head.sound .nil, by simp⟩

theorem blocks_sound (hg : g.Printable) (hedit : g.Editable) {parent : String} {index : Nat}
    {ns : Forest} {items : List (Item Element)}
    (hgiven : ∀ d ∈ Element.elementsOfItems items, Given d.name d.attributes)
    (h : blocks g path parent type index items supply = .ok (ns, left)) :
    ∀ n ∈ Forest.preorder ns, n.Sound g := by
  intro n hn
  obtain ⟨d, hd, place, from?, to?, hread⟩ := blocks_originates items h n hn
  exact node_sound hg hedit (hgiven d hd) hread

end LiveDoc.Reading
