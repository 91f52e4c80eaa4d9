import LiveDoc.Proofs.Node.Canonical
import LiveDoc.Proofs.Reading.NodeSound

/-!
# The form of nodes that are read

All nodes that are read are canonical, if their attributes can be written again and the numbers in
their parameters are integers.
-/

set_option autoImplicit false
set_option relaxedAutoImplicit false

namespace LiveDoc

open Markup (Element Item Given Unquoted Writable given value?)
open Grammar.Standard (isId)

/-- The numbers in the parameters of a call are integers. Longer ones than a 64-bit word holds are
binary numbers, which are not. -/
def Call.HasIntegers (c : Call) : Prop :=
  ∀ n ∈ (Json.obj c.parameters).numbers, n.isInteger = true

instance (c : Call) : Decidable c.HasIntegers := inferInstanceAs (Decidable (∀ n ∈ _, _))

theorem Forest.calls_cons (n : Node) (rest : Forest) :
    Forest.calls (n :: rest) = Forest.calls [n] ++ Forest.calls rest := by
  simp [Forest.calls, Forest.preorder]

theorem Forest.calls_block (head : Block) (children : Forest) :
    Forest.calls [.block head (some children)] = Forest.calls children := by
  simp only [Forest.calls, Forest.preorder, List.append_nil]
  exact List.filterMap_cons_none rfl

namespace Reading

/-- The attributes of an element can be written again. -/
structure Rewritable (e : Element) : Prop where
  given : Given e.name e.attributes
  unquoted : ∀ a ∈ e.attributes, Unquoted a.1

variable {g : Grammar} {path : Path} {e : Element} {entry : Grammar.Entry}
  {supply mid left : IdSupply}
  {type ident : String}

theorem Rewritable.names (h : Rewritable e) (hname : Markup.isTagName e.name = true) :
    ∀ a ∈ e.attributes, Markup.isAttributeName a.1 = true :=
  h.given.names (fun _ hc => (Markup.isTagName_char hname hc).2.1) h.unquoted

section Attributes

variable {besides without : List String} {front : List (String × String)}

theorem writable_append (he : Rewritable e) (htag : Markup.isTagName e.name = true)
    (hfront : ∀ a ∈ front, a.1 ∈ besides ∧ Markup.isAttributeName a.1 = true)
    (hnodup : (front.map Prod.fst).Nodup) :
    Writable e.name (front ++ tableAttributes without (textTable besides e.attributes)) := by
  refine ⟨htag, fun a ha => ?_, ?_⟩
  · rcases List.mem_append.1 ha with ha | ha
    · exact (hfront a ha).2
    · exact he.names htag a ((mem_tableAttributes_textTable_iff he.given.nodup).1 ha).1
  · rw [List.map_append, List.nodup_append]
    refine ⟨hnodup, tableAttributes_nodup _ (isTextTable_textTable _ _).sorted, ?_⟩
    rintro name hname _ hother rfl
    obtain ⟨a, ha, rfl⟩ := List.mem_map.1 hname
    obtain ⟨b, hb, heq⟩ := List.mem_map.1 hother
    have hbesides := ((mem_tableAttributes_textTable_iff he.given.nodup).1 hb).2.1
    rw [heq] at hbesides
    exact hbesides (hfront a ha).1

end Attributes

private theorem seed_of_nodeId (h : nodeId e supply = .ok (ident, left)) :
    left.seed = supply.seed := by
  rw [nodeId] at h
  cases hvalue : e.attr? "id" with
  | some given =>
    rw [hvalue, Read.pure_eq_ok_iff] at h
    rw [h.2]
  | none =>
    rw [hvalue] at h
    obtain ⟨-, rfl⟩ := Prod.mk.inj (Except.ok.inj h)
    rfl

private theorem seed_of_call {c : Call} (h : call g path e supply = .ok (c, left)) :
    left.seed = supply.seed :=
  seed_of_nodeId (nodeId_of_call h)

private theorem nodeId_accepts (hids : entry.TakesIds) (hentry : g.entry? e.name = some entry)
    (hcheck : g.checkAttributes e.name e.attributes = []) (hseed : isId supply.seed = true)
    (h : nodeId e supply = .ok (ident, left)) :
    ∀ a ∈ entry.spec.attributes, a.name = "id" → entry.Accepts a (some ident) := by
  obtain ⟨e', he', haccepts⟩ := Grammar.checkAttributes_eq_nil_iff.1 hcheck
  obtain rfl := Option.some.inj (hentry.symm.trans he')
  intro a ha hname
  rw [nodeId] at h
  cases hvalue : e.attr? "id" with
  | some given =>
    rw [hvalue, Read.pure_eq_ok_iff] at h
    obtain ⟨rfl, rfl⟩ := h
    have haccept := haccepts a ha
    rwa [hname, ← attr?_eq_value?, hvalue] at haccept
  | none =>
    rw [hvalue] at h
    obtain ⟨rfl, rfl⟩ := Prod.mk.inj (Except.ok.inj h)
    exact (hids.accepts_iff ha hname).2 (Grammar.Standard.isId_name hseed _)

/-- The props of a block of some type that are not written as attributes. -/
def unwritten (type : String) : List String := if type = "heading" then ["level"] else []

private theorem filter_level (table : Table Json) :
    table.filter (fun entry => !(["level"].contains entry.1)) = Table.erase "level" table := by
  simp [Table.erase]

private theorem tableAttributes_blockProps (name type : String)
    (attributes : List (String × String)) :
    tableAttributes (unwritten type) (blockProps name type attributes) =
      tableAttributes (unwritten type) (textTable ["id"] attributes) := by
  by_cases hheading : type = "heading"
  · rw [blockProps, if_pos hheading, unwritten, if_pos hheading, tableAttributes_eq_filter,
      filter_level, Table.erase_put, ← filter_level, ← tableAttributes_eq_filter]
  · rw [blockProps, if_neg hheading]

private theorem blockProps_written (name type ident : String)
    (attributes : List (String × String)) :
    blockProps name type (("id", ident) ::
        tableAttributes (unwritten type) (blockProps name type attributes)) =
      blockProps name type attributes := by
  have htable := isTextTable_textTable ["id"] attributes
  have hfront : ∀ a ∈ [("id", ident)], a.1 ∈ ["id"] := by simp
  have hread := textTable_append_tableAttributes hfront
    (htable.filter (!(unwritten type).contains ·.1))
  rw [← tableAttributes_eq_filter, List.singleton_append] at hread
  rw [tableAttributes_blockProps, blockProps, hread, blockProps]
  by_cases hheading : type = "heading"
  · rw [unwritten, if_pos hheading, if_pos hheading, if_pos hheading, filter_level,
      htable.sorted.put_of_erase]
  · simp [unwritten, hheading]

private theorem element_of_read (hg : g.Printable) (hentry : entry ∈ g.entries)
    (hkind : entry.spec.kind = .block) {b : Block} (htype : b.kind = entry.type)
    (attributes : List (String × String))
    (hprops : b.props = blockProps entry.spec.name entry.type attributes) :
    b.element = entry.spec.name := by
  by_cases hheading : entry.type = "heading"
  · obtain ⟨-, level, hlevel, hread, hname⟩ := hg.heading_written entry hentry hheading
    have hget : b.props.get? "level" = some (.ofNat level) := by
      rw [hprops, blockProps, if_pos hheading, Table.get?_put_self, hread]
    have hkept : b.level = level := by
      have hnat : (Json.ofNat level).nat? = some level := by simp [Json.ofNat, Json.nat?]
      have hrange : 1 ≤ level ∧ level < 7 := by simpa [List.mem_range'_1] using hlevel
      rw [Block.level, hget]
      show min 6 (max 1 ((Json.ofNat level).nat?.getD 1)) = level
      rw [hnat, Option.getD_some]
      omega
    unfold Block.element
    rw [if_pos (htype.trans hheading), hkept, hname]
  · have hwritten := hg.block_written entry hentry hkind hheading
    rw [Grammar.writtenBlock?] at hwritten
    unfold Block.element
    rw [if_neg (fun h => hheading (htype.symm.trans h)), htype, hwritten, Option.getD_some]

private theorem Heads.canonical (hg : g.Printable) (h : Heads g e supply type ident mid)
    (he : Rewritable e) (hseed : isId supply.seed = true)
    (hcheck : g.checkAttributes e.name e.attributes = []) (content : List Inline) :
    (Block.mk ident type (blockProps e.name type e.attributes) content).Canonical g ∧
      (Block.mk ident type (blockProps e.name type e.attributes) content).element = e.name ∧
      mid.seed = supply.seed := by
  generalize hb : Block.mk ident type (blockProps e.name type e.attributes) content = b
  obtain ⟨entry, hentry, htype⟩ := Grammar.type?_eq_some_iff.1 h.type
  obtain ⟨hmem, hname⟩ := Grammar.entry?_eq_some hentry
  have hkind : entry.spec.kind = .block := by simpa [Grammar.spec?, hentry] using h.kind
  have haccepts := nodeId_accepts (hg.node_ids entry hmem (.inl hkind)) hentry hcheck hseed h.ident
  have helement : b.element = e.name := by
    rw [← hname]
    refine element_of_read hg hmem hkind ?_ e.attributes ?_
    · rw [← hb, htype]
    · rw [← hb, hname, htype]
  have hattributes : b.attributes =
      [("id", ident)] ++ tableAttributes (unwritten type) (textTable ["id"] e.attributes) := by
    rw [← tableAttributes_blockProps e.name, ← hb]
    rfl
  have hwithout : ∀ a ∈ entry.spec.attributes, a.name ∉ unwritten type := by
    intro a ha
    by_cases hheading : type = "heading"
    · simpa [unwritten, hheading] using
        (hg.heading_written entry hmem (htype.trans hheading)).1 a ha
    · simp [unwritten, hheading]
  refine ⟨⟨?_, ?_, ?_, ?_, ?_, ?_⟩, helement, seed_of_nodeId h.ident⟩
  · rw [helement]
    exact h.kind
  · rw [helement, h.type, ← hb]
  · have hmodel := hg.block_model entry hmem hkind
    rw [hname] at hmodel
    unfold Block.model
    rw [helement, hmodel, Option.getD_some, Grammar.model?, Grammar.spec?, hentry]
    rfl
  · rw [helement, hattributes]
    exact writable_append he (hname ▸ hg.names entry hmem) (by simp; decide) (by simp)
  · rw [helement, hattributes]
    refine checkAttributes_append he.given hentry hcheck (by simp) hwithout fun a ha hid _ => ?_
    rw [List.mem_singleton] at hid
    rw [hid, Markup.value?_cons_self]
    exact haccepts a ha hid
  · have hprops := blockProps_written e.name type ident e.attributes
    rw [tableAttributes_blockProps] at hprops
    rw [helement, hattributes, ← hb]
    exact hprops

private theorem call_canonical (hg : g.Printable) {c : Call} (he : Rewritable e)
    (hseed : isId supply.seed = true) (hcheck : g.checkAttributes e.name e.attributes = [])
    (hkind : (g.spec? e.name).map ElementSpec.kind = some .executable)
    (h : call g path e supply = .ok (c, left)) (hintegers : c.HasIntegers) :
    c.Canonical g ∧ c.kind.element = e.name ∧ left.seed = supply.seed := by
  obtain ⟨hsound, helement, hattributes⟩ := call_sound hg he.given hcheck hkind h
  obtain ⟨entry, hentry, -⟩ := Grammar.checkAttributes_eq_nil_iff.1 hcheck
  obtain ⟨hmem, hname⟩ := Grammar.entry?_eq_some hentry
  have hexecutable : entry.spec.kind = .executable := by simpa [Grammar.spec?, hentry] using hkind
  have haccepts := nodeId_accepts (hg.node_ids entry hmem (.inr hexecutable)) hentry hcheck hseed
    (nodeId_of_call h)
  have htag : Markup.isTagName e.name = true := hname ▸ hg.names entry hmem
  refine ⟨⟨hsound.spec, ⟨helement ▸ htag, fun a ha => ?_, hsound.nodup⟩,
    hsound.checkAttributes fun e' hentry' => ?_, hsound.extra,
    hsound.parameters.imp_right fun hread => ?_, hsound.instructions⟩, helement, seed_of_call h⟩
  · exact (hattributes a ha).elim id (he.names htag a)
  · rw [helement] at hentry'
    obtain rfl := Option.some.inj (hentry.symm.trans hentry')
    exact haccepts
  · obtain ⟨s, hs⟩ := hread
    exact Json.readable_of_read? hs hintegers

private theorem model_of_read {b : Block} {model : ContentModel} (h : b.Canonical g)
    (helement : b.element = e.name) (hmodel : g.model? e.name = some model) : b.model = model := by
  have hread := h.model
  rw [helement, hmodel] at hread
  exact (Option.some.inj hread).symm

theorem rewritable_items {name : String} {attributes : List (String × String)}
    {items : List (Item Element)}
    (h : ∀ d ∈ Element.elements ⟨name, attributes, items⟩, Rewritable d) :
    Rewritable ⟨name, attributes, items⟩ ∧ ∀ d ∈ Element.elementsOfItems items, Rewritable d :=
  List.forall_mem_cons.1 h

theorem rewritable_element {inner : Element} {rest : List (Item Element)}
    (h : ∀ d ∈ Element.elementsOfItems (.element inner :: rest), Rewritable d) :
    (∀ d ∈ inner.elements, Rewritable d) ∧ ∀ d ∈ Element.elementsOfItems rest, Rewritable d :=
  List.forall_mem_append.1 h

mutual

/-- A node that is read is canonical, if its attributes can be written again and the numbers in its
parameters are integers. -/
theorem node_canonical (hg : g.Printable) {path : Path} {n : Node} {supply left : IdSupply}
    (hseed : isId supply.seed = true) (hintegers : ∀ c ∈ Forest.calls [n], c.HasIntegers) :
    ∀ e : Element, (∀ d ∈ e.elements, Rewritable d) → node g path e supply = .ok (n, left) →
      n.Canonical g ∧ n.element = e.name ∧ left.seed = supply.seed
  | ⟨name, attributes, items⟩, hgiven, h => by
    obtain ⟨he, hitems⟩ := rewritable_items hgiven
    obtain ⟨hcheck, hmakes⟩ := node_eq_ok_iff.1 h
    cases hmakes with
    | call kind inside =>
      obtain ⟨hcall, hname, hleft⟩ := call_canonical hg he hseed hcheck kind inside
        (hintegers _ (by simp [Forest.calls, Forest.preorder, Node.preorder, Node.call?]))
      exact ⟨.call hcall, hname, hleft⟩
    | @rich type ident mid _ content children head model inside =>
      obtain ⟨hhead, hname, hmid⟩ := head.canonical hg he hseed hcheck content
      have hmodel := model_of_read hhead hname model
      cases children with
      | nil =>
        have hnone : ∀ c ∈ Forest.calls [], c.HasIntegers := by
          simp [Forest.calls, Forest.preorder]
        obtain ⟨-, hleft⟩ := mixed_canonical hg (hmid ▸ hseed) hnone items hitems inside
        exact ⟨.rich hhead hmodel (mixed_content hg inside), hname, hleft.trans hmid⟩
      | cons first others =>
        have hinside := hintegers
        rw [if_neg (by simp), Forest.calls_block] at hinside
        obtain ⟨hchildren, hleft⟩ := mixed_canonical hg (hmid ▸ hseed) hinside items hitems inside
        exact ⟨.mixed hhead hmodel (mixed_content hg inside) (by simp) hchildren, hname,
          hleft.trans hmid⟩
    | text head model inside =>
      obtain ⟨hhead, hname, hmid⟩ := head.canonical hg he hseed hcheck (plainContent _)
      exact ⟨.text hhead (model_of_read hhead hname model) rfl, hname, hmid⟩
    | blocks head model rule inside =>
      obtain ⟨hhead, hname, hmid⟩ := head.canonical hg he hseed hcheck []
      have hmodel := model.imp (model_of_read hhead hname) (model_of_read hhead hname)
      rw [Forest.calls_block] at hintegers
      obtain ⟨hchildren, hleft⟩ :=
        blocks_canonical hg (hmid ▸ hseed) hintegers items hitems inside
      refine ⟨.container hhead hmodel ?_ rfl hchildren, hname, hleft.trans hmid⟩
      rwa [hname]
    | empty head model rule inside =>
      obtain ⟨hhead, hname, hmid⟩ := head.canonical hg he hseed hcheck []
      have hmodel := model.imp (model_of_read hhead hname) (model_of_read hhead hname)
      refine ⟨.empty hhead hmodel ?_ rfl, hname, hmid⟩
      rwa [hname]
termination_by structural e => e

theorem blocks_canonical (hg : g.Printable) {path : Path} {parent type : String} {index : Nat}
    {ns : Forest} {supply left : IdSupply} (hseed : isId supply.seed = true)
    (hintegers : ∀ c ∈ Forest.calls ns, c.HasIntegers) : ∀ items : List (Item Element),
      (∀ d ∈ Element.elementsOfItems items, Rewritable d) →
        blocks g path parent type index items supply = .ok (ns, left) →
          Forest.Canonical g type ns ∧ left.seed = supply.seed
  | [], hgiven, h => by
    obtain ⟨rfl, rfl⟩ := Read.pure_eq_ok_iff.1 h
    exact ⟨.nil, rfl⟩
  | .text chars :: rest, hgiven, h => by
    simp only [blocks] at h
    split at h
    · exact blocks_canonical hg hseed hintegers rest hgiven h
    · simp [Read.lift_eq_ok_iff] at h
  | .literal chars :: rest, hgiven, h => by
    simp only [blocks] at h
    split at h
    · exact blocks_canonical hg hseed hintegers rest hgiven h
    · simp [Read.lift_eq_ok_iff] at h
  | .element inner :: rest, hgiven, h => by
    simp only [blocks, Read.bind_eq_ok_iff, Read.lift_eq_ok_iff, Read.pure_eq_ok_iff] at h
    obtain ⟨⟨⟩, _, ⟨hcheck, rfl⟩, first, mid, hinner, others, _, hrest, rfl, rfl⟩ := h
    obtain ⟨hgivenInner, hgivenRest⟩ := rewritable_element hgiven
    rw [Forest.calls_cons, List.forall_mem_append] at hintegers
    obtain ⟨hfirst, hname, hmid⟩ := node_canonical hg hseed hintegers.1 inner hgivenInner hinner
    obtain ⟨hothers, hleft⟩ :=
      blocks_canonical hg (hmid ▸ hseed) hintegers.2 rest hgivenRest hrest
    exact ⟨.cons hfirst (hname ▸ checkChild_eq_ok_iff.1 hcheck) hothers, hleft.trans hmid⟩
termination_by structural items => items

theorem mixed_canonical (hg : g.Printable) {path : Path} {parent type : String} {index : Nat}
    {content : List Inline} {ns : Forest} {supply left : IdSupply} (hseed : isId supply.seed = true)
    (hintegers : ∀ c ∈ Forest.calls ns, c.HasIntegers) : ∀ items : List (Item Element),
      (∀ d ∈ Element.elementsOfItems items, Rewritable d) →
        mixed g path parent type index items supply = .ok ((content, ns), left) →
          Forest.Canonical g type ns ∧ left.seed = supply.seed
  | [], hgiven, h => by
    obtain ⟨heq, rfl⟩ := Read.pure_eq_ok_iff.1 h
    obtain ⟨rfl, rfl⟩ := Prod.mk.inj heq
    exact ⟨.nil, rfl⟩
  | .text chars :: rest, hgiven, h => by
    simp only [mixed, Read.bind_eq_ok_iff, Read.pure_eq_ok_iff, Prod.mk.injEq] at h
    obtain ⟨⟨after, others⟩, _, hrest, ⟨rfl, rfl⟩, rfl⟩ := h
    exact mixed_canonical hg hseed hintegers rest hgiven hrest
  | .literal chars :: rest, hgiven, h => by
    simp only [mixed, Read.bind_eq_ok_iff, Read.pure_eq_ok_iff, Prod.mk.injEq] at h
    obtain ⟨⟨after, others⟩, _, hrest, ⟨rfl, rfl⟩, rfl⟩ := h
    exact mixed_canonical hg hseed hintegers rest hgiven hrest
  | .element inner :: rest, hgiven, h => by
    simp only [mixed, Read.bind_eq_ok_iff, Read.lift_eq_ok_iff] at h
    obtain ⟨⟨⟩, _, ⟨hcheck, rfl⟩, h⟩ := h
    obtain ⟨hgivenInner, hgivenRest⟩ := rewritable_element hgiven
    split at h
    · simp only [Read.bind_eq_ok_iff, Read.lift_eq_ok_iff, Read.pure_eq_ok_iff, Prod.mk.injEq] at h
      obtain ⟨found, _, ⟨-, rfl⟩, ⟨after, others⟩, _, hrest, ⟨rfl, rfl⟩, rfl⟩ := h
      exact mixed_canonical hg hseed hintegers rest hgivenRest hrest
    · simp only [Read.bind_eq_ok_iff, Read.pure_eq_ok_iff, Prod.mk.injEq] at h
      obtain ⟨first, mid, hinner, ⟨after, others⟩, _, hrest, ⟨rfl, rfl⟩, rfl⟩ := h
      rw [Forest.calls_cons, List.forall_mem_append] at hintegers
      obtain ⟨hfirst, hname, hmid⟩ := node_canonical hg hseed hintegers.1 inner hgivenInner hinner
      obtain ⟨hothers, hleft⟩ :=
        mixed_canonical hg (hmid ▸ hseed) hintegers.2 rest hgivenRest hrest
      exact ⟨.cons hfirst (hname ▸ checkChild_eq_ok_iff.1 hcheck) hothers, hleft.trans hmid⟩
termination_by structural items => items

end

end Reading

end LiveDoc
