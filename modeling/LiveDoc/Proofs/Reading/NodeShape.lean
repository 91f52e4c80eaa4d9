import LiveDoc.Proofs.Edit.DistinctIds
import LiveDoc.Proofs.Grammar.Shaping
import LiveDoc.Proofs.Reading.NodeSound
import LiveDoc.Proofs.Reading.Operation

/-!
# The shape of nodes that are read

Of what type a node is, what it holds and which nodes stand in it hang together: the grammar says
which elements may stand in which, and the model of an element says what is taken out of it.
-/

set_option autoImplicit false
set_option relaxedAutoImplicit false

namespace LiveDoc

open Grammar (flatTypes listTypes definitionTypes outsideTypes nodeHolders)
open Markup (Element Item Given value?)

/-- All blocks among some nodes are of some types. There may be calls among them. -/
def Forest.Of (types : List String) (ns : Forest) : Prop :=
  ∀ n ∈ ns, ∀ b ∈ n.block?, b.kind ∈ types

def Forest.IsItems (ns : Forest) : Prop :=
  ∀ n ∈ ns, ∃ b children, n = .block b children ∧ b.kind = "list_item"

/-- What a block of each type holds besides its id, and which nodes stand in it. -/
inductive Block.Holds (b : Block) : Option Forest → Prop
  | flat (kind : b.kind = "paragraph" ∨ b.kind = "quote") : b.Holds none
  | heading {level : Nat} (kind : b.kind = "heading")
    (value : b.props.get? "level" = some (.ofNat level)) (atLeast : 1 ≤ level)
    (atMost : level ≤ 6) : b.Holds none
  | code (kind : b.kind = "code")
    (content : b.content = [] ∨ ∃ chars, chars ≠ "" ∧ b.content = [.plain chars]) : b.Holds none
  | separator (kind : b.kind = "separator") (content : b.content = []) : b.Holds none
  | list {items : Forest} (kind : b.kind ∈ listTypes) (content : b.content = [])
    (inside : items.IsItems) : b.Holds (some items)
  | definition {nodes : Forest} {name : String} (kind : b.kind ∈ definitionTypes)
    (content : b.content = []) (named : b.props.get? "name" = some (.str name))
    (notBlank : Text.isAllBlank name = false) (inside : nodes.Of outsideTypes) :
    b.Holds (some nodes)
  | item (kind : b.kind = "list_item") : b.Holds none
  | itemHolding {nodes : Forest} (kind : b.kind = "list_item") (nonempty : nodes ≠ [])
    (inside : nodes.Of listTypes) : b.Holds (some nodes)

/-- A node that is well shaped by itself: what it holds, the nodes that stand right in it, and that
what has a place of its own is not kept a second time. -/
inductive Node.Shaped : Node → Prop
  | block {b : Block} {children : Option Forest} (noId : "id" ∉ b.props.names)
    (holds : b.Holds children) : Node.Shaped (.block b children)
  | call {c : Call} (extra : ∀ name ∈ ["id", "enabled", c.kind.functionAttr],
      name ∉ c.extra.names) :
    Node.Shaped (.call c)

/-- The lists of nodes that a source holds: the nodes of a document, those that the operations of a
batch carry. -/
def Source.forests : Source → List Forest
  | .document d => [d.nodes]
  | .agent a => [a.document.nodes]
  | .diff d => d.operations.map Edit.Operation.carried

namespace Reading

variable {g : Grammar} {path : Path} {e : Element} {supply mid left : IdSupply}
  {parent type ident : String} {index : Nat} {n : Node} {ns : Forest} {items : List (Item Element)}

/-- A node that has been read from an element which may stand in elements of a type. -/
def StandsIn (g : Grammar) (type : String) (n : Node) : Prop :=
  ∃ e : Element, g.allows type e.name = true ∧
    ∃ (path : Path) (supply left : IdSupply), node g path e supply = .ok (n, left)

theorem blocks_standIn (h : blocks g path parent type index items supply = .ok (ns, left)) :
    ∀ n ∈ ns, StandsIn g type n := by
  induction items generalizing index ns supply with
  | nil =>
    obtain ⟨rfl, rfl⟩ := Read.pure_eq_ok_iff.1 h
    simp
  | cons item rest ih =>
    cases item with
    | text chars | literal chars =>
      simp only [blocks] at h
      split at h
      · exact ih h
      · simp [Read.lift_eq_ok_iff] at h
    | element inner =>
      simp only [blocks, Read.bind_eq_ok_iff, Read.lift_eq_ok_iff, Read.pure_eq_ok_iff] at h
      obtain ⟨⟨⟩, _, ⟨hcheck, rfl⟩, first, mid, hinner, others, _, hrest, rfl, rfl⟩ := h
      have hallows := (checkChild_eq_ok_iff.1 hcheck).2
      exact List.forall_mem_cons.2 ⟨⟨inner, hallows, _, _, _, hinner⟩, ih hrest⟩

theorem mixed_standIn {content : List Inline}
    (h : mixed g path parent type index items supply = .ok ((content, ns), left)) :
    ∀ n ∈ ns, StandsIn g type n := by
  induction items generalizing index content ns supply with
  | nil =>
    obtain ⟨heq, -⟩ := Read.pure_eq_ok_iff.1 h
    obtain ⟨-, rfl⟩ := Prod.mk.inj heq
    simp
  | cons item rest ih =>
    cases item with
    | text chars | literal chars =>
      simp only [mixed, Read.bind_eq_ok_iff, Read.pure_eq_ok_iff, Prod.mk.injEq] at h
      obtain ⟨⟨after, others⟩, _, hrest, ⟨-, rfl⟩, rfl⟩ := h
      exact ih hrest
    | element inner =>
      simp only [mixed, Read.bind_eq_ok_iff, Read.lift_eq_ok_iff] at h
      obtain ⟨⟨⟩, _, ⟨hcheck, rfl⟩, h⟩ := h
      have hallows := (checkChild_eq_ok_iff.1 hcheck).2
      split at h
      · simp only [Read.bind_eq_ok_iff, Read.lift_eq_ok_iff, Read.pure_eq_ok_iff, Prod.mk.injEq]
          at h
        obtain ⟨found, _, -, ⟨after, others⟩, _, hrest, ⟨-, rfl⟩, rfl⟩ := h
        exact ih hrest
      · simp only [Read.bind_eq_ok_iff, Read.pure_eq_ok_iff, Prod.mk.injEq] at h
        obtain ⟨first, mid, hinner, ⟨after, others⟩, _, hrest, ⟨-, rfl⟩, rfl⟩ := h
        exact List.forall_mem_cons.2 ⟨⟨inner, hallows, _, _, _, hinner⟩, ih hrest⟩

private theorem StandsIn.cases (h : StandsIn g type n) :
    ∃ entry ∈ g.entries, entry.type = type ∧ ∃ name ∈ entry.allowed.getD [],
      ((g.spec? name).map ElementSpec.kind = some .block ∧
          ∃ b children, n = .block b children ∧ g.type? name = some b.kind) ∨
        ((g.spec? name).map ElementSpec.kind = some .executable ∧ ∃ c, n = .call c) := by
  obtain ⟨e, hallows, path, supply, left, hread⟩ := h
  obtain ⟨entry, hentry, htype, hname⟩ := Grammar.allows_eq_true_iff.1 hallows
  refine ⟨entry, hentry, htype, e.name, hname, ?_⟩
  obtain ⟨-, hmakes⟩ := node_eq_ok_iff.1 hread
  cases hmakes with
  | call kind inside => exact .inr ⟨kind, _, rfl⟩
  | rich head | text head | blocks head | empty head => exact .inl ⟨head.kind, _, _, rfl, head.type⟩

private theorem of_standIn {types : List String}
    (hallowed : ∀ entry ∈ g.entries, entry.type = type → ∀ name ∈ entry.allowed.getD [],
      (g.spec? name).map ElementSpec.kind = some .block → ∀ inner ∈ g.type? name, inner ∈ types)
    (h : ∀ n ∈ ns, StandsIn g type n) : ns.Of types := by
  intro n hn b hb
  obtain ⟨entry, hentry, htype, name, hname, ⟨hkind, found, children, rfl, hinner⟩ | ⟨-, c, rfl⟩⟩ :=
    (h n hn).cases
  · obtain rfl := Option.some.inj hb
    exact hallowed entry hentry htype name hname hkind _ hinner
  · simp [Node.block?] at hb

private theorem outside_of_standIn (hg : g.Shaping) (htype : type ∈ nodeHolders ++ definitionTypes)
    (h : ∀ n ∈ ns, StandsIn g type n) : ns.Of outsideTypes :=
  of_standIn (fun entry hentry heq => hg.outside entry hentry (heq ▸ htype)) h

private theorem lists_of_standIn (hg : g.Shaping) (htype : type = "list_item")
    (h : ∀ n ∈ ns, StandsIn g type n) : ns.Of listTypes :=
  of_standIn (fun entry hentry heq => hg.in_item entry hentry (heq.trans htype)) h

private theorem items_of_standIn (hg : g.Shaping) (htype : type ∈ listTypes)
    (h : ∀ n ∈ ns, StandsIn g type n) : ns.IsItems := by
  intro n hn
  obtain ⟨entry, hentry, heq, name, hname, hcases⟩ := (h n hn).cases
  obtain ⟨hblock, hitem⟩ := hg.in_list entry hentry (heq ▸ htype) name hname
  obtain ⟨-, b, children, rfl, hinner⟩ | ⟨hcall, -⟩ := hcases
  · exact ⟨b, children, rfl, Option.some.inj (hinner.symm.trans hitem)⟩
  · simp [hblock] at hcall

private theorem eq_nil_of_standIn (hg : g.Shaping) (htype : type ∈ flatTypes)
    (h : ∀ n ∈ ns, StandsIn g type n) : ns = [] := by
  refine List.eq_nil_iff_forall_not_mem.2 fun n hn => ?_
  obtain ⟨entry, hentry, heq, name, hname, hcases⟩ := (h n hn).cases
  have hinline := hg.in_flat entry hentry (heq ▸ htype) name hname
  obtain ⟨spec, hspec, hkind⟩ : ∃ spec, g.spec? name = some spec ∧ spec.kind = .inline := by
    simpa [Grammar.isInline, Option.any_eq_true] using hinline
  rcases hcases with ⟨hother, -⟩ | ⟨hother, -⟩ <;> simp [hspec, hkind] at hother

theorem headingLevel_bounds (name : String) : 1 ≤ headingLevel name ∧ headingLevel name ≤ 6 := by
  unfold headingLevel
  simp only []
  split
  · rename_i h
    have hlt := List.idxOf_lt_length_of_mem (List.contains_iff_mem.1 h)
    simp only [List.length_cons, List.length_nil] at hlt
    omega
  · omega

private theorem Heads.named (hedit : g.Editable) (he : Given e.name e.attributes)
    (hcheck : g.checkAttributes e.name e.attributes = []) (h : Heads g e supply type ident mid)
    (htype : type ∈ definitionTypes) :
    ∃ name, (blockProps e.name type e.attributes).get? "name" = some (.str name) ∧
      Text.isAllBlank name = false := by
  obtain ⟨entry, hmem, hentry, -, rfl⟩ := h.entry
  obtain ⟨entry', hentry', haccepts⟩ := Grammar.checkAttributes_eq_nil_iff.1 hcheck
  obtain rfl := Option.some.inj (hentry.symm.trans hentry')
  obtain ⟨⟨a, ha, hname⟩, hnamed⟩ := hedit.definitions entry hmem htype
  have haccept := (hnamed a ha hname _).1 (haccepts a ha)
  rw [hname] at haccept
  obtain ⟨name, hvalue, hblank⟩ : ∃ name, value? "name" e.attributes = some name ∧
      Text.isAllBlank name = false := by
    simpa [Grammar.isNamed, Option.any_eq_true] using haccept
  have hheading : entry.type ≠ "heading" := by
    rintro heq
    rw [heq] at htype
    exact absurd htype (by decide)
  rw [blockProps, if_neg hheading]
  exact ⟨name, get?_textTable he.nodup (by decide) hvalue, hblank⟩

theorem node_shaped (hg : g.Shaping) (hprint : g.Printable) (hedit : g.Editable)
    (he : Given e.name e.attributes) (h : node g path e supply = .ok (n, left)) : n.Shaped := by
  have hsound := node_sound hprint hedit he h
  obtain ⟨hcheck, hmakes⟩ := node_eq_ok_iff.1 h
  cases hmakes with
  | @call c _ kind inside =>
    refine .call fun name hname hmem => ?_
    obtain ⟨entry, hentry, rfl⟩ := List.mem_map.1 hmem
    rw [← hsound.extra] at hentry
    exact (isTextTable_textTable _ _).names entry hentry hname
  | @rich type ident mid _ content children head model inside =>
    obtain ⟨entry, hmem, hentry, hkind, rfl⟩ := head.entry
    have hcontent : entry.spec.content = .rich := by
      simpa [Grammar.model?, Grammar.spec?, hentry] using model
    have hstand := mixed_standIn inside
    refine .block hsound.1.props ?_
    rcases hg.rich_type entry hmem hkind hcontent with hitem | hflat
    · cases children with
      | nil => exact .item hitem
      | cons first others => exact .itemHolding hitem (by simp) (lists_of_standIn hg hitem hstand)
    · obtain rfl := eq_nil_of_standIn hg hflat hstand
      by_cases hheading : entry.type = "heading"
      · obtain ⟨hge, hle⟩ := headingLevel_bounds e.name
        refine .heading hheading ?_ hge hle
        simp [blockProps, hheading]
      · refine .flat ?_
        simpa [flatTypes, hheading] using hflat
  | @text type ident _ head model inside =>
    obtain ⟨entry, hmem, hentry, hkind, rfl⟩ := head.entry
    have hcontent : entry.spec.content = .text := by
      simpa [Grammar.model?, Grammar.spec?, hentry] using model
    refine .block hsound.1.props (.code (hg.text_type entry hmem hkind hcontent) ?_)
    by_cases hempty : e.text = ""
    · exact .inl (by simp [plainContent, hempty])
    · exact .inr ⟨e.text, hempty, by simp [plainContent, hempty]⟩
  | @blocks type ident mid _ children head model rule inside =>
    obtain ⟨entry, hmem, hentry, hkind, rfl⟩ := head.entry
    have hcontent : entry.spec.content ∈ [.json, .none] := by
      simpa [Grammar.model?, Grammar.spec?, hentry] using model
    have hallowed : entry.allowed.isSome = true := by
      simpa [Grammar.hasChildrenRule, hentry] using rule
    have hstand := blocks_standIn inside
    refine .block hsound.1.props ?_
    rcases hg.holding_type entry hmem hkind hcontent hallowed with hlist | hdefinition
    · exact .list hlist rfl (items_of_standIn hg hlist hstand)
    · obtain ⟨name, hname, hblank⟩ := head.named hedit he hcheck hdefinition
      exact .definition hdefinition rfl hname hblank
        (outside_of_standIn hg (List.mem_append_right _ hdefinition) hstand)
  | @empty type ident _ head model rule inside =>
    obtain ⟨entry, hmem, hentry, hkind, rfl⟩ := head.entry
    have hcontent : entry.spec.content ∈ [.json, .none] := by
      simpa [Grammar.model?, Grammar.spec?, hentry] using model
    have hallowed : entry.allowed.isSome = false := by
      simpa [Grammar.hasChildrenRule, hentry] using rule
    exact .block hsound.1.props (.separator (hg.empty_type entry hmem hkind hcontent hallowed) rfl)

/-- A list of nodes that has been read from all that stands in an element which may hold nodes. -/
def HeldBy (g : Grammar) (e : Element) (ns : Forest) : Prop :=
  e.name ∈ nodeHolders ∧ ∃ type, g.type? e.name = some type ∧
    ∃ (path : Path) (supply left : IdSupply),
      blocks g path e.name type 0 e.items supply = .ok (ns, left)

/-- The nodes of a list that is held by an element stand outside of lists, and all nodes in it, at
any depth, are well shaped. -/
theorem HeldBy.shaped (hg : g.Shaping) (hprint : g.Printable) (hedit : g.Editable)
    (h : HeldBy g e ns) (hgiven : ∀ d ∈ e.elements, Given d.name d.attributes) :
    ns.Of outsideTypes ∧ ∀ n ∈ Forest.preorder ns, n.Shaped := by
  obtain ⟨hname, type, htype, path, supply, left, hread⟩ := h
  have hholder : type = e.name := Option.some.inj (htype.symm.trans (hg.holder_type _ hname))
  refine ⟨outside_of_standIn hg (List.mem_append_left _ (hholder ▸ hname)) (blocks_standIn hread),
    fun n hn => ?_⟩
  obtain ⟨d, hd, place, from?, to?, hnode⟩ := blocks_originates e.items hread n hn
  exact node_shaped hg hprint hedit (hgiven d (Element.mem_elements_of_items hd)) hnode

theorem operation_heldBy {o : Edit.Operation} (h : operation g path e supply = .ok (o, left)) :
    o.carried = [] ∨ HeldBy g e o.carried := by
  obtain ⟨-, type, htype, hperforms⟩ := operation_eq_ok_iff.1 h
  cases hperforms with
  | insert name inside | replace name inside =>
    exact .inr ⟨by simp [name, nodeHolders], type, htype, path, supply, left, inside⟩
  | _ => exact .inl rfl

theorem operations_heldBy {os : List Edit.Operation}
    (h : operations g path parent type index items supply = .ok (os, left)) :
    ∀ o ∈ os, o.carried = [] ∨ ∃ d ∈ Element.elementsOfItems items, HeldBy g d o.carried := by
  intro o ho
  obtain ⟨e, he, place, from?, to?, hread⟩ := operations_originate h o ho
  refine (operation_heldBy hread).imp_right fun hheld => ⟨e, ?_, hheld⟩
  exact Element.mem_elementsOfItems_iff.2 ⟨e, he, Element.mem_elements_self e⟩

theorem source_heldBy {root : Element} {s : Source}
    (h : source g root ident supply = .ok (s, left)) :
    ∀ ns ∈ s.forests, ns = [] ∨ ∃ d ∈ root.elements, HeldBy g d ns := by
  have hdocument {besides : List String} {d : Document} (hname : root.name ∈ nodeHolders)
      (h : document g root ident besides supply = .ok (d, left)) :
      ∃ e ∈ root.elements, HeldBy g e d.nodes := by
    simp only [document, Read.bind_eq_ok_iff, Read.lift_eq_ok_iff, typeOf_eq_ok_iff,
      Read.pure_eq_ok_iff] at h
    obtain ⟨⟨⟩, _, -, type, _, ⟨htype, rfl⟩, nodes, _, hblocks, rfl, rfl⟩ := h
    exact ⟨root, Element.mem_elements_self root, hname, type, htype, _, _, _, hblocks⟩
  cases source_eq_ok_iff.1 h with
  | document name inside =>
    simpa [Source.forests] using .inr (hdocument (by simp [name, nodeHolders]) inside)
  | agent name inside =>
    simp only [agent, Read.bind_eq_ok_iff, Read.pure_eq_ok_iff] at inside
    obtain ⟨d, _, hd, rfl, rfl⟩ := inside
    simpa [Source.forests] using .inr (hdocument (by simp [name, nodeHolders]) hd)
  | diff name inside =>
    simp only [diff, Read.bind_eq_ok_iff, Read.pure_eq_ok_iff] at inside
    obtain ⟨⟨⟩, _, -, type, _, -, os, _, hos, rfl, rfl⟩ := inside
    refine List.forall_mem_map.2 fun o ho => ?_
    refine (operations_heldBy hos o ho).imp_right fun hheld => ?_
    obtain ⟨d, hd, hheld⟩ := hheld
    exact ⟨d, Element.mem_elements_of_items hd, hheld⟩

end Reading

namespace Source

/-- Whatever source is accepted, only blocks that may stand outside of lists and calls stand in its
lists of nodes, and all nodes in them, at any depth, are well shaped. -/
theorem shaped_of_parse {text : String} {s : Source} (h : Source.parse text = .ok s) :
    ∀ ns ∈ s.forests, ns.Of outsideTypes ∧ ∀ n ∈ Forest.preorder ns, n.Shaped := by
  intro ns hns
  obtain ⟨root, hroot, left, hsource⟩ := Reading.parse_eq_ok_iff.1 h
  rcases Reading.source_heldBy hsource ns hns with rfl | ⟨e, he, hheld⟩
  · simp [Forest.Of, Forest.preorder]
  · have hgiven := Markup.given_of_ofText hroot
    exact hheld.shaped Grammar.Standard.shaping Grammar.Standard.printable
      Grammar.Standard.editable fun d hd => hgiven d (Element.mem_elements_trans hd root he)

/-- A level that is written stands beside the element that says another one, and an item and a
definition hold other nodes. -/
theorem shaped_of_parse_nested :
    let text := "<diff><insert atEnd=\"true\"><h2 level=\"9\">x</h2>" ++
      "<ul><li>a<ol><li/></ol></li></ul></insert><replace blockId=\"b\"><tool name=\"t\"><hr/>" ++
      "<pre> </pre><fncall idyll-fn=\"f\" enabled=\"false\" a=\"1\"/></tool></replace></diff>"
    ∃ s, Source.parse text = .ok s ∧
      s.forests.map (fun ns => (Forest.preorder ns).map Node.typeName) =
        [["heading", "bullet_list", "list_item", "numbered_list", "list_item"],
          ["tool_definition", "separator", "code", "function_call"]] ∧
      ∀ ns ∈ s.forests, ns.Of outsideTypes ∧ ∀ n ∈ Forest.preorder ns, n.Shaped := by
  intro text
  have hread : ∃ s ∈ (Source.parse text).toOption,
      s.forests.map (fun ns => (Forest.preorder ns).map Node.typeName) =
        [["heading", "bullet_list", "list_item", "numbered_list", "list_item"],
          ["tool_definition", "separator", "code", "function_call"]] := by
    decide +kernel
  obtain ⟨s, hs, htypes⟩ := hread
  have hparse := toOption_eq_some_iff.1 hs
  exact ⟨s, hparse, htypes, shaped_of_parse hparse⟩

end Source

end LiveDoc
