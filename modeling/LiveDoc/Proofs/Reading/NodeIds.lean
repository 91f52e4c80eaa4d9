import LiveDoc.Proofs.Edit.DistinctIds
import LiveDoc.Proofs.IdSupply
import LiveDoc.Proofs.Reading.NodeSound
import LiveDoc.Proofs.Reading.Operation

/-!
# Where nodes get their ids

Each block and each call of a source makes one node, in the same order. Its id is the one it has, or
else the next one of the supply, which goes through all of them. So ids that are made up are new.
-/

set_option autoImplicit false
set_option relaxedAutoImplicit false

namespace LiveDoc

open Markup (Element Item)
open Markup.Element (elements elementsOfItems)

/-- Whether elements of a name make nodes: whether they are blocks or calls. -/
def Grammar.makesNode (g : Grammar) (name : String) : Bool :=
  (g.spec? name).any fun spec => spec.kind = .block || spec.kind = .executable

def Grammar.CallsHoldNoNodes (g : Grammar) : Prop :=
  ∀ name ∈ ["params", "content"], g.makesNode name = false

theorem Grammar.Standard.callsHoldNoNodes : Standard.grammar.CallsHoldNoNodes := by
  unfold Grammar.CallsHoldNoNodes
  decide +kernel

/-- All nodes that a source holds, in document order; in a batch these are the ones that operations
carry. -/
def Source.everyNode : Source → List Node
  | .document d => Forest.preorder d.nodes
  | .agent a => Forest.preorder a.document.nodes
  | .diff d => d.operations.flatMap fun o => Forest.preorder o.carried

namespace Reading

variable {g : Grammar}

/-- The blocks and calls among all elements in some items, in order. -/
def nodeElements (g : Grammar) (items : List (Item Element)) : List Element :=
  (elementsOfItems items).filter (g.makesNode ·.name)

def carriedElements (g : Grammar) (e : Element) : List Element :=
  if e.name ∈ ["insert", "replace"] then nodeElements g e.items else []

/-- The blocks and calls of a source that make nodes; in a batch these are the ones in operations
that carry nodes. -/
def sourceElements (g : Grammar) (root : Element) : List Element :=
  if root.name = "diff" then root.children.flatMap (carriedElements g)
  else nodeElements g root.items

theorem mem_elements_of_mem_sourceElements {root e : Element} (h : e ∈ sourceElements g root) :
    e ∈ root.elements := by
  have hinside {d : Element} (h : e ∈ nodeElements g d.items) : e ∈ d.elements :=
    Element.mem_elements_of_items (List.mem_filter.1 h).1
  unfold sourceElements at h
  split at h
  · obtain ⟨o, ho, he⟩ := List.mem_flatMap.1 h
    unfold carriedElements at he
    split at he
    · exact Element.mem_elements_of_child ho (hinside he)
    · simp at he
  · exact hinside h

theorem makesNode_of_isInline {name : String} (h : g.isInline name = true) :
    g.makesNode name = false := by
  unfold Grammar.isInline at h
  unfold Grammar.makesNode
  cases hspec : g.spec? name with
  | none => rfl
  | some spec =>
    have hkind : spec.kind = .inline := by simpa [hspec] using h
    simp [hkind]

mutual

theorem inline_isInline {path : Path} {styles : List String} {found : List Inline} :
    ∀ e : Element, inline g path styles e = .ok found →
      ∀ d ∈ elementsOfItems e.items, g.isInline d.name = true
  | ⟨name, attributes, items⟩, h => by
    simp only [inline, bind_eq_ok_iff] at h
    obtain ⟨⟨⟩, -, type, -, h⟩ := h
    have hempty (h : checkEmpty path ⟨name, attributes, items⟩ = .ok ()) :
        ∀ d ∈ elementsOfItems items, g.isInline d.name = true := by
      have hnone := Element.elementsOfItems_eq_nil (checkEmpty_eq_ok_iff.1 h).1
      simp only [] at hnone
      simp [hnone]
    split at h
    · exact rich_isInline items h
    · split at h
      · exact rich_isInline items h
      · obtain ⟨content, hcontent, -⟩ := bind_eq_ok_iff.1 h
        exact rich_isInline items hcontent
      · obtain ⟨content, hcontent, -⟩ := bind_eq_ok_iff.1 h
        exact rich_isInline items hcontent
      · obtain ⟨⟨⟩, hcheck, -⟩ := bind_eq_ok_iff.1 h
        exact hempty hcheck
      · obtain ⟨⟨⟩, hcheck, -⟩ := bind_eq_ok_iff.1 h
        exact hempty hcheck
      · simp at h
termination_by structural e => e

theorem rich_isInline {path : Path} {parent type : String} {styles : List String}
    {found : List Inline} : ∀ items : List (Item Element),
      rich g path parent type styles items = .ok found →
        ∀ d ∈ elementsOfItems items, g.isInline d.name = true
  | [], _ => by simp [elementsOfItems]
  | .text chars :: rest, h => by
    obtain ⟨after, hafter, -⟩ := bind_eq_ok_iff.1 h
    exact rich_isInline rest hafter
  | .literal chars :: rest, h => by
    obtain ⟨after, hafter, -⟩ := bind_eq_ok_iff.1 h
    exact rich_isInline rest hafter
  | .element inner :: rest, h => by
    obtain ⟨⟨⟩, -, h⟩ := bind_eq_ok_iff.1 h
    split at h
    · simp at h
    · rename_i hname
      obtain ⟨content, hinner, h⟩ := bind_eq_ok_iff.1 h
      obtain ⟨after, hafter, -⟩ := bind_eq_ok_iff.1 h
      rw [elementsOfItems, List.forall_mem_append]
      refine ⟨?_, rich_isInline rest hafter⟩
      have hinside := inline_isInline inner hinner
      obtain ⟨name, attributes, items⟩ := inner
      exact List.forall_mem_cons.2 ⟨by simpa using hname, hinside⟩
termination_by structural items => items

end

theorem nodeElements_of_childless {e : Element} (h : e.children = []) :
    nodeElements g e.items = [] := by
  rw [nodeElements, Element.elementsOfItems_eq_nil h, List.filter_nil]

theorem nodeElements_of_isInline {items : List (Item Element)}
    (h : ∀ d ∈ elementsOfItems items, g.isInline d.name = true) : nodeElements g items = [] := by
  refine List.filter_eq_nil_iff.2 fun d hd => ?_
  simp [makesNode_of_isInline (h d hd)]

theorem nodeElements_cons_element (inner : Element) (rest : List (Item Element)) :
    nodeElements g (.element inner :: rest) =
      inner.elements.filter (g.makesNode ·.name) ++ nodeElements g rest := by
  rw [nodeElements, elementsOfItems, List.filter_append, nodeElements]

theorem filter_elements (e : Element) :
    e.elements.filter (g.makesNode ·.name) =
      (if g.makesNode e.name then [e] else []) ++ nodeElements g e.items := by
  obtain ⟨name, attributes, items⟩ := e
  rw [elements, List.filter_cons, nodeElements]
  split <;> simp

theorem callParts_holds_no_nodes (hg : g.CallsHoldNoNodes) {path : Path} {name type : String}
    {parts found : CallParts} {items : List (Item Element)}
    (h : callParts g path name type parts items = .ok found) : nodeElements g items = [] := by
  induction items generalizing parts with
  | nil => rfl
  | cons item rest ih =>
    cases item with
    | text chars | literal chars =>
      simp only [callParts] at h
      split at h
      · exact ih h
      · simp at h
    | element inner =>
      have hpart {parts : CallParts} (hname : inner.name ∈ ["params", "content"])
          (hinside : nodeElements g inner.items = [])
          (hrest : callParts g path name type parts rest = .ok found) :
          nodeElements g (.element inner :: rest) = [] := by
        rw [nodeElements_cons_element, filter_elements, hg _ hname, hinside, ih hrest]
        rfl
      obtain ⟨⟨⟩, -, h⟩ := bind_eq_ok_iff.1 h
      simp only [] at h
      split at h
      · rename_i hparams
        obtain ⟨parameters, hparameters, h⟩ := bind_eq_ok_iff.1 h
        obtain ⟨⟨⟩, -, hparameters⟩ := bind_eq_ok_iff.1 hparameters
        split at hparameters
        · simp at hparameters
        · rename_i hnone
          refine hpart (by simp [hparams.1]) ?_ h
          exact nodeElements_of_childless (Element.firstChild?_eq_none_iff.1 hnone)
      · split at h
        · rename_i hcontent
          obtain ⟨innerType, -, h⟩ := bind_eq_ok_iff.1 h
          obtain ⟨instructions, hrich, h⟩ := bind_eq_ok_iff.1 h
          refine hpart (by simp [hcontent.1]) ?_ h
          exact nodeElements_of_isInline (rich_isInline inner.items hrich)
        · simp at h

/-- A node is read from an element, with the id that the element has, if it has one. -/
structure ReadFrom (g : Grammar) (e : Element) (n : Node) : Prop where
  read : ∃ (path : Path) (supply left : IdSupply), node g path e supply = .ok (n, left)
  kept : ∀ ident, e.attr? "id" = some ident → n.id = ident

/-- Nodes that are read from elements one by one, their ids drawn from a supply as they are
needed. -/
inductive Draws (g : Grammar) : List Element → IdSupply → List Node → IdSupply → Prop
  | nil {supply : IdSupply} : Draws g [] supply [] supply
  | cons {e : Element} {es : List Element} {n : Node} {ns : List Node} {supply mid left : IdSupply}
    (read : ∃ (path : Path) (supply left : IdSupply), node g path e supply = .ok (n, left))
    (ident : nodeId e supply = .ok (n.id, mid)) (rest : Draws g es mid ns left) :
    Draws g (e :: es) supply (n :: ns) left

theorem Draws.append {es others : List Element} {ns more : List Node}
    {supply mid left : IdSupply} (h : Draws g es supply ns mid)
    (hothers : Draws g others mid more left) :
    Draws g (es ++ others) supply (ns ++ more) left := by
  induction h with
  | nil => exact hothers
  | cons read ident rest ih => exact .cons read ident (ih hothers)

private theorem makesNode_of_read {e : Element} {path : Path} {n : Node} {supply left : IdSupply}
    (h : node g path e supply = .ok (n, left)) : g.makesNode e.name = true := by
  rcases (node_eq_ok_iff.1 h).2.kind with hkind | hkind <;>
  · obtain ⟨spec, hspec, hkind⟩ := Option.map_eq_some_iff.1 hkind
    simp [Grammar.makesNode, hspec, hkind]

private theorem draws_node {e : Element} {path : Path} {n : Node} {supply mid left : IdSupply}
    (hread : node g path e supply = .ok (n, left)) (hident : nodeId e supply = .ok (n.id, mid))
    (hbelow : Draws g (nodeElements g e.items) mid (Forest.preorder (n.children?.getD [])) left) :
    Draws g (e.elements.filter (g.makesNode ·.name)) supply (Forest.preorder [n]) left := by
  rw [filter_elements, makesNode_of_read hread, Forest.preorder_cons]
  exact .cons ⟨path, supply, left, hread⟩ hident (by simpa [Forest.preorder] using hbelow)

private theorem call_holds_no_nodes (hg : g.CallsHoldNoNodes) {path : Path} {e : Element} {c : Call}
    {supply left : IdSupply} (h : call g path e supply = .ok (c, left)) :
    nodeElements g e.items = [] := by
  simp only [call, Read.bind_eq_ok_iff, Read.lift_eq_ok_iff] at h
  obtain ⟨type, _, -, _, _, -, parts, _, ⟨hparts, -⟩, -⟩ := h
  exact callParts_holds_no_nodes hg hparts

mutual

theorem node_draws (hg : g.CallsHoldNoNodes) {path : Path} {n : Node} {supply left : IdSupply} :
    ∀ e : Element, node g path e supply = .ok (n, left) →
      Draws g (e.elements.filter (g.makesNode ·.name)) supply (Forest.preorder [n]) left
  | ⟨name, attributes, items⟩, h => by
    obtain ⟨-, hmakes⟩ := node_eq_ok_iff.1 h
    cases hmakes with
    | call kind inside =>
      refine draws_node h (nodeId_of_call inside) ?_
      rw [call_holds_no_nodes hg inside]
      exact .nil
    | @rich type ident mid _ content children head model inside =>
      refine draws_node h head.ident ?_
      have hbelow := mixed_draws hg items inside
      cases children <;> exact hbelow
    | text head model inside =>
      refine draws_node h head.ident ?_
      rw [nodeElements_of_childless inside]
      exact .nil
    | blocks head model rule inside =>
      exact draws_node h head.ident (blocks_draws hg items inside)
    | empty head model rule inside =>
      refine draws_node h head.ident ?_
      rw [nodeElements_of_childless inside.1]
      exact .nil
termination_by structural e => e

theorem blocks_draws (hg : g.CallsHoldNoNodes) {path : Path} {parent type : String} {index : Nat}
    {ns : Forest} {supply left : IdSupply} : ∀ items : List (Item Element),
      blocks g path parent type index items supply = .ok (ns, left) →
        Draws g (nodeElements g items) supply (Forest.preorder ns) left
  | [], h => by
    obtain ⟨rfl, rfl⟩ := Read.pure_eq_ok_iff.1 h
    exact .nil
  | .text chars :: rest, h => by
    simp only [blocks] at h
    split at h
    · exact blocks_draws hg rest h
    · simp [Read.lift_eq_ok_iff] at h
  | .literal chars :: rest, h => by
    simp only [blocks] at h
    split at h
    · exact blocks_draws hg rest h
    · simp [Read.lift_eq_ok_iff] at h
  | .element inner :: rest, h => by
    simp only [blocks, Read.bind_eq_ok_iff, Read.lift_eq_ok_iff, Read.pure_eq_ok_iff] at h
    obtain ⟨⟨⟩, _, ⟨-, rfl⟩, first, mid, hinner, others, _, hrest, rfl, rfl⟩ := h
    have hfirst := node_draws hg inner hinner
    rw [nodeElements_cons_element, ← List.singleton_append, Forest.preorder_append]
    exact hfirst.append (blocks_draws hg rest hrest)
termination_by structural items => items

theorem mixed_draws (hg : g.CallsHoldNoNodes) {path : Path} {parent type : String} {index : Nat}
    {content : List Inline} {ns : Forest} {supply left : IdSupply} : ∀ items : List (Item Element),
      mixed g path parent type index items supply = .ok ((content, ns), left) →
        Draws g (nodeElements g items) supply (Forest.preorder ns) left
  | [], h => by
    obtain ⟨heq, rfl⟩ := Read.pure_eq_ok_iff.1 h
    obtain ⟨rfl, rfl⟩ := Prod.mk.inj heq
    exact .nil
  | .text chars :: rest, h => by
    simp only [mixed, Read.bind_eq_ok_iff, Read.pure_eq_ok_iff, Prod.mk.injEq] at h
    obtain ⟨⟨after, others⟩, _, hrest, ⟨rfl, rfl⟩, rfl⟩ := h
    exact mixed_draws hg rest hrest
  | .literal chars :: rest, h => by
    simp only [mixed, Read.bind_eq_ok_iff, Read.pure_eq_ok_iff, Prod.mk.injEq] at h
    obtain ⟨⟨after, others⟩, _, hrest, ⟨rfl, rfl⟩, rfl⟩ := h
    exact mixed_draws hg rest hrest
  | .element inner :: rest, h => by
    simp only [mixed, Read.bind_eq_ok_iff, Read.lift_eq_ok_iff] at h
    obtain ⟨⟨⟩, _, ⟨-, rfl⟩, h⟩ := h
    split at h
    · rename_i hname
      simp only [Read.bind_eq_ok_iff, Read.lift_eq_ok_iff, Read.pure_eq_ok_iff, Prod.mk.injEq] at h
      obtain ⟨found, _, ⟨hinner, rfl⟩, ⟨after, others⟩, _, hrest, ⟨rfl, rfl⟩, rfl⟩ := h
      have hinside := nodeElements_of_isInline (inline_isInline inner hinner)
      rw [nodeElements_cons_element, filter_elements, makesNode_of_isInline hname, hinside]
      exact mixed_draws hg rest hrest
    · simp only [Read.bind_eq_ok_iff, Read.pure_eq_ok_iff, Prod.mk.injEq] at h
      obtain ⟨first, mid, hinner, ⟨after, others⟩, _, hrest, ⟨rfl, rfl⟩, rfl⟩ := h
      have hfirst := node_draws hg inner hinner
      rw [nodeElements_cons_element, ← List.singleton_append, Forest.preorder_append]
      exact hfirst.append (mixed_draws hg rest hrest)
termination_by structural items => items

end

theorem operation_draws (hg : g.CallsHoldNoNodes) {path : Path} {e : Element} {o : Edit.Operation}
    {supply left : IdSupply} (h : operation g path e supply = .ok (o, left)) :
    Draws g (carriedElements g e) supply (Forest.preorder o.carried) left := by
  obtain ⟨-, type, -, hperforms⟩ := operation_eq_ok_iff.1 h
  have hcarries (hname : e.name ∈ ["insert", "replace"]) {ns : Forest}
      (hinside : blocks g path e.name type 0 e.items supply = .ok (ns, left)) :
      Draws g (carriedElements g e) supply (Forest.preorder ns) left := by
    rw [carriedElements, if_pos hname]
    exact blocks_draws hg e.items hinside
  have hnothing (hname : e.name ∉ ["insert", "replace"]) :
      Draws g (carriedElements g e) supply [] supply := by
    rw [carriedElements, if_neg hname]
    exact .nil
  cases hperforms with
  | insert name inside | replace name inside => exact hcarries (by simp [name]) inside
  | setProp name | setContent name | setParameters name | rename name | delete name | move name =>
    exact hnothing (by simp [name])

theorem operations_draws (hg : g.CallsHoldNoNodes) {path : Path} {parent type : String}
    {index : Nat} {items : List (Item Element)} {os : List Edit.Operation}
    {supply left : IdSupply}
    (h : operations g path parent type index items supply = .ok (os, left)) :
    Draws g ((items.filterMap Item.element?).flatMap (carriedElements g)) supply
      (os.flatMap fun o => Forest.preorder o.carried) left := by
  induction items generalizing index os supply with
  | nil =>
    obtain ⟨rfl, rfl⟩ := Read.pure_eq_ok_iff.1 h
    exact .nil
  | cons item rest ih =>
    cases item with
    | text chars | literal chars =>
      simp only [operations] at h
      split at h
      · exact ih h
      · simp [Read.lift_eq_ok_iff] at h
    | element inner =>
      simp only [operations, Read.bind_eq_ok_iff, Read.lift_eq_ok_iff, Read.pure_eq_ok_iff] at h
      obtain ⟨⟨⟩, _, ⟨-, rfl⟩, first, mid, hinner, others, _, hrest, rfl, rfl⟩ := h
      exact (operation_draws hg hinner).append (ih hrest)

private theorem document_draws (hg : g.CallsHoldNoNodes) {root : Element} {ident : String}
    {besides : List String} {d : Document} {supply left : IdSupply}
    (h : document g root ident besides supply = .ok (d, left)) :
    Draws g (nodeElements g root.items) supply (Forest.preorder d.nodes) left := by
  simp only [document, Read.bind_eq_ok_iff, Read.lift_eq_ok_iff, Read.pure_eq_ok_iff] at h
  obtain ⟨⟨⟩, _, ⟨-, rfl⟩, type, _, ⟨-, rfl⟩, nodes, _, hblocks, rfl, rfl⟩ := h
  exact blocks_draws hg root.items hblocks

theorem source_draws (hg : g.CallsHoldNoNodes) {root : Element} {ident : String} {s : Source}
    {supply left : IdSupply} (h : source g root ident supply = .ok (s, left)) :
    Draws g (sourceElements g root) supply s.everyNode left := by
  unfold sourceElements
  cases source_eq_ok_iff.1 h with
  | document name inside =>
    rw [if_neg (by simp [name])]
    exact document_draws hg inside
  | agent name inside =>
    simp only [agent, Read.bind_eq_ok_iff, Read.pure_eq_ok_iff] at inside
    obtain ⟨d, _, hd, rfl, rfl⟩ := inside
    rw [if_neg (by simp [name])]
    exact document_draws hg hd
  | diff name inside =>
    simp only [diff, Read.bind_eq_ok_iff, Read.lift_eq_ok_iff, Read.pure_eq_ok_iff] at inside
    obtain ⟨⟨⟩, _, ⟨-, rfl⟩, type, _, ⟨-, rfl⟩, os, _, hos, rfl, rfl⟩ := inside
    rw [if_pos name]
    exact operations_draws hg hos

/-- The ids of nodes whose elements have none, in order. -/
def madeIds (es : List Element) (ns : List Node) : List String :=
  ((es.zip ns).filter fun pair => (pair.1.attr? "id").isNone).map fun pair => pair.2.id

/-- The ids that elements have, in order. -/
def writtenIds (es : List Element) : List String := es.filterMap fun e => e.attr? "id"

theorem nodeId_cases {e : Element} {ident : String} {supply left : IdSupply}
    (h : nodeId e supply = .ok (ident, left)) :
    (e.attr? "id" = some ident ∧ left = supply) ∨
      (e.attr? "id" = none ∧ ident = supply.next.1 ∧ left = supply.next.2) := by
  rw [nodeId] at h
  cases hvalue : e.attr? "id" with
  | some given =>
    rw [hvalue, Read.pure_eq_ok_iff] at h
    exact .inl ⟨congrArg some h.1, h.2.symm⟩
  | none =>
    rw [hvalue] at h
    obtain ⟨hident, hleft⟩ := Prod.mk.inj (Except.ok.inj h)
    exact .inr ⟨rfl, hident.symm, hleft.symm⟩

theorem madeIds_cons_of_some {e : Element} {es : List Element} {n : Node} {ns : List Node}
    {ident : String} (h : e.attr? "id" = some ident) :
    madeIds (e :: es) (n :: ns) = madeIds es ns := by
  simp [madeIds, h]

theorem madeIds_cons_of_none {e : Element} {es : List Element} {n : Node} {ns : List Node}
    (h : e.attr? "id" = none) : madeIds (e :: es) (n :: ns) = n.id :: madeIds es ns := by
  simp [madeIds, h]

theorem writtenIds_cons_of_some {e : Element} {es : List Element} {ident : String}
    (h : e.attr? "id" = some ident) : writtenIds (e :: es) = ident :: writtenIds es :=
  List.filterMap_cons_some h

theorem writtenIds_cons_of_none {e : Element} {es : List Element} (h : e.attr? "id" = none) :
    writtenIds (e :: es) = writtenIds es :=
  List.filterMap_cons_none h

section Ids

variable {es : List Element} {ns : List Node}

theorem ids_perm (h : List.Forall₂ (ReadFrom g) es ns) :
    (ns.map Node.id).Perm (madeIds es ns ++ writtenIds es) := by
  induction h with
  | nil => exact .nil
  | @cons e n es ns hread rest ih =>
    cases hvalue : e.attr? "id" with
    | some ident =>
      rw [madeIds_cons_of_some hvalue, writtenIds_cons_of_some hvalue, List.map_cons,
        hread.kept ident hvalue]
      exact (ih.cons ident).trans List.perm_middle.symm
    | none =>
      rw [madeIds_cons_of_none hvalue, writtenIds_cons_of_none hvalue]
      exact ih.cons n.id

theorem two_le_count_writtenIds (h : List.Forall₂ (ReadFrom g) es ns)
    (hnodup : (madeIds es ns).Nodup) (hnew : ∀ ident ∈ madeIds es ns, ident ∉ writtenIds es)
    {ident : String} (htwice : 2 ≤ (ns.map Node.id).count ident) :
    2 ≤ (writtenIds es).count ident := by
  rw [(ids_perm h).count_eq, List.count_append] at htwice
  by_cases hmade : ident ∈ madeIds es ns
  · have honce := List.nodup_iff_count_le_one.1 hnodup ident
    have hunwritten := List.count_eq_zero.2 (hnew ident hmade)
    omega
  · have hnone := List.count_eq_zero.2 hmade
    omega

end Ids

namespace Draws

variable {es : List Element} {ns : List Node} {supply left : IdSupply}

theorem readFrom (h : Draws g es supply ns left) : List.Forall₂ (ReadFrom g) es ns := by
  induction h with
  | nil => exact .nil
  | cons read ident rest ih =>
    refine .cons ⟨read, fun given hgiven => ?_⟩ ih
    rcases nodeId_cases ident with ⟨hvalue, -⟩ | ⟨hvalue, -, -⟩
    · exact Option.some.inj (hvalue.symm.trans hgiven)
    · simp [hvalue] at hgiven

theorem madeIds_numbered (h : Draws g es supply ns left) :
    ∀ ident ∈ madeIds es ns, ident ∉ supply.reserved ∧
      ∃ k, supply.count < k ∧ ident = IdSupply.name supply.seed k := by
  induction h with
  | nil => simp [madeIds]
  | @cons e es n ns supply mid left read ident rest ih =>
    rcases nodeId_cases ident with ⟨hvalue, rfl⟩ | ⟨hvalue, hnext, rfl⟩
    · rw [madeIds_cons_of_some hvalue]
      exact ih
    · obtain ⟨hcount, hnew, -⟩ := supply.next_spec
      rw [madeIds_cons_of_none hvalue, List.forall_mem_cons]
      refine ⟨⟨hnext ▸ hnew, _, hcount, hnext⟩, fun other hother => ?_⟩
      obtain ⟨hfresh, k, hk, hname⟩ := ih other hother
      exact ⟨hfresh, k, Nat.lt_trans hcount hk, hname⟩

theorem nodup_madeIds (h : Draws g es supply ns left) : (madeIds es ns).Nodup := by
  induction h with
  | nil => simp [madeIds]
  | @cons e es n ns supply mid left read ident rest ih =>
    rcases nodeId_cases ident with ⟨hvalue, rfl⟩ | ⟨hvalue, hnext, rfl⟩
    · rwa [madeIds_cons_of_some hvalue]
    · rw [madeIds_cons_of_none hvalue, List.nodup_cons]
      refine ⟨fun hmem => ?_, ih⟩
      obtain ⟨-, k, hk, hname⟩ := rest.madeIds_numbered _ hmem
      rw [hnext, IdSupply.next_eq_name, IdSupply.seed_next] at hname
      exact absurd (IdSupply.name_injective _ hname) (Nat.ne_of_lt hk)

end Draws

end Reading

end LiveDoc
