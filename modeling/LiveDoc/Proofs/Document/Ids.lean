import LiveDoc.Proofs.Document.RoundTrip
import LiveDoc.Proofs.Reading.NodeIds

/-!
# Ids of what is read

The ids that are made up for the nodes of a source are new to it, so an id can only stand twice if
it is written twice. All ids follow the pattern of the grammar, but for those made up in a batch the
root of which has an id that does not.
-/

set_option autoImplicit false
set_option relaxedAutoImplicit false

namespace LiveDoc

open Markup (Element)
open Reading (Draws ReadFrom madeIds writtenIds sourceElements)
open Grammar.Standard (grammar followsIdPattern isId)

theorem Markup.Element.mem_ids_of_mem_elements {e : Element} {ident : String} :
    ∀ root : Element, e ∈ root.elements → e.attr? "id" = some ident → ident ∈ root.ids := by
  refine Element.induct (Q := fun items =>
    e ∈ Element.elementsOfItems items → e.attr? "id" = some ident →
      ident ∈ Element.idsOfItems items) ?mk ?nil (fun _ _ ih => ih) (fun _ _ ih => ih) ?element
  case mk =>
    intro name attributes items hinside he hvalue
    rw [Element.ids, List.mem_append]
    rcases List.mem_cons.1 he with rfl | he
    · exact .inl (Option.mem_toList.2 hvalue)
    · exact .inr (hinside he hvalue)
  case nil =>
    intro he
    simp [Element.elementsOfItems] at he
  case element =>
    intro inner rest hinner hrest he hvalue
    rw [Element.idsOfItems, List.mem_append]
    rcases List.mem_append.1 he with he | he
    · exact .inl (hinner he hvalue)
    · exact .inr (hrest he hvalue)

def Grammar.NodesHaveIds (g : Grammar) : Prop :=
  ∀ e ∈ g.entries, e.spec.kind = .block ∨ e.spec.kind = .executable →
    ∃ a ∈ e.spec.attributes, a.name = "id"

theorem Grammar.Standard.nodesHaveIds : Standard.grammar.NodesHaveIds := by
  unfold Grammar.NodesHaveIds
  decide +kernel

namespace Reading

variable {g : Grammar} {es : List Element} {ns : List Node}

theorem ReadFrom.isId_written (hg : g.Printable) (hids : g.NodesHaveIds) {e : Element} {n : Node}
    (h : ReadFrom g e n) {ident : String} (hvalue : e.attr? "id" = some ident) :
    isId ident = true := by
  obtain ⟨path, supply, left, hread⟩ := h.read
  obtain ⟨hcheck, hmakes⟩ := node_eq_ok_iff.1 hread
  obtain ⟨entry, hentry, haccepts⟩ := Grammar.checkAttributes_eq_nil_iff.1 hcheck
  have hmem := (Grammar.entry?_eq_some hentry).1
  have hkind : entry.spec.kind = .block ∨ entry.spec.kind = .executable := by
    simpa [Grammar.spec?, hentry] using hmakes.kind
  obtain ⟨a, ha, hname⟩ := hids entry hmem hkind
  have haccept := haccepts a ha
  rw [hname, ← attr?_eq_value?, hvalue] at haccept
  exact ((hg.node_ids entry hmem hkind).accepts_iff ha hname).1 haccept

theorem isId_of_mem_writtenIds (hg : g.Printable) (hids : g.NodesHaveIds)
    (h : List.Forall₂ (ReadFrom g) es ns) : ∀ ident ∈ writtenIds es, isId ident = true := by
  induction h with
  | nil => simp [writtenIds]
  | @cons e n es ns hread rest ih =>
    cases hvalue : e.attr? "id" with
    | some ident =>
      rw [writtenIds_cons_of_some hvalue, List.forall_mem_cons]
      exact ⟨hread.isId_written hg hids hvalue, ih⟩
    | none => rwa [writtenIds_cons_of_none hvalue]

theorem madeIds_eq_nil_iff (h : List.Forall₂ (ReadFrom g) es ns) :
    madeIds es ns = [] ↔ ∀ e ∈ es, (e.attr? "id").isSome = true := by
  induction h with
  | nil => simp [madeIds]
  | @cons e n es ns hread rest ih =>
    cases hvalue : e.attr? "id" with
    | some ident => rw [madeIds_cons_of_some hvalue, List.forall_mem_cons, hvalue, ih]; simp
    | none => rw [madeIds_cons_of_none hvalue, List.forall_mem_cons, hvalue]; simp

theorem Draws.isId_iff (hg : g.Printable) (hids : g.NodesHaveIds) {supply left : IdSupply}
    (h : Draws g es supply ns left) :
    (∀ n ∈ ns, isId n.id = true) ↔
      isId supply.seed = true ∨ ∀ e ∈ es, (e.attr? "id").isSome = true := by
  have hread := h.readFrom
  have hall : (∀ n ∈ ns, isId n.id = true) ↔ ∀ ident ∈ madeIds es ns, isId ident = true := by
    rw [← List.forall_mem_map (f := Node.id) (P := fun ident => isId ident = true)]
    simp only [(ids_perm hread).mem_iff, List.mem_append]
    refine ⟨fun h ident hident => h ident (.inl hident), fun h ident hident => ?_⟩
    exact hident.elim (h ident) (isId_of_mem_writtenIds hg hids hread ident)
  rw [hall, ← madeIds_eq_nil_iff hread]
  constructor
  · intro hmade
    cases hcons : madeIds es ns with
    | nil => exact .inr rfl
    | cons ident others =>
      have hfirst : ident ∈ madeIds es ns := hcons ▸ List.mem_cons_self
      obtain ⟨-, k, -, rfl⟩ := h.madeIds_numbered ident hfirst
      exact .inl (Grammar.Standard.isId_of_isId_name (hmade _ hfirst))
  · rintro (hseed | hnone) ident hident
    · obtain ⟨-, k, -, rfl⟩ := h.madeIds_numbered ident hident
      exact Grammar.Standard.isId_name hseed k
    · simp [hnone] at hident

end Reading

namespace Source

theorem everyNode_of_document? {s : Source} {d : Document} (h : s.document? = some d) :
    s.everyNode = Forest.preorder d.nodes := by
  cases s with
  | document => exact congrArg (Forest.preorder ·.nodes) (Option.some.inj h)
  | agent => exact congrArg (Forest.preorder ·.nodes) (Option.some.inj h)
  | diff => simp [document?] at h

private theorem draws_of_parse {text : String} {s : Source} (h : Source.parse text = .ok s) :
    ∃ root, Element.ofText text = .ok root ∧ ∃ left,
      Draws grammar (sourceElements grammar root)
        (.ofSeed ((root.attr? "id").getD (documentId text)) root.ids) s.everyNode left := by
  obtain ⟨root, hroot, left, hsource⟩ := Reading.parse_eq_ok_iff.1 h
  exact ⟨root, hroot, left, Reading.source_draws Grammar.Standard.callsHoldNoNodes hsource⟩

/-- The ids that are made up for blocks and calls of a source are all different, and none of them is
written as an id anywhere in it. So if the check of a document finds that an id stands twice, it is
written in two of its blocks and calls. -/
theorem made_ids_are_new {text : String} {s : Source} (h : Source.parse text = .ok s) :
    ∃ root, Element.ofText text = .ok root ∧
      let es := sourceElements grammar root
      List.Forall₂ (ReadFrom grammar) es s.everyNode ∧
      (madeIds es s.everyNode).Nodup ∧
      (∀ ident ∈ madeIds es s.everyNode, ∀ e ∈ root.elements, ("id", ident) ∉ e.attributes) ∧
      ∀ d, s.document? = some d → ∀ f ∈ d.check, f.kind = .duplicateId →
        ∃ path n, (path, n) ∈ Forest.placed d.nodes ∧ f.place = Forest.placeText path ∧
          (∃ first,
            f.message = "Duplicate node id '" ++ n.id ++ "' (first used at " ++ first ++ ")") ∧
          2 ≤ (writtenIds es).count n.id := by
  obtain ⟨root, hroot, left, hdraws⟩ := draws_of_parse h
  have hread := hdraws.readFrom
  have hnew : ∀ ident ∈ madeIds (sourceElements grammar root) s.everyNode, ∀ e ∈ root.elements,
      e.attr? "id" ≠ some ident := fun ident hident e he hvalue =>
    (hdraws.madeIds_numbered ident hident).1 (Element.mem_ids_of_mem_elements root he hvalue)
  refine ⟨root, hroot, hread, hdraws.nodup_madeIds, fun ident hident e he hmem => ?_,
    fun d hd f hf hkind => ?_⟩
  · have hgiven := Markup.given_of_ofText hroot e he
    exact hnew ident hident e he ((Markup.value?_eq_some_iff hgiven.nodup).2 hmem)
  · obtain ⟨path, n, hn, hplace, hmessage, htwice⟩ := Forest.repeated_of_mem_check hf hkind
    refine ⟨path, n, hn, hplace, hmessage, ?_⟩
    rw [Forest.ids, ← everyNode_of_document? hd] at htwice
    refine Reading.two_le_count_writtenIds hread hdraws.nodup_madeIds (fun ident hident hmem => ?_)
      htwice
    obtain ⟨e, he, hvalue⟩ := List.mem_filterMap.1 hmem
    exact hnew ident hident e (Reading.mem_elements_of_mem_sourceElements he) hvalue

/-- Ids that look like made-up ones are written behind the places where ids are made up, one of them
on a mention, and another one is written twice. -/
theorem made_ids_are_new_later :
    let text := "<document id=\"d\"><p/><p id=\"x\"><mention id=\"d-1\" type=\"t\" label=\"\"/>" ++
      "</p><ul><li/><li id=\"d-3\"/></ul><hr id=\"x\"/></document>"
    ∃ s root d, Source.parse text = .ok s ∧ Element.ofText text = .ok root ∧
      s.document? = some d ∧ (∃ f ∈ d.check, f.kind = .duplicateId) ∧
      madeIds (sourceElements grammar root) s.everyNode = ["d-2", "d-4", "d-5"] ∧
      (∀ ident ∈ ["d-2", "d-4", "d-5"], ∀ e ∈ root.elements, ("id", ident) ∉ e.attributes) ∧
      ∃ ident, 2 ≤ (writtenIds (sourceElements grammar root)).count ident := by
  intro text
  have hmade : ∃ s ∈ (Source.parse text).toOption, ∃ root ∈ (Element.ofText text).toOption,
      ∃ d ∈ s.document?, (∃ f ∈ d.check, f.kind = .duplicateId) ∧
        madeIds (sourceElements grammar root) s.everyNode = ["d-2", "d-4", "d-5"] := by
    decide +kernel
  obtain ⟨s, hs, root, hroot, d, hd, ⟨f, hf, hkind⟩, hmade⟩ := hmade
  have hparse := toOption_eq_some_iff.1 hs
  obtain ⟨root', hroot', -, -, hnew, hrepeated⟩ := made_ids_are_new hparse
  obtain rfl := Except.ok.inj ((toOption_eq_some_iff.1 hroot).symm.trans hroot')
  obtain ⟨-, n, -, -, -, htwice⟩ := hrepeated d hd f hf hkind
  rw [hmade] at hnew
  exact ⟨s, root, d, hparse, hroot', hd, ⟨f, hf, hkind⟩, hmade, hnew, n.id, htwice⟩

/-- All ids of the nodes of a source follow the pattern of ids exactly if the root has no id or one
that does, or if no id is made up. For documents and agents they always do. -/
theorem ids_follow_pattern_iff {text : String} {s : Source} (h : Source.parse text = .ok s) :
    ∃ root, Element.ofText text = .ok root ∧
      ((∀ n ∈ s.everyNode, followsIdPattern n.id = true) ↔
        (∀ ident, root.attr? "id" = some ident → followsIdPattern ident = true) ∨
          ∀ e ∈ sourceElements grammar root, (e.attr? "id").isSome = true) ∧
      (s.diff? = none → ∀ n ∈ s.everyNode, followsIdPattern n.id = true) := by
  have hg := Grammar.Standard.printable
  obtain ⟨root, hroot, left, hsource⟩ := Reading.parse_eq_ok_iff.1 h
  have hdraws := Reading.source_draws Grammar.Standard.callsHoldNoNodes hsource
  have hiff := hdraws.isId_iff hg Grammar.Standard.nodesHaveIds
  have hseed : isId ((root.attr? "id").getD (documentId text)) = true ↔
      ∀ ident, root.attr? "id" = some ident → isId ident = true := by
    cases root.attr? "id" with
    | none => simp [Grammar.Standard.isId_documentId]
    | some ident => simp
  rw [← Grammar.Standard.isId_eq_followsIdPattern]
  refine ⟨root, hroot, hiff.trans (or_congr_left hseed), fun hnodiff => hiff.2 (.inl ?_)⟩
  obtain ⟨d, -, hname, hd⟩ | ⟨a, -, hname, hd, -⟩ := Reading.of_source hsource hnodiff
  · exact Reading.isId_root hg (.inl hname) (Reading.checkAttributes_of_document hd) text
  · exact Reading.isId_root hg (.inr hname) (Reading.checkAttributes_of_document hd) text

/-- The id of the root of a batch is not looked at, and ids that are made up begin with it. -/
theorem ids_follow_pattern_iff_blank :
    let text := "<diff id=\"a b\"><insert atEnd=\"true\"><p/></insert></diff>"
    let s := Source.diff ⟨none, [.insert ⟨none, false, true⟩
      [.block ⟨"a b-1", "paragraph", [], []⟩ none]]⟩
    Source.parse text = .ok s ∧ ¬ ∀ n ∈ s.everyNode, followsIdPattern n.id = true := by
  intro text s
  have hparse : Source.parse text = .ok s := toOption_eq_some_iff.1 (by decide +kernel)
  obtain ⟨root, hroot, hiff, -⟩ := ids_follow_pattern_iff hparse
  refine ⟨hparse, fun hall => ?_⟩
  have hfound : (Element.ofText text).toOption.map (fun root =>
      (root.attr? "id", (sourceElements grammar root).map (·.attr? "id"))) =
        some (some "a b", [none]) := by
    decide +kernel
  rw [hroot, Except.toOption, Option.map_some, Option.some_inj, Prod.mk.injEq] at hfound
  rcases hiff.1 hall with hroot | hwritten
  · exact absurd (hroot "a b" hfound.1) (by decide +kernel)
  · have hnone : none ∈ (sourceElements grammar root).map (·.attr? "id") := by simp [hfound.2]
    obtain ⟨e, he, hvalue⟩ := List.mem_map.1 hnone
    simpa [hvalue] using hwritten e he

end Source

end LiveDoc
