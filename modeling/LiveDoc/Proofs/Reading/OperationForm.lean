import LiveDoc.Proofs.Edit.Outline
import LiveDoc.Proofs.Reading.NodeForm

/-!
# The form of operations that are read

All operations that are read are canonical, if the attributes in them can be written again and the
numbers in parameters are integers.
-/

set_option autoImplicit false
set_option relaxedAutoImplicit false

namespace LiveDoc

open Markup (Element Item value?)
open Grammar (writtenOperations)
open Grammar.Standard (isId)
open Edit (Markers Targets Operation)

/-- The numbers in the parameters that an operation sets or carries are integers. -/
def Edit.Operation.HasIntegers : Operation → Prop
  | .setParameters _ parameters => ∀ n ∈ (Json.obj parameters).numbers, n.isInteger = true
  | .insert _ nodes | .replace _ nodes => ∀ c ∈ Forest.calls nodes, c.HasIntegers
  | .setProp .. | .setContent .. | .rename .. | .delete _ | .move .. => True

instance (o : Operation) : Decidable o.HasIntegers := by
  cases o <;> unfold Edit.Operation.HasIntegers <;> infer_instance

namespace Reading

variable {g : Grammar} {path : Path} {e : Element} {o : Operation} {type : String}
  {supply left : IdSupply}

/-- What an optional attribute is written as: as it is given or not at all, but for a list of ids,
of which the blanks are left out. -/
inductive Rewrites (e : Element) (name : String) : Option String → Prop
  | kept : Rewrites e name (e.attr? name)
  | left : Rewrites e name none
  | ids {written : String} (move : e.name = "move") (blocks : name = "blockIds")
    (given : e.attr? name = some written) :
    Rewrites e name (some (String.intercalate "," (idList written)))

theorem Performs.name_eq (h : Performs g path e type supply o left) : o.name = e.name := by
  cases h <;> exact Eq.symm ‹e.name = _›

private theorem rewrites_flag (e : Element) (name : String) :
    Rewrites e name (if e.flag name then some "true" else none) := by
  split
  · rename_i hflag
    have hvalue : e.attr? name = some "true" := by simpa [Element.flag] using hflag
    exact hvalue ▸ .kept
  · exact .left

private theorem rewrites_markers {front : List (String × String)} (e : Element)
    (hfront : ∀ name ∈ ["afterBlockId", "atStart", "atEnd"], value? name front = none) :
    ∀ name ∈ ["afterBlockId", "atStart", "atEnd"],
      Rewrites e name (value? name (front ++ (markers e).attributes)) := by
  obtain ⟨hafter, hstart, hend⟩ := value?_markers (markers e)
  intro name hname
  rw [Markup.value?_append, hfront name hname, Option.none_or]
  simp only [List.mem_cons, List.not_mem_nil, or_false] at hname
  rcases hname with rfl | rfl | rfl
  · rw [hafter]
    exact .kept
  · rw [hstart]
    exact rewrites_flag e "atStart"
  · rw [hend]
    exact rewrites_flag e "atEnd"

private theorem rewrites_targets {rest : List (String × String)} (hmove : e.name = "move")
    (hrest : ∀ name ∈ ["blockId", "blockIds", "fromBlockId", "toBlockId"],
      value? name rest = none) :
    ∀ name ∈ ["blockId", "blockIds", "fromBlockId", "toBlockId"],
      Rewrites e name (value? name ((targets e).attributes ++ rest)) := by
  obtain ⟨hblock, hblocks, hfirst, hlast⟩ := value?_targets (targets e)
  intro name hname
  rw [Markup.value?_append, hrest name hname, Option.or_none]
  simp only [List.mem_cons, List.not_mem_nil, or_false] at hname
  rcases hname with rfl | rfl | rfl | rfl
  · rw [hblock]
    exact .kept
  · rw [hblocks, targets]
    cases hvalue : e.attr? "blockIds" with
    | none => exact .left
    | some written => exact .ids hmove rfl hvalue
  · rw [hfirst]
    exact .kept
  · rw [hlast]
    exact .kept

theorem Performs.attributes (h : Performs g path e type supply o left) :
    ∃ written ∈ writtenOperations, e.name = written.1 ∧
      (∀ name ∈ written.2.1, value? name o.attributes = some (e.attr name)) ∧
      ∀ name ∈ written.2.2, Rewrites e name (value? name o.attributes) := by
  have hneeds {needed : List String} (hwritten : (e.name, needed, []) ∈ writtenOperations)
      (hvalues : ∀ name ∈ needed, value? name o.attributes = some (e.attr name)) :
      ∃ written ∈ writtenOperations, e.name = written.1 ∧
        (∀ name ∈ written.2.1, value? name o.attributes = some (e.attr name)) ∧
        ∀ name ∈ written.2.2, Rewrites e name (value? name o.attributes) :=
    ⟨_, hwritten, rfl, hvalues, by simp⟩
  have hblock : ∀ needed ∈ ["blockId"],
      value? needed [("blockId", e.attr "blockId")] = some (e.attr needed) := by
    simp [value?]
  cases h with
  | setProp name =>
    have hwritten : (e.name, ["blockId", "name", "value"], []) ∈ writtenOperations := by
      simp [writtenOperations, name]
    refine hneeds hwritten ?_
    simp [Operation.attributes, value?, Json.plainText]
  | setContent name | setParameters name | delete name | replace name =>
    exact hneeds (by simp [writtenOperations, name]) hblock
  | rename name =>
    have hwritten : (e.name, ["blockId", "newId"], []) ∈ writtenOperations := by
      simp [writtenOperations, name]
    refine hneeds hwritten ?_
    simp [Operation.attributes, value?]
  | insert name =>
    refine ⟨("insert", [], ["afterBlockId", "atStart", "atEnd"]), by simp [writtenOperations], name,
      by simp, ?_⟩
    have hnothing : ∀ name ∈ ["afterBlockId", "atStart", "atEnd"], value? name [] = none := by
      simp [value?]
    exact rewrites_markers e hnothing
  | move name =>
    refine ⟨("move", [], ["blockId", "blockIds", "fromBlockId", "toBlockId"] ++
      ["afterBlockId", "atStart", "atEnd"]), by simp [writtenOperations], name, by simp, ?_⟩
    refine List.forall_mem_append.2 ⟨?_, ?_⟩
    · exact rewrites_targets name fun other => (value?_eq_none_of_marker (markers e) (targets e)).2
    · exact rewrites_markers e fun other => (value?_eq_none_of_marker (markers e) (targets e)).1

theorem Performs.checkAttributes (ho : g.Operable) (h : Performs g path e type supply o left)
    (hcheck : g.checkAttributes e.name e.attributes = []) :
    g.checkAttributes e.name o.attributes = [] := by
  obtain ⟨entry, hentry, -⟩ := Grammar.checkAttributes_eq_nil_iff.1 hcheck
  obtain ⟨hmem, hentryName⟩ := Grammar.entry?_eq_some hentry
  obtain ⟨written, hwritten, hname, hneeded, hoptional⟩ := h.attributes
  obtain ⟨hneeds, hmay⟩ := ho.attributes entry hmem written hwritten (hentryName.trans hname)
  refine Grammar.checkAttributes_of_accepts hentry hcheck fun a ha haccepts => ?_
  rcases hmay a ha with hin | ⟨hin, hrequired⟩
  · obtain ⟨b, hb, hbname, hbrequired⟩ := hneeds a.name hin
    obtain ⟨value, hvalue⟩ := Grammar.exists_value hentry hcheck hb hbrequired
    rw [hbname] at hvalue
    rw [hneeded a.name hin, Element.attr, attr?_eq_value?, hvalue, Option.getD_some]
    rwa [hvalue] at haccepts
  · rw [← attr?_eq_value?] at haccepts
    have hrewrites := hoptional a.name hin
    generalize value? a.name o.attributes = value at hrewrites ⊢
    cases hrewrites with
    | kept => exact haccepts
    | left => exact hrequired
    | ids hmove hblocks hgiven =>
      rw [hgiven] at haccepts
      rw [hmove] at hentry
      have hlist := (ho.accepts_iff hentry ha hblocks).1 haccepts
      exact (ho.accepts_iff hentry ha hblocks).2 hlist.intercalate

/-- An operation that is read is canonical, if the attributes in it can be written again and the
numbers in its parameters are integers. -/
theorem operation_canonical (hg : g.Printable) (ho : g.Operable)
    (hgiven : ∀ d ∈ e.elements, Rewritable d) (hseed : isId supply.seed = true)
    (h : operation g path e supply = .ok (o, left)) (hintegers : o.HasIntegers) :
    o.Canonical g ∧ o.name = e.name ∧ left.seed = supply.seed := by
  obtain ⟨hcheck, type, htype, hperforms⟩ := operation_eq_ok_iff.1 h
  have hname := hperforms.name_eq
  have hchecked := hperforms.checkAttributes ho hcheck
  rw [← hname] at htype hchecked
  obtain ⟨-, hitems⟩ : Rewritable e ∧ ∀ d ∈ Element.elementsOfItems e.items, Rewritable d := by
    cases e with
    | mk => exact rewritable_items hgiven
  suffices hform : o.Formed g ∧ left.seed = supply.seed from
    ⟨⟨⟨type, htype⟩, hchecked, hform.1⟩, hname, hform.2⟩
  cases hperforms with
  | setProp => exact ⟨⟨_, rfl⟩, rfl⟩
  | setContent name inside => exact ⟨rich_canonical hg (List.nil_sublist _) e.items inside, rfl⟩
  | setParameters name inside =>
    refine ⟨(read?_of_jsonObject inside).imp_right fun hread => ?_, rfl⟩
    obtain ⟨s, hs⟩ := hread
    exact Json.readable_of_read? hs hintegers
  | rename | delete => exact ⟨trivial, rfl⟩
  | insert name inside | replace name inside =>
    obtain ⟨hnodes, hleft⟩ := blocks_canonical hg hseed hintegers e.items hitems inside
    exact ⟨⟨type, htype, hnodes⟩, hleft⟩
  | move name =>
    refine ⟨fun idents hidents => ?_, rfl⟩
    rw [name] at hcheck
    obtain ⟨written, hwritten, rfl⟩ := Option.map_eq_some_iff.1 hidents
    rw [attr?_eq_value?] at hwritten
    exact (ho.isIdList hcheck hwritten).idList_intercalate

theorem operations_canonical (hg : g.Printable) (ho : g.Operable) {parent : String} {index : Nat}
    {os : List Operation} {items : List (Item Element)}
    (hgiven : ∀ d ∈ Element.elementsOfItems items, Rewritable d) (hseed : isId supply.seed = true)
    (h : operations g path parent type index items supply = .ok (os, left))
    (hintegers : ∀ o ∈ os, o.HasIntegers) :
    ∀ o ∈ os, o.Canonical g ∧ g.allows type o.name = true := by
  induction items generalizing index os supply with
  | nil =>
    obtain ⟨rfl, rfl⟩ := Read.pure_eq_ok_iff.1 h
    simp
  | cons item rest ih =>
    cases item with
    | text chars | literal chars =>
      simp only [operations] at h
      split at h
      · exact ih hgiven hseed h hintegers
      · simp [Read.lift_eq_ok_iff] at h
    | element inner =>
      simp only [operations, Read.bind_eq_ok_iff, Read.lift_eq_ok_iff, Read.pure_eq_ok_iff] at h
      obtain ⟨⟨⟩, _, ⟨hcheck, rfl⟩, first, mid, hinner, others, _, hrest, rfl, rfl⟩ := h
      obtain ⟨hgivenInner, hgivenRest⟩ := rewritable_element hgiven
      obtain ⟨hfirst, hothers⟩ := List.forall_mem_cons.1 hintegers
      obtain ⟨hcanonical, hname, hmid⟩ :=
        operation_canonical hg ho hgivenInner hseed hinner hfirst
      refine List.forall_mem_cons.2 ⟨⟨hcanonical, ?_⟩, ?_⟩
      · rw [hname]
        exact (checkChild_eq_ok_iff.1 hcheck).2
      · exact ih hgivenRest (hmid ▸ hseed) hrest hothers

end Reading

end LiveDoc
