import LiveDoc.Proofs.Edit.Batch
import LiveDoc.Proofs.Edit.Effect
import Mathlib.Data.List.Perm.Basic

/-!
# Distinct ids through batches

No operation of a batch makes an id blank or lets it stand twice, so the check of the result can
only find names of functions; and those come from the nodes that the operations carry.
-/

set_option autoImplicit false
set_option relaxedAutoImplicit false

namespace LiveDoc.Edit

open Forest (Hole ids heads DistinctIds FunctionsNamed)

/-- The nodes that an operation brings along. -/
def Operation.carried : Operation → Forest
  | .insert _ nodes | .replace _ nodes => nodes
  | .setProp .. | .setContent .. | .setParameters .. | .rename .. | .delete _ | .move .. => []

variable {order : SetOrder} {ns out : Forest}

section Checks

theorem notBlank_of_requireId {field ident : String} (h : requireId field ident = .ok ()) :
    Text.isAllBlank ident = false := by
  unfold requireId at h
  split at h
  · simp at h
  · simp_all

theorem notBlank_of_requireNodes {nodes : Forest} (h : requireNodes nodes = .ok ()) :
    ∀ ident ∈ ids nodes, Text.isAllBlank ident = false := by
  unfold requireNodes at h
  split at h
  · simp at h
  split at h
  · simp at h
  · rename_i hnone
    intro ident hident
    obtain ⟨n, hn, rfl⟩ := Forest.mem_ids.1 hident
    simpa using List.find?_eq_none.1 hnone n hn

theorem notBlank_carried {o : Operation} (h : o.validate = .ok ()) :
    ∀ ident ∈ ids o.carried, Text.isAllBlank ident = false := by
  cases o with
  | insert place nodes =>
    simp only [Operation.validate, bind_eq_ok_iff] at h
    obtain ⟨-, -, h⟩ := h
    exact notBlank_of_requireNodes h
  | replace block nodes =>
    simp only [Operation.validate, bind_eq_ok_iff] at h
    obtain ⟨⟨⟩, -, h⟩ := h
    exact notBlank_of_requireNodes h
  | _ => simp [Operation.carried]

end Checks

theorem insertAt_perm {new : Forest} {place : Position} (h : insertAt ns new place = .ok out) :
    (heads out).Perm (heads new ++ heads ns) := by
  obtain ⟨-, rfl⟩ | ⟨-, rfl⟩ | ⟨anchor, k, n, -, rfl, -, -, rfl⟩ := insertAt_eq_ok h
  · rw [Forest.heads_append]
  · rw [Forest.heads_append]
    exact List.perm_append_comm
  · simp only [Hole.heads_fill, Forest.heads_cons n new]
    have hmid (a b c d : List Node) : (a ++ (b ++ c) ++ d).Perm (c ++ (a ++ b ++ d)) := by
      have hcomm : ((a ++ b) ++ c).Perm (c ++ (a ++ b)) := List.perm_append_comm
      simpa using hcomm.append_right d
    exact hmid _ _ _ _

theorem takeOut_perm {idents : List String} {moved left : Forest}
    (h : takeOut idents ns = .ok (moved, left)) :
    (heads moved ++ heads left).Perm (heads ns) := by
  induction idents generalizing ns moved left with
  | nil =>
    obtain ⟨rfl, rfl⟩ := Prod.mk.inj (Except.ok.inj h)
    exact .refl _
  | cons ident rest ih =>
    simp only [takeOut] at h
    split at h
    · simp [fail] at h
    · rename_i n mid hremove
      obtain ⟨k, rfl, -, -, rfl⟩ := Forest.remove?_eq_some hremove
      obtain ⟨⟨others, last⟩, htake, hout⟩ := bind_eq_ok_iff.1 h
      obtain ⟨rfl, rfl⟩ := Prod.mk.inj (Except.ok.inj hout)
      have hrest := (ih htake).append_left (heads [n])
      rw [← List.append_assoc, ← Forest.heads_cons] at hrest
      refine hrest.trans ?_
      simp only [Hole.heads_fill, List.append_assoc]
      exact List.perm_append_comm_assoc _ _ _

theorem applyMove_perm {what : MoveTarget} {pos : Position}
    (h : applyMove order ns what pos = .ok out) : (heads out).Perm (heads ns) := by
  obtain ⟨-, -, -, -, rfl⟩ | ⟨-, idents, moved, left, -, -, htake, hinsert⟩ := applyMove_eq_ok h
  · exact .refl _
  · exact (insertAt_perm hinsert).trans (takeOut_perm htake)

theorem nodup_append_of_fresh {new : Forest} (hns : (ids ns).Nodup)
    (hfresh : checkFresh ns new = .ok ()) : (ids new ++ ids ns).Nodup := by
  obtain ⟨hnodup, hnew⟩ := checkFresh_eq_ok_iff.1 hfresh
  exact List.nodup_append.2 ⟨hnodup, hns, fun a ha b hb hab => hnew a ha (hab ▸ hb)⟩

theorem distinctIds_of_fresh {new : Forest} (hns : DistinctIds ns)
    (hblank : ∀ ident ∈ ids new, Text.isAllBlank ident = false)
    (hfresh : checkFresh ns new = .ok ()) (hperm : (ids out).Perm (ids new ++ ids ns)) :
    DistinctIds out := by
  refine ⟨fun ident hident => ?_, hperm.nodup_iff.2 (nodup_append_of_fresh hns.nodup hfresh)⟩
  rcases List.mem_append.1 (hperm.mem_iff.1 hident) with h | h
  · exact hblank ident h
  · exact hns.notBlank ident h

theorem distinctIds_fill_nil {k : Hole} {new : Forest} (h : DistinctIds (k.fill new)) :
    DistinctIds (k.fill []) := by
  have hsub : (ids (k.fill [])).Sublist (ids (k.fill new)) := by
    simp only [Hole.ids_fill, Forest.ids_nil, List.append_nil]
    exact (List.sublist_append_left _ _).append_right _
  exact ⟨fun ident hident => h.notBlank ident (hsub.subset hident), hsub.nodup h.nodup⟩

theorem ids_fill_withId (k : Hole) (n : Node) (new : String) :
    ids (k.fill [n.withId new]) =
      k.idsBefore ++ new :: ids (n.children?.getD []) ++ k.idsAfter := by
  cases n <;> simp [Hole.ids_fill, Forest.ids_cons, Node.withId, Node.id, Node.children?]

theorem distinctIds_fill_withId {k : Hole} {n : Node} {new : String}
    (hns : DistinctIds (k.fill [n])) (hblank : Text.isAllBlank new = false)
    (hnew : new ∉ ids (k.fill [n])) : DistinctIds (k.fill [n.withId new]) := by
  have hids := ids_fill_withId k n n.id
  have hcons (ident : String) : (k.idsBefore ++ ident :: ids (n.children?.getD []) ++
      k.idsAfter).Perm (ident :: (k.idsBefore ++ ids (n.children?.getD []) ++ k.idsAfter)) := by
    simp
  obtain ⟨hblanks, hnodup⟩ := hns
  rw [n.withId_id] at hids
  rw [hids] at hblanks hnodup hnew
  rw [(hcons _).nodup_iff, List.nodup_cons] at hnodup
  simp only [(hcons _).mem_iff, List.mem_cons, not_or, forall_eq_or_imp] at hblanks hnew
  constructor
  · rw [ids_fill_withId]
    simp only [(hcons _).mem_iff, List.mem_cons, forall_eq_or_imp]
    exact ⟨hblank, hblanks.2⟩
  · rw [ids_fill_withId, (hcons _).nodup_iff, List.nodup_cons]
    exact ⟨hnew.2, hnodup.2⟩

theorem Operation.apply_distinctIds {o : Operation} (hvalid : o.validate = .ok ())
    (hns : DistinctIds ns) (h : o.apply order ns = .ok out) : DistinctIds out := by
  cases o with
  | setProp block name value =>
    obtain ⟨k, head, children, rfl, -, -, rfl⟩ := setProp_eq_ok h
    exact hns.of_perm (by simp [Hole.ids_fill, Forest.ids_cons, Node.id, Node.children?])
  | setContent block content =>
    obtain ⟨k, n, rfl, -, -, rfl⟩ := setContent_eq_ok h
    exact hns.of_perm (by
      cases n <;> simp [Hole.ids_fill, Forest.ids_cons, Node.withContent, Node.id, Node.children?])
  | setParameters block parameters =>
    obtain ⟨k, c, rfl, -, -, rfl⟩ := setParameters_eq_ok h
    exact hns.of_perm (by simp [Hole.ids_fill, Forest.ids_cons, Node.id, Node.children?])
  | rename block new =>
    obtain ⟨-, rfl⟩ | ⟨hnew, k, n, rfl, -, -, rfl⟩ := rename_eq_ok h
    · exact hns
    · simp only [Operation.validate, bind_eq_ok_iff] at hvalid
      obtain ⟨⟨⟩, -, hvalid⟩ := hvalid
      exact distinctIds_fill_withId hns (notBlank_of_requireId hvalid) hnew
  | insert place nodes =>
    obtain ⟨pos, -, hfresh, hinsert⟩ := insert_eq_ok h
    have hperm : (ids out).Perm (ids (nodes ++ ns)) := by
      apply Forest.ids_perm_of_heads_perm
      simpa [Forest.heads_append] using insertAt_perm hinsert
    rw [Forest.ids_append] at hperm
    exact distinctIds_of_fresh hns (notBlank_carried hvalid) hfresh hperm
  | delete block =>
    obtain ⟨k, n, rfl, -, -, rfl⟩ := delete_eq_ok h
    exact distinctIds_fill_nil hns
  | replace block nodes =>
    obtain ⟨k, n, rfl, -, -, hfresh, rfl⟩ := replace_eq_ok h
    refine distinctIds_of_fresh (distinctIds_fill_nil hns) (notBlank_carried hvalid) hfresh ?_
    simp only [Hole.ids_fill, Forest.ids_nil, List.append_nil, List.append_assoc]
    exact List.perm_append_comm_assoc _ _ _
  | move targets place =>
    obtain ⟨what, pos, -, -, hmove⟩ := move_eq_ok h
    exact hns.of_perm (Forest.ids_perm_of_heads_perm (applyMove_perm hmove))

theorem heads_singleton (n : Node) : heads [n] = n.bare :: heads (n.children?.getD []) := by
  rw [heads, Forest.preorder_cons]
  simp [heads, Forest.preorder]

private theorem mem_heads_fill_edited {o : Operation} {k : Hole} {n m : Node}
    (hm : m ∈ heads (k.fill [o.edited n])) :
    m ∈ heads (k.fill [n]) ∨ ∃ old ∈ heads (k.fill [n]), o.edited old = m := by
  rw [Hole.heads_fill, heads_singleton, bare_edited, children?_edited] at hm
  rw [Hole.heads_fill, heads_singleton]
  simp only [List.mem_append, List.mem_cons] at hm ⊢
  obtain (hm | rfl | hm) | hm := hm
  · exact .inl (.inl (.inl hm))
  · exact .inr ⟨n.bare, .inl (.inr (.inl rfl)), rfl⟩
  · exact .inl (.inl (.inr (.inr hm)))
  · exact .inl (.inr hm)

/-- Every node after an operation, by itself, was there before it as it is or was the node that the
operation edits, or is one of those that the operation brings along. -/
theorem mem_heads_of_apply {o : Operation} (h : o.apply order ns = .ok out) {m : Node}
    (hm : m ∈ heads out) :
    (m ∈ heads ns ∨ ∃ old ∈ heads ns, o.edited old = m) ∨ m ∈ heads o.carried := by
  have haround {k : Hole} {n : Node} (h : m ∈ heads (k.fill [])) : m ∈ heads (k.fill [n]) := by
    simp only [Hole.heads_fill, Forest.heads_nil, List.append_nil, List.mem_append] at h ⊢
    exact h.imp_left .inl
  cases o with
  | setProp block name value =>
    obtain ⟨k, head, children, rfl, -, -, rfl⟩ := setProp_eq_ok h
    exact .inl (mem_heads_fill_edited (o := .setProp block name value) hm)
  | setContent block content =>
    obtain ⟨k, n, rfl, -, -, rfl⟩ := setContent_eq_ok h
    exact .inl (mem_heads_fill_edited (o := .setContent block content) hm)
  | setParameters block parameters =>
    obtain ⟨k, c, rfl, -, -, rfl⟩ := setParameters_eq_ok h
    exact .inl (mem_heads_fill_edited (o := .setParameters block parameters) hm)
  | rename block new =>
    obtain ⟨-, rfl⟩ | ⟨-, k, n, rfl, -, -, rfl⟩ := rename_eq_ok h
    · exact .inl (.inl hm)
    · exact .inl (mem_heads_fill_edited (o := .rename block new) hm)
  | insert place nodes =>
    obtain ⟨pos, -, -, hinsert⟩ := insert_eq_ok h
    rcases List.mem_append.1 ((insertAt_perm hinsert).mem_iff.1 hm) with hm | hm
    · exact .inr hm
    · exact .inl (.inl hm)
  | delete block =>
    obtain ⟨k, n, rfl, -, -, rfl⟩ := delete_eq_ok h
    exact .inl (.inl (haround hm))
  | replace block nodes =>
    obtain ⟨k, n, rfl, -, -, -, rfl⟩ := replace_eq_ok h
    by_cases hnew : m ∈ heads nodes
    · exact .inr hnew
    · refine .inl (.inl (haround ?_))
      simpa [Hole.heads_fill, hnew] using hm
  | move targets place =>
    obtain ⟨what, pos, -, -, hmove⟩ := move_eq_ok h
    exact .inl (.inl ((applyMove_perm hmove).mem_iff.1 hm))

/-- What holds of every node by itself holds after an operation, if it holds of those that the
operation brings along and if editing a node keeps it. -/
theorem Operation.apply_forall_heads {P : Node → Prop} {o : Operation}
    (hcarried : ∀ n ∈ heads o.carried, P n) (hedited : ∀ n, P n → P (o.edited n))
    (hns : ∀ n ∈ heads ns, P n) (h : o.apply order ns = .ok out) : ∀ n ∈ heads out, P n := by
  intro m hm
  obtain (hm | ⟨old, hold, rfl⟩) | hm := mem_heads_of_apply h hm
  · exact hns m hm
  · exact hedited old (hns old hold)
  · exact hcarried m hm

theorem Operation.apply_functionsNamed {o : Operation} (hcarried : FunctionsNamed o.carried)
    (hns : FunctionsNamed ns) (h : o.apply order ns = .ok out) : FunctionsNamed out := by
  refine o.apply_forall_heads hcarried (fun n hn => ?_) hns h
  cases n with
  | block head children => cases o <;> exact hn
  | call c =>
    cases o <;> simpa [edited, Node.HasFunctionName, Node.withContent, Node.withId, Node.call?]
      using hn

variable {operations : List Operation} {index : Nat}

theorem applyFrom_distinctIds (hvalid : ∀ o ∈ operations, o.validate = .ok ())
    (hns : DistinctIds ns) (h : applyFrom order index ns operations = .ok out) : DistinctIds out :=
  applyFrom_induct (fun o ho _ _ hns h => o.apply_distinctIds (hvalid o ho) hns h) hns h

/-- Ids stay distinct and not blank through every part of a batch. So a result is refused for names
of functions only, and not at all if all nodes that the operations carry have proper ones. -/
theorem batch_keeps_ids_distinct (order : SetOrder) (ns : Forest) (operations : List Operation) :
    (Forest.check ns = [] → (∀ o ∈ operations, o.validate = .ok ()) →
      ∀ first rest mid, operations = first ++ rest → applyFrom order 0 ns first = .ok mid →
        (∀ ident ∈ ids mid, Text.isAllBlank ident = false) ∧ (ids mid).Nodup) ∧
    (∀ findings, applyBatch order ns operations = .error (.invalidResult findings) →
      ∀ f ∈ findings, f.kind = .invalidFunctionName) ∧
    ((∀ o ∈ operations, ∀ c ∈ Forest.calls o.carried, isFunctionName c.function = true) →
      ∀ findings, applyBatch order ns operations ≠ .error (.invalidResult findings)) := by
  refine ⟨fun hcheck hvalid first rest mid hsplit h => ?_, fun findings h => ?_,
    fun hcarried findings h => ?_⟩
  · have hdistinct := applyFrom_distinctIds (fun o ho => hvalid o (by simp [hsplit, ho]))
      (Forest.check_eq_nil_iff.1 hcheck).1 h
    exact ⟨hdistinct.notBlank, hdistinct.nodup⟩
  · obtain ⟨hcheck, hvalid, out, hout, rfl, -⟩ := applyBatch_eq_invalidResult h
    have hdistinct := applyFrom_distinctIds hvalid (Forest.check_eq_nil_iff.1 hcheck).1 hout
    exact (Forest.check_of_distinctIds hdistinct).1
  · obtain ⟨hcheck, hvalid, out, hout, rfl, hne⟩ := applyBatch_eq_invalidResult h
    obtain ⟨hdistinct, hnamed⟩ := Forest.check_eq_nil_iff.1 hcheck
    have hout_named : FunctionsNamed out := by
      refine applyFrom_induct (P := FunctionsNamed) (fun o ho _ _ hns h => ?_) hnamed hout
      exact o.apply_functionsNamed (Forest.functionsNamed_iff_calls.2 (hcarried o ho)) hns h
    exact hne (Forest.check_eq_nil_iff.2 ⟨applyFrom_distinctIds hvalid hdistinct hout, hout_named⟩)

/-- A batch on a list with an item: the item gets a neighbour, and the paragraph gives its id
away. -/
theorem batch_keeps_ids_distinct_insert_replace :
    let item (ident : String) : Node := .block ⟨ident, "list_item", [], []⟩ none
    let list (items : Forest) : Node := .block ⟨"l", "bullet_list", [], []⟩ (some items)
    let given : Forest := [.paragraph "a" "A", list [item "i"]]
    let operations := [Operation.insertAfter "i" [item "j"], .replace "a" [item "b", item "a"]]
    let changed : Forest := [item "b", item "a", list [item "i", item "j"]]
    applyFrom .written 0 given operations = .ok changed ∧ (ids changed).Nodup ∧
      ∀ findings, applyBatch .written given operations ≠ .error (.invalidResult findings) := by
  intro item list given operations changed
  have hspec := batch_keeps_ids_distinct .written given operations
  have happly : applyFrom .written 0 given operations = .ok changed := by decide +kernel
  exact ⟨happly,
    (hspec.1 (by decide +kernel) (by decide +kernel) operations [] changed (by simp) happly).2,
    hspec.2.2 (by decide +kernel)⟩

end LiveDoc.Edit
