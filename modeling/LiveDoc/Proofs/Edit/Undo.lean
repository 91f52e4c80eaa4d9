import LiveDoc.Proofs.Edit.MoveAgain

/-!
# Insertions and renames undone

An insertion puts its nodes side by side, with ids that the forest does not have; so deleting them
by their ids, in any order, finds just them and leaves what was there before. A rename is undone by
the rename the other way.
-/

set_option autoImplicit false
set_option relaxedAutoImplicit false

namespace LiveDoc.Edit

open Forest (Hole heads ids preorder without)

variable {order : SetOrder} {ns out nodes : Forest} {k : Hole} {n : Node} {block new : String}

theorem Position.Puts.applyFrom_deletes {pos : Position} {l : List Node}
    (h : pos.Puts nodes ns out) (hnodup : (ids out).Nodup) (hperm : l.Perm nodes) (index : Nat) :
    applyFrom order index out (l.map (Operation.delete ·.id)) = .ok ns := by
  have hmem : ∀ n ∈ l, n ∈ preorder out := by
    intro n hn
    exact h.sublist.subset (hperm.subset hn)
  have hapart : Apart l := by
    have hnodes : (ids nodes).Nodup :=
      (List.nodup_append.1 ((h.ids_perm hnodup).nodup_iff.1 hnodup)).1
    exact (hperm.pairwise_iff fun hnm => hnm.symm).2 (apart_of_nodup_ids hnodes)
  have hsame : without (l.map Node.id) out = without (nodes.map Node.id) out :=
    Forest.without_congr fun ident => (hperm.map Node.id).mem_iff
  rw [Edit.applyFrom_deletes index out hnodup hmem hapart, hsame, h.without_eq hnodup]

theorem nodup_ids_of_insert {place : Markers} (hns : (ids ns).Nodup)
    (h : (Operation.insert place nodes).apply order ns = .ok out) : (ids out).Nodup := by
  obtain ⟨pos, -, hfresh, hinsert⟩ := insert_eq_ok h
  have hheads : (heads out).Perm (heads (nodes ++ ns)) := by
    rw [Forest.heads_append]
    exact insertAt_perm hinsert
  apply (Forest.ids_perm_of_heads_perm hheads).nodup_iff.2
  rw [Forest.ids_append]
  exact nodup_append_of_fresh hns hfresh

theorem rename_back (hnodup : (ids (k.fill [n])).Nodup) (hnew : new ∉ ids (k.fill [n])) :
    (Operation.rename new n.id).apply order (k.fill [n.withId new]) = .ok (k.fill [n]) := by
  have hids := ids_fill_withId k n new
  rw [← n.withId_id, ids_fill_withId] at hnodup hnew
  have hother : new ≠ n.id := by
    intro heq
    simp [heq] at hnew
  have hthere : Forest.has new (k.fill [n.withId new]) = true := by
    rw [Forest.has_iff, hids]
    simp
  have hfree : Forest.has n.id (k.fill [n.withId new]) = false := by
    rw [Bool.eq_false_iff, ne_eq, Forest.has_iff, hids]
    -- the old id stood in the place of the new one only
    rw [List.append_assoc, List.nodup_append, List.cons_append, List.nodup_cons] at hnodup
    intro hmem
    simp only [List.append_assoc, List.cons_append, List.mem_append, List.mem_cons] at hmem
    rcases hmem with hmem | hmem | hmem
    · exact hnodup.2.2 n.id hmem n.id List.mem_cons_self rfl
    · exact hother hmem.symm
    · exact hnodup.2.1.1 (List.mem_append.2 hmem)
  have hbefore : new ∉ k.idsBefore := by
    intro hmem
    exact hnew (List.mem_append_left _ (List.mem_append_left _ hmem))
  have hback : (n.withId new).withId n.id = n := (n.withId_withId new n.id).trans n.withId_id
  simp [Operation.apply, hthere, hother, hfree, Forest.modify?,
    Forest.splice?_fill (n.id_withId new) hbefore, hback, orMissing]

/-- After an insertion that is carried out, its nodes can be deleted by their ids, in any order,
which gives back the forest as it was; and a rename is undone by renaming back. -/
theorem insertions_and_renames_undone (order order' : SetOrder) (hcheck : Forest.check ns = []) :
    (∀ place nodes out, (Operation.insert place nodes).apply order ns = .ok out →
      ∀ l : List Node, l.Perm nodes →
        applyFrom order' 0 out (l.map (Operation.delete ·.id)) = .ok ns) ∧
    ∀ block new out, (Operation.rename block new).apply order ns = .ok out →
      (Operation.rename new block).apply order' out = .ok ns := by
  have hnodup : (ids ns).Nodup := (Forest.check_eq_nil_iff.1 hcheck).1.nodup
  constructor
  · intro place nodes out h l hperm
    obtain ⟨pos, -, -, hinsert⟩ := insert_eq_ok h
    exact (insertAt_puts hinsert).applyFrom_deletes (nodup_ids_of_insert hnodup h) hperm 0
  · intro block new out h
    rcases rename_eq_ok h with ⟨rfl, rfl⟩ | ⟨hnew, k, n, rfl, rfl, -, rfl⟩
    · exact h
    · exact rename_back hnodup hnew

/-- A list and a paragraph go behind an item and away again, the paragraph first; and the item,
while it has another id, keeps its place. -/
theorem insertions_and_renames_undone_in_list :
    let item (ident : String) (children : Option Forest) : Node :=
      .block ⟨ident, "list_item", [], []⟩ children
    let list (ident : String) (items : Forest) : Node :=
      .block ⟨ident, "bullet_list", [], []⟩ (some items)
    let given : Forest := [list "l" [item "i" none, item "j" (some [])], .paragraph "p" "P"]
    let inner : Node := list "m" [item "k" none]
    let a : Node := .paragraph "a" "A"
    let both : Forest :=
      [list "l" [item "i" none, inner, a, item "j" (some [])], .paragraph "p" "P"]
    let renamed : Forest := [list "l" [item "x" none, item "j" (some [])], .paragraph "p" "P"]
    Forest.check given = [] ∧
      (Operation.insertAfter "i" [inner, a]).apply .written given = .ok both ∧
      applyFrom .written 0 both [.delete "a", .delete "m"] = .ok given ∧
      (Operation.rename "i" "x").apply .written given = .ok renamed ∧
      (Operation.rename "x" "i").apply .written renamed = .ok given := by
  intro item list given inner a both renamed
  have hcheck : Forest.check given = [] := by decide +kernel
  have hinsert : (Operation.insertAfter "i" [inner, a]).apply .written given = .ok both :=
    toOption_eq_some_iff.1 (by decide +kernel)
  have hrename : (Operation.rename "i" "x").apply .written given = .ok renamed :=
    toOption_eq_some_iff.1 (by decide +kernel)
  obtain ⟨hdelete, hback⟩ := insertions_and_renames_undone .written .written hcheck
  exact ⟨hcheck, hinsert, hdelete _ _ _ hinsert [a, inner] (.swap ..), hrename,
    hback _ _ _ hrename⟩

end LiveDoc.Edit
