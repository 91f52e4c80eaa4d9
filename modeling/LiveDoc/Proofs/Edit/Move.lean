import LiveDoc.Proofs.Edit.DistinctIds
import LiveDoc.Proofs.Edit.SetOrder
import LiveDoc.Proofs.Forest.Siblings
import LiveDoc.Proofs.Forest.Without

/-!
# Moves

A move takes trees out of a forest and puts them, unchanged and side by side in document order, at
their new place. So it does what a batch of deletions and one insertion does, and all other nodes
keep their fields, their parent and their order.
-/

set_option autoImplicit false
set_option relaxedAutoImplicit false

namespace LiveDoc.Edit

open Forest (Hole ids preorder rows without siblingLists)

/-- The nodes that a target stands for, in document order. -/
def MoveTarget.Selects (ns : Forest) : MoveTarget → List Node → Prop
  | .single block, moved => ∃ n ∈ preorder ns, n.id = block ∧ moved = [n]
  | .several blocks, moved =>
    (∀ block ∈ blocks, block ∈ ids ns) ∧ moved = (preorder ns).filter (·.id ∈ blocks)
  | .run first last, moved =>
    ∃ siblings ∈ siblingLists ns, ∃ before after, siblings = before ++ moved ++ after ∧
      moved.head?.map Node.id = some first ∧ moved.getLast?.map Node.id = some last

/-- New nodes are put side by side at the front of a forest, at its end or right behind a node with
the id of the anchor, into its list of siblings. -/
def Position.Puts (new rest out : Forest) : Position → Prop
  | .start => out = new ++ rest
  | .finish => out = rest ++ new
  | .after anchor =>
    ∃ (k : Hole) (n : Node), n.id = anchor ∧ rest = k.fill [n] ∧ out = k.fill (n :: new)

variable {order : SetOrder} {ns out : Forest}

theorem insertAt_puts {new : Forest} {place : Position} (h : insertAt ns new place = .ok out) :
    place.Puts new ns out := by
  obtain ⟨rfl, rfl⟩ | ⟨rfl, rfl⟩ | ⟨anchor, k, n, rfl, rfl, hid, -, rfl⟩ := insertAt_eq_ok h
  · rfl
  · rfl
  · exact ⟨k, n, hid, rfl, rfl⟩

theorem Position.Puts.rows_filter {new rest : Forest} {place : Position}
    (h : place.Puts new rest out) :
    (rows none out).filter (·.2.id ∉ ids new) = (rows none rest).filter (·.2.id ∉ ids new) := by
  have hnew (parent : Option String) : (rows parent new).filter (·.2.id ∉ ids new) = [] := by
    rw [List.filter_eq_nil_iff]
    intro row hrow
    have hmem : row.2.id ∈ ids new := by
      rw [← Forest.map_id_rows parent]
      exact List.mem_map_of_mem (f := fun row => row.2.id) hrow
    simpa using hmem
  cases place with
  | start => rw [h, Forest.rows_append, List.filter_append, hnew, List.nil_append]
  | finish => rw [h, Forest.rows_append, List.filter_append, hnew, List.append_nil]
  | after anchor =>
    obtain ⟨k, n, -, rfl, rfl⟩ := h
    rw [← List.singleton_append, Hole.rows_fill, Hole.rows_fill, Forest.rows_append]
    simp only [List.filter_append, hnew, List.append_nil]

section Targets

private theorem not_sublist_swap {l : List String} {a b : String} (hnodup : l.Nodup)
    (hab : [a, b].Sublist l) : ¬ [b, a].Sublist l := by
  intro hba
  obtain ⟨front, back, rfl, ha, hb⟩ := List.cons_sublist_iff.1 hab
  rw [List.singleton_sublist] at hb
  have hapart := (List.nodup_append.1 hnodup).2.2
  obtain ⟨first, second, hsplit, hfirst, hsecond⟩ := List.sublist_append_iff.1 hba
  cases first with
  | nil =>
    obtain rfl : [b, a] = second := hsplit
    exact hapart a ha a (hsecond.subset (by simp)) rfl
  | cons c first =>
    obtain rfl : b = c := (List.cons.inj hsplit).1
    exact hapart b (hfirst.subset (by simp)) b hb rfl

theorem pairwise_not_above {l : List Node} (hnodup : (ids ns).Nodup)
    (hsub : l.Sublist (preorder ns)) : l.Pairwise fun n m => n.id ∉ ids [m] := by
  rw [List.pairwise_iff_forall_sublist]
  intro n m hnm hin
  have horder : [n.id, m.id].Sublist (ids ns) := (hnm.trans hsub).map Node.id
  have hm : m ∈ preorder ns := (hnm.trans hsub).subset (by simp)
  have hne : n.id ≠ m.id := by
    have := hnodup.sublist horder
    simpa using this
  have hswap : [m.id, n.id].Sublist (ids [m]) := by
    rw [Forest.ids_cons] at hin ⊢
    simp only [List.cons_append, List.mem_cons, hne, false_or] at hin
    exact (List.singleton_sublist.2 hin).cons_cons _
  exact not_sublist_swap hnodup horder (hswap.trans (Forest.ids_sublist_of_mem hm))

theorem covered_eq_ok {seen idents inside : List String}
    (h : covered ns seen idents = .ok inside) :
    ∃ l : List Node, idents = l.map Node.id ∧ (∀ n ∈ l, n ∈ preorder ns) ∧
      inside = seen ++ ids l ∧ (∀ n ∈ l, n.id ∉ seen) ∧ l.Pairwise fun n m => m.id ∉ ids [n] := by
  induction idents generalizing seen with
  | nil => exact ⟨[], rfl, by simp, by simpa using (Except.ok.inj h).symm, by simp, .nil⟩
  | cons ident rest ih =>
    simp only [covered] at h
    split at h
    · simp at h
    · rename_i n hfind
      split at h
      · simp at h
      · rename_i hnew
        obtain ⟨hn, rfl⟩ := Forest.find?_eq_some hfind
        obtain ⟨l, rfl, hl, rfl, hseen, hpair⟩ := ih h
        simp only [List.mem_append, not_or] at hseen
        refine ⟨n :: l, rfl, by simpa using ⟨hn, hl⟩, ?_, ?_, ?_⟩
        · rw [Forest.ids_singleton_append n l, List.append_assoc]
        · simpa using ⟨hnew, fun m hm => (hseen m hm).1⟩
        · exact .cons (fun m hm => (hseen m hm).2) hpair

theorem checkApart_eq_ok {idents : List String} {place : Position}
    (h : checkApart ns idents place = .ok ()) :
    ∃ inside, covered ns [] idents = .ok inside ∧ ∀ anchor, place = .after anchor →
      anchor ∉ inside := by
  obtain ⟨inside, hinside, hplace⟩ := bind_eq_ok_iff.1 h
  refine ⟨inside, hinside, fun anchor hanchor hin => ?_⟩
  subst hanchor
  simp [hin] at hplace

theorem eq_of_map_id_eq {l l' : List Node} (hnodup : (ids ns).Nodup)
    (hl : ∀ n ∈ l, n ∈ preorder ns) (hl' : ∀ n ∈ l', n ∈ preorder ns)
    (h : l.map Node.id = l'.map Node.id) : l = l' := by
  induction l generalizing l' with
  | nil => simpa using h.symm
  | cons n l ih =>
    cases l' with
    | nil => simp at h
    | cons m l' =>
      simp only [List.map_cons, List.cons.injEq] at h
      simp only [List.mem_cons, forall_eq_or_imp] at hl hl'
      rw [List.inj_on_of_nodup_map hnodup hl.1 hl'.1 h.1, ih hl.2 hl'.2 h.2]

theorem inOrder_eq_ok {blocks idents : List String} (hnodup : (ids ns).Nodup)
    (h : inOrder order ns blocks = .ok idents) :
    idents = ((preorder ns).filter (·.id ∈ blocks)).map Node.id ∧
      ∀ block ∈ blocks, block ∈ ids ns := by
  by_cases hthere : ∀ block ∈ blocks, block ∈ ids ns
  · rw [inOrder_of_mem hnodup order hthere] at h
    exact ⟨(Except.ok.inj h).symm.trans (ids_filter ns blocks), hthere⟩
  · obtain ⟨block, hblock, hmissing⟩ := by simpa using hthere
    obtain ⟨_, -, -, hfail⟩ := inOrder_of_notMem hnodup order hblock hmissing
    simp [hfail] at h

theorem runIds_eq_ok {first last : String} {idents : List String}
    (h : runIds ns first last = .ok idents) :
    ∃ moved, (MoveTarget.run first last).Selects ns moved ∧ idents = moved.map Node.id := by
  unfold runIds at h
  split at h
  · simp at h
  · simp at h
  · rename_i fromPath toPath hfrom hto
    obtain ⟨n, ⟨up, start, list, rfl, hlist, hn⟩, rfl⟩ := Forest.locate?_eq_some hfrom
    obtain ⟨m, ⟨up', stop, list', rfl, hlist', hm⟩, rfl⟩ := Forest.locate?_eq_some hto
    simp only [List.dropLast_concat, List.getLast?_concat, Option.getD_some] at h
    split at h
    · simp at h
    · rename_i hup
      obtain rfl : up = up' := by simpa using hup
      obtain rfl : list = list' := Option.some_inj.1 (hlist.symm.trans hlist')
      split at h
      · simp at h
      · rename_i hle
        rw [hlist, Option.getD_some] at h
        have hstart : start ≤ stop := Nat.le_of_not_lt hle
        have hstop : stop < list.length := (List.getElem?_eq_some_iff.1 hm).1
        refine ⟨_, ⟨list, Forest.mem_siblingLists_of_siblings? hlist, list.take start,
          list.drop (stop + 1), ?_, ?_, ?_⟩, (Except.ok.inj h).symm⟩
        · have htake : list.take start = (list.take (stop + 1)).take start := by
            rw [List.take_take, Nat.min_eq_left (by omega)]
          rw [htake, List.take_append_drop, List.take_append_drop]
        · rw [List.head?_drop, List.getElem?_take_of_lt (by omega), hn, Option.map_some]
        · rw [List.getLast?_drop, if_neg (by simp; omega), List.getLast?_take]
          simp [hm]

theorem MoveTarget.Selects.sublist {what : MoveTarget} {moved : List Node}
    (h : what.Selects ns moved) : moved.Sublist (preorder ns) := by
  cases what with
  | single block =>
    obtain ⟨n, hn, -, rfl⟩ := h
    exact List.singleton_sublist.2 hn
  | several blocks => exact h.2 ▸ List.filter_sublist
  | run first last =>
    obtain ⟨siblings, hsiblings, before, after, rfl, -, -⟩ := h
    refine .trans ?_ (Forest.sublist_preorder_of_mem_siblingLists hsiblings)
    exact (List.sublist_append_right _ _).trans (List.sublist_append_left _ _)

theorem selects_of_movedIds {what : MoveTarget} {place : Position} {idents : List String}
    (hnodup : (ids ns).Nodup) (hmoved : movedIds order ns what = .ok idents)
    (hapart : checkApart ns idents place = .ok ()) :
    ∃ moved, what.Selects ns moved ∧ idents = moved.map Node.id ∧ moved.Sublist (preorder ns) ∧
      moved.Pairwise fun n m => n.id ∉ ids [m] ∧ m.id ∉ ids [n] := by
  obtain ⟨inside, hcovered, -⟩ := checkApart_eq_ok hapart
  obtain ⟨l, hl, hmem, -, -, hpair⟩ := covered_eq_ok hcovered
  have hselected : ∃ moved, what.Selects ns moved ∧ idents = moved.map Node.id := by
    cases what with
    | single block =>
      obtain rfl := Except.ok.inj hmoved
      obtain ⟨n, rfl⟩ : ∃ n, l = [n] := by
        rw [← List.length_eq_one_iff, ← List.length_map Node.id, ← hl, List.length_singleton]
      exact ⟨[n], ⟨n, hmem n (by simp), by simpa using hl.symm, rfl⟩, hl⟩
    | several blocks =>
      obtain ⟨hidents, hthere⟩ := inOrder_eq_ok hnodup hmoved
      exact ⟨_, ⟨hthere, rfl⟩, hidents⟩
    | run first last => exact runIds_eq_ok hmoved
  obtain ⟨moved, hselects, hidents⟩ := hselected
  have hsub := hselects.sublist
  obtain rfl : l = moved :=
    eq_of_map_id_eq hnodup hmem (fun n hn => hsub.subset hn) (hl.symm.trans hidents)
  exact ⟨l, hselects, hidents, hsub, (pairwise_not_above hnodup hsub).and hpair⟩

end Targets

section TakingOut

variable {l : List Node}

theorem mem_preorder_without_apart {n m : Node} (hnodup : (ids ns).Nodup)
    (hn : n ∈ preorder ns) (hm : m ∈ preorder ns) (hnm : n.id ∉ ids [m]) (hmn : m.id ∉ ids [n]) :
    m ∈ preorder (without [n.id] ns) := by
  refine Forest.mem_preorder_without hm (fun x hx hgone hbelow => ?_) fun ident hident hgone => ?_
  · obtain rfl : x = n := List.inj_on_of_nodup_map hnodup hx hn (by simpa using hgone)
    refine hmn (Forest.mem_ids.2 ⟨m, ?_, rfl⟩)
    rwa [Forest.preorder_singleton]
  · obtain rfl : ident = n.id := by simpa using hgone
    exact hnm hident

/-- Nodes that lie apart are taken out as they are, and what is left is the rest of the forest. -/
theorem takeOut_eq (ns : Forest) (hnodup : (ids ns).Nodup) (hmem : ∀ n ∈ l, n ∈ preorder ns)
    (hapart : l.Pairwise fun n m => n.id ∉ ids [m] ∧ m.id ∉ ids [n]) :
    takeOut (l.map Node.id) ns = .ok (l, without (l.map Node.id) ns) := by
  induction l generalizing ns with
  | nil => simp [takeOut, Forest.without_eq_self]
  | cons n rest ih =>
    rw [List.pairwise_cons] at hapart
    simp only [List.mem_cons, forall_eq_or_imp] at hmem
    have hrest := ih (without [n.id] ns) (Forest.ids_without_sublist.nodup hnodup)
      (fun m hm => mem_preorder_without_apart hnodup hmem.1 (hmem.2 m hm) (hapart.1 m hm).1
        (hapart.1 m hm).2) hapart.2
    simp only [List.map_cons, takeOut, Forest.remove?_of_mem hnodup hmem.1, hrest]
    simp [bind, Except.bind, Forest.without_without]

theorem applyFrom_deletes (index : Nat) (ns : Forest) (hnodup : (ids ns).Nodup)
    (hmem : ∀ n ∈ l, n ∈ preorder ns)
    (hapart : l.Pairwise fun n m => n.id ∉ ids [m] ∧ m.id ∉ ids [n]) :
    applyFrom order index ns (l.map (Operation.delete ·.id)) =
      .ok (without (l.map Node.id) ns) := by
  induction l generalizing ns index with
  | nil => simp [applyFrom, Forest.without_eq_self]
  | cons n rest ih =>
    rw [List.pairwise_cons] at hapart
    simp only [List.mem_cons, forall_eq_or_imp] at hmem
    have hrest := ih (index + 1) (without [n.id] ns)
      (Forest.ids_without_sublist.nodup hnodup)
      (fun m hm => mem_preorder_without_apart hnodup hmem.1 (hmem.2 m hm) (hapart.1 m hm).1
        (hapart.1 m hm).2) hapart.2
    simp only [List.map_cons, applyFrom, Operation.apply, orMissing,
      Forest.splice?_nil_of_mem hnodup hmem.1, hrest]
    simp [Forest.without_without]

theorem mem_ids_iff_exists_mem {ident : String} : ident ∈ ids l ↔ ∃ n ∈ l, ident ∈ ids [n] := by
  induction l with
  | nil => simp
  | cons n rest ih => simp [Forest.ids_singleton_append n rest, ih]

theorem covers_of_mem (hnodup : (ids ns).Nodup) (hmem : ∀ n ∈ l, n ∈ preorder ns) :
    Forest.Covers (l.map Node.id) (ids l) ns := by
  refine ⟨fun m hm hgone ident hident => ?_, fun ident _ hin => ?_⟩
  · obtain ⟨n, hn, hid⟩ := List.mem_map.1 hgone
    obtain rfl : n = m := List.inj_on_of_nodup_map hnodup (hmem n hn) hm hid
    exact mem_ids_iff_exists_mem.2 ⟨n, hn, hident⟩
  · obtain ⟨n, hn, hident⟩ := mem_ids_iff_exists_mem.1 hin
    exact ⟨n, hmem n hn, List.mem_map_of_mem hn, hident⟩

end TakingOut

theorem MoveTarget.Selects.ne_nil {what : MoveTarget} {moved : List Node} {t : Targets}
    (h : what.Selects ns moved) (hwhat : t.resolve = .ok what) : moved ≠ [] := by
  rintro rfl
  cases what with
  | single block => simp [MoveTarget.Selects] at h
  | several blocks =>
    cases blocks with
    | nil => simp only [Targets.resolve] at hwhat; grind
    | cons block rest =>
      obtain ⟨hthere, hmoved⟩ := h
      obtain ⟨n, hn, rfl⟩ := Forest.mem_ids.1 (hthere block (by simp))
      exact List.not_mem_nil (hmoved ▸ List.mem_filter.2 ⟨hn, by simp⟩)
  | run first last => simp [MoveTarget.Selects] at h

/-- Deleting nodes that lie apart and inserting them again is a batch that no check refuses. -/
theorem applyBatch_delete_insert {moved : List Node} {place : Markers} {pos : Position}
    (hdistinct : Forest.DistinctIds ns) (hnamed : Forest.FunctionsNamed ns)
    (hpos : place.resolve = .ok pos) (hne : moved ≠ []) (hmem : ∀ n ∈ moved, n ∈ preorder ns)
    (hapart : moved.Pairwise fun n m => n.id ∉ ids [m] ∧ m.id ∉ ids [n])
    (hinsert : insertAt (without (moved.map Node.id) ns) moved pos = .ok out) :
    applyBatch order ns (moved.map (Operation.delete ·.id) ++ [.insert place moved]) = .ok out := by
  have hperm := takeOut_perm (takeOut_eq ns hdistinct.nodup hmem hapart)
  have hids : (ids moved ++ ids (without (moved.map Node.id) ns)).Perm (ids ns) := by
    simpa [Forest.map_id_heads] using hperm.map Node.id
  have hblank (ident : String) (h : ident ∈ ids moved) : Text.isAllBlank ident = false :=
    hdistinct.notBlank ident (hids.subset (List.mem_append_left _ h))
  have hposition : position place = .ok pos := by rw [position, hpos]; rfl
  refine applyBatch_eq_ok_iff.2 ⟨Forest.check_eq_nil_iff.2 ⟨hdistinct, hnamed⟩, ?_, ?_, ?_⟩
  · intro o ho
    rcases List.mem_append.1 ho with ho | ho
    · obtain ⟨n, hn, rfl⟩ := List.mem_map.1 ho
      have hid := hdistinct.notBlank n.id (Forest.mem_ids.2 ⟨n, hmem n hn, rfl⟩)
      simp [Operation.validate, requireId, hid]
    · obtain rfl := List.mem_singleton.1 ho
      have hnone : (preorder moved).find? (Text.isAllBlank ·.id) = none := by
        rw [List.find?_eq_none]
        intro n hn
        simp [hblank n.id (Forest.mem_ids.2 ⟨n, hn, rfl⟩)]
      simp [Operation.validate, requireNodes, hposition, hne, hnone, bind, Except.bind]
  · have hfresh : checkFresh (without (moved.map Node.id) ns) moved = .ok () := by
      have hnodup := hids.nodup_iff.2 hdistinct.nodup
      rw [List.nodup_append] at hnodup
      exact checkFresh_eq_ok_iff.2 ⟨hnodup.1, fun a ha hb => hnodup.2.2 a ha a hb rfl⟩
    rw [applyFrom_append (applyFrom_deletes _ ns hdistinct.nodup hmem hapart)]
    simp [applyFrom, Operation.apply, hposition, hfresh, hinsert, bind, Except.bind, mapError_ok]
  · have hheads : (Forest.heads out).Perm (Forest.heads ns) := (insertAt_perm hinsert).trans hperm
    exact Forest.check_eq_nil_iff.2
      ⟨hdistinct.of_perm (Forest.ids_perm_of_heads_perm hheads), hnamed.of_perm hheads⟩

/-- A move deletes its targets and inserts them, unchanged and in document order, at its place: as
the batch of these operations does. No id is lost or added, and all other nodes keep their fields,
their parent and their order. -/
theorem move_is_deletion_then_insertion (order' : SetOrder) {targets : Targets} {place : Markers}
    (hcheck : Forest.check ns = [])
    (hmove : (Operation.move targets place).apply order ns = .ok out)
    (hself : ∀ block,
      ¬ (targets.resolve = .ok (.single block) ∧ place.resolve = .ok (.after block))) :
    ∃ what pos moved, targets.resolve = .ok what ∧ place.resolve = .ok pos ∧
      what.Selects ns moved ∧ moved.Sublist (preorder ns) ∧
      pos.Puts moved (without (moved.map Node.id) ns) out ∧
      applyBatch order' ns (moved.map (Operation.delete ·.id) ++ [.insert place moved]) = .ok out ∧
      (ids out).Perm (ids ns) ∧
      (rows none out).filter (·.2.id ∉ ids moved) = (rows none ns).filter (·.2.id ∉ ids moved) := by
  obtain ⟨hdistinct, hnamed⟩ := Forest.check_eq_nil_iff.1 hcheck
  obtain ⟨what, pos, hwhat, hpos, happly⟩ := move_eq_ok hmove
  rw [target, mapError_eq_ok_iff] at hwhat
  rw [position, mapError_eq_ok_iff] at hpos
  obtain ⟨block, rfl, rfl, -, -⟩ | ⟨-, idents, taken, left, hmoved, hapart, htake, hinsert⟩ :=
    applyMove_eq_ok happly
  · exact absurd ⟨hwhat, hpos⟩ (hself block)
  obtain ⟨moved, hselects, rfl, hsub, hpair⟩ := selects_of_movedIds hdistinct.nodup hmoved hapart
  have hmem (n : Node) (hn : n ∈ moved) : n ∈ preorder ns := hsub.subset hn
  rw [takeOut_eq ns hdistinct.nodup hmem hpair, Except.ok.injEq, Prod.mk.injEq] at htake
  obtain ⟨rfl, rfl⟩ := htake
  have hputs := insertAt_puts hinsert
  refine ⟨what, pos, moved, hwhat, hpos, hselects, hsub, hputs, ?_, ?_, ?_⟩
  · exact applyBatch_delete_insert hdistinct hnamed hpos (hselects.ne_nil hwhat) hmem hpair hinsert
  · exact Forest.ids_perm_of_heads_perm (applyMove_perm happly)
  · have hcovers := covers_of_mem hdistinct.nodup hmem
    rw [hputs.rows_filter, Forest.rows_without hdistinct.nodup hcovers, List.filter_filter]
    simp

/-- Two nodes from different depths move behind an item of a list; one of them is named twice. -/
theorem move_is_deletion_then_insertion_into_list :
    let item (ident : String) : Node := .block ⟨ident, "list_item", [], []⟩ none
    let list (items : Forest) : Node := .block ⟨"l", "bullet_list", [], []⟩ (some items)
    let given : Forest := [.paragraph "a" "A", list [item "i", item "j"], .paragraph "b" "B"]
    let changed : Forest := [list [item "i", .paragraph "a" "A", item "j"], .paragraph "b" "B"]
    let targets : Targets := ⟨none, some ["j", "a", "j"], none, none⟩
    let place : Markers := ⟨some "i", false, false⟩
    Forest.check given = [] ∧ (Operation.move targets place).apply .written given = .ok changed ∧
      (∀ block,
        ¬ (targets.resolve = .ok (.single block) ∧ place.resolve = .ok (.after block))) ∧
      ∃ moved : List Node, moved.Sublist (preorder given) ∧
        applyBatch .written given (moved.map (Operation.delete ·.id) ++ [.insert place moved]) =
          .ok changed := by
  intro item list given changed targets place
  have hcheck : Forest.check given = [] := by decide +kernel
  have hrun : applyFrom .written 0 given [.move targets place] = .ok changed := by decide +kernel
  obtain ⟨out, hmove, hout⟩ := applyFrom_cons_eq_ok hrun
  obtain rfl : out = changed := Except.ok.inj hout
  have hself (block : String) :
      ¬ (targets.resolve = .ok (.single block) ∧ place.resolve = .ok (.after block)) := by
    rintro ⟨hsingle, -⟩
    simp [targets, Targets.resolve] at hsingle
  obtain ⟨-, -, moved, -, -, -, hsub, -, hbatch, -, -⟩ :=
    move_is_deletion_then_insertion .written hcheck hmove hself
  exact ⟨hcheck, hmove, hself, moved, hsub, hbatch⟩

end LiveDoc.Edit
