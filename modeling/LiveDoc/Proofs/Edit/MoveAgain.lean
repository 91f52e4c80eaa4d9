import LiveDoc.Proofs.Edit.Selection

/-!
# Moves that change nothing

A move leaves a forest as it is in which the nodes that it selects stand at its place already. The
forest that a move makes is such a forest, so the same move changes it no further.
-/

set_option autoImplicit false
set_option relaxedAutoImplicit false

namespace LiveDoc.Edit

open Forest (Hole ids preorder siblingLists without)

variable {order : SetOrder} {ns out rest : Forest} {moved : List Node} {what : MoveTarget}
  {pos : Position}

namespace Position.Puts

theorem siblings (h : pos.Puts moved rest out) :
    ∃ siblings ∈ siblingLists out, ∃ before after, siblings = before ++ moved ++ after := by
  cases pos with
  | start => exact ⟨out, List.mem_cons_self, [], rest, h⟩
  | finish => exact ⟨out, List.mem_cons_self, rest, [], by rw [List.append_nil]; exact h⟩
  | after anchor =>
    obtain ⟨k, n, -, -, rfl⟩ := h
    have hmem := Forest.mem_siblingLists_of_siblings? (Forest.siblings?_fill (n :: moved) k)
    exact ⟨_, hmem, k.left ++ [n], k.right, by simp [Hole.siblings_eq]⟩

theorem sublist (h : pos.Puts moved rest out) : moved.Sublist (preorder out) := by
  obtain ⟨siblings, hsiblings, before, after, rfl⟩ := h.siblings
  refine .trans ?_ (Forest.sublist_preorder_of_mem_siblingLists hsiblings)
  exact (List.sublist_append_right _ _).trans (List.sublist_append_left _ _)

theorem insertAt_eq (h : pos.Puts moved rest out) (hnodup : (ids out).Nodup) :
    insertAt rest moved pos = .ok out := by
  cases pos with
  | start => rw [insertAt, h]
  | finish => rw [insertAt, h]
  | after anchor =>
    obtain ⟨k, n, rfl, rfl, rfl⟩ := h
    rw [insertAt, Forest.insertAfter?, Forest.splice?_fill rfl (Forest.notMem_idsBefore hnodup)]
    rfl

theorem ids_perm (h : pos.Puts moved rest out) (hnodup : (ids out).Nodup) :
    (ids out).Perm (ids moved ++ ids rest) := by
  simpa [Forest.map_id_heads] using (insertAt_perm (h.insertAt_eq hnodup)).map Node.id

theorem without_eq (h : pos.Puts moved rest out) (hnodup : (ids out).Nodup) :
    without (moved.map Node.id) out = rest := by
  have hapart := (List.nodup_append.1 ((h.ids_perm hnodup).nodup_iff.1 hnodup)).2.2
  have hrest : ∀ ident ∈ ids rest, ident ∉ moved.map Node.id := by
    intro ident hident hgone
    obtain ⟨n, hn, rfl⟩ := List.mem_map.1 hgone
    have hmoved := mem_ids_iff_exists_mem.2 ⟨n, hn, Forest.id_mem_ids_singleton n⟩
    exact hapart _ hmoved _ hident rfl
  have hnone : without (moved.map Node.id) moved = [] :=
    Forest.without_eq_nil fun n hn => List.mem_map_of_mem hn
  cases pos with
  | start => rw [h, Forest.without_append, hnone, Forest.without_eq_self hrest, List.nil_append]
  | finish => rw [h, Forest.without_append, hnone, Forest.without_eq_self hrest, List.append_nil]
  | after anchor =>
    obtain ⟨k, n, -, rfl, rfl⟩ := h
    simp only [Hole.ids_fill, List.forall_mem_append] at hrest
    obtain ⟨⟨hbefore, hanchor⟩, hafter⟩ := hrest
    rw [Forest.without_fill_eq (List.forall_mem_append.2 ⟨hbefore, hafter⟩),
      ← List.singleton_append, Forest.without_append, hnone, Forest.without_eq_self hanchor,
      List.append_nil]

theorem selects (h : pos.Puts moved rest out) (hnodup : (ids ns).Nodup)
    (hperm : (ids out).Perm (ids ns)) (hselects : what.Selects ns moved) :
    what.Selects out moved := by
  cases what with
  | single block =>
    obtain ⟨n, -, hid, rfl⟩ := hselects
    exact ⟨n, h.sublist.subset (List.mem_singleton_self n), hid, rfl⟩
  | run first last =>
    obtain ⟨-, -, -, -, -, hfirst, hlast⟩ := hselects
    obtain ⟨siblings, hsiblings, before, after, hsplit⟩ := h.siblings
    exact ⟨siblings, hsiblings, before, after, hsplit, hfirst, hlast⟩
  | several blocks =>
    obtain ⟨hthere, hmoved⟩ := hselects
    have hnodup' : (ids out).Nodup := hperm.nodup_iff.2 hnodup
    have hall : ∀ n ∈ moved, n.id ∈ blocks := fun n hn => by
      rw [hmoved] at hn
      simpa using (List.mem_filter.1 hn).2
    refine ⟨fun block hblock => hperm.mem_iff.2 (hthere block hblock), ?_⟩
    -- All that is moved is found, in this order; and nothing else, as its id would stand twice.
    have hsub : moved.Sublist ((preorder out).filter (·.id ∈ blocks)) := by
      have hfilter : moved.filter (·.id ∈ blocks) = moved :=
        List.filter_eq_self.2 (by simpa using hall)
      rw [← hfilter]
      exact h.sublist.filter _
    have hback : (preorder out).filter (·.id ∈ blocks) ⊆ moved := by
      intro n hn
      obtain ⟨hn, hblock⟩ := List.mem_filter.1 hn
      obtain ⟨m, hm, hid⟩ := Forest.mem_ids.1 (hthere n.id (by simpa using hblock))
      have hm : m ∈ moved := by
        rw [hmoved]
        exact List.mem_filter.2 ⟨hm, by simpa [hid] using hblock⟩
      rwa [← List.inj_on_of_nodup_map hnodup' (h.sublist.subset hm) hn hid]
    have hfound : ((preorder out).filter (·.id ∈ blocks)).Nodup :=
      (List.Nodup.of_map _ hnodup').filter _
    exact hsub.eq_of_length_le (hfound.subperm hback).length_le

theorem applyMove_eq (h : pos.Puts moved rest out) (hnodup : (ids out).Nodup)
    (hselects : what.Selects out moved) : applyMove order out what pos = .ok out := by
  have hmoved := (List.nodup_append.1 ((h.ids_perm hnodup).nodup_iff.1 hnodup)).1
  have hanchor : ∀ anchor, pos = .after anchor → anchor ∉ ids moved := by
    rintro anchor rfl
    obtain ⟨k, n, rfl, -, rfl⟩ := h
    have hinside : (ids (n :: moved)).Nodup := by
      rw [Hole.ids_fill, List.append_assoc, List.nodup_append, List.nodup_append] at hnodup
      exact hnodup.2.1.1
    rw [Forest.ids_singleton_append, List.nodup_append] at hinside
    exact fun hin => hinside.2.2 _ (Forest.id_mem_ids_singleton n) _ hin rfl
  rw [applyMove_of_selects hnodup hselects (apart_of_nodup_ids hmoved) hanchor,
    h.without_eq hnodup]
  exact h.insertAt_eq hnodup

end Position.Puts

/-- A move that has been made can be made again and changes nothing then. And it changes nothing if
the nodes that it selects stand side by side at its place: right behind the anchor, at the front of
the forest or at its end. -/
theorem move_again (order order' : SetOrder) {targets : Targets} {place : Markers}
    (hcheck : Forest.check ns = []) :
    (∀ out, (Operation.move targets place).apply order ns = .ok out →
      (Operation.move targets place).apply order' out = .ok out) ∧
    ∀ what pos moved rest, targets.resolve = .ok what → place.resolve = .ok pos →
      what.Selects ns moved → pos.Puts moved rest ns →
      (Operation.move targets place).apply order ns = .ok ns := by
  obtain ⟨⟨-, hnodup⟩, -⟩ := Forest.check_eq_nil_iff.1 hcheck
  refine ⟨fun out hmove => ?_, fun what pos moved rest hwhat hpos hselects hputs => ?_⟩
  · obtain ⟨what, pos, hwhat, hpos, happly⟩ := move_eq_ok hmove
    obtain ⟨-, -, -, -, rfl⟩ | ⟨moved, hselects, -, hinsert⟩ := applyMove_selects hnodup happly
    · exact Operation.apply_eq_ok_of_order hnodup order' hmove
    have hputs := insertAt_puts hinsert
    have hperm := Forest.ids_perm_of_heads_perm (applyMove_perm happly)
    rw [apply_move hwhat hpos]
    exact hputs.applyMove_eq (hperm.nodup_iff.2 hnodup) (hputs.selects hnodup hperm hselects)
  · rw [apply_move (mapError_eq_ok_iff.2 hwhat) (mapError_eq_ok_iff.2 hpos)]
    exact hputs.applyMove_eq hnodup hselects

/-- Two nodes from different depths move behind an item of a list. There they stay when they are
moved again, and when they are moved as a run. -/
theorem move_again_into_list :
    let item (ident : String) : Node := .block ⟨ident, "list_item", [], []⟩ none
    let list (ident : String) (items : Forest) : Node :=
      .block ⟨ident, "bullet_list", [], []⟩ (some items)
    let a := Node.paragraph "a" "A"
    let given : Forest :=
      [a, list "l" [item "i", list "m" [item "b", item "j"]], .paragraph "c" "C"]
    let changed : Forest :=
      [list "l" [item "i", a, item "b", list "m" [item "j"]], .paragraph "c" "C"]
    let place : Markers := ⟨some "i", false, false⟩
    let several := Operation.move ⟨none, some ["b", "a", "b"], none, none⟩ place
    let run := Operation.move ⟨none, none, some "a", some "b"⟩ place
    Forest.check given = [] ∧ several.apply .written given = .ok changed ∧
      several.apply .written changed = .ok changed ∧ run.apply .written changed = .ok changed := by
  intro item list a given changed place several run
  have hgiven : Forest.check given = [] := by decide +kernel
  have hchanged : Forest.check changed = [] := by decide +kernel
  have hmove : several.apply .written given = .ok changed :=
    toOption_eq_some_iff.1 (by decide +kernel)
  have hagain : several.apply .written changed = .ok changed :=
    (move_again .written .written hgiven).1 changed hmove
  have hselects : (MoveTarget.run "a" "b").Selects changed [a, item "b"] := by
    refine ⟨[item "i", a, item "b", list "m" [item "j"]], ?_, [item "i"], [list "m" [item "j"]],
      rfl, rfl, rfl⟩
    decide +kernel
  have hputs : (Position.after "i").Puts [a, item "b"]
      [list "l" [item "i", list "m" [item "j"]], .paragraph "c" "C"] changed :=
    ⟨.within [] ⟨"l", "bullet_list", [], []⟩ (.here [] [list "m" [item "j"]])
      [.paragraph "c" "C"], item "i", rfl, rfl, rfl⟩
  have hinplace : run.apply .written changed = .ok changed :=
    (move_again .written .written hchanged).2 _ _ _ _ rfl rfl hselects hputs
  exact ⟨hgiven, hmove, hagain, hinplace⟩

end LiveDoc.Edit
