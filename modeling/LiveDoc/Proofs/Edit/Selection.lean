import LiveDoc.Proofs.Edit.Move
import LiveDoc.Proofs.Forest.Paths

/-!
# Selected nodes

A target of a move is resolved, in a forest where no id stands twice, to the ids of just the nodes
that it selects. These pass the checks of a move if they lie apart from one another and from the
anchor; where a move puts them they are selected again.
-/

set_option autoImplicit false
set_option relaxedAutoImplicit false

namespace LiveDoc.Edit

open Forest (Hole ids preorder siblingLists without)

variable {order : SetOrder} {ns out rest : Forest} {l moved : List Node} {what : MoveTarget}
  {pos : Position}

/-- No node lies in the tree of another one. -/
def Apart (l : List Node) : Prop := l.Pairwise fun n m => n.id ∉ ids [m] ∧ m.id ∉ ids [n]

theorem apart_of_nodup_ids (h : (ids l).Nodup) : Apart l := by
  induction l with
  | nil => exact .nil
  | cons n rest ih =>
    rw [Forest.ids_singleton_append, List.nodup_append] at h
    refine .cons (fun m hm => ?_) (ih h.2.1)
    have hrest : ∀ ident ∈ ids [m], ident ∈ ids rest := fun ident hident =>
      mem_ids_iff_exists_mem.2 ⟨m, hm, hident⟩
    refine ⟨fun hin => ?_, fun hin => ?_⟩
    · exact h.2.2 _ (Forest.id_mem_ids_singleton n) _ (hrest _ hin) rfl
    · exact h.2.2 _ hin _ (hrest _ (Forest.id_mem_ids_singleton m)) rfl

private theorem runIds_of_selects {first last : String} (hnodup : (ids ns).Nodup)
    (h : (MoveTarget.run first last).Selects ns moved) :
    runIds ns first last = .ok (moved.map Node.id) := by
  obtain ⟨siblings, hsiblings, before, after, rfl, hfirst, hlast⟩ := h
  obtain ⟨up, hup⟩ := Forest.exists_siblings? hnodup hsiblings
  obtain ⟨a, ha, rfl⟩ := Option.map_eq_some_iff.1 hfirst
  obtain ⟨b, hb, rfl⟩ := Option.map_eq_some_iff.1 hlast
  obtain ⟨later, hlater⟩ := List.head?_eq_some_iff.1 ha
  obtain ⟨earlier, hearlier⟩ := List.getLast?_eq_some_iff.1 hb
  have hfront : Forest.siblings? up ns = some (before ++ a :: (later ++ after)) := by
    rw [hup, hlater]
    simp
  have hback : Forest.siblings? up ns = some ((before ++ earlier) ++ b :: after) := by
    rw [hup, hearlier]
    simp
  have hstart := Forest.locate?_of_siblings? hnodup hfront
  have hstop := Forest.locate?_of_siblings? hnodup hback
  have hslice : ((before ++ moved ++ after).take ((before ++ earlier).length + 1)).drop
      before.length = moved := by
    have hlength : (before ++ moved).length = (before ++ earlier).length + 1 := by
      simp [hearlier, Nat.add_assoc]
    rw [List.take_left' hlength, List.drop_left]
  simp only [runIds, hstart, hstop, List.dropLast_concat, List.getLast?_concat, Option.getD_some,
    hup, hslice]
  simp

theorem movedIds_of_selects (hnodup : (ids ns).Nodup) (h : what.Selects ns moved) :
    movedIds order ns what = .ok (moved.map Node.id) := by
  cases what with
  | single block =>
    obtain ⟨n, -, rfl, rfl⟩ := h
    rfl
  | several blocks =>
    rw [h.2, ← ids_filter]
    exact inOrder_of_mem hnodup order h.1
  | run first last => exact runIds_of_selects hnodup h

private theorem covered_of_apart {seen : List String} (hnodup : (ids ns).Nodup)
    (hmem : ∀ n ∈ l, n ∈ preorder ns) (hseen : ∀ n ∈ l, n.id ∉ seen) (hapart : Apart l) :
    covered ns seen (l.map Node.id) = .ok (seen ++ ids l) := by
  induction l generalizing seen with
  | nil => simp [covered]
  | cons n rest ih =>
    obtain ⟨hfirst, hapart⟩ := List.pairwise_cons.1 hapart
    simp only [List.mem_cons, forall_eq_or_imp] at hmem hseen
    have hrest := @ih (seen ++ ids [n]) hmem.2
      (fun m hm => by simpa [hseen.2 m hm] using (hfirst m hm).2) hapart
    rw [List.map_cons, covered, Forest.find?_of_mem hnodup hmem.1]
    simp only [if_neg hseen.1, hrest, List.append_assoc, Forest.ids_singleton_append n rest]

theorem checkApart_of_apart (hnodup : (ids ns).Nodup) (hmem : ∀ n ∈ l, n ∈ preorder ns)
    (hapart : Apart l) (hanchor : ∀ anchor, pos = .after anchor → anchor ∉ ids l) :
    checkApart ns (l.map Node.id) pos = .ok () := by
  have hcovered : covered ns [] (l.map Node.id) = .ok ([] ++ ids l) :=
    covered_of_apart hnodup hmem (by simp) hapart
  rw [checkApart, hcovered]
  cases pos with
  | start => rfl
  | finish => rfl
  | after anchor => simp [bind, Except.bind, hanchor anchor rfl]

private theorem applyMove_eq_relocate
    (h : ∀ block, what = .single block → pos ≠ .after block) :
    applyMove order ns what pos = applyMove.relocate order ns what pos := by
  cases what with
  | several blocks => rfl
  | run first last => rfl
  | single block =>
    cases pos with
    | start => rfl
    | finish => rfl
    | after anchor =>
      have hother : block ≠ anchor := fun hsame => h block rfl (hsame ▸ rfl)
      rw [applyMove, if_neg hother]

/-- A move puts the nodes that it selects, if they lie apart from one another and from the anchor,
at its place in the forest without them. -/
theorem applyMove_of_selects (hnodup : (ids ns).Nodup) (hselects : what.Selects ns moved)
    (hapart : Apart moved) (hanchor : ∀ anchor, pos = .after anchor → anchor ∉ ids moved) :
    applyMove order ns what pos = insertAt (without (moved.map Node.id) ns) moved pos := by
  have hmem : ∀ n ∈ moved, n ∈ preorder ns := fun n hn => hselects.sublist.subset hn
  have hself : ∀ block, what = .single block → pos ≠ .after block := by
    rintro block rfl hpos
    obtain ⟨n, -, rfl, rfl⟩ := hselects
    exact hanchor n.id hpos (Forest.id_mem_ids_singleton n)
  rw [applyMove_eq_relocate hself, applyMove.relocate, movedIds_of_selects hnodup hselects,
    mapError_ok]
  simp only [bind, Except.bind, checkApart_of_apart hnodup hmem hapart hanchor, mapError_ok,
    takeOut_eq ns hnodup hmem hapart]

/-- A move leaves all where it is, if a node is to stand behind itself, or puts the nodes that it
selects at its place in the forest without them. -/
theorem applyMove_selects (hnodup : (ids ns).Nodup) (h : applyMove order ns what pos = .ok out) :
    (∃ block ∈ ids ns, what = .single block ∧ pos = .after block ∧ out = ns) ∨
      ∃ moved, what.Selects ns moved ∧ Apart moved ∧
        insertAt (without (moved.map Node.id) ns) moved pos = .ok out := by
  obtain ⟨block, hwhat, hpos, hmem, hout⟩ |
    ⟨-, idents, taken, left, hmoved, hchecked, htake, hinsert⟩ := applyMove_eq_ok h
  · exact .inl ⟨block, hmem, hwhat, hpos, hout⟩
  obtain ⟨moved, hselects, rfl, hsub, hapart⟩ := selects_of_movedIds hnodup hmoved hchecked
  rw [takeOut_eq ns hnodup (fun n hn => hsub.subset hn) hapart, Except.ok.injEq,
    Prod.mk.injEq] at htake
  obtain ⟨rfl, rfl⟩ := htake
  exact .inr ⟨_, hselects, hapart, hinsert⟩

end LiveDoc.Edit
