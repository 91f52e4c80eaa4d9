import LiveDoc.Proofs.Edit.Effect
import Mathlib.Data.List.Perm.Subperm

/-!
# Orders of sets in moves

A move of several nodes goes through the set of their ids to name one that is missing. The order of
this set decides nothing else: whether an operation is applied, what it makes of a forest and why it
fails otherwise are the same for all orders.
-/

set_option autoImplicit false
set_option relaxedAutoImplicit false

namespace LiveDoc.Edit

open Forest (ids preorder)

variable {order order' : SetOrder} {ns out : Forest} {blocks : List String} {ident : String}

theorem SetOrder.exists_first (ident : String) :
    ∃ order : SetOrder, ∀ idents, ident ∈ idents → (order.list idents).head? = some ident := by
  refine ⟨⟨fun idents => if ident ∈ idents then ident :: idents.erase ident else idents,
    fun idents => ?_⟩, fun idents hmem => by simp [hmem]⟩
  split
  · rename_i hmem
    exact (List.perm_cons_erase hmem).symm
  · exact .refl idents

theorem nodup_eraseDups (idents : List String) : idents.eraseDups.Nodup := by
  match idents with
  | [] => simp
  | ident :: rest =>
    rw [List.eraseDups_cons, List.nodup_cons]
    exact ⟨by simp [List.mem_eraseDups], nodup_eraseDups _⟩
termination_by idents.length
decreasing_by exact Nat.lt_succ_of_le (List.length_filter_le _ _)

/-- What is found does not depend on the order, only which id is looked at first of those that are
not found. -/
theorem inOrder_eq (order : SetOrder) (ns : Forest) (blocks : List String) :
    inOrder order ns blocks =
      if ((ids ns).filter (· ∈ blocks)).length = blocks.eraseDups.length then
        .ok ((ids ns).filter (· ∈ blocks))
      else
        .error (.nodeNotFound (((order.list blocks.eraseDups).find?
          fun ident => decide (ident ∉ (ids ns).filter (· ∈ blocks))).getD "")) := by
  have hwanted (ident : String) :
      (order.list blocks.eraseDups).contains ident = decide (ident ∈ blocks) := by
    simp only [List.contains_eq_mem, (order.perm _).mem_iff, List.mem_eraseDups]
  have hcount : (order.list blocks.eraseDups).length = blocks.eraseDups.length :=
    (order.perm _).length_eq
  simp only [inOrder, hwanted, hcount, List.contains_eq_mem, ← decide_not]

theorem ids_filter (ns : Forest) (blocks : List String) :
    (ids ns).filter (· ∈ blocks) = ((preorder ns).filter (·.id ∈ blocks)).map Node.id := by
  simp [ids, List.filter_map, Function.comp_def]

theorem exists_missing (order : SetOrder) {block : String} (hblock : block ∈ blocks)
    (h : block ∉ ids ns) : ∃ ident, (order.list blocks.eraseDups).find?
      (fun ident => decide (ident ∉ (ids ns).filter (· ∈ blocks))) = some ident := by
  rw [← Option.isSome_iff_exists, List.find?_isSome]
  exact ⟨block, (order.perm _).mem_iff.2 (List.mem_eraseDups.2 hblock), by simp [h]⟩

section Nodup

variable (hnodup : (ids ns).Nodup)
include hnodup

theorem length_found_iff :
    ((ids ns).filter (· ∈ blocks)).length = blocks.eraseDups.length ↔
      ∀ block ∈ blocks, block ∈ ids ns := by
  have hfound : ((ids ns).filter (· ∈ blocks)).Nodup := hnodup.filter _
  have hsubset : (ids ns).filter (· ∈ blocks) ⊆ blocks.eraseDups := by
    intro ident hident
    simpa [List.mem_eraseDups] using (List.mem_filter.1 hident).2
  have hsubperm := List.Nodup.subperm hfound hsubset
  constructor
  · intro hlength block hblock
    -- what is found is wanted, each once; and as there is as much of it, it is all that is wanted
    have hperm := hsubperm.perm_of_length_le (Nat.le_of_eq hlength.symm)
    exact (List.mem_filter.1 (hperm.mem_iff.2 (List.mem_eraseDups.2 hblock))).1
  · intro hthere
    refine List.Perm.length_eq ?_
    rw [List.perm_ext_iff_of_nodup hfound (nodup_eraseDups blocks)]
    intro ident
    simpa [List.mem_eraseDups] using hthere ident

theorem inOrder_of_mem (order : SetOrder) (h : ∀ block ∈ blocks, block ∈ ids ns) :
    inOrder order ns blocks = .ok ((ids ns).filter (· ∈ blocks)) := by
  rw [inOrder_eq, if_pos ((length_found_iff hnodup).2 h)]

theorem inOrder_of_notMem (order : SetOrder) {block : String} (hblock : block ∈ blocks)
    (h : block ∉ ids ns) :
    ∃ ident ∈ blocks, ident ∉ ids ns ∧ inOrder order ns blocks = .error (.nodeNotFound ident) := by
  have hlength := mt (length_found_iff hnodup).1 fun hthere => h (hthere block hblock)
  obtain ⟨ident, hfind⟩ := exists_missing order hblock h
  have hmem : ident ∈ blocks :=
    List.mem_eraseDups.1 ((order.perm _).mem_iff.1 (List.mem_of_find?_eq_some hfind))
  have hmissing : ident ∉ ids ns := by simpa [hmem] using List.find?_some hfind
  exact ⟨ident, hmem, hmissing, by rw [inOrder_eq, if_neg hlength, hfind, Option.getD_some]⟩

theorem exists_inOrder_names (hident : ident ∈ blocks) (h : ident ∉ ids ns) :
    ∃ order, inOrder order ns blocks = .error (.nodeNotFound ident) := by
  obtain ⟨order, hfirst⟩ := SetOrder.exists_first ident
  obtain ⟨rest, hrest⟩ := List.head?_eq_some_iff.1 (hfirst _ (List.mem_eraseDups.2 hident))
  have hlength := mt (length_found_iff hnodup).1 fun hthere => h (hthere ident hident)
  refine ⟨order, ?_⟩
  rw [inOrder_eq, if_neg hlength, hrest, List.find?_cons_of_pos (by simp [h]), Option.getD_some]

end Nodup

/-- An operation moves several nodes, one of which has an id that stands nowhere. -/
structure Operation.Misses (ns : Forest) (o : Operation) (ident : String) : Prop where
  named : ∃ targets place blocks, o = .move targets place ∧
    targets.resolve = .ok (.several blocks) ∧ ident ∈ blocks
  missing : ident ∉ ids ns

theorem apply_move {targets : Targets} {place : Markers} {what : MoveTarget} {pos : Position}
    (hwhat : target targets = .ok what) (hpos : position place = .ok pos) (ns : Forest) :
    (Operation.move targets place).apply order ns = applyMove order ns what pos := by
  rw [Operation.apply, hwhat, hpos]
  rfl

theorem applyMove_congr {what : MoveTarget} {pos : Position}
    (h : movedIds order ns what = movedIds order' ns what) :
    applyMove order ns what pos = applyMove order' ns what pos := by
  have hrelocate : applyMove.relocate order ns what pos =
    applyMove.relocate order' ns what pos := by
    rw [applyMove.relocate, applyMove.relocate, h]
  unfold applyMove
  split
  · rw [hrelocate]
  · exact hrelocate

theorem applyMove_several_of_error {pos : Position}
    (h : inOrder order ns blocks = .error (.nodeNotFound ident)) :
    applyMove order ns (.several blocks) pos = fail ns (.nodeNotFound ident) := by
  have hmoved : movedIds order ns (.several blocks) = .error (.nodeNotFound ident) := h
  have hrelocate : applyMove order ns (.several blocks) pos =
    applyMove.relocate order ns (.several blocks) pos := rfl
  rw [hrelocate, applyMove.relocate, hmoved]
  rfl

/-- Each of the missing nodes is named under some order. -/
theorem Operation.Misses.exists_order (hnodup : (ids ns).Nodup) {o : Operation}
    (hvalid : o.validate = .ok ()) (h : o.Misses ns ident) :
    ∃ order, o.apply order ns = fail ns (.nodeNotFound ident) := by
  obtain ⟨⟨targets, place, blocks, rfl, hwhat, hident⟩, hmissing⟩ := h
  obtain ⟨order, horder⟩ := exists_inOrder_names hnodup hident hmissing
  obtain ⟨_, -, hplace⟩ := bind_eq_ok_iff.1 hvalid
  obtain ⟨pos, hpos, -⟩ := bind_eq_ok_iff.1 hplace
  refine ⟨order, ?_⟩
  have htarget : target targets = .ok (.several blocks) := mapError_eq_ok_iff.2 hwhat
  rw [apply_move htarget hpos]
  exact applyMove_several_of_error horder

/-- Under two orders an operation does the same, or it fails because nodes that it moves are missing
and names one of them under each. -/
theorem Operation.apply_or_misses (hnodup : (ids ns).Nodup) (order order' : SetOrder)
    (o : Operation) :
    o.apply order ns = o.apply order' ns ∨
      ∃ a b, o.Misses ns a ∧ o.Misses ns b ∧ o.apply order ns = fail ns (.nodeNotFound a) ∧
        o.apply order' ns = fail ns (.nodeNotFound b) := by
  cases o with
  | move targets place =>
    rw [Operation.apply, Operation.apply]
    cases hwhat : target targets with
    | error failure => exact .inl rfl
    | ok what =>
      cases hpos : position place with
      | error failure => exact .inl rfl
      | ok pos =>
        simp only [mapError_ok, bind, Except.bind]
        cases what with
        | single block => exact .inl (applyMove_congr rfl)
        | run first last => exact .inl (applyMove_congr rfl)
        | several blocks =>
          by_cases hthere : ∀ block ∈ blocks, block ∈ ids ns
          · refine .inl (applyMove_congr ?_)
            rw [movedIds, movedIds, inOrder_of_mem hnodup order hthere,
              inOrder_of_mem hnodup order' hthere]
          · obtain ⟨block, hblock, hmissing⟩ := by simpa using hthere
            obtain ⟨a, ha, hnoa, horder⟩ := inOrder_of_notMem hnodup order hblock hmissing
            obtain ⟨b, hb, hnob, horder'⟩ := inOrder_of_notMem hnodup order' hblock hmissing
            have hnames (ident : String) (hident : ident ∈ blocks) :
                ∃ t p l, Operation.move targets place = .move t p ∧ t.resolve = .ok (.several l) ∧
                  ident ∈ l :=
              ⟨targets, place, blocks, rfl, mapError_eq_ok_iff.1 hwhat, hident⟩
            exact .inr ⟨a, b, ⟨hnames a ha, hnoa⟩, ⟨hnames b hb, hnob⟩,
              applyMove_several_of_error horder, applyMove_several_of_error horder'⟩
  | _ => exact .inl rfl

theorem Operation.apply_eq_ok_of_order (hnodup : (ids ns).Nodup) {o : Operation}
    (order' : SetOrder) (h : o.apply order ns = .ok out) : o.apply order' ns = .ok out := by
  obtain hsame | ⟨a, b, -, -, hfail, -⟩ := o.apply_or_misses hnodup order order'
  · rw [← hsame, h]
  · simp [h, fail] at hfail

theorem Operation.toOption_apply_of_order (hnodup : (ids ns).Nodup) (order order' : SetOrder)
    (o : Operation) : (o.apply order ns).toOption = (o.apply order' ns).toOption := by
  obtain hsame | ⟨a, b, -, -, hfail, hfail'⟩ := o.apply_or_misses hnodup order order'
  · rw [hsame]
  · rw [hfail, hfail']
    rfl

end LiveDoc.Edit
