import LiveDoc.Edit.Batch
import LiveDoc.Proofs.Outcome

/-!
# Runs of batches

What a batch goes through: the check of its input, those of its operations, the operations in turn
and the check of its result.
-/

set_option autoImplicit false
set_option relaxedAutoImplicit false

namespace LiveDoc.Edit

variable {order : SetOrder} {ns out : Forest} {operations : List Operation} {index : Nat}

theorem applyFrom_cons_eq_ok {o : Operation} {rest : List Operation}
    (h : applyFrom order index ns (o :: rest) = .ok out) :
    ∃ mid, o.apply order ns = .ok mid ∧ applyFrom order (index + 1) mid rest = .ok out := by
  simp only [applyFrom] at h
  split at h
  · simp at h
  · rename_i mid hmid
    exact ⟨mid, hmid, h⟩

theorem applyFrom_append {first rest : List Operation} {mid : Forest}
    (h : applyFrom order index ns first = .ok mid) :
    applyFrom order index ns (first ++ rest) = applyFrom order (index + first.length) mid rest := by
  induction first generalizing ns index with
  | nil => rw [Except.ok.inj h, List.nil_append, List.length_nil, Nat.add_zero]
  | cons o first ih =>
    obtain ⟨next, hnext, hrest⟩ := applyFrom_cons_eq_ok h
    rw [List.cons_append, applyFrom, hnext, List.length_cons]
    exact (ih hrest).trans (by rw [Nat.add_right_comm, Nat.add_assoc])

theorem exists_of_applyFrom_append {first rest : List Operation}
    (h : applyFrom order index ns (first ++ rest) = .ok out) :
    ∃ mid, applyFrom order index ns first = .ok mid := by
  induction first generalizing ns index with
  | nil => exact ⟨ns, rfl⟩
  | cons o first ih =>
    obtain ⟨next, hnext, hrest⟩ := applyFrom_cons_eq_ok h
    rw [applyFrom, hnext]
    exact ih hrest

theorem applyFrom_induct {P : Forest → Prop}
    (hstep : ∀ o ∈ operations, ∀ ns out, P ns → o.apply order ns = .ok out → P out) (hns : P ns)
    (h : applyFrom order index ns operations = .ok out) : P out := by
  induction operations generalizing index ns with
  | nil => exact Except.ok.inj h ▸ hns
  | cons o rest ih =>
    obtain ⟨mid, hmid, hrest⟩ := applyFrom_cons_eq_ok h
    exact ih (fun q hq => hstep q (List.mem_cons_of_mem _ hq))
      (hstep o List.mem_cons_self ns mid hns hmid) hrest

theorem validateFrom_eq_ok_iff :
    validateFrom index operations = .ok () ↔ ∀ o ∈ operations, o.validate = .ok () := by
  induction operations generalizing index with
  | nil => simp [validateFrom]
  | cons o rest ih =>
    simp only [validateFrom, List.mem_cons, forall_eq_or_imp]
    cases hv : o.validate <;> simp [ih]

theorem applyBatch_eq_invalidResult {findings : List Finding}
    (h : applyBatch order ns operations = .error (.invalidResult findings)) :
    Forest.check ns = [] ∧ (∀ o ∈ operations, o.validate = .ok ()) ∧
      ∃ out, applyFrom order 0 ns operations = .ok out ∧ findings = Forest.check out ∧
        findings ≠ [] := by
  have hvalidate (index : Nat) (os : List Operation) :
      validateFrom index os ≠ .error (.invalidResult findings) := by
    induction os generalizing index with
    | nil => simp [validateFrom]
    | cons o rest ih => simp only [validateFrom]; split <;> simp [ih]
  have happly (index : Nat) (os : List Operation) (ms : Forest) :
      applyFrom order index ms os ≠ .error (.invalidResult findings) := by
    induction os generalizing index ms with
    | nil => simp [applyFrom]
    | cons o rest ih => simp only [applyFrom]; split <;> simp [ih]
  unfold applyBatch at h
  split at h
  · rename_i hcheck
    refine ⟨hcheck, ?_⟩
    cases hv : validateFrom 0 operations with
    | error failure =>
      simp only [hv, bind, Except.bind, Except.error.injEq] at h
      exact absurd (h ▸ hv) (hvalidate 0 operations)
    | ok u =>
      refine ⟨validateFrom_eq_ok_iff.1 hv, ?_⟩
      cases ha : applyFrom order 0 ns operations with
      | error failure =>
        simp only [hv, ha, bind, Except.bind, Except.error.injEq] at h
        exact absurd (h ▸ ha) (happly 0 operations ns)
      | ok out =>
        simp only [hv, ha, bind, Except.bind] at h
        split at h
        · simp at h
        · rename_i found hne
          obtain rfl : Forest.check out = findings := by simpa using h
          exact ⟨out, rfl, rfl, hne⟩
  · simp at h

theorem applyBatch_eq_ok_iff :
    applyBatch order ns operations = .ok out ↔
      Forest.check ns = [] ∧ (∀ o ∈ operations, o.validate = .ok ()) ∧
        applyFrom order 0 ns operations = .ok out ∧ Forest.check out = [] := by
  unfold applyBatch
  split
  · rename_i hcheck
    simp only [bind_eq_ok_iff, hcheck, true_and]
    constructor
    · rintro ⟨⟨⟩, hvalid, changed, happly, h⟩
      rw [validateFrom_eq_ok_iff] at hvalid
      split at h
      · rename_i hresult
        obtain rfl := Except.ok.inj h
        exact ⟨hvalid, happly, hresult⟩
      · simp at h
    · rintro ⟨hvalid, happly, hresult⟩
      exact ⟨(), validateFrom_eq_ok_iff.2 hvalid, out, happly, by rw [hresult]⟩
  · simp_all

end LiveDoc.Edit
