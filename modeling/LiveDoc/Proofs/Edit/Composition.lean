import LiveDoc.Proofs.Edit.DistinctIds
import LiveDoc.Proofs.Edit.SetOrder

/-!
# Batches one after the other

A batch does what its two parts do as batches of their own, the second on what the first leaves, if
the first can be carried out; only which of several missing nodes is named may differ. If only the
whole is known to be carried out, its first part can be as well, unless a function has a bad name in
between.
-/

set_option autoImplicit false
set_option relaxedAutoImplicit false

namespace LiveDoc.Edit

/-- The failure of a batch, as it is with a number of operations in front of the batch. -/
def BatchFailure.behind (count : Nat) : BatchFailure → BatchFailure
  | .operation index name failure => .operation (count + index) name failure
  | .invalidInput findings => .invalidInput findings
  | .invalidResult findings => .invalidResult findings
  | .targetMismatch expected found => .targetMismatch expected found

/-- What a list of operations comes to on a forest when it is applied twice, with `index` operations
in front of it. Both times it is the same, or the list gets as far as a move of several nodes, some
of which are missing, and each time one of these is named. -/
inductive Alike : Nat → Forest → List Operation →
    Except BatchFailure Forest → Except BatchFailure Forest → Prop
  | same {index ns operations} (outcome : Except BatchFailure Forest) :
    Alike index ns operations outcome outcome
  | missing {index ns o rest a b} (first : o.Misses ns a) (second : o.Misses ns b) :
    Alike index ns (o :: rest) (.error (.operation index o.name (.nodeNotFound a)))
      (.error (.operation index o.name (.nodeNotFound b)))
  | step {index ns mid o rest x y} (applied : ∀ order, o.apply order ns = .ok mid)
    (further : Alike (index + 1) mid rest x y) : Alike index ns (o :: rest) x y

variable {order order' : SetOrder} {ns mid out : Forest} {first second operations : List Operation}
  {index : Nat} {x y : Except BatchFailure Forest}

private def checkResult (changed : Forest) : Except BatchFailure Forest :=
  match Forest.check changed with
  | [] => .ok changed
  | findings => .error (.invalidResult findings)

private theorem applyBatch_of_check (h : Forest.check ns = []) (operations : List Operation) :
    applyBatch order ns operations =
      (do validateFrom 0 operations; checkResult (← applyFrom order 0 ns operations)) := by
  rw [applyBatch, h]
  rfl

private theorem validateFrom_behind (count index : Nat) (operations : List Operation) :
    validateFrom (count + index) operations =
      (validateFrom index operations).mapError (.behind count) := by
  induction operations generalizing index with
  | nil => rfl
  | cons o rest ih =>
    rw [validateFrom, validateFrom]
    cases o.validate with
    | error failure => rfl
    | ok => exact ih (index + 1)

private theorem applyFrom_behind (count index : Nat) (ns : Forest) (operations : List Operation) :
    applyFrom order (count + index) ns operations =
      (applyFrom order index ns operations).mapError (.behind count) := by
  induction operations generalizing index ns with
  | nil => rfl
  | cons o rest ih =>
    rw [applyFrom, applyFrom]
    cases o.apply order ns with
    | error failed => rfl
    | ok next => exact ih (index + 1) next

private theorem checkResult_behind (count : Nat) (changed : Forest) :
    (checkResult changed).mapError (.behind count) = checkResult changed := by
  unfold checkResult
  split <;> rfl

theorem validateFrom_append (h : validateFrom index first = .ok ()) :
    validateFrom index (first ++ second) = validateFrom (index + first.length) second := by
  induction first generalizing index with
  | nil => rfl
  | cons o rest ih =>
    rw [validateFrom] at h
    rw [List.cons_append, validateFrom]
    cases hvalid : o.validate with
    | error failure => simp [hvalid] at h
    | ok =>
      rw [hvalid] at h
      rw [List.length_cons, Nat.add_comm rest.length, ← Nat.add_assoc]
      exact ih h

theorem Alike.eq_ok (h : Alike index ns operations x y) (hx : x = .ok out) : y = .ok out := by
  induction h with
  | same => exact hx
  | missing => cases hx
  | step _ _ ih => exact ih hx

private theorem Alike.checkResult (h : Alike index ns operations x y) :
    Alike index ns operations (x >>= Edit.checkResult) (y >>= Edit.checkResult) := by
  induction h with
  | same outcome => exact .same _
  | missing first second => exact .missing first second
  | step applied _ ih => exact .step applied ih

theorem applyFrom_alike (order order' : SetOrder) (hvalid : ∀ o ∈ operations, o.validate = .ok ())
    (hns : Forest.DistinctIds ns) : Alike index ns operations
      (applyFrom order index ns operations) (applyFrom order' index ns operations) := by
  induction operations generalizing index ns with
  | nil => exact .same _
  | cons o rest ih =>
    rw [List.forall_mem_cons] at hvalid
    obtain hsame | ⟨a, b, ha, hb, hfail, hfail'⟩ := o.apply_or_misses hns.nodup order order'
    · rw [applyFrom, applyFrom, ← hsame]
      cases happly : o.apply order ns with
      | error failed => exact .same _
      | ok mid =>
        have hmid := o.apply_distinctIds hvalid.1 hns happly
        exact .step (fun _ => Operation.apply_eq_ok_of_order hns.nodup _ happly) (ih hvalid.2 hmid)
    · rw [applyFrom, applyFrom, hfail, hfail']
      exact .missing ha hb

theorem applyBatch_alike (order order' : SetOrder) (ns : Forest) (operations : List Operation) :
    Alike 0 ns operations (applyBatch order ns operations) (applyBatch order' ns operations) := by
  cases hcheck : Forest.check ns with
  | cons finding findings =>
    rw [applyBatch, applyBatch, hcheck]
    exact .same _
  | nil =>
    rw [applyBatch_of_check hcheck, applyBatch_of_check hcheck]
    cases hvalid : validateFrom 0 operations with
    | error failure => exact .same _
    | ok =>
      have hns := (Forest.check_eq_nil_iff.1 hcheck).1
      exact (applyFrom_alike order order' (validateFrom_eq_ok_iff.1 hvalid) hns).checkResult

private theorem applyBatch_append_of_ok (h : applyBatch order ns first = .ok mid) :
    applyBatch order ns (first ++ second) =
      (applyBatch order mid second).mapError (.behind first.length) := by
  obtain ⟨hns, hvalid, happly, hmid⟩ := applyBatch_eq_ok_iff.1 h
  have hvalidate : validateFrom 0 (first ++ second) = validateFrom (0 + first.length) second :=
    validateFrom_append (validateFrom_eq_ok_iff.2 hvalid)
  have hrun : applyFrom order 0 ns (first ++ second) =
      applyFrom order (0 + first.length) mid second := applyFrom_append happly
  rw [Nat.zero_add] at hvalidate hrun
  have hfront := validateFrom_behind first.length 0 second
  have hrest : applyFrom order first.length mid second =
      (applyFrom order 0 mid second).mapError (.behind first.length) :=
    applyFrom_behind first.length 0 mid second
  rw [Nat.add_zero] at hfront
  rw [applyBatch_of_check hns, applyBatch_of_check hmid, hvalidate, hrun, hfront, hrest]
  simp only [mapError_bind, checkResult_behind]

private theorem exists_of_applyBatch_append (h : applyBatch order ns (first ++ second) = .ok out) :
    ∃ mid, applyFrom order 0 ns first = .ok mid ∧
      (Forest.FunctionsNamed mid → applyBatch order ns first = .ok mid) := by
  obtain ⟨hns, hvalid, happly, -⟩ := applyBatch_eq_ok_iff.1 h
  obtain ⟨mid, hmid⟩ := exists_of_applyFrom_append happly
  have hfirst (o : Operation) (ho : o ∈ first) : o.validate = .ok () :=
    hvalid o (List.mem_append_left _ ho)
  refine ⟨mid, hmid, fun hnamed => applyBatch_eq_ok_iff.2 ⟨hns, hfirst, hmid, ?_⟩⟩
  have hdistinct := applyFrom_distinctIds hfirst (Forest.check_eq_nil_iff.1 hns).1 hmid
  exact Forest.check_eq_nil_iff.2 ⟨hdistinct, hnamed⟩

/-- A batch whose first part is carried out comes to what the second part comes to on the forest
that the first leaves, with the operations counted from the front; each of the three may go through
sets in an order of its own, on which only the name of a missing node depends. And if a batch is
carried out, so are the operations of its first part, and this part is carried out by itself if all
functions in the forest that it leaves have proper names. -/
theorem applyBatch_append (ns : Forest) (first second : List Operation) :
    (∀ order mid, applyBatch order ns first = .ok mid →
      (∀ order', applyBatch order' ns (first ++ second) =
        (applyBatch order' mid second).mapError (.behind first.length)) ∧
      ∀ order' order'', Alike 0 ns (first ++ second) (applyBatch order' ns (first ++ second))
        ((applyBatch order'' mid second).mapError (.behind first.length))) ∧
    ∀ order out, applyBatch order ns (first ++ second) = .ok out →
      ∃ mid, applyFrom order 0 ns first = .ok mid ∧
        ((∀ c ∈ Forest.calls mid, isFunctionName c.function = true) →
          ∀ order', applyBatch order' ns first = .ok mid) := by
  refine ⟨fun order mid h => ?_, fun order out h => ?_⟩
  · have hwhole (order' : SetOrder) : applyBatch order' ns (first ++ second) =
        (applyBatch order' mid second).mapError (.behind first.length) :=
      applyBatch_append_of_ok ((applyBatch_alike order order' ns first).eq_ok h)
    refine ⟨hwhole, fun order' order'' => ?_⟩
    rw [← hwhole order'']
    exact applyBatch_alike order' order'' ns (first ++ second)
  · obtain ⟨mid, hmid, hbatch⟩ := exists_of_applyBatch_append h
    refine ⟨mid, hmid, fun hnamed order' => ?_⟩
    have hfirst := hbatch (Forest.functionsNamed_iff_calls.2 hnamed)
    exact (applyBatch_alike order order' ns first).eq_ok hfirst

/-- The second operation of a second batch is the third of both together. -/
theorem applyBatch_append_missing :
    let given : Forest := [.paragraph "a" "A"]
    let first := [Operation.insertAtEnd [.paragraph "b" "B"]]
    let second := [Operation.delete "a", .delete "c"]
    let both : Forest := [.paragraph "a" "A", .paragraph "b" "B"]
    applyBatch .written given first = .ok both ∧
      applyBatch .written given (first ++ second) =
        .error (.operation 2 "delete" (.nodeNotFound "c")) ∧
      ∃ mid, applyFrom .written 0 given first = .ok mid ∧
        ((∀ c ∈ Forest.calls mid, isFunctionName c.function = true) →
          ∀ order, applyBatch order given first = .ok mid) := by
  intro given first second both
  have hfirst : applyBatch .written given first = .ok both := by decide +kernel
  have hsecond : applyBatch .written both second =
      .error (.operation 1 "delete" (.nodeNotFound "c")) := by decide +kernel
  have hwhole := ((applyBatch_append given first second).1 .written both hfirst).1 .written
  rw [hsecond] at hwhole
  exact ⟨hfirst, hwhole, (applyBatch_append given first [.delete "a"]).2 .written
    [.paragraph "b" "B"] (by decide +kernel)⟩

/-- Two nodes that are to be moved are missing, and each of two orders brings another one first. -/
theorem applyBatch_append_other_missing :
    let given : Forest := [.paragraph "a" "A"]
    let first := [Operation.insertAtEnd [.paragraph "b" "B"]]
    let second := [(Operation.moveNodes ["a", "x", "y"]).placedAt .finish]
    let both : Forest := [.paragraph "a" "A", .paragraph "b" "B"]
    let reversed : SetOrder := ⟨List.reverse, List.reverse_perm⟩
    let whole := applyBatch .written given (first ++ second)
    let behind := (applyBatch reversed both second).mapError (BatchFailure.behind first.length)
    applyBatch .written given first = .ok both ∧
      whole = .error (.operation 1 "move" (.nodeNotFound "x")) ∧
      behind = .error (.operation 1 "move" (.nodeNotFound "y")) ∧ whole ≠ behind := by
  decide +kernel

end LiveDoc.Edit
