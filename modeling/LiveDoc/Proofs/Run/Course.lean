import LiveDoc.Run.Execution

/-!
# The course of a run

What can happen to each call of a run, one after another, and what a whole run comes to: where it
ends and what each call was told.
-/

set_option autoImplicit false
set_option relaxedAutoImplicit false

namespace LiveDoc.Run

/-- What happens from some point of a run on: the calls carried out, in order, the number of those
passed over, and whether the run ends before a call that was to be carried out. -/
structure Trace where
  steps : List Step
  skipped : Nat
  stoppedEarly : Bool
deriving DecidableEq

namespace Trace

def after (st : Step) (t : Trace) : Trace := { t with steps := st :: t.steps }

def afterSkip (t : Trace) : Trace := { t with skipped := t.skipped + 1 }

def order (t : Trace) : List String := t.steps.map Step.id

end Trace

variable {σ : Type} {r : Runner σ} {d : Document} {c : Call} {calls rest : List Call}
  {results : Table TimedResult} {result : TimedResult} {s mid left : σ} {t : Trace}
  {p : Progress}

def enabledIds (calls : List Call) : List String := (calls.filter Call.enabled).map Call.id

def record (results : Table TimedResult) (steps : List Step) : Table TimedResult :=
  steps.foldl (fun table st => table.put st.id st.result) results

namespace Progress

/-- What is kept when some more has happened. -/
def extend (p : Progress) (t : Trace) : Progress where
  known := record p.known t.steps
  nodes := record p.nodes t.steps
  order := p.order ++ t.order
  succeeded := p.succeeded + t.steps.countP (·.result.success)
  failed := p.failed + t.steps.countP (!·.result.success)
  skipped := p.skipped + t.skipped
  stoppedEarly := t.stoppedEarly
  steps := p.steps ++ t.steps

theorem extend_nil (h : p.stoppedEarly = false) : p.extend ⟨[], 0, false⟩ = p := by
  simp [extend, record, Trace.order, ← h]

theorem extend_afterSkip (p : Progress) (t : Trace) : p.extend t.afterSkip = p.pass.extend t := by
  simp [extend, Trace.afterSkip, Trace.order, pass, Nat.add_right_comm, Nat.add_assoc]

theorem extend_after (p : Progress) (st : Step) (t : Trace) :
    p.extend (t.after st) = (p.take st).extend t := by
  cases hsuccess : st.result.success <;>
    simp [extend, Trace.after, Trace.order, take, record, hsuccess, Nat.add_assoc, Nat.add_comm]

theorem extend_last (p : Progress) (st : Step) (early : Bool) :
    p.extend ⟨[st], 0, early⟩ = { p.take st with stoppedEarly := early } := by
  cases hsuccess : st.result.success <;> simp [extend, Trace.order, take, record, hsuccess]

end Progress

/-- What happens when calls are carried out in order: one that is switched off is passed over, one
that fails ends the run if failures do, and after each other one its result is known to the rest. -/
inductive Runner.Course (r : Runner σ) (d : Document) :
    List Call → Table TimedResult → σ → Trace → σ → Prop
  | done {results : Table TimedResult} {s : σ} : Course r d [] results s ⟨[], 0, false⟩ s
  | skip {c : Call} {rest : List Call} {results : Table TimedResult} {s left : σ} {t : Trace}
    (off : c.enabled = false) (others : Course r d rest results s t left) :
    Course r d (c :: rest) results s t.afterSkip left
  | stop {c : Call} {rest : List Call} {results : Table TimedResult} {s left : σ}
    {result : TimedResult} (on : c.enabled = true)
    (performed : r.perform c ⟨c.id, results, d⟩ s = (result, left))
    (failed : result.success = false) (stops : r.settings.stopOnError = true) :
    Course r d (c :: rest) results s
      ⟨[⟨⟨c.id, results, d⟩, result⟩], 0, rest.any Call.enabled⟩ left
  | next {c : Call} {rest : List Call} {results : Table TimedResult} {s mid left : σ}
    {result : TimedResult} {t : Trace} (on : c.enabled = true)
    (performed : r.perform c ⟨c.id, results, d⟩ s = (result, mid))
    (goesOn : r.settings.stopOnError = true → result.success = true)
    (others : Course r d rest (results.put c.id result) mid t left) :
    Course r d (c :: rest) results s (t.after ⟨⟨c.id, results, d⟩, result⟩) left

/-- This is what happens, whatever the functions do, and what is kept tells it: the tables, the
order and the counts are those of the steps. -/
theorem Runner.course_loop (r : Runner σ) (d : Document) (calls : List Call) (p : Progress)
    (hopen : p.stoppedEarly = false) (s : σ) :
    ∃ t, r.Course d calls p.known s t (r.loop d calls p s).2 ∧
      (r.loop d calls p s).1 = p.extend t := by
  induction calls generalizing p s with
  | nil => exact ⟨_, .done, (p.extend_nil hopen).symm⟩
  | cons c rest ih =>
    rw [loop]
    cases hon : c.enabled with
    | false =>
      obtain ⟨t, hcourse, hkept⟩ := ih p.pass hopen s
      exact ⟨_, .skip hon hcourse, hkept.trans (p.extend_afterSkip t).symm⟩
    | true =>
      rcases hperformed : r.perform c ⟨c.id, p.known, d⟩ s with ⟨result, mid⟩
      cases hend : !result.success && r.settings.stopOnError with
      | true =>
        obtain ⟨hfailed, hstops⟩ := Bool.and_eq_true_iff.1 hend
        simp only [if_true, hperformed, hend]
        have hearly : decide (0 < rest.countP Call.enabled) = rest.any Call.enabled := by
          rw [Bool.eq_iff_iff, decide_eq_true_iff, List.countP_pos_iff, List.any_eq_true]
        refine ⟨_, .stop hon hperformed (by simpa using hfailed) hstops, ?_⟩
        rw [p.extend_last, hearly]
      | false =>
        simp only [if_true, hperformed, hend, Bool.false_eq_true, if_false]
        obtain ⟨t, hcourse, hkept⟩ := ih (p.take ⟨⟨c.id, p.known, d⟩, result⟩) hopen mid
        refine ⟨_, .next hon hperformed (fun hstops => ?_) hcourse, ?_⟩
        · simpa [hstops] using hend
        · exact hkept.trans (p.extend_after _ t).symm

/-- Where a run ends: behind the last call, or at the first failure. -/
inductive Ends (stop : Bool) (calls : List Call) (t : Trace) : Prop
  | complete (order : t.order = enabledIds calls) (skipped : t.skipped = calls.countP (!·.enabled))
    (early : t.stoppedEarly = false)
    (succeed : stop = true → ∀ st ∈ t.steps, st.result.success = true)
  | failed {before after : List Call} {c : Call} {front : List Step} {last : Step}
    (stops : stop = true) (split : calls = before ++ c :: after) (on : c.enabled = true)
    (steps : t.steps = front ++ [last]) (order : front.map Step.id = enabledIds before)
    (ident : last.id = c.id) (succeed : ∀ st ∈ front, st.result.success = true)
    (fail : last.result.success = false) (skipped : t.skipped = before.countP (!·.enabled))
    (early : t.stoppedEarly = after.any Call.enabled)

namespace Ends

variable {stop : Bool}

theorem afterSkip (h : Ends stop rest t) (off : c.enabled = false) :
    Ends stop (c :: rest) t.afterSkip := by
  cases h with
  | complete order skipped early succeed =>
    refine .complete ?_ ?_ early succeed
    · simpa [Trace.order, Trace.afterSkip, enabledIds, off] using order
    · simp [Trace.afterSkip, off, skipped]
  | @failed before after c' front last stops split on steps order ident succeed fail skipped
    early =>
    have hsplit : c :: rest = (c :: before) ++ c' :: after := by rw [split, List.cons_append]
    refine .failed stops hsplit on steps ?_ ident succeed fail ?_ early
    · simpa [enabledIds, off] using order
    · simp [Trace.afterSkip, off, skipped]

theorem after (h : Ends stop rest t) (on : c.enabled = true) {st : Step} (hident : st.id = c.id)
    (hgoesOn : stop = true → st.result.success = true) : Ends stop (c :: rest) (t.after st) := by
  cases h with
  | complete order skipped early succeed =>
    refine .complete ?_ ?_ early fun hstop => ?_
    · rw [Trace.order] at order
      simp [Trace.order, Trace.after, enabledIds, on, order, hident]
    · simp [Trace.after, on, skipped]
    · exact List.forall_mem_cons.2 ⟨hgoesOn hstop, succeed hstop⟩
  | @failed before after c' front last stops split on' steps order ident succeed fail skipped
    early =>
    have hsplit : c :: rest = (c :: before) ++ c' :: after := by rw [split, List.cons_append]
    have hsteps : (t.after st).steps = (st :: front) ++ [last] := by
      rw [Trace.after, steps, List.cons_append]
    refine .failed stops hsplit on' hsteps ?_ ident ?_ fail ?_ early
    · simp [enabledIds, on, order, hident]
    · exact List.forall_mem_cons.2 ⟨hgoesOn stops, succeed⟩
    · simp [Trace.after, on, skipped]

end Ends

namespace Runner.Course

theorem ends (h : r.Course d calls results s t left) : Ends r.settings.stopOnError calls t := by
  induction h with
  | done => exact .complete rfl rfl rfl (by simp)
  | skip off others ih => exact ih.afterSkip off
  | @stop c rest results s left result on performed failed stops =>
    have hsplit : c :: rest = [] ++ c :: rest := rfl
    have hsteps (st : Step) : [st] = [] ++ [st] := rfl
    exact .failed stops hsplit on (hsteps _) rfl rfl (by simp) failed rfl rfl
  | next on performed goesOn others ih => exact ih.after on rfl goesOn

theorem previous (h : r.Course d calls results s t left) {front back : List Step} {st : Step}
    (hsteps : t.steps = front ++ st :: back) : st.context.previous = record results front := by
  induction h generalizing front with
  | done => simp at hsteps
  | skip off others ih => exact ih hsteps
  | stop on performed failed stops =>
    cases front with
    | nil =>
      obtain ⟨rfl, -⟩ := List.cons.inj hsteps
      rfl
    | cons => simp at hsteps
  | next on performed goesOn others ih =>
    cases front with
    | nil =>
      obtain ⟨rfl, -⟩ := List.cons.inj hsteps
      rfl
    | cons first front =>
      obtain ⟨rfl, hrest⟩ := List.cons.inj hsteps
      exact ih hrest

theorem performed (h : r.Course d calls results s t left) :
    ∀ st ∈ t.steps, st.context.document = d ∧
      ∃ c ∈ calls, c.enabled = true ∧ c.id = st.id ∧
        ∃ before after, r.perform c st.context before = (st.result, after) := by
  have hlater {c : Call} {rest : List Call} {st : Step}
      (h : ∃ c ∈ rest, c.enabled = true ∧ c.id = st.id ∧
        ∃ before after, r.perform c st.context before = (st.result, after)) :
      ∃ c' ∈ c :: rest, c'.enabled = true ∧ c'.id = st.id ∧
        ∃ before after, r.perform c' st.context before = (st.result, after) := by
    obtain ⟨c', hc', h⟩ := h
    exact ⟨c', List.mem_cons_of_mem _ hc', h⟩
  induction h with
  | done => simp
  | skip off others ih => exact fun st hst => (ih st hst).imp_right hlater
  | @stop c rest results s left result on performed failed stops =>
    intro st hst
    obtain rfl := List.mem_singleton.1 hst
    exact ⟨rfl, c, List.mem_cons_self, on, rfl, s, left, performed⟩
  | @next c rest results s mid left result t on performed goesOn others ih =>
    refine List.forall_mem_cons.2 ⟨⟨rfl, c, List.mem_cons_self, on, rfl, s, mid, performed⟩, ?_⟩
    exact fun st hst => (ih st hst).imp_right hlater

end Runner.Course

end LiveDoc.Run
