import LiveDoc.Proofs.Outcome
import LiveDoc.Proofs.Run.Account
import Mathlib.Data.List.Basic

/-!
# Replaying one call

A call that is carried out alone, with the results that the calls before it had in a run of the
whole document, is told what it was told there. If what functions come to depends on nothing else,
the same comes of it, whatever clocks read.
-/

set_option autoImplicit false
set_option relaxedAutoImplicit false

namespace LiveDoc.Run

variable {σ : Type} {r : Runner σ} {d : Document} {c : Call} {before after : List Call}
  {p : Performance} {previous results : Table TimedResult} {s left : σ} {t : Trace}

/-- What a function comes to depends on what it is called with alone. How long it takes may differ,
within the time that it is allowed. -/
def Runner.Steady (r : Runner σ) : Prop :=
  ∀ name f, r.functions.get? name = some f → ∀ (i : Invocation) (s t : σ),
    (f.answer i s).1.outcome name r.settings.nodeTimeout =
      (f.answer i t).1.outcome name r.settings.nodeTimeout

theorem Runner.perform_congr {context context' : Context} {t : σ}
    (h : ∀ f, r.functions.get? c.function = some f →
      (f.answer ⟨c.parameters, r.content c, context⟩ s).1.outcome c.function
          r.settings.nodeTimeout =
        (f.answer ⟨c.parameters, r.content c, context'⟩ t).1.outcome c.function
          r.settings.nodeTimeout) :
    (r.perform c context s).1.toResult = (r.perform c context' t).1.toResult := by
  have hinvoke : (r.invoke c context s).1 = (r.invoke c context' t).1 := by
    rw [invoke, invoke]
    cases hf : r.functions.get? c.function with
    | none => rfl
    | some f =>
      cases hcheck : f.schema.check c.parameters with
      | error violations => simp [hcheck]
      | ok => simp [hcheck, h f hf]
  exact congrArg Result.of hinvoke

theorem Runner.Steady.perform_eq (h : r.Steady) (c : Call) (context : Context) (s t : σ) :
    (r.perform c context s).1.toResult = (r.perform c context t).1.toResult :=
  perform_congr fun f hf => h c.function f hf ⟨c.parameters, r.content c, context⟩ s t

theorem callsBefore_of_split (hids : d.nodes.ids.Nodup)
    (hsplit : d.nodes.calls = before ++ c :: after) :
    callsBefore d.nodes c.id = before.map Call.id := by
  have hcalls : ((before ++ c :: after).map Call.id).Nodup :=
    hsplit ▸ hids.sublist d.nodes.calls_ids_sublist
  have hother (ident : String) (h : ident ∈ before.map Call.id) : decide (ident ≠ c.id) = true :=
    decide_eq_true fun heq => (id_notMem_of_nodup hcalls).1 (heq ▸ h)
  rw [callsBefore, hsplit, List.map_append, List.map_cons, List.takeWhile_append_of_pos hother]
  simp

theorem plan_single (hids : d.nodes.ids.Nodup) (hsplit : d.nodes.calls = before ++ c :: after)
    (previous : Table TimedResult) :
    (Request.single c.id previous).plan d = .ok ⟨.single, [c],
      previous.filter fun entry => (before.map Call.id).contains entry.1⟩ := by
  have hmem : c ∈ d.nodes.calls := by simp [hsplit]
  obtain ⟨n, hn, hcall⟩ := List.mem_filterMap.1 hmem
  obtain rfl : n = .call c := by cases n <;> simp_all [Node.call?]
  have hfind : d.nodes.find? c.id = some (.call c) := Forest.find?_of_mem hids hn
  rw [Request.plan, hfind, callsBefore_of_split hids hsplit]

theorem Runner.Course.steps_singleton (h : r.Course d [c] results s t left)
    (on : c.enabled = true) : ∃ result mid, t.steps = [⟨⟨c.id, results, d⟩, result⟩] ∧
      r.perform c ⟨c.id, results, d⟩ s = (result, mid) := by
  cases h with
  | skip off => simp [on] at off
  | stop _ performed => exact ⟨_, _, rfl, performed⟩
  | next _ performed _ others =>
    cases others
    exact ⟨_, _, rfl, performed⟩

/-- A call that is carried out alone is told the results given for the calls before it, and it is
all that is reported. -/
theorem Runner.run_single (hids : d.nodes.ids.Nodup) (hsplit : d.nodes.calls = before ++ c :: after)
    (on : c.enabled = true) (previous : Table TimedResult) (s : σ) {context : Context}
    (hcontext : context = ⟨c.id,
      previous.filter fun entry => (before.map Call.id).contains entry.1, d⟩) :
    ∃ single left result t t', r.run d (.single c.id previous) s = (.ok single, left) ∧
      single.trace.steps = [⟨context, result⟩] ∧ r.perform c context t = (result, t') ∧
      single.report.account.order = [c.id] ∧ single.report.nodes = [(c.id, result)] := by
  obtain ⟨single, left, hrun⟩ :
      ∃ single left, r.run d (.single c.id previous) s = (.ok single, left) := by
    rw [run, plan_single hids hsplit]
    exact ⟨_, _, rfl⟩
  obtain ⟨hplan, hkept, t, _, hcourse⟩ := run_eq_ok hrun
  rw [plan_single hids hsplit] at hplan
  rw [← Except.ok.inj hplan] at hcourse
  obtain ⟨result, t', hsteps, hperformed⟩ := hcourse.steps_singleton on
  rw [← hcontext] at hsteps hperformed
  refine ⟨single, left, result, t, t', hrun, hsteps, hperformed, ?_, ?_⟩
  · rw [hkept.order, Trace.order, hsteps, hcontext]
    rfl
  · rw [hkept.nodes, hsteps, hcontext]
    rfl

theorem upTo_prefix {α : Type} (p : α → Bool) (l : List α) : upTo p l <+: l := by
  induction l with
  | nil => exact List.prefix_rfl
  | cons a rest ih =>
    rw [upTo]
    split
    · exact ⟨rest, rfl⟩
    · exact (List.prefix_cons_inj a).2 ih

namespace Performance.Accounts

variable (h : p.Accounts r d)

include h

theorem order_prefix : p.report.account.order <+: enabledIds d.nodes.calls := by
  rw [h.order]
  split
  · exact upTo_prefix _ _
  · exact List.prefix_rfl

theorem exists_step (hcalls : (d.nodes.calls.map Call.id).Nodup)
    (hsplit : d.nodes.calls = before ++ c :: after) (hran : c.id ∈ p.report.account.order) :
    ∃ front st back, p.trace.steps = front ++ st :: back ∧
      front.map Step.id = enabledIds before ∧ st.id = c.id ∧ st.context.document = d ∧
      ∃ s s', r.perform c st.context s = (st.result, s') := by
  have hon : c.enabled = true :=
    enabled_of_mem_enabledIds hcalls (by simp [hsplit]) (h.order_prefix.subset hran)
  rw [← h.steps] at hran
  obtain ⟨st, hst, hident⟩ := List.mem_map.1 hran
  obtain ⟨hdoc, c', hc', -, hsame, hperformed⟩ := h.performed st hst
  obtain rfl : c' = c :=
    List.inj_on_of_nodup_map hcalls hc' (by simp [hsplit]) (hsame.trans hident)
  obtain ⟨front, back, hsteps⟩ := List.append_of_mem hst
  obtain ⟨more, hmore⟩ := h.order_prefix
  -- the id of the call splits its run and the calls that are not switched off at the same place
  have hparts : enabledIds before ++ c'.id :: enabledIds after =
      front.map Step.id ++ c'.id :: (back.map Step.id ++ more) := by
    rw [← h.steps, hsteps, hsplit, enabledIds_append, List.map_append, List.map_cons,
      hident] at hmore
    simpa [enabledIds, hon] using hmore.symm
  obtain ⟨hbefore, hafter⟩ := id_notMem_of_nodup (hsplit ▸ hcalls)
  have hbefore : c'.id ∉ enabledIds before := fun hmem =>
    hbefore ((enabledIds_sublist before).subset hmem)
  have hafter : c'.id ∉ enabledIds after := fun hmem =>
    hafter ((enabledIds_sublist after).subset hmem)
  have hfront := ((List.append_cons_inj_of_notMem hbefore hafter).1 hparts).1.symm
  exact ⟨front, st, back, hsteps, hfront, hident, hdoc, hperformed⟩

/-- Of the results given for the calls before one, those are left that were known in the run they
are from: a call that was passed over has none. -/
theorem filter_eq (hkept : p.Kept) (hcalls : (d.nodes.calls.map Call.id).Nodup)
    (hsplit : d.nodes.calls = before ++ c :: after) {front : List Step}
    (hfront : front.map Step.id = enabledIds before) (hsorted : previous.Sorted)
    (hagree : ∀ b ∈ before, previous.get? b.id = p.report.nodes.get? b.id) :
    (previous.filter fun entry => (before.map Call.id).contains entry.1) =
      p.report.nodes.filter fun entry => (front.map Step.id).contains entry.1 := by
  have hreport : p.report.nodes.Sorted := hkept.nodes ▸ sorted_record _
  refine (hsorted.filter _).ext (hreport.filter _) fun name => ?_
  rw [Table.get?_filter (before.map Call.id).contains,
    Table.get?_filter (front.map Step.id).contains, hfront]
  by_cases hbefore : name ∈ before.map Call.id
  · obtain ⟨b, hb, rfl⟩ := List.mem_map.1 hbefore
    rw [if_pos (List.contains_iff_mem.2 hbefore), hagree b hb]
    by_cases hon : b.id ∈ enabledIds before
    · rw [if_pos (List.contains_iff_mem.2 hon)]
    · rw [if_neg (mt List.contains_iff_mem.1 hon)]
      -- a result would make the call one of those carried out
      refine Option.eq_none_iff_forall_ne_some.2 fun result hget => hon ?_
      have hran : b.id ∈ p.report.account.order :=
        h.names.subset (List.mem_map_of_mem (Table.mem_of_get? hget))
      have henabled : b.enabled = true :=
        enabled_of_mem_enabledIds hcalls (by simp [hsplit, hb]) (h.order_prefix.subset hran)
      exact List.mem_map_of_mem (List.mem_filter.2 ⟨hb, henabled⟩)
  · have hnot : name ∉ enabledIds before := fun hmem =>
      hbefore ((enabledIds_sublist before).subset hmem)
    rw [if_neg (mt List.contains_iff_mem.1 hbefore), if_neg (mt List.contains_iff_mem.1 hnot)]

end Performance.Accounts

/-- A call carried out alone, with the results that the calls before it had in a run of all and any
others, is told what it was told there, and if what functions come to depends on what they are
called with alone, the same comes of it, but for what clocks read. Nothing else is reported. -/
theorem Runner.run_single_replays (hids : d.nodes.ids.Nodup) (hsteady : r.Steady)
    (hrun : r.run d .document s = (.ok p, left)) (hsplit : d.nodes.calls = before ++ c :: after)
    (hran : c.id ∈ p.report.account.order) (hsorted : previous.Sorted)
    (hagree : ∀ b ∈ before, previous.get? b.id = p.report.nodes.get? b.id) (s' : σ) :
    ∃ st ∈ p.trace.steps, st.id = c.id ∧ p.report.nodes.get? c.id = some st.result ∧
      ∃ single left' again, r.run d (.single c.id previous) s' = (.ok single, left') ∧
        single.trace.steps = [again] ∧ again.context = st.context ∧
        again.result.toResult = st.result.toResult ∧
        single.report.account.order = [c.id] ∧ single.report.nodes = [(c.id, again.result)] := by
  obtain ⟨-, hkept, -⟩ := run_eq_ok hrun
  have haccounts : p.Accounts r d := by
    obtain ⟨p', left', hrun', haccounts⟩ := r.run_document_accounts d hids s
    obtain rfl := Except.ok.inj (Prod.mk.inj (hrun.symm.trans hrun')).1
    exact haccounts
  have hcalls : (d.nodes.calls.map Call.id).Nodup := hids.sublist d.nodes.calls_ids_sublist
  have hon : c.enabled = true :=
    enabled_of_mem_enabledIds hcalls (by simp [hsplit]) (haccounts.order_prefix.subset hran)
  obtain ⟨front, st, back, hsteps, hfront, hident, hdoc, t, t', hperformed⟩ :=
    haccounts.exists_step hcalls hsplit hran
  have hst : st ∈ p.trace.steps := by simp [hsteps]
  have htold : st.context = ⟨c.id,
      previous.filter fun entry => (before.map Call.id).contains entry.1, d⟩ := by
    have hprevious := haccounts.previous front st back hsteps
    rw [← haccounts.filter_eq hkept hcalls hsplit hfront hsorted hagree] at hprevious
    rw [← hident, ← hprevious, ← hdoc]
    rfl
  obtain ⟨single, left', result, u, u', hsingle, hsteps', hperformed', horder, hnodes⟩ :=
    r.run_single hids hsplit hon previous s' htold
  have hresult : result.toResult = st.result.toResult := by
    have hsame := hsteady.perform_eq c st.context u t
    rwa [hperformed, hperformed'] at hsame
  exact ⟨st, hst, hident, hident ▸ haccounts.recorded st hst, single, left', ⟨st.context, result⟩,
    hsingle, hsteps', rfl, hresult, horder, hnodes⟩

/-- A call behind one that succeeds, one that is switched off and one that fails is told two results
again, although its function takes longer each time and the clock goes on. -/
theorem Runner.run_single_replays_nested :
    let call (ident function : String) (enabled : Bool) : Call :=
      ⟨ident, .invocation, function, [], [], enabled, []⟩
    let d : Document := ⟨"d", [.call (call "f" "count" true),
      .block ⟨"b", "list_item", [], []⟩ (some [.call (call "x" "count" false),
        .call (call "e" "missing" true), .call (call "g" "count" true)]),
      .call (call "z" "count" true)], none⟩
    let tick (name : String) (counts : CallCounts) : Nat × CallCounts :=
      (Script.countCall name counts, counts.put name (Script.countCall name counts))
    let slower : HostFunction CallCounts := ⟨.any, none, fun i counts =>
      let (number, counts) := tick "count" counts
      (.finished (number % 10) (.value (.ofNat i.context.previous.length)), counts)⟩
    let clock (counts : CallCounts) : Reading × CallCounts :=
      let (number, counts) := tick "clock" counts
      (⟨number, ⟨0, number, 0⟩⟩, counts)
    let r : Runner CallCounts := ⟨[("count", slower)], ⟨30000, false, true⟩, [], clock⟩
    let other : TimedResult := (Result.of (.ok .null)).timed ⟨0, ⟨0, 0, 0⟩⟩
    let previous : Table TimedResult := [("a", other),
      ("e", (Result.of (.error ⟨"Function 'missing' is not registered", .functionNotFound,
        none⟩)).timed ⟨3, ⟨0, 3, 0⟩⟩),
      ("f", (Result.of (.ok (.ofNat 0))).timed ⟨2, ⟨0, 2, 0⟩⟩), ("g", other), ("z", other)]
    d.nodes.ids.Nodup ∧ r.Steady ∧ previous.Sorted ∧
      ∃ p left, r.run d .document [] = (.ok p, left) ∧ "g" ∈ p.report.account.order ∧
        (∀ ident ∈ ["f", "x", "e"], previous.get? ident = p.report.nodes.get? ident) ∧
        ∃ single left' result, r.run d (.single "g" previous) [("count", 7)] = (.ok single, left') ∧
          single.report.nodes = [("g", result)] ∧ result.toResult = .of (.ok (.ofNat 2)) := by
  intro call d tick slower clock r other previous
  have hids : d.nodes.ids.Nodup := by decide +kernel
  have hsteady : r.Steady := by
    intro name f hf i s t
    obtain ⟨rfl, rfl⟩ := Prod.mk.inj (List.mem_singleton.1 (Table.mem_of_get? hf))
    have hquick (number : Nat) : number % 10 < 30000 := by omega
    simp [slower, r, Reply.outcome, hquick]
  have hsorted : previous.Sorted := by
    rw [Table.Sorted]
    decide +kernel
  have hfacts : ∃ p ∈ (r.run d .document []).1.toOption, "g" ∈ p.report.account.order ∧
      (∀ ident ∈ ["f", "x", "e"], previous.get? ident = p.report.nodes.get? ident) ∧
      (p.report.nodes.get? "g").map TimedResult.toResult = some (.of (.ok (.ofNat 2))) := by
    decide +kernel
  obtain ⟨p, hp, hran, hagree, hreport⟩ := hfacts
  have hrun : r.run d .document [] = (.ok p, (r.run d .document []).2) :=
    Prod.ext (toOption_eq_some_iff.1 hp) rfl
  have hsplit : d.nodes.calls =
      [call "f" "count" true, call "x" "count" false, call "e" "missing" true] ++
        call "g" "count" true :: [call "z" "count" true] := rfl
  obtain ⟨st, -, -, hresult, single, left, again, hsingle, -, -, hsame, -, hnodes⟩ :=
    run_single_replays hids hsteady hrun hsplit hran hsorted (by simpa using hagree)
      [("count", 7)]
  rw [hresult, Option.map_some, Option.some_inj] at hreport
  exact ⟨hids, hsteady, hsorted, p, _, hrun, hran, hagree, single, left, again.result, hsingle,
    hnodes, hsame.trans hreport⟩

end LiveDoc.Run
