import LiveDoc.Proofs.Forest.Traversal
import LiveDoc.Proofs.Run.Course
import LiveDoc.Proofs.Table
import LiveDoc.Run.Scripted

/-!
# The account of a run

What the report on all calls of a document says about them, whatever comes of each: which of them
were carried out, what each was told, and how many there are of every kind.
-/

set_option autoImplicit false
set_option relaxedAutoImplicit false

namespace LiveDoc

theorem Forest.calls_ids_sublist (ns : Forest) : (ns.calls.map Call.id).Sublist ns.ids := by
  rw [calls, ids]
  induction preorder ns with
  | nil => exact .slnil
  | cons n rest ih =>
    cases n with
    | block head children => exact ih.cons _
    | call c => exact ih.cons_cons _

end LiveDoc

namespace LiveDoc.Run

variable {σ : Type} {r : Runner σ} {d : Document} {c : Call} {calls : List Call} {s left : σ}
  {t : Trace} {steps front back : List Step} {st : Step}

section UpTo

variable {α : Type} {p : α → Bool}

/-- The beginning of a list that ends with the first element of a kind, or all of a list that has
none. -/
def upTo (p : α → Bool) : List α → List α
  | [] => []
  | a :: rest => if p a then [a] else a :: upTo p rest

theorem upTo_eq_self {l : List α} (h : ∀ a ∈ l, p a = false) : upTo p l = l := by
  induction l with
  | nil => rfl
  | cons a rest ih =>
    obtain ⟨ha, hrest⟩ := List.forall_mem_cons.1 h
    simp [upTo, ha, ih hrest]

theorem upTo_append_cons {before after : List α} {a : α} (h : ∀ b ∈ before, p b = false)
    (ha : p a = true) : upTo p (before ++ a :: after) = before ++ [a] := by
  induction before with
  | nil => simp [upTo, ha]
  | cons b rest ih =>
    obtain ⟨hb, hrest⟩ := List.forall_mem_cons.1 h
    simp [upTo, hb, ih hrest]

end UpTo

theorem id_notMem_of_nodup {before after : List Call}
    (h : ((before ++ c :: after).map Call.id).Nodup) :
    c.id ∉ before.map Call.id ∧ c.id ∉ after.map Call.id := by
  rw [List.map_append, List.map_cons, List.nodup_append, List.nodup_cons] at h
  exact ⟨fun hmem => h.2.2 c.id hmem c.id List.mem_cons_self rfl, h.2.1.1⟩

theorem enabledIds_append (calls more : List Call) :
    enabledIds (calls ++ more) = enabledIds calls ++ enabledIds more := by
  simp [enabledIds]

theorem enabledIds_sublist (calls : List Call) : (enabledIds calls).Sublist (calls.map Call.id) :=
  List.filter_sublist.map Call.id

theorem enabledIds_eq_nil_iff : enabledIds calls = [] ↔ calls.any Call.enabled = false := by
  simp [enabledIds]

theorem enabled_of_mem_enabledIds (hcalls : (calls.map Call.id).Nodup) (hc : c ∈ calls)
    (h : c.id ∈ enabledIds calls) : c.enabled = true := by
  obtain ⟨other, hother, hsame⟩ := List.mem_map.1 h
  obtain ⟨hother, hon⟩ := List.mem_filter.1 hother
  exact List.inj_on_of_nodup_map hcalls hother hc hsame ▸ hon

theorem upTo_enabledIds {p : String → Bool} (h : ∀ c ∈ calls, p c.id = true → c.enabled = true) :
    upTo p (enabledIds calls) = enabledIds (upTo (fun c => p c.id) calls) := by
  induction calls with
  | nil => rfl
  | cons c rest ih =>
    obtain ⟨hc, hrest⟩ := List.forall_mem_cons.1 h
    have hih := ih hrest
    cases hp : p c.id with
    | true => simp [enabledIds, upTo, hp, hc hp]
    | false =>
      cases hon : c.enabled with
      | true => simpa [enabledIds, upTo, hp, hon] using hih
      | false => simpa [enabledIds, upTo, hp, hon] using hih

theorem record_nil_eq (steps : List Step) :
    record [] steps = Table.ofList (steps.map fun st => (st.id, st.result)) := by
  rw [record, Table.ofList, List.foldl_map]

private theorem map_fst_entries (steps : List Step) :
    (steps.map fun st => (st.id, st.result)).map Prod.fst = steps.map Step.id := by
  simp

theorem exists_of_mem_record {entry : String × TimedResult} (h : entry ∈ record [] steps) :
    ∃ st ∈ steps, (st.id, st.result) = entry := by
  rw [record_nil_eq] at h
  exact List.mem_map.1 (Table.mem_of_mem_ofList h)

theorem get?_record_of_mem (hnodup : (steps.map Step.id).Nodup) (h : st ∈ steps) :
    (record [] steps).get? st.id = some st.result := by
  rw [record_nil_eq]
  exact Table.get?_ofList_of_mem (by rwa [map_fst_entries]) (List.mem_map_of_mem h)

theorem sorted_record (steps : List Step) : Table.Sorted (record [] steps) := by
  rw [record_nil_eq]
  exact Table.sorted_ofList _

theorem record_front (hnodup : ((front ++ back).map Step.id).Nodup) :
    record [] front =
      (record [] (front ++ back)).filter fun entry => (front.map Step.id).contains entry.1 := by
  refine (sorted_record front).ext ((sorted_record _).filter _) fun name => ?_
  rw [Table.get?_filter (front.map Step.id).contains]
  by_cases hname : name ∈ front.map Step.id
  · obtain ⟨st, hst, rfl⟩ := List.mem_map.1 hname
    have hfront : (front.map Step.id).Nodup := by
      rw [List.map_append] at hnodup
      exact hnodup.of_append_left
    rw [if_pos (List.contains_iff_mem.2 hname), get?_record_of_mem hfront hst,
      get?_record_of_mem hnodup (List.mem_append_left _ hst)]
  · rw [if_neg (mt List.contains_iff_mem.1 hname), record_nil_eq]
    exact Table.get?_ofList_eq_none (by rwa [map_fst_entries])

/-- Whether a call failed according to a report. -/
def Report.fails (report : Report) (ident : String) : Bool :=
  (report.nodes.get? ident).any (!·.success)

namespace Performance

/-- What happened when a plan was followed. -/
def trace (p : Performance) : Trace :=
  ⟨p.progress.steps, p.progress.skipped, p.progress.stoppedEarly⟩

theorem trace_eq {p : Performance} {known : Table TimedResult}
    (h : p.progress = (Progress.start known).extend t) : p.trace = t := by
  simp [trace, h, Progress.extend, Progress.start]

/-- What was kept is what the steps come to. -/
def Kept (p : Performance) : Prop := p.progress = (Progress.start p.plan.previous).extend p.trace

namespace Kept

variable {p : Performance} (h : p.Kept)
include h

theorem nodes : p.report.nodes = record [] p.trace.steps := congrArg Progress.nodes h

theorem order : p.report.account.order = p.trace.order := congrArg Progress.order h

theorem succeeded : p.report.account.succeeded = p.trace.steps.countP (·.result.success) :=
  (congrArg Progress.succeeded h).trans (Nat.zero_add _)

theorem failed : p.report.account.failed = p.trace.steps.countP (!·.result.success) :=
  (congrArg Progress.failed h).trans (Nat.zero_add _)

theorem get?_report (once : p.trace.order.Nodup) {st : Step} (hst : st ∈ p.trace.steps) :
    p.report.nodes.get? st.id = some st.result := by
  rw [h.nodes]
  exact get?_record_of_mem once hst

theorem fails_of_mem (once : p.trace.order.Nodup) {st : Step} (hst : st ∈ p.trace.steps) :
    p.report.fails st.id = !st.result.success := by
  rw [Report.fails, h.get?_report once hst, Option.any_some]

theorem fails_iff (once : p.trace.order.Nodup) {ident : String} :
    p.report.fails ident = true ↔
      ∃ st ∈ p.trace.steps, st.id = ident ∧ st.result.success = false := by
  constructor
  · intro hfail
    obtain ⟨result, hget, hfail⟩ := (Option.any_eq_true _ _).1 hfail
    rw [h.nodes] at hget
    obtain ⟨st, hst, heq⟩ := exists_of_mem_record (Table.mem_of_get? hget)
    obtain ⟨rfl, rfl⟩ := Prod.mk.inj heq
    exact ⟨st, hst, rfl, by simpa using hfail⟩
  · rintro ⟨st, hst, rfl, hfail⟩
    rw [h.fails_of_mem once hst, hfail, Bool.not_false]

theorem names_perm (once : p.trace.order.Nodup) :
    p.report.nodes.names.Perm p.report.account.order := by
  rw [h.nodes, h.order, record_nil_eq, Trace.order, ← map_fst_entries]
  exact Table.names_ofList_perm (by rwa [map_fst_entries])

theorem succeeded_add_failed :
    p.report.account.succeeded + p.report.account.failed = p.report.account.order.length := by
  have hcount := List.length_eq_countP_add_countP (l := p.trace.steps) fun st => st.result.success
  rw [h.succeeded, h.failed, h.order]
  simpa [Trace.order] using hcount.symm

theorem failed_eq_countP (once : p.trace.order.Nodup) :
    p.report.account.failed = p.report.account.order.countP p.report.fails := by
  have hcount : p.trace.steps.countP (!·.result.success) =
      p.trace.steps.countP fun st => p.report.fails st.id :=
    List.countP_congr fun st hst => by rw [h.fails_of_mem once hst]
  rw [h.failed, h.order, hcount]
  exact (List.countP_map (p := p.report.fails) (f := Step.id)).symm

theorem isSuccess_iff (once : p.trace.order.Nodup) :
    p.report.isSuccess = true ↔ ∀ entry ∈ p.report.nodes, entry.2.success = true := by
  have hzero : p.report.isSuccess = true ↔ ∀ st ∈ p.trace.steps, st.result.success = true := by
    simp [Report.isSuccess, h.failed]
  rw [hzero, h.nodes]
  constructor
  · intro hsteps entry hentry
    obtain ⟨st, hst, rfl⟩ := exists_of_mem_record hentry
    exact hsteps st hst
  · intro hnodes st hst
    exact hnodes _ (Table.mem_of_get? (get?_record_of_mem once hst))

end Kept

end Performance

/-- What the account of a run of all calls has to say, and what its steps are. -/
structure Performance.Accounts (p : Performance) (r : Runner σ) (d : Document) : Prop where
  mode : p.report.account.mode = .document
  order : p.report.account.order =
    if r.settings.stopOnError then upTo p.report.fails (enabledIds d.nodes.calls)
    else enabledIds d.nodes.calls
  performed : ∀ st ∈ p.trace.steps, st.context.document = d ∧
    ∃ c ∈ d.nodes.calls, c.enabled = true ∧ c.id = st.id ∧
      ∃ before after, r.perform c st.context before = (st.result, after)
  previous : ∀ front st back, p.trace.steps = front ++ st :: back →
    st.context.previous =
      p.report.nodes.filter fun entry => (front.map Step.id).contains entry.1
  steps : p.trace.steps.map Step.id = p.report.account.order
  recorded : ∀ st ∈ p.trace.steps, p.report.nodes.get? st.id = some st.result
  once : p.report.account.order.Nodup
  names : p.report.nodes.names.Perm p.report.account.order
  counts : p.report.account.succeeded + p.report.account.failed = p.report.account.order.length
  failed : p.report.account.failed = p.report.account.order.countP p.report.fails
  skipped : p.report.account.skipped =
    (if r.settings.stopOnError then upTo (fun c => p.report.fails c.id) d.nodes.calls
      else d.nodes.calls).countP (!·.enabled)
  total : p.report.account.total = d.nodes.calls.length
  stoppedEarly : p.report.account.stoppedEarly = true ↔
    p.report.account.order <+: enabledIds d.nodes.calls ∧
      p.report.account.order ≠ enabledIds d.nodes.calls
  isSuccess : p.report.isSuccess = true ↔ ∀ entry ∈ p.report.nodes, entry.2.success = true

theorem Ends.order_prefix {stop : Bool} (h : Ends stop calls t) : t.order <+: enabledIds calls := by
  cases h with
  | complete order => exact order ▸ List.prefix_rfl
  | @failed before after c front last _ split on steps order ident =>
    refine ⟨enabledIds after, ?_⟩
    rw [split, Trace.order, steps, List.map_append, order, enabledIds_append]
    simp [enabledIds, on, ident]

/-- The calls that a run comes to are those up to the first that fails, or all, if failures do not
end it. -/
theorem Ends.reached {stop : Bool} {fails : String → Bool} (h : Ends stop calls t)
    (hnodup : (calls.map Call.id).Nodup)
    (hfails : ∀ ident, fails ident = true ↔
      ∃ st ∈ t.steps, st.id = ident ∧ st.result.success = false) :
    ∃ reached beyond, (if stop then upTo (fun c => fails c.id) calls else calls) = reached ∧
      calls = reached ++ beyond ∧ t.order = enabledIds reached ∧
      t.skipped = reached.countP (!·.enabled) ∧ t.stoppedEarly = beyond.any Call.enabled := by
  cases h with
  | complete order skipped early succeed =>
    refine ⟨calls, [], ?_, (List.append_nil _).symm, order, skipped, early⟩
    split
    · rename_i hstop
      refine upTo_eq_self fun c _ => Bool.eq_false_iff.2 fun hfail => ?_
      obtain ⟨st, hst, -, hfailed⟩ := (hfails c.id).1 hfail
      simp [succeed hstop st hst] at hfailed
    · rfl
  | @failed before after c front last stops split on steps order ident succeed fail skipped early =>
    have hlast : fails c.id = true := (hfails c.id).2 ⟨last, by simp [steps], ident, fail⟩
    have hbefore (b : Call) (hb : b ∈ before) : fails b.id = false := by
      refine Bool.eq_false_iff.2 fun hfail => ?_
      obtain ⟨st, hst, hid, hfailed⟩ := (hfails b.id).1 hfail
      rw [steps, List.mem_append, List.mem_singleton] at hst
      rcases hst with hst | rfl
      · simp [succeed st hst] at hfailed
      · have hsame : b.id = c.id := hid.symm.trans ident
        exact (id_notMem_of_nodup (split ▸ hnodup)).1 (hsame ▸ List.mem_map_of_mem hb)
    refine ⟨before ++ [c], after, ?_, by simp [split], ?_, ?_, early⟩
    · rw [if_pos stops, split]
      exact upTo_append_cons hbefore hlast
    · rw [Trace.order, steps, List.map_append, order, enabledIds_append]
      simp [enabledIds, on, ident]
    · simp [skipped, on]

theorem early_iff {reached beyond : List Call} (order : t.order = enabledIds reached)
    (early : t.stoppedEarly = beyond.any Call.enabled) :
    t.stoppedEarly = true ↔
      t.order <+: enabledIds (reached ++ beyond) ∧ t.order ≠ enabledIds (reached ++ beyond) := by
  rw [enabledIds_append, order, early, ne_eq, List.self_eq_append_right, enabledIds_eq_nil_iff,
    Bool.not_eq_false]
  exact (and_iff_right (List.prefix_append _ _)).symm

theorem Runner.Course.accounts {p : Performance} (h : r.Course d d.nodes.calls [] s p.trace left)
    (hkept : p.Kept) (hplan : p.plan = ⟨.document, d.nodes.calls, []⟩)
    (hids : d.nodes.ids.Nodup) : p.Accounts r d := by
  have hends : Ends r.settings.stopOnError d.nodes.calls p.trace := h.ends
  have hcalls : (d.nodes.calls.map Call.id).Nodup := hids.sublist d.nodes.calls_ids_sublist
  have hbeginning : p.trace.order <+: enabledIds d.nodes.calls := hends.order_prefix
  have honce : p.trace.order.Nodup :=
    hcalls.sublist (hbeginning.sublist.trans (enabledIds_sublist _))
  have hon (c : Call) (hc : c ∈ d.nodes.calls) (hfail : p.report.fails c.id = true) :
      c.enabled = true := by
    obtain ⟨st, hst, hident, -⟩ := (hkept.fails_iff honce).1 hfail
    exact enabled_of_mem_enabledIds hcalls hc
      (hbeginning.subset (hident ▸ List.mem_map_of_mem hst))
  obtain ⟨reached, beyond, hreached, hsplit, horder, hskipped, hearly⟩ :=
    hends.reached hcalls fun ident => hkept.fails_iff honce
  have hcarried : p.trace.order = if r.settings.stopOnError then
      upTo p.report.fails (enabledIds d.nodes.calls) else enabledIds d.nodes.calls := by
    rw [upTo_enabledIds hon, ← apply_ite, hreached]
    exact horder
  have htold (front : List Step) (st : Step) (back : List Step)
      (hsteps : p.trace.steps = front ++ st :: back) : st.context.previous =
        p.report.nodes.filter fun entry => (front.map Step.id).contains entry.1 := by
    rw [h.previous hsteps, hkept.nodes, hsteps]
    exact record_front (hsteps ▸ honce)
  exact {
    mode := congrArg Plan.mode hplan
    order := hkept.order.trans hcarried
    performed := h.performed
    previous := htold
    steps := hkept.order.symm
    recorded := fun st hst => hkept.get?_report honce hst
    once := hkept.order ▸ honce
    names := hkept.names_perm honce
    counts := hkept.succeeded_add_failed
    failed := hkept.failed_eq_countP honce
    skipped := hreached ▸ hskipped
    total := congrArg (fun plan => plan.calls.length) hplan
    stoppedEarly := hkept.order ▸ hsplit ▸ early_iff horder hearly
    isSuccess := hkept.isSuccess_iff honce }

theorem Runner.run_eq_ok {request : Request} {p : Performance}
    (h : r.run d request s = (.ok p, left)) : request.plan d = .ok p.plan ∧ p.Kept ∧
      ∃ before after, r.Course d p.plan.calls p.plan.previous before p.trace after := by
  rw [run] at h
  cases hplan : request.plan d with
  | error refusal => simp [hplan] at h
  | ok plan =>
    rw [hplan] at h
    obtain ⟨t, hcourse, hkept⟩ :=
      r.course_loop d plan.calls (.start plan.previous) rfl (r.clock s).2
    have hp := Except.ok.inj (Prod.mk.inj h).1
    obtain rfl : plan = p.plan := hp ▸ rfl
    have hprogress : p.progress = (Progress.start p.plan.previous).extend t := hp ▸ hkept
    obtain rfl := Performance.trace_eq hprogress
    exact ⟨rfl, hprogress, _, _, hcourse⟩

theorem Runner.exists_run_document (r : Runner σ) (d : Document) (s : σ) :
    ∃ p left, r.run d .document s = (.ok p, left) := ⟨_, _, rfl⟩

/-- The account of a run of all calls is right, for any functions and settings. -/
theorem Runner.run_document_accounts (r : Runner σ) (d : Document) (hids : d.nodes.ids.Nodup)
    (s : σ) :
    ∃ p left, r.run d .document s = (.ok p, left) ∧ p.Accounts r d := by
  obtain ⟨p, left, hrun⟩ := r.exists_run_document d s
  obtain ⟨hplan, hkept, _, _, hcourse⟩ := run_eq_ok hrun
  have hplan : p.plan = ⟨.document, d.nodes.calls, []⟩ := (Except.ok.inj hplan).symm
  rw [hplan] at hcourse
  exact ⟨p, left, hrun, hcourse.accounts hkept hplan hids⟩

/-- A nested call fails, so that of two calls that are switched off only the first is passed over,
and the last call is not reached. -/
theorem Runner.run_document_accounts_stopping :
    let call (ident function : String) (enabled : Bool) : Node :=
      .call ⟨ident, .invocation, function, [], [], enabled, []⟩
    let block (ident : String) (children : Forest) : Node :=
      .block ⟨ident, "paragraph", [], []⟩ (some children)
    let d : Document := ⟨"d", [call "f" "count" true, block "b" [call "x" "count" false,
      block "c" [call "e" "missing" true], call "y" "count" false], call "g" "count" true], none⟩
    let r : Runner CallCounts :=
      ⟨[("count", Script.countPrevious.function "count" .any none)], ⟨30000, true, true⟩, [],
        Script.clock⟩
    d.nodes.ids.Nodup ∧ ∃ p left, r.run d .document [] = (.ok p, left) ∧ p.Accounts r d ∧
      p.report.account.toAccount = ⟨.document, ["f", "e"], 5, 1, 1, 1, true⟩ := by
  intro call block d r
  have hids : d.nodes.ids.Nodup := by decide +kernel
  obtain ⟨p, left, hrun, haccounts⟩ := r.run_document_accounts d hids []
  have haccount : (r.run d .document []).1.toOption.map (·.report.account.toAccount) =
      some ⟨.document, ["f", "e"], 5, 1, 1, 1, true⟩ := by
    decide +kernel
  rw [hrun] at haccount
  exact ⟨hids, p, left, hrun, haccounts, Option.some_inj.1 haccount⟩

end LiveDoc.Run
