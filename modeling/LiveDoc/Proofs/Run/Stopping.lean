import LiveDoc.Proofs.Run.Replay

/-!
# Runs that end at a failure

A run that ends at the first failure does the same as one that goes on, up to this failure. Both
tell each call the same, and the same comes of it, as long as this depends on nothing else. Clocks
read what they read.
-/

set_option autoImplicit false
set_option relaxedAutoImplicit false

namespace LiveDoc.Run

variable {σ : Type} {r : Runner σ} {d : Document} {calls : List Call}
  {results results' : Table TimedResult} {s t left left' : σ} {short long : Trace}

structure PlainContext where
  current : String
  previous : Table Result
  document : Document

def Context.plain (c : Context) : PlainContext :=
  ⟨c.current, c.previous.mapValues TimedResult.toResult, c.document⟩

theorem Context.plain_congr (ident : String) (d : Document)
    (h : results.mapValues TimedResult.toResult = results'.mapValues TimedResult.toResult) :
    (⟨ident, results, d⟩ : Context).plain = (⟨ident, results', d⟩ : Context).plain :=
  congrArg (PlainContext.mk ident · d) h

/-- What a function comes to depends on the parameters, the content and the context that it is
called with alone, readings of clocks in the context aside. -/
def Runner.Timeless (r : Runner σ) : Prop :=
  ∀ name f, r.functions.get? name = some f → ∀ (i j : Invocation) (s t : σ),
    i.parameters = j.parameters → i.content = j.content → i.context.plain = j.context.plain →
    (f.answer i s).1.outcome name r.settings.nodeTimeout =
      (f.answer j t).1.outcome name r.settings.nodeTimeout

theorem Runner.Timeless.perform_eq (h : r.Timeless) (c : Call) {context context' : Context}
    (hsame : context.plain = context'.plain) (s t : σ) :
    (r.perform c context s).1.toResult = (r.perform c context' t).1.toResult :=
  perform_congr fun f hf => h c.function f hf ⟨c.parameters, r.content c, context⟩
    ⟨c.parameters, r.content c, context'⟩ s t rfl rfl hsame

theorem Script.reply_eq {script : Script} (hcalls : script ≠ .countCalls)
    (hfirst : ∀ times, script ≠ .failAtFirst times) {i j : Invocation}
    (hparameters : i.parameters = j.parameters) (hcontent : i.content = j.content)
    (hcontext : i.context.plain = j.context.plain) (number number' : Nat) :
    script.reply number i = script.reply number' j := by
  have hprevious : i.context.previous.mapValues TimedResult.toResult =
      j.context.previous.mapValues TimedResult.toResult :=
    congrArg PlainContext.previous hcontext
  cases script with
  | countCalls => exact absurd rfl hcalls
  | failAtFirst times => exact absurd rfl (hfirst times)
  | echo => rw [reply, reply, hcontent]
  | closure => rw [reply, reply, hcontent]
  | parameters => rw [reply, reply, hparameters]
  | both => rw [reply, reply, hparameters, hcontent]
  | countPrevious =>
    have hlength := congrArg List.length hprevious
    simp only [Table.mapValues, List.length_map] at hlength
    rw [reply, reply, hlength]
  | previous =>
    have hresults := congrArg (List.map fun entry => (entry.1, resultJson entry.2)) hprevious
    simp only [Table.mapValues, List.map_map, Function.comp_def] at hresults
    rw [reply, reply, hresults]
  | previousValue ident =>
    have hvalue : i.context.previousValue? ident = j.context.previousValue? ident := by
      have hresults := congrArg (fun results => (results.get? ident).bind Result.value) hprevious
      simp only [Table.get?_mapValues, Option.bind_map] at hresults
      exact hresults
    rw [reply, reply, hvalue]
  | context =>
    have hcurrent : i.context.current = j.context.current :=
      congrArg PlainContext.current hcontext
    have hdocument : i.context.document = j.context.document :=
      congrArg PlainContext.document hcontext
    rw [reply, reply, contextJson, contextJson, hcurrent, hdocument]
  | _ => rfl

/-- The runner with settings that say whether a failure ends the run. -/
def Runner.stopping (r : Runner σ) (stop : Bool) : Runner σ :=
  { r with settings := { r.settings with stopOnError := stop } }

section UpTo

variable {α β : Type}

theorem upTo_map {f : α → β} {p : β → Bool} {q : α → Bool} {l : List α}
    (h : ∀ a ∈ l, p (f a) = q a) : upTo p (l.map f) = (upTo q l).map f := by
  induction l with
  | nil => rfl
  | cons a rest ih =>
    obtain ⟨ha, hrest⟩ := List.forall_mem_cons.1 h
    rw [List.map_cons, upTo, upTo, ha, ih hrest]
    split <;> rfl

theorem countP_upTo_le_one (p : α → Bool) (l : List α) : (upTo p l).countP p ≤ 1 := by
  induction l with
  | nil => exact Nat.zero_le 1
  | cons a rest ih =>
    rw [upTo]
    split
    · exact List.countP_le_length
    · rename_i ha
      rwa [List.countP_cons_of_neg ha]

end UpTo

def Step.fails (st : Step) : Bool := !st.result.success

def Step.plain (st : Step) : PlainContext × Result := (st.context.plain, st.result.toResult)

/-- Of two runs of the same calls, told the same results at first, the one that ends at a failure
takes the steps of the other one up to the first failure, readings of clocks aside. -/
theorem Runner.Course.steps_eq_upTo (htimeless : r.Timeless)
    (hshort : (r.stopping true).Course d calls results s short left)
    (hlong : (r.stopping false).Course d calls results' t long left')
    (hresults : results.mapValues TimedResult.toResult =
      results'.mapValues TimedResult.toResult) :
    short.steps.map Step.plain = (upTo Step.fails long.steps).map Step.plain := by
  have hsame {c : Call} {context context' : Context} {s t mid mid' : σ}
      {result result' : TimedResult} (hcontext : context.plain = context'.plain)
      (h : (r.stopping true).perform c context s = (result, mid))
      (h' : (r.stopping false).perform c context' t = (result', mid')) :
      result.toResult = result'.toResult := by
    have heq : (r.perform c context s).1.toResult = (r.perform c context' t).1.toResult :=
      htimeless.perform_eq c hcontext s t
    exact (congrArg (·.1.toResult) h).symm.trans (heq.trans (congrArg (·.1.toResult) h'))
  induction hshort generalizing results' t long left' with
  | done =>
    cases hlong
    rfl
  | skip off others ih =>
    cases hlong with
    | skip off' others' => exact (ih others' hresults :)
    | stop on' => exact absurd (off.symm.trans on') Bool.false_ne_true
    | next on' => exact absurd (off.symm.trans on') Bool.false_ne_true
  | @stop c rest results s left result on performed failed stops =>
    cases hlong with
    | skip off' => exact absurd (off'.symm.trans on) Bool.false_ne_true
    | stop on' performed' failed' stops' => exact absurd stops' Bool.false_ne_true
    | @next _ _ _ _ _ _ result' _ on' performed' goesOn' others' =>
      have hcontext := Context.plain_congr c.id d hresults
      have hresult := hsame hcontext performed performed'
      have hfailed : result'.success = false := (congrArg Result.success hresult).symm.trans failed
      rw [Trace.after, upTo, Step.fails, hfailed]
      exact congrArg (fun x => [x]) (Prod.ext hcontext hresult)
  | @next c rest results s mid left result tail on performed goesOn others ih =>
    cases hlong with
    | skip off' => exact absurd (off'.symm.trans on) Bool.false_ne_true
    | stop on' performed' failed' stops' => exact absurd stops' Bool.false_ne_true
    | @next _ _ _ _ _ _ result' _ on' performed' goesOn' others' =>
      have hcontext := Context.plain_congr c.id d hresults
      have hresult := hsame hcontext performed performed'
      have hgoes : result'.success = true :=
        (congrArg Result.success hresult).symm.trans (goesOn rfl)
      have hmore : (results.put c.id result).mapValues TimedResult.toResult =
          (results'.put c.id result').mapValues TimedResult.toResult := by
        rw [Table.mapValues_put, Table.mapValues_put, hresults, hresult]
      rw [Trace.after, Trace.after, upTo, Step.fails, hgoes, List.map_cons, ih others' hmore]
      exact congrArg (· :: _) (Prod.ext hcontext hresult)

/-- What the report on a run that ends at a failure has to do with that on one that goes on. -/
structure Performance.Truncates (p q : Performance) : Prop where
  order : p.report.account.order = upTo q.report.fails q.report.account.order
  same : ∀ ident ∈ p.report.account.order, ∃ st ∈ p.trace.steps, ∃ st' ∈ q.trace.steps,
    st.id = ident ∧ st'.id = ident ∧ st.context.plain = st'.context.plain ∧
      st.result.toResult = st'.result.toResult ∧
      p.report.nodes.get? ident = some st.result ∧ q.report.nodes.get? ident = some st'.result
  names : p.report.nodes.names.Perm p.report.account.order
  once : q.report.account.order.Nodup
  failed : p.report.account.failed ≤ 1

/-- With settings that end it at a failure, a run of all calls is cut off behind the first failure,
and no call that is reached is told or gives anything else, readings of clocks aside. -/
theorem Runner.stopping_truncates (hids : d.nodes.ids.Nodup) (htimeless : r.Timeless) (s t : σ) :
    ∃ p q left left', (r.stopping true).run d .document s = (.ok p, left) ∧
      (r.stopping false).run d .document t = (.ok q, left') ∧ p.Truncates q := by
  obtain ⟨p, left, hp, hshort⟩ := (r.stopping true).run_document_accounts d hids s
  obtain ⟨q, left', hq, hlong⟩ := (r.stopping false).run_document_accounts d hids t
  have hsteps : p.trace.steps.map Step.plain = (upTo Step.fails q.trace.steps).map Step.plain := by
    obtain ⟨hplan, -, _, _, hcourse⟩ := run_eq_ok hp
    obtain ⟨hplan', -, _, _, hcourse'⟩ := run_eq_ok hq
    rw [← Except.ok.inj hplan] at hcourse
    rw [← Except.ok.inj hplan'] at hcourse'
    exact hcourse.steps_eq_upTo htimeless hcourse' rfl
  refine ⟨p, q, left, left', hp, hq, ?_⟩
  constructor
  case order =>
    have hfails (st : Step) (hst : st ∈ q.trace.steps) : q.report.fails st.id = st.fails := by
      obtain ⟨-, hkept, -⟩ := run_eq_ok hq
      exact hkept.fails_of_mem (hkept.order ▸ hlong.once) hst
    have hids := congrArg (List.map fun x : PlainContext × Result => x.1.current) hsteps
    rw [List.map_map, List.map_map] at hids
    rw [← hshort.steps, ← hlong.steps, upTo_map hfails]
    exact hids
  case same =>
    intro ident hident
    rw [← hshort.steps] at hident
    obtain ⟨st, hst, rfl⟩ := List.mem_map.1 hident
    have hplain : st.plain ∈ (upTo Step.fails q.trace.steps).map Step.plain :=
      hsteps ▸ List.mem_map_of_mem hst
    obtain ⟨st', hst', hsame⟩ := List.mem_map.1 hplain
    have hbeginning := upTo_prefix Step.fails q.trace.steps
    have hst' : st' ∈ q.trace.steps := hbeginning.subset hst'
    obtain ⟨hcontext, hresult⟩ := Prod.mk.inj hsame
    have hid : st'.id = st.id := congrArg PlainContext.current hcontext
    exact ⟨st, hst, st', hst', rfl, hid, hcontext.symm, hresult.symm, hshort.recorded st hst,
      hid ▸ hlong.recorded st' hst'⟩
  case names => exact hshort.names
  case once => exact hlong.once
  case failed =>
    obtain ⟨-, hkept, -⟩ := run_eq_ok hp
    have hcount (l : List Step) :
        l.countP (!·.result.success) = (l.map Step.plain).countP (!·.2.success) := by
      rw [List.countP_map]
      rfl
    rw [hkept.failed, hcount, hsteps, ← hcount]
    exact countP_upTo_le_one Step.fails _

/-- A nested call fails, behind which one run ends and the other one goes on, although the function
of the others has been called seven times before. -/
theorem Runner.stopping_truncates_nested :
    let call (ident function : String) (enabled : Bool) : Node :=
      .call ⟨ident, .invocation, function, [], [], enabled, []⟩
    let block (ident : String) (children : Forest) : Node :=
      .block ⟨ident, "paragraph", [], []⟩ (some children)
    let d : Document := ⟨"d", [call "f" "count" true, block "b" [call "x" "count" false,
      block "c" [call "e" "missing" true], call "y" "count" false], call "g" "count" true], none⟩
    let clock (counts : CallCounts) : Reading × CallCounts :=
      (⟨Script.countCall "count" counts, ⟨0, 0, 0⟩⟩, counts)
    let r : Runner CallCounts :=
      ⟨[("count", Script.countPrevious.function "count" .any none)], {}, [], clock⟩
    d.nodes.ids.Nodup ∧ r.Timeless ∧ ∃ p q left left',
      (r.stopping true).run d .document [] = (.ok p, left) ∧
        (r.stopping false).run d .document [("count", 7)] = (.ok q, left') ∧ p.Truncates q ∧
        p.report.account.order = ["f", "e"] ∧ q.report.account.order = ["f", "e", "g"] := by
  intro call block d clock r
  have hids : d.nodes.ids.Nodup := by decide +kernel
  have htimeless : r.Timeless := by
    intro name f hf i j s t hparameters hcontent hcontext
    obtain ⟨rfl, rfl⟩ := Prod.mk.inj (List.mem_singleton.1 (Table.mem_of_get? hf))
    have hcalls : Script.countPrevious ≠ .countCalls := nofun
    have hfirst (times : Nat) : Script.countPrevious ≠ .failAtFirst times := nofun
    exact congrArg (Reply.outcome "count" r.settings.nodeTimeout)
      (Script.reply_eq hcalls hfirst hparameters hcontent hcontext (Script.countCall "count" s)
        (Script.countCall "count" t))
  obtain ⟨p, q, left, left', hp, hq, htruncates⟩ :=
    stopping_truncates hids htimeless [] [("count", 7)]
  have hshort : ((r.stopping true).run d .document []).1.toOption.map (·.report.account.order) =
      some ["f", "e"] := by
    decide +kernel
  have hlong : ((r.stopping false).run d .document [("count", 7)]).1.toOption.map
      (·.report.account.order) = some ["f", "e", "g"] := by
    decide +kernel
  rw [hp] at hshort
  rw [hq] at hlong
  exact ⟨hids, htimeless, p, q, left, left', hp, hq, htruncates, Option.some_inj.1 hshort,
    Option.some_inj.1 hlong⟩

end LiveDoc.Run
