import LiveDoc.Node.Forest
import LiveDoc.Run.Registry
import LiveDoc.Run.Settings
import LiveDoc.Variable.Value

/-!
# Execution

The calls of a document are carried out one after another in document order. Each sees all results
recorded before it. A call that fails is a result like any other, unless the settings say that a
failure ends the run; calls that are switched off are passed over.
-/

set_option autoImplicit false
set_option relaxedAutoImplicit false

namespace LiveDoc.Run

/-- What carries out calls: functions, settings, the values of variables, and clocks, which are read
from the memory that the functions share. -/
structure Runner (σ : Type) where
  functions : Registry σ
  settings : Settings
  values : Table Json
  clock : σ → Reading × σ

def causesText (causes : List String) : String :=
  ": ".intercalate causes.reverse

/-- What a reply comes to within the time allowed. -/
def Reply.outcome (function : String) (timeout : Nat) : Reply → Except NodeError Json
  | .never => timedOut
  | .finished after ending =>
    if after < timeout then
      match ending with
      | .value value => .ok value
      | .failed causes => .error ⟨causesText causes, .failure, none⟩
      | .crashed => .error ⟨"Function '" ++ function ++ "' panicked", .failure, none⟩
    else timedOut
where
  timedOut : Except NodeError Json :=
    .error ⟨"Function '" ++ function ++ "' timed out after " ++ toString timeout ++ "ms",
      .timeout, none⟩

namespace Runner

variable {σ : Type}

def content (r : Runner σ) (c : Call) : String :=
  if r.settings.interpolate then Inline.interpolate r.values c.instructions
  else Inline.plainText c.instructions

/-- Asks the function of a call, unless it is not registered or does not take the parameters. -/
def invoke (r : Runner σ) (c : Call) (context : Context) (s : σ) : Except NodeError Json × σ :=
  match r.functions.get? c.function with
  | none =>
    (.error ⟨"Function '" ++ c.function ++ "' is not registered", .functionNotFound, none⟩, s)
  | some f =>
    match f.schema.check c.parameters with
    | .error violations =>
      (.error ⟨"Invalid parameters for '" ++ c.function ++ "'", .invalidParameters,
        some (.ofStrings violations)⟩, s)
    | .ok () =>
      let (reply, s) := f.answer ⟨c.parameters, r.content c, context⟩ s
      (reply.outcome c.function r.settings.nodeTimeout, s)

/-- Carries out one call and reads the clocks. -/
def perform (r : Runner σ) (c : Call) (context : Context) (s : σ) : TimedResult × σ :=
  let (outcome, s) := r.invoke c context s
  let (reading, s) := r.clock s
  ((Result.of outcome).timed reading, s)

end Runner

/-- A call that was carried out: what it was told, and what came of it. -/
structure Step where
  context : Context
  result : TimedResult
deriving DecidableEq

def Step.id (s : Step) : String := s.context.current

/-- What is kept while calls are carried out: the results that the next one is told, the report so
far, and the steps, which observers are shown. -/
structure Progress where
  known : Table TimedResult
  nodes : Table TimedResult
  order : List String
  succeeded : Nat
  failed : Nat
  skipped : Nat
  stoppedEarly : Bool
  steps : List Step
deriving DecidableEq

namespace Progress

def start (known : Table TimedResult) : Progress := ⟨known, [], [], 0, 0, 0, false, []⟩

def pass (p : Progress) : Progress := { p with skipped := p.skipped + 1 }

def take (p : Progress) (st : Step) : Progress :=
  { p with
    known := p.known.put st.id st.result
    nodes := p.nodes.put st.id st.result
    order := p.order ++ [st.id]
    succeeded := if st.result.success then p.succeeded + 1 else p.succeeded
    failed := if st.result.success then p.failed else p.failed + 1
    steps := p.steps ++ [st] }

end Progress

def Runner.loop {σ : Type} (r : Runner σ) (d : Document) :
    List Call → Progress → σ → Progress × σ
  | [], p, s => (p, s)
  | c :: rest, p, s =>
    if c.enabled then
      let context : Context := ⟨c.id, p.known, d⟩
      let (result, s) := r.perform c context s
      let p := p.take ⟨context, result⟩
      if !result.success && r.settings.stopOnError then
        ({ p with stoppedEarly := decide (0 < rest.countP Call.enabled) }, s)
      else r.loop d rest p s
    else r.loop d rest p.pass s

/-- What to run: all calls, or one with results that earlier calls are said to have. -/
inductive Request
  | document
  | single (id : String) (previous : Table TimedResult)
deriving DecidableEq

inductive Refusal
  | nodeNotFound (id : String)
  | notACall (id : String)
deriving DecidableEq, Repr

def Refusal.message : Refusal → String
  | .nodeNotFound id => "Node not found: " ++ id
  | .notACall id => "Node '" ++ id ++ "' is not executable"

/-- The calls of a run and the results before them. -/
structure Plan where
  mode : Mode
  calls : List Call
  previous : Table TimedResult
deriving DecidableEq

def callsBefore (ns : Forest) (id : String) : List String :=
  (ns.calls.map Call.id).takeWhile (· ≠ id)

/-- The plan of a request. Of the results given for a single call, those of calls before it
count. -/
def Request.plan (d : Document) : Request → Except Refusal Plan
  | .document => .ok ⟨.document, d.nodes.calls, []⟩
  | .single id previous =>
    match d.nodes.find? id with
    | some (.call c) =>
      .ok ⟨.single, [c], previous.filter fun entry => (callsBefore d.nodes id).contains entry.1⟩
    | some (.block ..) => .error (.notACall id)
    | none => .error (.nodeNotFound id)

/-- A plan that was followed: what was kept, when it began, and the clocks at its end. -/
structure Performance where
  plan : Plan
  progress : Progress
  startedAt : Timestamp
  finish : Reading
deriving DecidableEq

def Performance.report (p : Performance) : Report where
  nodes := p.progress.nodes
  account :=
    { mode := p.plan.mode
      order := p.progress.order
      total := p.plan.calls.length
      succeeded := p.progress.succeeded
      failed := p.progress.failed
      skipped := p.progress.skipped
      stoppedEarly := p.progress.stoppedEarly
      startedAt := p.startedAt
      completedAt := p.finish.moment
      duration := p.finish.duration }

namespace Runner

variable {σ : Type}

def run (r : Runner σ) (d : Document) (request : Request) (s : σ) :
    Except Refusal Performance × σ :=
  match request.plan d with
  | .error refusal => (.error refusal, s)
  | .ok plan =>
    let (begin, s) := r.clock s
    let (progress, s) := r.loop d plan.calls (.start plan.previous) s
    let (finish, s) := r.clock s
    (.ok ⟨plan, progress, begin.moment, finish⟩, s)

def runAll (r : Runner σ) (d : Document) :
    List Request → σ → List (Except Refusal Performance) × σ
  | [], s => ([], s)
  | request :: rest, s =>
    let (first, s) := r.run d request s
    let (others, s) := r.runAll d rest s
    (first :: others, s)

end Runner

end LiveDoc.Run
