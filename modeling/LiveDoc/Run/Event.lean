import LiveDoc.Run.Execution

/-!
# Events of a run

What an observer of a run is told: each call before it is carried out, its error if it has one, and
its result. Observers change nothing, so the events are read off the steps.
-/

set_option autoImplicit false
set_option relaxedAutoImplicit false

namespace LiveDoc.Run

inductive Event
  | before (id : String) (previous : List String)
  | error (id : String) (code : ErrorCode)
  | after (id : String) (success : Bool) (code : Option ErrorCode)
deriving DecidableEq, Repr

namespace Event

def text : Event → String
  | .before id previous => "before:" ++ id ++ ":[" ++ ",".intercalate previous ++ "]"
  | .error id code => "error:" ++ id ++ ":" ++ code.name
  | .after id success code =>
    "after:" ++ id ++ ":" ++ (if success then "true" else "false") ++ ":" ++
      (code.map ErrorCode.name).getD "-"

end Event

def Step.events (s : Step) : List Event :=
  .before s.id s.context.previous.names ::
    ((s.result.code?.map (Event.error s.id)).toList ++
      [.after s.id s.result.success s.result.code?])

def Performance.events (p : Performance) : List Event := p.progress.steps.flatMap Step.events

end LiveDoc.Run
