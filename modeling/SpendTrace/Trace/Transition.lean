import SpendTrace.Stream.Delivery
import SpendTrace.Trace.State

/-!
# Transitions of a trace

What becomes of the state of a trace when its stream brings a snapshot or closes, when its request
is answered, and when it is cancelled. A transition that does not apply to a state is `none`.
-/

namespace SpendTrace.Trace

open Script (Snapshot)
open SpendTrace.Stream (CloseReason)

/-- What a stream that closed without a verdict is said to have failed of. -/
def closeDescription : CloseReason → String
  | .completed => "closed before a verdict"
  | .cancelled => "cancelled"
  | .failed message => message

namespace Ready

/-- The snapshot that answers a request, at the step that the interpreter says or else at the one
that was asked for. -/
def ofAnswer (target : Target) (step : UInt64) (s : Snapshot) : Ready :=
  ⟨target, .stepped, s.step.getD step, s, none⟩

def withStream (r : Ready) (status : StreamStatus) : Ready :=
  { r with stream := some status }

end Ready

namespace State

/-- The answer to a request. -/
def ofAnswer (target : Target) (step : UInt64) : Except Service.Failure Snapshot → State
  | .ok s => ready (.ofAnswer target step s)
  | .error f => failed target .stepped (.ofFetch target step f)

/-- The stream brings a snapshot. After a verdict there are no more. -/
def afterSnapshot (state : State) (target : Target) (s : Snapshot) : Option State :=
  match state with
  | loading _ _ _ => some (ready ⟨target, .streamed, 0, s, some .live⟩)
  | ready r =>
    if r.isTerminal then none else some (ready ⟨target, .streamed, r.step + 1, s, some .live⟩)
  | idle => none
  | failed _ _ _ => none

/-- The stream closes. After a verdict it is finished whatever the reason. -/
def afterClose (state : State) (target : Target) (reason : CloseReason) : Option State :=
  let failure := fun received =>
    some (failed target .streamed (.streamFailed (closeDescription reason) received))
  match state with
  | ready r =>
    if r.isTerminal then some (ready (r.withStream .finished))
    else
      match reason with
      | .cancelled => some (ready (r.withStream .cancelled))
      | _ => failure (r.step + 1)
  | loading _ _ _ =>
    match reason with
    | .cancelled => some idle
    | _ => failure 0
  | idle => none
  | failed _ _ _ => none

/-- The trace is cancelled, where `shown` is the snapshot that was shown last, if any. -/
def afterCancel (state : State) (shown : Option Ready) : Option State :=
  match state with
  | loading target .stepped _ =>
    match shown with
    | some r => some (if r.target = target then ready r else idle)
    | none => some idle
  | loading _ .streamed _ => some idle
  | ready r =>
    if r.stream = some .live then
      some (ready (r.withStream (if r.isTerminal then .finished else .cancelled)))
    else none
  | idle => none
  | failed _ _ _ => none

end State

end SpendTrace.Trace
