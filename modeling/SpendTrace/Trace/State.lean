import SpendTrace.Link
import SpendTrace.Service.Reply

/-!
# The state of a trace

What a viewer of a trace sees at one moment: nothing yet, a wait for a snapshot, a snapshot, or a
failure.
-/

namespace SpendTrace.Trace

open Script (Snapshot)

/-- How far the stream behind a snapshot has come. -/
inductive StreamStatus where
  /-- More snapshots may arrive. -/
  | live
  /-- The stream closed after a verdict. -/
  | finished
  /-- The stream was cancelled before a verdict. -/
  | cancelled
  deriving DecidableEq, Repr

/-- A snapshot on display. Only a streamed one has a stream. -/
structure Ready where
  target : Target
  mode : Mode
  /-- The number of operations that led to the snapshot. -/
  step : UInt64
  snapshot : Snapshot
  stream : Option StreamStatus
  deriving DecidableEq

namespace Ready

def isTerminal (r : Ready) : Bool :=
  r.snapshot.isTerminal

def headline (r : Ready) : String :=
  r.snapshot.headline r.step

end Ready

/-! ## Failures -/

inductive Error where
  /-- The interpreter turned the target down. -/
  | invalidTarget (target : Target) (reason : String)
  | fetchFailed (step : UInt64) (reason : String)
  | streamFailed (reason : String) (received : UInt64)
  deriving DecidableEq, Repr

namespace Error

def message : Error → String
  | invalidTarget target reason => "interpreter rejected " ++ target.display ++ ": " ++ reason
  | fetchFailed step reason =>
    "fetching step " ++ String.ofList (Text.digits step.toNat) ++ " failed: " ++ reason
  | streamFailed reason received =>
    "interpretation stream failed after " ++ String.ofList (Text.digits received.toNat) ++
      " snapshot(s): " ++ reason

/-- What a failed request for a step of a target means for its trace. A server that says why it
turns the target down is quoted. -/
def ofFetch (target : Target) (step : UInt64) (failure : Service.Failure) : Error :=
  if failure.isInvalidTarget then
    invalidTarget target
      (match failure with
      | .server _ message => if message.isEmpty then failure.message else message
      | _ => failure.message)
  else fetchFailed step failure.message

end Error

/-! ## States -/

inductive State where
  | idle
  /-- Waiting for a snapshot; the step is known in stepped traces. -/
  | loading (target : Target) (mode : Mode) (step : Option UInt64)
  | ready (trace : Ready)
  | failed (target : Target) (mode : Mode) (error : Error)
  deriving DecidableEq

namespace State

def target? : State → Option Target
  | idle => none
  | loading target _ _ => some target
  | ready r => some r.target
  | failed target _ _ => some target

def mode? : State → Option Mode
  | idle => none
  | loading _ mode _ => some mode
  | ready r => some r.mode
  | failed _ mode _ => some mode

def ready? : State → Option Ready
  | ready r => some r
  | _ => none

def isLoading : State → Bool
  | loading _ _ _ => true
  | _ => false

end State

end SpendTrace.Trace
