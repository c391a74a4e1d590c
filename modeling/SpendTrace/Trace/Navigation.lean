import SpendTrace.Trace.State

/-!
# Navigation

From a snapshot of a stepped trace one can go one step back, unless it is the first, and one step
forward, unless there is a verdict.
-/

namespace SpendTrace.Trace

structure Navigation where
  previous : Option Link
  next : Option Link
  deriving DecidableEq, Repr

namespace Navigation

def previousStep (n : Navigation) : Option UInt64 :=
  n.previous.bind Link.requestedStep

def nextStep (n : Navigation) : Option UInt64 :=
  n.next.bind Link.requestedStep

end Navigation

namespace Ready

/-- The link to another step of the same trace. -/
def linkTo (r : Ready) (step : UInt64) : Link :=
  ⟨r.target, .step step⟩

/-- The neighbours of a snapshot; a streamed trace has none. -/
def navigation (r : Ready) : Option Navigation :=
  match r.mode with
  | .streamed => none
  | .stepped =>
    some
      { previous := if r.step = 0 then none else some (r.linkTo (r.step - 1))
        next :=
          match r.snapshot.outcome with
          | .pending => if r.step.toNat + 1 < UInt64.size then some (r.linkTo (r.step + 1)) else none
          | .result _ => none }

end Ready

def State.navigation (s : State) : Option Navigation :=
  s.ready?.bind Ready.navigation

end SpendTrace.Trace
