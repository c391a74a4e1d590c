import SpendTrace.Trace.Coordinator

/-!
# Runs of a coordinator

A run is any sequence of moves, in any order. A move is either a call of the coordinator or the
arrival of something that earlier work brings: the answer to a request, or what is pushed into a
stream or cancels it. Each move is atomic. Any request and any stream ever issued may still bring
something, as often as it likes and however long it has been superseded.

* `Coordinator.run` plays a run.
* `Coordinator.View` is what a caller can see of a coordinator.
-/

namespace SpendTrace

/-- Below the limit of its type a number goes up by one. -/
theorem toNat_add_one {n : UInt64} (h : n.toNat + 1 < UInt64.size) :
    (n + 1).toNat = n.toNat + 1 := by
  rw [UInt64.toNat_add, UInt64.toNat_one]
  exact Nat.mod_eq_of_lt h

end SpendTrace

namespace SpendTrace.Trace

open SpendTrace.Stream (Event)

/-- An atomic step of a run. Requests and streams are named by their numbers, in the order in which
they were issued; `eager` is what a source pushes while its stream is being opened. -/
inductive Move where
  | start (target : Target) (mode : Mode) (step : UInt64) (eager : List Event)
  | requestStep (step : UInt64)
  | changeTarget (target : Target)
  | cancel
  | follow (link : Link) (eager : List Event)
  /-- A request is answered. -/
  | answer (request : Nat) (answer : Answer)
  /-- Something is pushed into a stream. -/
  | push (stream : Nat) (event : Event)
  /-- A stream is cancelled through its handle. -/
  | cancelStream (stream : Nat)

/-- Whether the move is a call of the coordinator. -/
def Move.isCall : Move → Bool
  | start _ _ _ _ => true
  | requestStep _ => true
  | changeTarget _ => true
  | cancel => true
  | follow _ _ => true
  | answer _ _ => false
  | push _ _ => false
  | cancelStream _ => false

/-- The number of calls in a run. -/
def calls (ms : List Move) : Nat :=
  ms.countP Move.isCall

/-- More calls than any coordinator ever sees. Below this number the generations, of which a call
begins two at most, do not come round. -/
def callLimit : Nat := 0x8000000000000000

namespace Coordinator

/-- The coordinator when the source is about to push `eager` while it opens a stream. -/
def expecting (c : Coordinator) (eager : List Event) : Coordinator :=
  { c with openings := [{ eager }] }

/-- What becomes of a coordinator with one move. -/
def move (c : Coordinator) : Move → Coordinator
  | .start target mode step eager => (c.expecting eager).start target mode step
  | .requestStep step => (c.requestStep step).1
  | .changeTarget target => c.changeTarget target
  | .cancel => c.cancel
  | .follow link eager => (c.expecting eager).follow link
  | .answer i a =>
    match c.requests[i]? with
    | some r => c.applyAnswer r a
    | none => c
  | .push i e => c.push i e
  | .cancelStream i => c.cancelStream i

/-- What becomes of a coordinator with a run. -/
def run (c : Coordinator) (ms : List Move) : Coordinator :=
  ms.foldl move c

theorem run_append (c : Coordinator) (ms ns : List Move) :
    c.run (ms ++ ns) = (c.run ms).run ns := by
  simp [run, List.foldl_append]

/-- Why a step would be refused now, if it would. -/
def refusal (c : Coordinator) (step : UInt64) : Option NavigationError :=
  match (c.requestStep step).2 with
  | .ok () => none
  | .error e => some e

/-! ## What is seen -/

/-- What can be seen of a coordinator, and what it remembers to show again: all that was published,
the state, the selected target, the navigation, and the last snapshot of a stepped trace. -/
structure View where
  published : List State
  state : State
  selected : Option Target
  navigation : Option Navigation
  shown : Option Ready
  deriving DecidableEq

def view (c : Coordinator) : View :=
  ⟨c.published, c.state, c.selected, c.navigation, c.shown⟩

/-- What can be seen of the coordinator by one who looks on since it was `earlier`. -/
def viewSince (c earlier : Coordinator) : View :=
  { c.view with published := c.published.drop earlier.published.length }

/-! ## What was issued -/

/-- How many requests and streams have been issued. -/
structure Issued where
  requests : Nat := 0
  streams : Nat := 0
  deriving DecidableEq

def issued (c : Coordinator) : Issued :=
  ⟨c.requests.length, c.streams.length⟩

end Coordinator

open Coordinator (Issued)

/-- Whether the move is brought by one of the requests and streams issued first. -/
def Move.isOf (old : Issued) : Move → Bool
  | answer i _ => i < old.requests
  | push i _ => i < old.streams
  | cancelStream i => i < old.streams
  | _ => false

theorem Move.isCall_of_isOf {m : Move} {old : Issued} (h : m.isOf old = true) :
    m.isCall = false := by
  cases m with
  | answer | push | cancelStream => rfl
  | start | requestStep | changeTarget | cancel | follow => cases h

theorem calls_append (ms ns : List Move) : calls (ms ++ ns) = calls ms + calls ns := by
  simp [calls, List.countP_append]

theorem calls_cons (m : Move) (ms : List Move) : calls (m :: ms) = calls [m] + calls ms :=
  calls_append [m] ms

/-- The generations that a run may begin: those of its first move come before those of the rest. -/
theorem add_two_mul_calls_cons (n : Nat) (m : Move) (ms : List Move) :
    n + 2 * calls (m :: ms) = n + 2 * calls [m] + 2 * calls ms := by
  rw [calls_cons, Nat.mul_add, Nat.add_assoc]

theorem calls_of_isOf {m : Move} {old : Issued} (h : m.isOf old = true) : calls [m] = 0 := by
  simp [calls, Move.isCall_of_isOf h]

end SpendTrace.Trace
