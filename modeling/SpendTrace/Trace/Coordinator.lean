import SpendTrace.Stream.Handle
import SpendTrace.Trace.Navigation
import SpendTrace.Trace.Transition

/-!
# The coordinator of a view

A coordinator runs one view of a trace. Its calls start work, requests for steps and streams, and
every call that makes earlier work pointless begins a new generation. All work carries the
generation that it was started in, and what comes of it is dropped when that generation is over.

* `requests` and `streams` keep all work ever started, the superseded included.
* `published` keeps all states ever shown, so that what a view saw can be spoken about.
-/

namespace SpendTrace.Trace

open Script (Snapshot)
open SpendTrace.Stream (CloseReason Event Handle)

/-! ## Work -/

/-- What a request is answered with. -/
abbrev Answer := Except Service.Failure Snapshot

/-- A request for a step. It reaches the interpreter when its task first runs. -/
structure Request where
  generation : UInt64
  target : Target
  step : UInt64
  begun : Bool := false
  task : Task Answer := {}

/-- A stream that was opened for a trace. -/
structure OpenedStream where
  generation : UInt64
  target : Target
  handle : Handle := {}

/-- What may happen to a coordinator while it opens a stream. -/
inductive Interruption where
  | cancel
  | changeTarget (target : Target)
  deriving DecidableEq, Repr

/-- What a source does while a stream is being opened: it may push already, and a call may come in
between. -/
structure Opening where
  eager : List Event := []
  interruption : Option Interruption := none

/-- Why a step cannot be asked for. -/
inductive NavigationError where
  | notStarted
  | notStepped
  deriving DecidableEq, Repr

def NavigationError.message : NavigationError → String
  | notStarted => "no trace has been started"
  | notStepped => "the current trace is streamed and cannot be stepped"

/-! ## The coordinator -/

structure Coordinator where
  generation : UInt64 := 0
  state : State := .idle
  /-- The target chosen last. -/
  selected : Option Target := none
  /-- The last snapshot of the current stepped trace. -/
  shown : Option Ready := none
  /-- The request that is to be aborted when the trace is given up. -/
  fetch : Option Nat := none
  /-- The stream that is to be cancelled when the trace is given up. -/
  stream : Option Nat := none
  /-- The states published so far. -/
  published : List State := []
  requests : List Request := []
  streams : List OpenedStream := []
  /-- What happens while the next streams are opened; nothing, when the list is used up. -/
  openings : List Opening := []

namespace Coordinator

/-- The state as those see it who watch what is published. -/
def watched (c : Coordinator) : State :=
  c.published.getLast?.getD .idle

def navigation (c : Coordinator) : Option Navigation :=
  c.state.navigation

def publish (c : Coordinator) (s : State) : Coordinator :=
  { c with state := s, published := c.published ++ [s] }

def publish? (c : Coordinator) : Option State → Coordinator
  | some s => c.publish s
  | none => c

theorem watched_publish (c : Coordinator) (s : State) : (c.publish s).watched = s := by
  simp [watched, publish]

/-- Begins a generation, in which all earlier work is stale. -/
def nextGeneration (c : Coordinator) : Coordinator :=
  { c with generation := c.generation + 1 }

/-! ### What comes of work -/

/-- The answer to a request. -/
def applyAnswer (c : Coordinator) (r : Request) (a : Answer) : Coordinator :=
  if r.generation = c.generation then
    let shown :=
      match a with
      | .ok s => some (.ofAnswer r.target r.step s)
      | .error _ => c.shown
    { c with fetch := none, shown }.publish (.ofAnswer r.target r.step a)
  else c

/-- A callback of a stream. -/
def applyEvent (c : Coordinator) (generation : UInt64) (target : Target) (e : Event) :
    Coordinator :=
  if generation = c.generation then
    match e with
    | .snapshot s => c.publish? (c.state.afterSnapshot target s)
    | .close reason => { c with stream := none }.publish? (c.state.afterClose target reason)
  else c

/-- Puts a stream back with its new handle, and runs the callback it asked for. -/
def updateStream (c : Coordinator) (i : Nat) (s : OpenedStream) (handle : Handle)
    (callback : Option Event) : Coordinator :=
  let c := { c with streams := c.streams.set i { s with handle } }
  match callback with
  | some e => c.applyEvent s.generation s.target e
  | none => c

/-- Something is pushed into a stream. -/
def push (c : Coordinator) (i : Nat) (e : Event) : Coordinator :=
  match c.streams[i]? with
  | none => c
  | some s =>
    let (handle, callback) := s.handle.push e
    c.updateStream i s handle callback

/-- A stream is cancelled through its handle. -/
def cancelStream (c : Coordinator) (i : Nat) : Coordinator :=
  match c.streams[i]? with
  | none => c
  | some s =>
    let (handle, callback) := s.handle.cancel
    c.updateStream i s handle callback

/-! ### Giving up work -/

def abortRequest (c : Coordinator) (i : Nat) : Coordinator :=
  { c with requests := c.requests.modify i fun r => { r with task := r.task.abort } }

/-- Aborts the request and cancels the stream that were under way before. -/
def release (c : Coordinator) (fetch stream : Option Nat) : Coordinator :=
  let c :=
    match fetch with
    | some i => c.abortRequest i
    | none => c
  match stream with
  | some i => c.cancelStream i
  | none => c

/-! ### Calls that start no work -/

/-- Gives up the trace and chooses a target. -/
def changeTarget (c : Coordinator) (target : Target) : Coordinator :=
  let next := { c with selected := some target, shown := none, fetch := none, stream := none }
  (next.nextGeneration.publish .idle).release c.fetch c.stream

/-- Gives up work in progress, but not the snapshot on display. -/
def cancel (c : Coordinator) : Coordinator :=
  let next := { c with fetch := none, stream := none }
  (next.nextGeneration.publish? (c.state.afterCancel c.shown)).release c.fetch c.stream

/-- Gives up everything for good. The state stays as it was last published. -/
def shutDown (c : Coordinator) : Coordinator :=
  { c with fetch := none, stream := none }.nextGeneration.release c.fetch c.stream

/-! ### Calls that start work -/

/-- Asks for a step, in the current generation. -/
def spawnRequest (c : Coordinator) (target : Target) (step : UInt64) : Coordinator :=
  let request : Request := { generation := c.generation, target, step }
  { c with fetch := some c.requests.length, requests := c.requests ++ [request] }

def interrupt (c : Coordinator) : Interruption → Coordinator
  | .cancel => c.cancel
  | .changeTarget target => c.changeTarget target

/-- Opens a stream, in the current generation. If that is over by the time the stream is open, the
stream is cancelled again. -/
def openStream (c : Coordinator) (target : Target) : Coordinator :=
  let generation := c.generation
  let i := c.streams.length
  let opening := c.openings.head?.getD {}
  let stream : OpenedStream := { generation, target }
  let opened := { c with streams := c.streams ++ [stream], openings := c.openings.tail }
  let pushed := opening.eager.foldl (fun c e => c.push i e) opened
  let interrupted := (opening.interruption.map pushed.interrupt).getD pushed
  if interrupted.generation = generation then { interrupted with stream := some i }
  else interrupted.cancelStream i

/-- Starts a trace, and gives up the one before. The first step counts in stepped traces only. -/
def start (c : Coordinator) (target : Target) (mode : Mode) (step : UInt64) : Coordinator :=
  let loading :=
    State.loading target mode
      (match mode with
      | .stepped => some step
      | .streamed => none)
  let next := { c with selected := some target, shown := none, fetch := none, stream := none }
  let started := (next.nextGeneration.publish loading).release c.fetch c.stream
  match mode with
  | .stepped => started.spawnRequest target step
  | .streamed => started.openStream target

/-- Asks for another step of the current stepped trace, and tells whether that is granted. The
coordinator goes on with what a refusal leaves behind as well. -/
def requestStep (c : Coordinator) (step : UInt64) : Coordinator × Except NavigationError Unit :=
  match c.state.target?, c.state.mode? with
  | some target, some .stepped =>
    let loading := c.nextGeneration.publish (.loading target .stepped (some step))
    (loading.spawnRequest target step, .ok ())
  | some _, some .streamed => (c, .error .notStepped)
  | _, _ => (c, .error .notStarted)

/-- Whether a link leads to a step of the current stepped trace. -/
def isInPlace (c : Coordinator) (l : Link) : Bool :=
  l.mode = .stepped && c.state.target? = some l.target && c.state.mode? = some .stepped

/-- Starts the trace that a link leads to. -/
def restart (c : Coordinator) (l : Link) : Coordinator :=
  (c.changeTarget l.target).start l.target l.mode (l.requestedStep.getD 0)

/-- Goes where a link leads: to another step of the trace on display, or to a new trace. -/
def follow (c : Coordinator) (l : Link) : Coordinator :=
  if c.isInPlace l then
    match c.requestStep (l.requestedStep.getD 0) with
    | (c, .ok ()) => c
    | (c, .error _) => c.restart l
  else c.restart l

end Coordinator

end SpendTrace.Trace
