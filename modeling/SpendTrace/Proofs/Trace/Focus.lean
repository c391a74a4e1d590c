import SpendTrace.Proofs.Trace.Run

/-!
# A coordinator without generations

A focus is what a coordinator is about at one moment: its state, the target chosen last, the last
snapshot shown, and the one piece of work whose outcome still counts. Whatever is not that work is
ignored by definition, so a focus needs neither generations nor handles nor a book of earlier work.

What is said of the runs of a coordinator is proved of the focus first, and carried over.
-/

namespace SpendTrace.Trace

open SpendTrace.Stream (Event)
open Coordinator (Issued View)

/-! ## The focus -/

/-- The work whose outcome counts: at most one request, or one stream with what is left of it. -/
inductive Work where
  | nothing
  | request (number : Nat) (target : Target) (step : UInt64)
  | stream (number : Nat) (target : Target) (closed : Bool)

namespace Work

/-- What is asked for by the request with this number, if it counts. -/
def request? : Work → Nat → Option (Target × UInt64)
  | request j target step, i => if i = j then some (target, step) else none
  | _, _ => none

/-- The target of the stream with this number and whether the stream is closed, if it counts. -/
def stream? : Work → Nat → Option (Target × Bool)
  | stream j target closed, i => if i = j then some (target, closed) else none
  | _, _ => none

theorem eq_stream {w : Work} {i : Nat} {target : Target} {closed : Bool}
    (h : w.stream? i = some (target, closed)) : w = stream i target closed := by
  cases w with
  | stream j t b =>
    simp only [stream?] at h
    split at h
    · next hij => simp_all
    · simp at h
  | nothing => simp [stream?] at h
  | request => simp [stream?] at h

theorem eq_request {w : Work} {i : Nat} {target : Target} {step : UInt64}
    (h : w.request? i = some (target, step)) : w = request i target step := by
  cases w with
  | request j t k =>
    simp only [request?] at h
    split at h
    · next hij => simp_all
    · simp at h
  | nothing => simp [request?] at h
  | stream => simp [request?] at h

end Work

structure Focus where
  published : List State := []
  state : State := .idle
  selected : Option Target := none
  shown : Option Ready := none
  issued : Issued := {}
  work : Work := .nothing

namespace Focus

def view (f : Focus) : View :=
  ⟨f.published, f.state, f.selected, f.state.navigation, f.shown⟩

def publish (f : Focus) (s : State) : Focus :=
  { f with state := s, published := f.published ++ [s] }

def publish? (f : Focus) : Option State → Focus
  | some s => f.publish s
  | none => f

/-- The answer to a request for a step. -/
def settle (f : Focus) (target : Target) (step : UInt64) (a : Answer) : Focus :=
  let shown :=
    match a with
    | .ok s => some (.ofAnswer target step s)
    | .error _ => f.shown
  { f with shown }.publish (.ofAnswer target step a)

/-- The answer to the request with this number. -/
def answer (f : Focus) (i : Nat) (a : Answer) : Focus :=
  match f.work.request? i with
  | some (target, step) => f.settle target step a
  | none => f

/-- What becomes of a state when an event comes out of a stream to a target. -/
def afterEvent (s : State) (target : Target) : Event → Option State
  | .snapshot snapshot => s.afterSnapshot target snapshot
  | .close reason => s.afterClose target reason

/-- Something is pushed into a stream. -/
def push (f : Focus) (i : Nat) (e : Event) : Focus :=
  match f.work.stream? i with
  | some (target, false) =>
    { f with work := .stream i target e.isClose }.publish? (afterEvent f.state target e)
  | _ => f

def spawnRequest (f : Focus) (target : Target) (step : UInt64) : Focus :=
  { f with
    issued := ⟨f.issued.requests + 1, f.issued.streams⟩
    work := .request f.issued.requests target step }

def openStream (f : Focus) (target : Target) (eager : List Event) : Focus :=
  eager.foldl (fun g e => g.push f.issued.streams e)
    { f with
      issued := ⟨f.issued.requests, f.issued.streams + 1⟩
      work := .stream f.issued.streams target false }

/-- Everything is given up for a target. -/
def reset (f : Focus) (target : Target) : Focus :=
  { f with selected := some target, shown := none, work := .nothing }

def start (f : Focus) (target : Target) (mode : Mode) (step : UInt64) (eager : List Event) :
    Focus :=
  match mode with
  | .stepped =>
    ((f.reset target).publish (.loading target .stepped (some step))).spawnRequest target step
  | .streamed =>
    ((f.reset target).publish (.loading target .streamed none)).openStream target eager

/-- Another step is asked for; in a state without a stepped trace nothing happens. -/
def requestStep (f : Focus) (step : UInt64) : Focus :=
  match f.state.target?, f.state.mode? with
  | some target, some .stepped =>
    ({ f with work := .nothing }.publish (.loading target .stepped (some step))).spawnRequest
      target step
  | _, _ => f

def changeTarget (f : Focus) (target : Target) : Focus :=
  (f.reset target).publish .idle

def cancel (f : Focus) : Focus :=
  { f with work := .nothing }.publish? (f.state.afterCancel f.shown)

def follow (f : Focus) (l : Link) (eager : List Event) : Focus :=
  if l.mode = .stepped ∧ f.state.target? = some l.target ∧ f.state.mode? = some .stepped then
    f.requestStep (l.requestedStep.getD 0)
  else (f.changeTarget l.target).start l.target l.mode (l.requestedStep.getD 0) eager

/-- What becomes of a focus with one move. -/
def move (f : Focus) : Move → Focus
  | .start target mode step eager => f.start target mode step eager
  | .requestStep step => f.requestStep step
  | .changeTarget target => f.changeTarget target
  | .cancel => f.cancel
  | .follow link eager => f.follow link eager
  | .answer i a => f.answer i a
  | .push i e => f.push i e
  | .cancelStream i => f.push i (.close .cancelled)

def run (f : Focus) (ms : List Move) : Focus :=
  ms.foldl move f

theorem run_append (f : Focus) (ms ns : List Move) : f.run (ms ++ ns) = (f.run ms).run ns := by
  simp [run, List.foldl_append]

end Focus

end SpendTrace.Trace
