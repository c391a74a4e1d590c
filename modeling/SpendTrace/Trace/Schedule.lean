import SpendTrace.Trace.Coordinator

/-!
# When work takes effect

The tasks of a coordinator run between its calls. A request reaches the interpreter when its task
first runs, and is numbered then; one that is aborted before never reaches it. Answers, and the
ends of producers, take effect when the tasks run next.
-/

namespace SpendTrace.Trace.Coordinator

open SpendTrace.Stream (Event)

/-- Lets the task of a request run. -/
def runRequest (c : Coordinator) (i : Nat) : Coordinator :=
  match c.requests[i]? with
  | none => c
  | some r =>
    let (task, answer) := r.task.run
    let r := { r with begun := r.begun || !r.task.aborted, task }
    let c := { c with requests := c.requests.set i r }
    match answer with
    | some a => c.applyAnswer r a
    | none => c

/-- Lets the producer of a stream run. -/
def runProducer (c : Coordinator) (i : Nat) : Coordinator :=
  match c.streams[i]? with
  | none => c
  | some s =>
    let (handle, callback) := s.handle.settle
    c.updateStream i s handle callback

/-- Lets every task run until it waits. -/
def settle (c : Coordinator) : Coordinator :=
  let c := (List.range c.requests.length).foldl runRequest c
  (List.range c.streams.length).foldl runProducer c

/-! ## Requests by number -/

/-- The requests that have reached the interpreter, in order. -/
def begunRequests (c : Coordinator) : List Request :=
  c.requests.filter Request.begun

/-- The place of a request among all that were started, by its number. -/
def requestIndex? (c : Coordinator) (number : Nat) : Option Nat :=
  let begun := fun i => (c.requests[i]?.map Request.begun).getD false
  ((List.range c.requests.length).filter begun)[number]?

/-- Hands a request its answer; see `Task.give` for what comes back. -/
def answer (c : Coordinator) (number : Nat) (a : Answer) : Coordinator × Option Bool :=
  match c.requestIndex? number with
  | none => (c, none)
  | some i =>
    match c.requests[i]? with
    | none => (c, none)
    | some r =>
      let (task, taken) := r.task.give a
      ({ c with requests := c.requests.set i { r with task } }, taken)

/-! ## Streams by number -/

/-- Pushes into a stream; the answer says whether a callback was run. -/
def pushed (c : Coordinator) (i : Nat) (e : Event) : Coordinator × Option Bool :=
  (c.push i e, c.streams[i]?.map fun s => (s.handle.push e).2.isSome)

/-- Lets the producer of a stream come to its end; see `Task.give` for what comes back. -/
def finishProducer (c : Coordinator) (i : Nat) : Coordinator × Option Bool :=
  match c.streams[i]? with
  | none => (c, none)
  | some s =>
    let (handle, taken) := s.handle.finish
    ({ c with streams := c.streams.set i { s with handle } }, taken)

end SpendTrace.Trace.Coordinator
