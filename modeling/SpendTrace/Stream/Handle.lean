import SpendTrace.Stream.Delivery
import SpendTrace.Task

/-!
# Stream handles

A stream has two sides. Its producer, a task, pushes snapshots and may close the stream; if the
producer ends without having done so, the stream is completed. Its owner may cancel it, which
closes the stream at once and aborts the producer.

* `isClosed_push`, `callback_push`: an open stream hands on what is pushed, a closed one nothing.
-/

namespace SpendTrace.Stream

open Script (Snapshot)

structure Handle where
  delivery : Delivery := .after false []
  producer : Task Unit := {}

namespace Handle

def isClosed (h : Handle) : Bool :=
  h.delivery.closed

/-- Something the producer pushes, and the callback that was run for it. -/
def push (h : Handle) (e : Event) : Handle × Option Event :=
  let (delivery, callback) := h.delivery.accept e
  ({ h with delivery }, callback)

theorem isClosed_push (h : Handle) (e : Event) :
    (h.push e).1.isClosed = (h.isClosed || e.isClose) := by
  cases hc : h.delivery.closed with
  | true => simp [push, isClosed, Delivery.accept_of_closed hc, hc]
  | false => simp [push, isClosed, Delivery.accept_of_not_closed hc, hc]

theorem callback_push (h : Handle) (e : Event) :
    (h.push e).2 = if h.isClosed then none else some e := by
  cases hc : h.delivery.closed with
  | true => simp [push, isClosed, Delivery.accept_of_closed hc, hc]
  | false => simp [push, isClosed, Delivery.accept_of_not_closed hc, hc]

/-- Several things the producer pushes. -/
def pushAll (h : Handle) (es : List Event) : Handle :=
  es.foldl (fun h e => (h.push e).1) h

/-- Pushes a snapshot; the answer tells the producer whether the stream is still open. -/
def deliver (h : Handle) (s : Snapshot) : Handle × Bool :=
  ((h.push (.snapshot s)).1, !h.isClosed)

/-- The producer is told that the stream is open exactly if the snapshot was handed on. -/
theorem deliver_answer (h : Handle) (s : Snapshot) :
    (h.deliver s).2 = (h.push (.snapshot s)).2.isSome := by
  rw [callback_push]
  cases hc : h.isClosed <;> simp [deliver, hc]

def close (h : Handle) (reason : CloseReason) : Handle :=
  (h.push (.close reason)).1

/-- Closes the stream from the owner's side. -/
def cancel (h : Handle) : Handle × Option Event :=
  let (h, callback) := h.push (.close .cancelled)
  ({ h with producer := h.producer.abort }, callback)

theorem isClosed_cancel (h : Handle) : h.cancel.1.isClosed = true := by
  have := isClosed_push h (.close .cancelled)
  simpa [cancel, isClosed, Event.isClose] using this

theorem callback_cancel (h : Handle) :
    h.cancel.2 = if h.isClosed then none else some (.close .cancelled) :=
  callback_push h (.close .cancelled)

/-- Lets the producer come to its end; see `Task.give` for the answer. -/
def finish (h : Handle) : Handle × Option Bool :=
  let (producer, taken) := h.producer.give ()
  ({ h with producer }, taken)

/-- Lets the producer run; if it ends, so does the stream. -/
def settle (h : Handle) : Handle × Option Event :=
  let (producer, ended) := h.producer.run
  let h := { h with producer }
  match ended with
  | some () => h.push (.close .completed)
  | none => (h, none)

/-- The handle as it is shown for debugging. -/
def debugText (h : Handle) : String :=
  "StreamHandle \x7b closed: " ++ (if h.isClosed then "true" else "false") ++ " \x7d"

end Handle

end SpendTrace.Stream
