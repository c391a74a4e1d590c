import SpendTrace.Script.Snapshot

/-!
# Deliveries

What a stream hands on to its owner: snapshots, each by a callback, and at last why it closed, by
another. Whatever comes after the close is refused.

* `Delivery` has both callbacks in slots of their own, which are filled as long as it is open.
* `accept_isSome`: a callback is run exactly as long as the delivery is not closed.
-/

namespace SpendTrace.Stream

open Script (Snapshot)

/-- Why a stream closed. -/
inductive CloseReason where
  /-- It came to its end. -/
  | completed
  /-- Its owner cancelled it. -/
  | cancelled
  | failed (message : String)
  deriving DecidableEq, Repr

def CloseReason.message : CloseReason → String
  | completed => "completed"
  | cancelled => "cancelled"
  | failed message => "failed: " ++ message

/-- What is handed on. -/
inductive Event where
  | snapshot (snapshot : Snapshot)
  | close (reason : CloseReason)
  deriving DecidableEq

def Event.isClose : Event → Bool
  | snapshot _ => false
  | close _ => true

/-- A delivery and the two callbacks of its owner. It lets go of both when it closes, so it holds
them exactly while it is open. -/
structure Delivery where
  closed : Bool
  /-- Whether the callback for snapshots is held. -/
  onSnapshot : Bool
  /-- Whether the callback for the close is held. -/
  onClose : Bool
  /-- The callbacks that were run, in order. -/
  callbacks : List Event
  held : onSnapshot = !closed ∧ onClose = !closed
  deriving DecidableEq

namespace Delivery

/-- The delivery that is or is not closed after these callbacks. -/
def after (closed : Bool) (callbacks : List Event) : Delivery :=
  ⟨closed, !closed, !closed, callbacks, rfl, rfl⟩

@[simp] theorem closed_after (closed : Bool) (callbacks : List Event) :
    (after closed callbacks).closed = closed := rfl

@[simp] theorem callbacks_after (closed : Bool) (callbacks : List Event) :
    (after closed callbacks).callbacks = callbacks := rfl

/-- Runs a callback, if it is held. -/
def call (d : Delivery) (held : Bool) (e : Event) : Delivery × Option Event :=
  if held then ({ d with callbacks := d.callbacks ++ [e] }, some e) else (d, none)

/-- Takes an event, and says which callback was run for it. A close lets go of the callbacks before
the last one is run. -/
def accept (d : Delivery) (e : Event) : Delivery × Option Event :=
  if d.closed then (d, none)
  else
    match e with
    | .snapshot _ => d.call d.onSnapshot e
    | .close _ => (after true d.callbacks).call d.onClose e

theorem accept_of_closed {d : Delivery} (h : d.closed = true) (e : Event) :
    d.accept e = (d, none) := by
  simp [accept, h]

theorem accept_of_not_closed {d : Delivery} (h : d.closed = false) (e : Event) :
    d.accept e = (after e.isClose (d.callbacks ++ [e]), some e) := by
  obtain ⟨closed, onSnapshot, onClose, callbacks, rfl, rfl⟩ := d
  obtain rfl : closed = false := h
  cases e <;> rfl

theorem accept_isSome (d : Delivery) (e : Event) : (d.accept e).2.isSome = !d.closed := by
  cases h : d.closed with
  | true => simp [accept_of_closed h]
  | false => simp [accept_of_not_closed h]

end Delivery

end SpendTrace.Stream
