import SpendTrace.Stream.Connection
import SpendTrace.Stream.Handle

/-!
# Stream clients

A client keeps at most one stream open: before it opens another, it cancels the one before. Every
callback of every stream goes into one log.
-/

namespace SpendTrace.Stream

open Service (Endpoint)

/-- A stream of a client: its handle, and what its producer still has to push. -/
structure Opened where
  handle : Handle := {}
  coming : List Event := []

structure Client where
  endpoint : Endpoint
  streams : List Opened := []
  /-- The stream opened last, until it is cancelled. -/
  active : Option Nat := none
  /-- The callbacks run so far, each with the number of its stream. -/
  log : List (Nat × Event) := []

namespace Client

/-- Replaces a stream, and notes the callback that was run. -/
def update (c : Client) (i : Nat) (s : Opened) (callback : Option Event) : Client :=
  { c with
    streams := c.streams.set i s
    log := c.log ++ callback.toList.map fun e => (i, e) }

/-- Something is pushed into a stream. -/
def push (c : Client) (i : Nat) (e : Event) : Client :=
  match c.streams[i]? with
  | none => c
  | some s =>
    let (handle, callback) := s.handle.push e
    c.update i { s with handle } callback

/-- Cancels a stream through its handle. -/
def cancelHandle (c : Client) (i : Nat) : Client :=
  match c.streams[i]? with
  | none => c
  | some s =>
    let (handle, callback) := s.handle.cancel
    c.update i { s with handle } callback

/-- Cancels the stream opened last. -/
def cancel (c : Client) : Client :=
  match c.active with
  | none => c
  | some i => { c with active := none }.cancelHandle i

/-- Opens a stream, where `attempt` tells what the network makes of an address. -/
def openStream (c : Client) (target : Target) (attempt : String → Attempt) : Client :=
  let c := c.cancel
  { c with
    streams := c.streams ++ [{ coming := producerEvents c.endpoint target attempt }]
    active := some c.streams.length }

/-- Lets the producer of a stream push what comes next. An aborted producer pushes nothing. -/
def arrive (c : Client) (i : Nat) : Client :=
  match c.streams[i]? with
  | some { handle, coming := e :: coming } =>
    if handle.producer.aborted then c
    else { c with streams := c.streams.set i { handle, coming } }.push i e
  | _ => c

/-- The number of events that the producer of a stream still has to push. -/
def due (c : Client) (i : Nat) : Nat :=
  match c.streams[i]? with
  | some s => s.coming.length
  | none => 0

/-- Lets the stream opened last push until the log has `count` entries, or the stream is through. -/
def awaitFrom (c : Client) (count : Nat) : Nat → Client
  | 0 => c
  | fuel + 1 =>
    if count ≤ c.log.length then c
    else
      match c.active with
      | none => c
      | some i => (c.arrive i).awaitFrom count fuel

def await (c : Client) (count : Nat) : Client :=
  c.awaitFrom count ((c.active.map c.due).getD 0)

end Client

end SpendTrace.Stream
