import SpendTrace.Service.Reply
import SpendTrace.Stream.Delivery

/-!
# Connections

What a stream makes of its connection: every text that arrives is the document of a snapshot, and
the first one that is not, like the first fault of the connection, fails the stream. A connection
that the server closes, or that just ends, completes it. What the network makes of an address is
given as a function of it.
-/

namespace SpendTrace.Stream

open Service (Endpoint UnusableServer)

/-- What a connection yields. -/
inductive Arrival where
  | text (document : String)
  /-- A frame that is neither a text nor a close. -/
  | other
  | closeFrame
  | fault (reason : String)
  | ended
  deriving DecidableEq, Repr

/-- What comes of an attempt to connect. -/
inductive Attempt where
  | refused (reason : String)
  | connected (arrivals : List Arrival)
  deriving DecidableEq, Repr

/-- What is pushed for a document: its snapshot, or that the stream failed. -/
def documentEvent (document : String) : Event :=
  match Script.Snapshot.ofJson document with
  | .ok s => .snapshot s
  | .error e => .close (.failed (Script.SnapshotError.document e).message)

/-- What is pushed for an arrival, if anything. -/
def Arrival.event? : Arrival → Option Event
  | text document => some (documentEvent document)
  | other => none
  | closeFrame => some (.close .completed)
  | fault reason => some (.close (.failed reason))
  | ended => some (.close .completed)

/-- What is pushed for the arrivals of a connection, up to the first event that closes the stream.
-/
def pushed : List Arrival → List Event
  | [] => []
  | a :: as =>
    match a.event? with
    | none => pushed as
    | some e => if e.isClose then [e] else e :: pushed as

/-- What is pushed for an attempt to connect. -/
def Attempt.events : Attempt → List Event
  | refused reason => [.close (.failed reason)]
  | connected arrivals => pushed arrivals

/-- What is pushed by the producer of a stream at an endpoint, where `attempt` tells what the
network makes of an address. -/
def producerEvents (e : Endpoint) (target : Target) (attempt : String → Attempt) : List Event :=
  match e.streamUrl target with
  | .error u => [.close (.failed (Service.Failure.ofUnusableServer u).message)]
  | .ok url => (attempt url).events

end SpendTrace.Stream
