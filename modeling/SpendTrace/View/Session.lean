import SpendTrace.Trace.Schedule
import SpendTrace.View.Viewer

/-!
# Sessions

A session opens a link with a coordinator and lets a viewer print until it has seen enough. The
interpreter's part is given: the answers to the requests, in order, or what the producer of the
stream pushes between two looks.
-/

namespace SpendTrace.View

open SpendTrace.Stream (Event)
open Trace (Answer Coordinator State)

/-- How a session ended. The texts of a failure go from the outside to the inside. -/
inductive Ending where
  | ok
  | failed (chain : List String)
  deriving DecidableEq, Repr

/-- What the producer of a stream does between two looks. -/
inductive Entry where
  | push (events : List Event)
  /-- Nothing ever again. -/
  | hang

structure Session where
  coordinator : Coordinator := {}
  viewer : Viewer
  printed : List Piece := []
  /-- Nothing while the session goes on. -/
  ending : Option Ending := none

namespace Session

/-- The viewer looks, unless the session has ended. -/
def look (s : Session) : Session :=
  match s.ending with
  | some _ => s
  | none =>
    let l := s.viewer.look s.coordinator.watched
    let s := { s with viewer := l.viewer, printed := s.printed ++ l.pieces }
    match l.move with
    | .wait => s
    | .stop => { s with ending := some .ok }
    | .fail target error =>
      { s with ending := some (.failed ["tracing " ++ target.display ++ " failed", error.message]) }
    | .request step =>
      match s.coordinator.requestStep step with
      | (coordinator, .ok ()) => { s with coordinator }
      | (coordinator, .error e) => { s with coordinator, ending := some (.failed [e.message]) }

/-- Lets the tasks run, and then the viewer look. -/
def proceed (s : Session) : Session :=
  { s with coordinator := s.coordinator.settle }.look

/-- Answers the request that reached the interpreter last. -/
def answerLatest (s : Session) (a : Answer) : Session :=
  let number := s.coordinator.begunRequests.length - 1
  { s with coordinator := (s.coordinator.answer number a).1 }

/-- Whether a request waits for its answer. -/
def isAsking (s : Session) : Bool :=
  s.ending.isNone && s.coordinator.begunRequests.any fun r => r.task.isWaiting

/-- Answers the latest request. The look at the answer may ask for another step, which reaches the
interpreter when the tasks run once more. -/
def receive (s : Session) (a : Answer) : Session :=
  (s.answerLatest a).proceed.proceed

/-- Answers requests as long as there are any; nothing is found past the last answer. -/
def answerAll (s : Session) : List Answer → Session
  | [] => if s.isAsking then s.receive (.error .notFound) else s
  | a :: as => if s.isAsking then (s.receive a).answerAll as else s

/-- Lets the producer of the latest stream act, and come to its end after the last entry. -/
def stream (s : Session) : List Entry → Session
  | [] =>
    let number := s.coordinator.streams.length - 1
    { s with coordinator := (s.coordinator.finishProducer number).1 }.proceed
  | .hang :: _ => s
  | .push events :: entries =>
    let number := s.coordinator.streams.length - 1
    let coordinator := events.foldl (fun c e => c.push number e) s.coordinator
    { s with coordinator }.look.stream entries

/-- Opens a link. -/
def openLink (s : Session) (l : Link) : Session :=
  { s with coordinator := s.coordinator.follow l }.look.proceed

/-- Runs a session on a link until it ends, or waits for what never comes. -/
def run (s : Session) (l : Link) (answers : List Answer) (entries : List Entry) : Session :=
  let s := s.openLink l
  match l.mode with
  | .stepped => s.answerAll answers
  | .streamed => s.stream entries

end Session

end SpendTrace.View
