import SpendTrace.Proofs.Trace.Undisturbed
import SpendTrace.Proofs.View.Looks

/-!
# What may happen in a session

The viewer of a session looks when it comes to it, and everything else takes its course in between,
in any order. The program's own runs are one such order.

* `Session.undergo`: what becomes of a session with all that happens.
* `Session.exists_run_eq`: the program's own run on a streamed trace, said in this way.
-/

namespace SpendTrace.View

open SpendTrace.Stream (Event snapshots)
open Trace (Answer Coordinator calls deliveries)

/-! ## Happenings -/

/-- What may happen in a session next: the viewer looks, the tasks run, the producer of a stream
comes to its end, or something else happens to the coordinator. -/
inductive Happening where
  | look
  | settle
  | finish (stream : Nat)
  | move (m : Trace.Move)

def Happening.move? : Happening → Option Trace.Move
  | move m => some m
  | _ => none

/-- What happens to the coordinator of a session. -/
def moves (hs : List Happening) : List Trace.Move :=
  hs.filterMap Happening.move?

namespace Session

def happen (s : Session) : Happening → Session
  | .look => s.look
  | .settle => { s with coordinator := s.coordinator.settle }
  | .finish i => { s with coordinator := (s.coordinator.finishProducer i).1 }
  | .move m => { s with coordinator := s.coordinator.move m }

def undergo (s : Session) (hs : List Happening) : Session :=
  hs.foldl happen s

end Session

/-! ## The program's own schedule -/

/-- What is pushed at one entry. -/
def Entry.events : Entry → List Event
  | push events => events
  | hang => []

/-- Events are pushed into a stream one by one. -/
def pushes (i : Nat) (events : List Event) : List Happening :=
  events.map fun e => .move (.push i e)

theorem moves_append (hs hs' : List Happening) : moves (hs ++ hs') = moves hs ++ moves hs' := by
  simp [moves]

theorem moves_pushes (i : Nat) (events : List Event) :
    moves (pushes i events) = events.map (.push i) := by
  simp [moves, pushes, List.filterMap_map, Function.comp_def, Happening.move?]

namespace Session

theorem undergo_append (s : Session) (hs hs' : List Happening) :
    s.undergo (hs ++ hs') = (s.undergo hs).undergo hs' := by
  simp [undergo, List.foldl_append]

theorem undergo_pushes (s : Session) (i : Nat) (events : List Event) :
    s.undergo (pushes i events) =
      { s with coordinator := events.foldl (fun c e => c.push i e) s.coordinator } := by
  induction events generalizing s with
  | nil => rfl
  | cons e events ih => exact ih _

/-- What happens in a session while the producer of its stream acts. -/
def schedule (s : Session) : List Entry → List Happening
  | [] => [.finish (s.coordinator.streams.length - 1), .settle, .look]
  | .hang :: _ => []
  | .push events :: entries =>
    let now := pushes (s.coordinator.streams.length - 1) events ++ [.look]
    now ++ (s.undergo now).schedule entries

theorem stream_eq (s : Session) (entries : List Entry) :
    s.stream entries = s.undergo (s.schedule entries) := by
  induction entries generalizing s with
  | nil => rfl
  | cons entry entries ih =>
    cases entry with
    | hang => rfl
    | push events =>
      rw [schedule, undergo_append, ← ih, undergo_append, undergo_pushes]
      rfl

/-- Nothing but pushes happens to the coordinator then. -/
theorem exists_push_of_mem_schedule {s : Session} {entries : List Entry} {mv : Trace.Move}
    (h : mv ∈ moves (s.schedule entries)) : ∃ i e, mv = .push i e := by
  induction entries generalizing s with
  | nil => simp [schedule, moves, Happening.move?] at h
  | cons entry entries ih =>
    cases entry with
    | hang => simp [schedule, moves] at h
    | push events =>
      simp only [schedule, moves_append, moves_pushes, List.mem_append] at h
      rcases h with (hpush | hlook) | hrest
      · obtain ⟨e, -, rfl⟩ := List.mem_map.1 hpush
        exact ⟨_, e, rfl⟩
      · simp [moves, Happening.move?] at hlook
      · exact ih hrest

theorem deliveries_schedule_le (s : Session) (entries : List Entry) :
    deliveries (moves (s.schedule entries)) ≤ snapshots (entries.flatMap Entry.events) := by
  induction entries generalizing s with
  | nil => exact Nat.zero_le _
  | cons entry entries ih =>
    cases entry with
    | hang => exact Nat.zero_le _
    | push events =>
      have hlook : moves [.look] = [] := rfl
      simp only [schedule, moves_append, moves_pushes, hlook, List.append_nil,
        Trace.deliveries_append, Trace.deliveries_pushes, List.flatMap_cons, Entry.events,
        Stream.snapshots_append]
      exact Nat.add_le_add_left (ih _) _

/-- The program looks, lets the tasks run, looks again, and then goes with the producer. Nobody
calls the coordinator meanwhile. -/
theorem exists_run_eq (c : Coordinator) (target : Target) (toEnd : Bool) (answers : List Answer)
    (entries : List Entry) : ∃ hs,
      run { coordinator := c, viewer := { toEnd } } ⟨target, .automatic⟩ answers entries =
        (opened c toEnd ⟨target, .automatic⟩).undergo hs ∧
      (∀ mv ∈ moves hs, mv.replaces = false) ∧ calls (moves hs) = 0 ∧
      deliveries (moves hs) ≤ snapshots (entries.flatMap Entry.events) := by
  let s := (opened c toEnd ⟨target, .automatic⟩).undergo [.look, .settle, .look]
  have hmoves : moves ([.look, .settle, .look] ++ s.schedule entries) =
      moves (s.schedule entries) := by
    rw [moves_append]
    rfl
  refine ⟨[.look, .settle, .look] ++ s.schedule entries, ?_, ?_, ?_, ?_⟩
  · rw [undergo_append, ← stream_eq]
    rfl
  · rw [hmoves]
    intro mv hmv
    obtain ⟨i, e, rfl⟩ := exists_push_of_mem_schedule hmv
    rfl
  · rw [hmoves]
    refine List.countP_eq_zero.2 fun mv hmv => ?_
    obtain ⟨i, e, rfl⟩ := exists_push_of_mem_schedule hmv
    simp [Trace.Move.isCall]
  · rw [hmoves]
    exact s.deliveries_schedule_le entries

end Session

end SpendTrace.View
