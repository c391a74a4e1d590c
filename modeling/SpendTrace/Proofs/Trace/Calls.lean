import SpendTrace.Proofs.Stream.Closing
import SpendTrace.Proofs.Trace.Supersession

/-!
# The calls of a coordinator, one by one

What each operation of a coordinator does, as an equation where it can be one, and what it leaves
alone.

* `Coordinator.Used`: what is done to a coordinator through one of its streams.
* `Coordinator.start_stepped`, `start_streamed`: a start gives up everything, and then asks.
* `Coordinator.requestStep_of_stepped`, `requestStep_of_error`: a request for a step is granted, or
  it leaves the coordinator as it was.
-/

namespace SpendTrace.Trace

open SpendTrace.Stream (Event Handle)

namespace Coordinator

variable {c d : Coordinator} {i : Nat} {s : OpenedStream}

/-! ## A stream is used -/

theorem publish?_eq (c : Coordinator) (s : Option State) :
    ∃ state published, c.publish? s = { c with state, published } := by
  cases s <;> exact ⟨_, _, rfl⟩

theorem stream_publish? (c : Coordinator) (s : Option State) :
    (c.publish? s).stream = c.stream := by
  obtain ⟨_, _, heq⟩ := c.publish?_eq s
  rw [heq]

theorem streams_publish? (c : Coordinator) (s : Option State) :
    (c.publish? s).streams = c.streams := by
  obtain ⟨_, _, heq⟩ := c.publish?_eq s
  rw [heq]

/-- A callback changes what is seen, and which stream is kept, and nothing else. -/
theorem applyEvent_eq (c : Coordinator) (g : UInt64) (target : Target) (e : Event) :
    ∃ state published stream, c.applyEvent g target e = { c with state, published, stream } := by
  unfold applyEvent
  split
  · cases e with
    | snapshot s =>
      obtain ⟨state, published, heq⟩ := c.publish?_eq (c.state.afterSnapshot target s)
      exact ⟨state, published, c.stream, heq⟩
    | close r =>
      obtain ⟨state, published, heq⟩ :=
        publish?_eq { c with stream := none } (c.state.afterClose target r)
      exact ⟨state, published, none, heq⟩
  · exact ⟨_, _, _, rfl⟩

/-- The stream that is kept is forgotten with its close, and at no other event. -/
theorem stream_applyEvent (c : Coordinator) (g : UInt64) (target : Target) (e : Event) :
    (c.applyEvent g target e).stream = c.stream ∨
      e.isClose = true ∧ (c.applyEvent g target e).stream = none := by
  unfold applyEvent
  split
  · cases e with
    | snapshot s => exact .inl (stream_publish? c _)
    | close r => exact .inr ⟨rfl, stream_publish? _ _⟩
  · exact .inl rfl

/-- A stream that is used is put back, and its callback is run. -/
theorem updateStream_eq (c : Coordinator) (i : Nat) (s : OpenedStream) (handle : Handle)
    (callback : Option Event) : ∃ state published stream,
      c.updateStream i s handle callback =
        { c with state, published, stream, streams := c.streams.set i { s with handle } } := by
  cases callback with
  | none => exact ⟨_, _, _, rfl⟩
  | some e => exact applyEvent_eq _ s.generation s.target e

theorem stream_updateStream (c : Coordinator) (i : Nat) (s : OpenedStream) (handle : Handle)
    (callback : Option Event) : (c.updateStream i s handle callback).stream = c.stream ∨
      (∃ e ∈ callback, e.isClose = true) ∧ (c.updateStream i s handle callback).stream = none := by
  cases callback with
  | none => exact .inl rfl
  | some e =>
    exact (stream_applyEvent _ s.generation s.target e).imp_right
      fun ⟨he, hnone⟩ => ⟨⟨e, rfl, he⟩, hnone⟩

theorem streams_updateStream (c : Coordinator) (i : Nat) (s : OpenedStream) (handle : Handle)
    (callback : Option Event) :
    (c.updateStream i s handle callback).streams = c.streams.set i { s with handle } := by
  obtain ⟨_, _, _, heq⟩ := c.updateStream_eq i s handle callback
  rw [heq]

/-- What is pushed into a stream or cancels it makes the stream move. It runs a callback for its
close only as it closes. -/
inductive Used (c : Coordinator) : Coordinator → Prop where
  | unchanged : c.Used c
  | moved {i : Nat} {s : OpenedStream} {callback : Option Event} (hs : c.streams[i]? = some s)
      (m : Handle.Move)
      (hclose : ∀ e ∈ callback, e.isClose = true →
        s.handle.isClosed = false ∧ (s.handle.move m).isClosed = true) :
    c.Used (c.updateStream i s (s.handle.move m) callback)

theorem used_push (c : Coordinator) (i : Nat) (e : Event) : c.Used (c.push i e) := by
  cases hs : c.streams[i]? with
  | none =>
    have hskip : c.push i e = c := by simp only [push, hs]
    rw [hskip]
    exact .unchanged
  | some s =>
    have hpush : c.push i e = c.updateStream i s (s.handle.push e).1 (s.handle.push e).2 := by
      simp only [push, hs]
    obtain ⟨m, hm⟩ := s.handle.push_eq_move e
    have hclosed := s.handle.isClosed_push e
    rw [hm] at hpush hclosed
    rw [hpush, Handle.callback_push]
    refine .moved hs m fun e' he' hclose => ?_
    cases hc : s.handle.isClosed with
    | true => simp [hc] at he'
    | false =>
      obtain rfl : e = e' := by simpa [hc] using he'
      exact ⟨rfl, by rw [hclosed, hclose, Bool.or_true]⟩

/-- What a cancel makes of a stream that there is. -/
theorem cancelStream_of_getElem? (hs : c.streams[i]? = some s) :
    c.cancelStream i = c.updateStream i s s.handle.cancel.1 s.handle.cancel.2 := by
  simp only [cancelStream, hs]

theorem cancelStream_of_getElem?_none (hs : c.streams[i]? = none) : c.cancelStream i = c := by
  simp only [cancelStream, hs]

theorem used_cancelStream (c : Coordinator) (i : Nat) : c.Used (c.cancelStream i) := by
  cases hs : c.streams[i]? with
  | none =>
    rw [cancelStream_of_getElem?_none hs]
    exact .unchanged
  | some s =>
    rw [cancelStream_of_getElem? hs, Handle.callback_cancel]
    refine .moved hs .cancel fun e he _ =>
      ⟨Bool.eq_false_iff.2 fun hc => ?_, s.handle.isClosed_cancel⟩
    simp [hc] at he

namespace Used

/-- Neither the requests nor the generation have to do with the streams, and no stream is lost. -/
theorem requests_eq (h : c.Used d) : d.requests = c.requests := by
  cases h with
  | unchanged => rfl
  | @moved i s callback _ m _ =>
    obtain ⟨_, _, _, heq⟩ := c.updateStream_eq i s (s.handle.move m) callback
    rw [heq]

theorem generation_eq (h : c.Used d) : d.generation = c.generation := by
  cases h with
  | unchanged => rfl
  | @moved i s callback _ m _ =>
    obtain ⟨_, _, _, heq⟩ := c.updateStream_eq i s (s.handle.move m) callback
    rw [heq]

/-- If no stream is kept, none will be. -/
theorem stream_eq_none (h : c.Used d) (hnone : c.stream = none) : d.stream = none := by
  cases h with
  | unchanged => exact hnone
  | @moved i s callback _ m _ =>
    rcases c.stream_updateStream i s (s.handle.move m) callback with heq | ⟨-, heq⟩
    · exact heq.trans hnone
    · exact heq

theorem length_streams (h : c.Used d) : d.streams.length = c.streams.length := by
  cases h with
  | unchanged => rfl
  | moved _ _ _ => rw [streams_updateStream, List.length_set]

end Used

/-! ## Giving up work -/

theorem length_streams_release (c : Coordinator) (fetch slot : Option Nat) :
    (c.release fetch slot).streams.length = c.streams.length := by
  unfold release
  cases fetch <;> cases slot <;> simp [(used_cancelStream _ _).length_streams, abortRequest]

/-- A request that is aborted keeps its number. -/
theorem length_requests_release (c : Coordinator) (fetch slot : Option Nat) :
    (c.release fetch slot).requests.length = c.requests.length := by
  unfold release
  cases fetch <;> cases slot <;> simp [(used_cancelStream _ _).requests_eq, abortRequest]

/-- Everything is given up for a target, and a state is published. -/
def cleared (c : Coordinator) (target : Target) (s : State) : Coordinator :=
  let next := { c with selected := some target, shown := none, fetch := none, stream := none }
  (next.nextGeneration.publish s).release c.fetch c.stream

theorem start_stepped (c : Coordinator) (target : Target) (step : UInt64) :
    c.start target .stepped step =
      (c.cleared target (.loading target .stepped (some step))).spawnRequest target step := rfl

theorem start_streamed (c : Coordinator) (target : Target) (step : UInt64) :
    c.start target .streamed step =
      (c.cleared target (.loading target .streamed none)).openStream target := rfl

theorem changeTarget_eq (c : Coordinator) (target : Target) :
    c.changeTarget target = c.cleared target .idle := rfl

theorem openings_cleared (c : Coordinator) (target : Target) (s : State) :
    (c.cleared target s).openings = c.openings :=
  openings_release _ _ _

theorem length_streams_cleared (c : Coordinator) (target : Target) (s : State) :
    (c.cleared target s).streams.length = c.streams.length :=
  length_streams_release _ _ _

theorem length_requests_cleared (c : Coordinator) (target : Target) (s : State) :
    (c.cleared target s).requests.length = c.requests.length :=
  length_requests_release _ _ _

/-! ## Asking and answering -/

theorem generation_openStream (c : Coordinator) (target : Target) {eager : List Event}
    (ho : c.openings = [{ eager }]) : (c.openStream target).generation = c.generation := by
  rw [openStream_eq c target ho]
  exact generation_foldl_push (c.spawnStream target) c.streams.length eager

/-- A request for a step opens nothing and closes nothing. -/
theorem streams_requestStep (c : Coordinator) (step : UInt64) :
    (c.requestStep step).1.streams = c.streams ∧ (c.requestStep step).1.stream = c.stream := by
  unfold requestStep
  split <;> exact ⟨rfl, rfl⟩

/-- Neither does an answer. -/
theorem streams_answer (c : Coordinator) (i : Nat) (a : Answer) :
    (c.move (.answer i a)).streams = c.streams ∧ (c.move (.answer i a)).stream = c.stream ∧
      (c.move (.answer i a)).generation = c.generation := by
  cases hr : c.requests[i]? with
  | none => simp [c.move_answer_none hr]
  | some r =>
    rw [c.move_answer_some hr]
    unfold applyAnswer
    split <;> exact ⟨rfl, rfl, rfl⟩

/-- A stepped trace grants a request for any of its steps. -/
theorem requestStep_of_stepped {target : Target} (htarget : c.state.target? = some target)
    (hmode : c.state.mode? = some .stepped) (step : UInt64) : c.requestStep step =
      ((c.nextGeneration.publish (.loading target .stepped (some step))).spawnRequest
        target step, .ok ()) := by
  simp only [requestStep, htarget, hmode]

/-- The coordinator that refuses a step is left as it was. -/
theorem requestStep_of_error {step : UInt64} {e : NavigationError}
    (he : (c.requestStep step).2 = .error e) : c.requestStep step = (c, .error e) := by
  unfold requestStep at he ⊢
  split at he
  · cases he
  · exact congrArg (Prod.mk c) he
  · exact congrArg (Prod.mk c) he

theorem mode?_of_requestStep {step : UInt64} (hd : (c.requestStep step).2 = .ok ()) :
    c.state.mode? = some .stepped := by
  refine (c.refusal_eq_none_iff step).1 ?_
  simp [refusal, hd]

theorem follow_of_not_isInPlace {l : Link} (h : c.isInPlace l = false) :
    c.follow l = (c.changeTarget l.target).start l.target l.mode (l.requestedStep.getD 0) := by
  simp [follow, h, restart]

end Coordinator

end SpendTrace.Trace
