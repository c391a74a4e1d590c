import SpendTrace.Proofs.Trace.Tracking
import SpendTrace.Trace.Schedule

/-!
# What the tasks do when they run

To let the tasks run is to make moves: a request that was answered brings its answer, and a producer
that has come to its end closes its stream. All else that happens then is seen by the tasks alone.

* `Move.isOfTask`: the moves that tasks make.
* `Tracks.settle`: a coordinator whose tasks have run does what its focus does with such moves.
-/

namespace SpendTrace.Trace

open SpendTrace.Stream (Event)

/-- The moves that tasks make as they run. -/
def Move.isOfTask : Move → Bool
  | answer _ _ => true
  | push _ e => e.isClose
  | _ => false

namespace Tracks

variable {n : Nat} {c : Coordinator} {f : Focus} {i : Nat}

/-- How far a request has come makes no difference, as long as it is not answered. -/
theorem setRequest (h : Tracks n c f) {r : Request} (hr : c.requests[i]? = some r) (begun : Bool)
    (task : Task Answer) :
    Tracks n { c with requests := c.requests.set i { r with begun, task } } f where
  published_eq := h.published_eq
  state_eq := h.state_eq
  selected_eq := h.selected_eq
  shown_eq := h.shown_eq
  issued_eq := by rw [← h.issued_eq]; simp [Coordinator.issued]
  request_eq := fun j => by
    have hi : i < c.requests.length := (List.getElem?_eq_some_iff.1 hr).1
    rw [← h.request_eq j]
    simp only [Coordinator.currentRequest?]
    by_cases hij : i = j
    · subst hij
      rw [List.getElem?_set_self hi, hr]
      rfl
    · rw [List.getElem?_set_ne hij]
  stream_eq := h.stream_eq
  fenced := by
    refine ⟨h.fenced.generation_le, fun q hq => ?_, h.fenced.stream_le⟩
    rcases List.mem_or_eq_of_mem_set hq with hold | rfl
    · exact h.fenced.request_le q hold
    · exact h.fenced.request_le r (List.mem_of_getElem? hr)

/-- Neither does how far the producer of a stream has come, as long as it does not close it. -/
theorem setHandle_of_same (h : Tracks n c f) {s : OpenedStream} (hs : c.streams[i]? = some s)
    {handle : Stream.Handle} (hclosed : handle.isClosed = s.handle.isClosed) :
    Tracks n (c.setHandle i s handle) f := by
  by_cases hg : s.generation = c.generation
  · have hset := h.setHandle_of_current hs hg handle
    have hwork := Work.eq_stream
      ((h.stream_eq i).symm.trans (Coordinator.currentStream?_of_current hs hg))
    rwa [hclosed, ← hwork] at hset
  · exact h.setHandle_of_stale hs hg handle

/-- The task of a request runs. -/
theorem runRequest (h : Tracks n c f) (i : Nat) :
    ∃ ms, (∀ m ∈ ms, Move.isOfTask m = true) ∧ Tracks n (c.runRequest i) (f.run ms) := by
  unfold Coordinator.runRequest
  cases hr : c.requests[i]? with
  | none => exact ⟨[], by simp, h⟩
  | some r =>
    have hset := h.setRequest hr (r.begun || !r.task.aborted) r.task.run.1
    cases hanswer : r.task.run.2 with
    | none =>
      simp only [hanswer]
      exact ⟨[], by simp, hset⟩
    | some a =>
      have hi : i < c.requests.length := (List.getElem?_eq_some_iff.1 hr).1
      have hmove := hset.answer i a
      rw [Coordinator.move_answer_some _ (List.getElem?_set_self hi)] at hmove
      simp only [hanswer]
      exact ⟨[.answer i a], by simp [Move.isOfTask], hmove⟩

/-- The task of a producer runs. -/
theorem runProducer (h : Tracks n c f) (i : Nat) :
    ∃ ms, (∀ m ∈ ms, Move.isOfTask m = true) ∧ Tracks n (c.runProducer i) (f.run ms) := by
  unfold Coordinator.runProducer
  cases hs : c.streams[i]? with
  | none => exact ⟨[], by simp, h⟩
  | some s =>
    cases hended : s.handle.producer.run.2 with
    | none =>
      simp only [Stream.Handle.settle, hended]
      exact ⟨[], by simp, h.setHandle_of_same hs rfl⟩
    | some _ =>
      simp only [Stream.Handle.settle, hended]
      exact ⟨[.push i (.close .completed)], by simp [Move.isOfTask, Event.isClose],
        h.updateStream hs (Stream.Handle.isClosed_push _ _) (Stream.Handle.callback_push _ _)⟩

/-- Tasks that run one after the other make their moves one after the other. -/
theorem foldl_tasks {task : Coordinator → Nat → Coordinator}
    (htask : ∀ {c f}, Tracks n c f → ∀ i, ∃ ms, (∀ m ∈ ms, Move.isOfTask m = true) ∧
      Tracks n (task c i) (f.run ms))
    (h : Tracks n c f) (is : List Nat) :
    ∃ ms, (∀ m ∈ ms, Move.isOfTask m = true) ∧ Tracks n (is.foldl task c) (f.run ms) := by
  induction is generalizing c f with
  | nil => exact ⟨[], by simp, h⟩
  | cons i is ih =>
    obtain ⟨ms, hms, hfirst⟩ := htask h i
    obtain ⟨ms', hms', hrest⟩ := ih hfirst
    refine ⟨ms ++ ms', List.forall_mem_append.2 ⟨hms, hms'⟩, ?_⟩
    rwa [Focus.run_append]

/-- All tasks run. -/
theorem settle (h : Tracks n c f) :
    ∃ ms, (∀ m ∈ ms, Move.isOfTask m = true) ∧ Tracks n c.settle (f.run ms) := by
  obtain ⟨ms, hms, hrequests⟩ := foldl_tasks runRequest h (List.range c.requests.length)
  obtain ⟨ms', hms', hproducers⟩ := foldl_tasks runProducer hrequests
    (List.range ((List.range c.requests.length).foldl Coordinator.runRequest c).streams.length)
  refine ⟨ms ++ ms', List.forall_mem_append.2 ⟨hms, hms'⟩, ?_⟩
  rw [Focus.run_append]
  exact hproducers

/-- A producer comes to its end, which its task notices later. -/
theorem finishProducer (h : Tracks n c f) (i : Nat) : Tracks n (c.finishProducer i).1 f := by
  unfold Coordinator.finishProducer
  cases hs : c.streams[i]? with
  | none => exact h
  | some s => exact h.setHandle_of_same hs rfl

end Tracks

end SpendTrace.Trace
