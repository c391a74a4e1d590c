import Mathlib.Data.List.Induction
import SpendTrace.Proofs.Trace.Calls
import SpendTrace.Trace.Schedule

/-!
# One request at a time

A coordinator that has nothing under way is asked for a step. From then on the request passes from
stage to stage as the tasks run and as it is answered, and until the answer is on display nothing
else that may happen makes a difference.

* `AtRest`: nothing is to come of earlier work.
* `Asking`: a step was asked for, and its request has come to a stage.
* `AtRest.asking_follow`, `AtRest.asking_requestStep`: the ways into the first stage.
* `Asking.settle`, `Asking.answer`: the ways from stage to stage.
-/

namespace SpendTrace.Stream.Handle

/-- A closed stream has nothing more to say when its producer runs. -/
theorem settle_of_closed {h : Handle} (hc : h.isClosed = true) :
    h.settle.1.isClosed = true ∧ h.settle.2 = none := by
  refine ⟨(congrArg Delivery.closed (delivery_settle_of_closed hc)).trans hc, ?_⟩
  cases hrun : h.producer.run with
  | mk producer ended =>
    cases ended with
    | none => simp only [settle, hrun]
    | some _ => simp only [settle, hrun, push_of_closed (h := { h with producer }) hc]

end SpendTrace.Stream.Handle

namespace SpendTrace.Trace

/-! ## Rest -/

/-- The task of a request is over, and running it once more changes nothing. -/
def Request.IsSpent (r : Request) : Prop :=
  r.task.gone = true ∧ (r.begun = true ∨ r.task.aborted = true)

/-- The steps that were asked for by those requests that have reached the interpreter. -/
def askedBy (rs : List Request) : List (Target × UInt64) :=
  (rs.filter Request.begun).map fun r => (r.target, r.step)

theorem askedBy_concat (rs : List Request) (r : Request) :
    askedBy (rs ++ [r]) = askedBy rs ++ if r.begun then [(r.target, r.step)] else [] := by
  cases hr : r.begun <;> simp [askedBy, hr]

/-- A request that is aborted has still reached the interpreter. -/
theorem askedBy_abort (rs : List Request) (i : Nat) :
    askedBy (rs.modify i fun r => { r with task := r.task.abort }) = askedBy rs := by
  induction rs generalizing i with
  | nil => simp
  | cons r rs ih =>
    cases i with
    | zero => cases hr : r.begun <;> simp [askedBy, hr]
    | succ i =>
      have hrest := ih i
      cases hr : r.begun <;> simpa [askedBy, hr] using hrest

namespace Coordinator

/-- What the interpreter was asked for, in order. -/
def asked (c : Coordinator) : List (Target × UInt64) :=
  askedBy c.requests

/-- Nothing is to come of the requests and the streams there are. -/
structure AtRest (c : Coordinator) : Prop where
  spent : ∀ r ∈ c.requests, r.IsSpent
  closed : ∀ s ∈ c.streams, s.handle.isClosed = true

theorem atRest_new : AtRest {} :=
  ⟨by simp, by simp⟩

variable {c d : Coordinator} {i : Nat} {target : Target} {step : UInt64}

theorem runRequest_of_isSpent {r : Request} (hr : c.requests[i]? = some r) (h : r.IsSpent) :
    c.runRequest i = c := by
  obtain ⟨hgone, hbegun⟩ := h
  have hsame : { r with begun := r.begun || !r.task.aborted, task := r.task } = r := by
    rcases hbegun with hbegun | haborted
    · rw [hbegun, Bool.true_or, ← hbegun]
    · rw [haborted, Bool.not_true, Bool.or_false]
  obtain ⟨hi, rfl⟩ := List.getElem?_eq_some_iff.1 hr
  simp only [runRequest, hr, Task.run, hgone, if_true, hsame, List.set_getElem_self]

/-- The producers of closed streams change nothing but their own tasks. -/
theorem runProducers_of_closed (h : ∀ s ∈ c.streams, s.handle.isClosed = true) (is : List Nat) :
    ∃ streams, (∀ s ∈ streams, s.handle.isClosed = true) ∧
      is.foldl runProducer c = { c with streams } := by
  refine List.foldlRecOn is runProducer (motive := fun d => ∃ streams,
    (∀ s ∈ streams, s.handle.isClosed = true) ∧ d = { c with streams }) ⟨c.streams, h, rfl⟩ ?_
  rintro d ⟨streams, hclosed, rfl⟩ i -
  cases hs : streams[i]? with
  | none => exact ⟨streams, hclosed, by simp only [runProducer, hs]⟩
  | some s =>
    obtain ⟨hstill, hnone⟩ := Stream.Handle.settle_of_closed (hclosed s (List.mem_of_getElem? hs))
    refine ⟨streams.set i { s with handle := s.handle.settle.1 }, fun t ht => ?_, ?_⟩
    · rcases List.mem_or_eq_of_mem_set ht with hold | rfl
      · exact hclosed t hold
      · exact hstill
    · simp only [runProducer, hs, updateStream, hnone]

namespace AtRest

theorem abortRequest (h : c.AtRest) (i : Nat) : (c.abortRequest i).AtRest := by
  refine ⟨fun r hr => ?_, h.closed⟩
  obtain ⟨j, hj⟩ := List.getElem?_of_mem hr
  simp only [Coordinator.abortRequest, List.getElem?_modify, Option.map_eq_map,
    Option.map_eq_some_iff] at hj
  obtain ⟨q, hq, rfl⟩ := hj
  have hspent := h.spent q (List.mem_of_getElem? hq)
  split
  · exact ⟨hspent.1, .inr rfl⟩
  · exact hspent

/-- A stream that is closed is cancelled in vain. -/
theorem cancelStream_eq (h : c.AtRest) (i : Nat) : ∃ streams,
    c.cancelStream i = { c with streams } ∧ ∀ s ∈ streams, s.handle.isClosed = true := by
  cases hs : c.streams[i]? with
  | none => exact ⟨c.streams, cancelStream_of_getElem?_none hs, h.closed⟩
  | some s =>
    refine ⟨c.streams.set i { s with handle := s.handle.cancel.1 }, ?_, fun t ht => ?_⟩
    · rw [cancelStream_of_getElem? hs, Stream.Handle.callback_cancel,
        if_pos (h.closed s (List.mem_of_getElem? hs))]
      rfl
    · rcases List.mem_or_eq_of_mem_set ht with hold | rfl
      · exact h.closed t hold
      · exact s.handle.isClosed_cancel

/-- Giving up what is over keeps the rest, and is not seen. -/
theorem release (h : c.AtRest) (fetch stream : Option Nat) :
    (c.release fetch stream).AtRest ∧ (c.release fetch stream).state = c.state ∧
      (c.release fetch stream).published = c.published ∧
      (c.release fetch stream).asked = c.asked := by
  -- The request first: it is aborted, and everything else stays.
  obtain ⟨d, hd, hrest, hstate, hpublished, hasked⟩ : ∃ d : Coordinator,
      c.release fetch stream = d.release none stream ∧ d.AtRest ∧ d.state = c.state ∧
        d.published = c.published ∧ d.asked = c.asked := by
    cases fetch with
    | none => exact ⟨c, rfl, h, rfl, rfl, rfl⟩
    | some i =>
      exact ⟨c.abortRequest i, rfl, h.abortRequest i, rfl, rfl, askedBy_abort c.requests i⟩
  rw [hd]
  cases stream with
  | none => exact ⟨hrest, hstate, hpublished, hasked⟩
  | some j =>
    obtain ⟨streams, heq, hclosed⟩ := hrest.cancelStream_eq j
    have hrelease : d.release none (some j) = { d with streams } := heq
    rw [hrelease]
    exact ⟨⟨hrest.spent, hclosed⟩, hstate, hpublished, hasked⟩

theorem cleared (h : c.AtRest) (target : Target) (s : State) :
    (c.cleared target s).AtRest ∧ (c.cleared target s).state = s ∧
      (c.cleared target s).watched = s ∧ (c.cleared target s).asked = c.asked := by
  let next := { c with selected := some target, shown := none, fetch := none, stream := none }
  have hnext : (next.nextGeneration.publish s).AtRest := ⟨h.spent, h.closed⟩
  obtain ⟨hrest, hstate, hpublished, hasked⟩ := hnext.release c.fetch c.stream
  refine ⟨hrest, hstate, ?_, hasked⟩
  have hwatched : (next.nextGeneration.publish s).watched = s := watched_publish _ s
  rwa [watched, ← hpublished] at hwatched

end AtRest

end Coordinator

/-! ## The stages of a request -/

/-- How far a request has come: it was made, it has reached the interpreter, it was answered, and
its answer is on display. -/
inductive Stage where
  | asked
  | begun
  | answered
  | shown
  deriving DecidableEq

namespace Stage

/-- The stage of a request once the tasks have run. -/
def settled : Stage → Stage
  | asked => begun
  | begun => begun
  | answered => shown
  | shown => shown

/-- The request for a step at a stage, where `a` is its answer. -/
def request (generation : UInt64) (target : Target) (step : UInt64) (a : Answer) :
    Stage → Request
  | asked => { generation, target, step }
  | begun => { generation, target, step, begun := true }
  | answered => { generation, target, step, begun := true, task := { given := some a } }
  | shown =>
    { generation, target, step, begun := true, task := { given := some a, gone := true } }

/-- What is on display at a stage. -/
def state (target : Target) (step : UInt64) (a : Answer) : Stage → State
  | shown => .ofAnswer target step a
  | _ => .loading target .stepped (some step)

/-- Whether the request has reached the interpreter. -/
def hasBegun : Stage → Bool
  | asked => false
  | _ => true

end Stage

theorem State.target?_ofAnswer (target : Target) (step : UInt64) (a : Answer) :
    (State.ofAnswer target step a).target? = some target := by
  cases a <;> rfl

theorem State.mode?_ofAnswer (target : Target) (step : UInt64) (a : Answer) :
    (State.ofAnswer target step a).mode? = some .stepped := by
  cases a <;> rfl

namespace Coordinator

/-- The coordinator has asked for a step of a target, and its request, which comes after `earlier`
ones that are over, has come to a stage. -/
structure Asking (c : Coordinator) (earlier : List Request) (target : Target) (step : UInt64)
    (a : Answer) (stage : Stage) : Prop where
  requests_eq : c.requests = earlier ++ [stage.request c.generation target step a]
  state_eq : c.state = stage.state target step a
  watched_eq : c.watched = stage.state target step a
  spent : ∀ r ∈ earlier, r.IsSpent
  closed : ∀ s ∈ c.streams, s.handle.isClosed = true

variable {c d : Coordinator} {earlier : List Request} {target : Target} {step : UInt64}
  {a : Answer} {stage : Stage}

theorem Asking.asked_eq (h : c.Asking earlier target step a stage) :
    c.asked = askedBy earlier ++ if stage.hasBegun then [(target, step)] else [] := by
  rw [asked, h.requests_eq, askedBy_concat]
  cases stage <;> rfl

/-! ### The first stage -/

theorem AtRest.asking_spawnRequest (h : c.AtRest)
    (hstate : c.state = .loading target .stepped (some step))
    (hwatched : c.watched = .loading target .stepped (some step)) (a : Answer) :
    (c.spawnRequest target step).Asking c.requests target step a .asked :=
  ⟨rfl, hstate, hwatched, h.spent, h.closed⟩

/-- Another step of a stepped trace is asked for. -/
theorem AtRest.asking_requestStep (h : c.AtRest) (htarget : c.state.target? = some target)
    (hmode : c.state.mode? = some .stepped) (step : UInt64) (a : Answer) :
    ∃ d, c.requestStep step = (d, .ok ()) ∧ d.Asking c.requests target step a .asked := by
  have hrest : (c.nextGeneration.publish (.loading target .stepped (some step))).AtRest :=
    ⟨h.spent, h.closed⟩
  exact ⟨_, requestStep_of_stepped htarget hmode step,
    hrest.asking_spawnRequest rfl (watched_publish _ _) a⟩

/-- A link to a step asks for it, whatever trace was on display. -/
theorem AtRest.asking_follow (h : c.AtRest) (target : Target) (step : UInt64) (a : Answer) :
    (c.follow ⟨target, .step step⟩).asked = c.asked ∧
      ∃ earlier, (c.follow ⟨target, .step step⟩).Asking earlier target step a .asked := by
  cases hin : c.isInPlace ⟨target, .step step⟩ with
  | true =>
    obtain ⟨-, htarget, hmode⟩ := isInPlace_iff.1 hin
    obtain ⟨d, hstep, hasking⟩ := h.asking_requestStep htarget hmode step a
    obtain rfl : c.follow _ = d :=
      congrArg Prod.fst ((requestStep_of_isInPlace hin).symm.trans hstep)
    exact ⟨hasking.asked_eq.trans (List.append_nil _), c.requests, hasking⟩
  | false =>
    rw [follow_of_not_isInPlace hin, changeTarget_eq]
    obtain ⟨hidle, -, -, hasked⟩ := h.cleared target .idle
    obtain ⟨hrest, hstate, hwatched, hasked'⟩ :=
      hidle.cleared target (.loading target .stepped (some step))
    have hasking := hrest.asking_spawnRequest hstate hwatched a
    refine ⟨?_, _, hasking⟩
    rw [← hasked, ← hasked']
    exact hasking.asked_eq.trans (List.append_nil _)

namespace Asking

/-! ### From stage to stage -/

/-- Only the latest request has something to do when the tasks run. -/
theorem foldl_runRequest (h : c.Asking earlier target step a stage) :
    (List.range c.requests.length).foldl runRequest c = c.runRequest earlier.length := by
  have hidle : (List.range earlier.length).foldl runRequest c = c := by
    refine List.foldlRecOn (motive := (· = c)) _ runRequest rfl ?_
    rintro d rfl i hi
    have hlt : i < earlier.length := List.mem_range.1 hi
    refine runRequest_of_isSpent (r := earlier[i]) ?_ (h.spent _ (List.getElem_mem hlt))
    simp [h.requests_eq, List.getElem?_append_left hlt]
  rw [h.requests_eq, List.length_append, List.length_singleton, List.range_succ, List.foldl_append,
    hidle]
  rfl

/-- The latest request runs. If it was answered, its answer is put on display, since it is of the
current generation. -/
theorem runRequest (h : c.Asking earlier target step a stage) :
    (c.runRequest earlier.length).Asking earlier target step a stage.settled := by
  have hlast : c.requests[earlier.length]? = some (stage.request c.generation target step a) := by
    simp [h.requests_eq]
  have hset (r : Request) : c.requests.set earlier.length r = earlier ++ [r] := by
    simp [h.requests_eq]
  cases stage with
  | asked =>
    simp only [Coordinator.runRequest, hlast, hset]
    exact ⟨rfl, h.state_eq, h.watched_eq, h.spent, h.closed⟩
  | begun =>
    simp only [Coordinator.runRequest, hlast, hset]
    exact ⟨rfl, h.state_eq, h.watched_eq, h.spent, h.closed⟩
  | answered =>
    simp only [Coordinator.runRequest, hlast, hset]
    simp only [Stage.request, Task.run, applyAnswer, if_true]
    exact ⟨rfl, rfl, watched_publish _ _, h.spent, h.closed⟩
  | shown =>
    rw [runRequest_of_isSpent hlast ⟨rfl, .inl rfl⟩]
    exact h

/-- The tasks run: a request that was made reaches the interpreter, and an answer that was given is
put on display. -/
theorem settle (h : c.Asking earlier target step a stage) :
    c.settle.Asking earlier target step a stage.settled := by
  have hrun := h.runRequest
  obtain ⟨streams, hclosed, heq⟩ := runProducers_of_closed hrun.closed
    (List.range (c.runRequest earlier.length).streams.length)
  have hsettle : c.settle = { c.runRequest earlier.length with streams } := by
    simp only [Coordinator.settle, h.foldl_runRequest, heq]
  rw [hsettle]
  exact ⟨hrun.requests_eq, hrun.state_eq, hrun.watched_eq, hrun.spent, hclosed⟩

end Asking

/-! ### The number of the latest request -/

/-- The places of the requests that have reached the interpreter. -/
def begunPlaces (rs : List Request) : List Nat :=
  (List.range rs.length).filter fun i => (rs[i]?.map Request.begun).getD false

theorem begunPlaces_concat (rs : List Request) (r : Request) :
    begunPlaces (rs ++ [r]) = begunPlaces rs ++ if r.begun then [rs.length] else [] := by
  have hold : (List.range rs.length).filter
      (fun i => ((rs ++ [r])[i]?.map Request.begun).getD false) = begunPlaces rs := by
    refine List.filter_congr fun i hi => ?_
    rw [List.getElem?_append_left (List.mem_range.1 hi)]
  rw [begunPlaces, List.length_append, List.length_singleton, List.range_succ, List.filter_append,
    hold]
  cases hr : r.begun <;> simp [hr]

theorem length_begunPlaces (rs : List Request) :
    (begunPlaces rs).length = (rs.filter Request.begun).length := by
  induction rs using List.reverseRecOn with
  | nil => rfl
  | append_singleton rs r ih =>
    rw [begunPlaces_concat, List.filter_append, List.length_append, List.length_append, ih]
    cases hr : r.begun <;> simp [hr]

namespace Asking

/-- The request that reached the interpreter last is the latest, unless that has yet to. -/
theorem begunRequests_eq (h : c.Asking earlier target step a stage) (hstage : stage ≠ .asked) :
    c.begunRequests =
      earlier.filter Request.begun ++ [stage.request c.generation target step a] := by
  rw [begunRequests, h.requests_eq, List.filter_append]
  cases stage with
  | asked => exact absurd rfl hstage
  | begun | answered | shown => rfl

/-- No request waits for an answer but the latest, from when it has reached the interpreter until it
is answered. -/
theorem isWaiting_eq_false (h : c.Asking earlier target step a stage) (hstage : stage ≠ .begun)
    {r : Request} (hr : c.begunRequests.getLast? = some r) : r.task.isWaiting = false := by
  cases stage with
  | asked =>
    have hmem := List.mem_of_getLast? hr
    simp only [begunRequests, h.requests_eq, Stage.request, List.filter_append, List.mem_append,
      List.mem_filter, List.mem_singleton] at hmem
    rcases hmem with ⟨hold, -⟩ | ⟨rfl, hbegun⟩
    · simp [Task.isWaiting, (h.spent r hold).1]
    · cases hbegun
  | begun => exact absurd rfl hstage
  | answered | shown =>
    rw [h.begunRequests_eq (by decide), List.getLast?_concat] at hr
    obtain rfl := Option.some.inj hr
    rfl

/-- The request is answered. -/
theorem answer (h : c.Asking earlier target step a .begun) :
    (c.answer (c.begunRequests.length - 1) a).1.Asking earlier target step a .answered := by
  have hlast : c.requests[earlier.length]? =
      some (Stage.begun.request c.generation target step a) := by
    simp [h.requests_eq]
  have hindex : c.requestIndex? (c.begunRequests.length - 1) = some earlier.length := by
    have hnumber : c.begunRequests.length - 1 = (begunPlaces earlier).length := by
      simp [h.begunRequests_eq (by decide), length_begunPlaces]
    show (begunPlaces c.requests)[c.begunRequests.length - 1]? = _
    rw [hnumber, h.requests_eq, begunPlaces_concat]
    simp [Stage.request]
  have hset : c.requests.set earlier.length (Stage.answered.request c.generation target step a) =
      earlier ++ [Stage.answered.request c.generation target step a] := by
    simp [h.requests_eq]
  have hanswer : (c.answer (c.begunRequests.length - 1) a).1 =
      { c with requests := earlier ++ [Stage.answered.request c.generation target step a] } := by
    rw [← hset]
    simp only [Coordinator.answer, hindex, hlast]
    rfl
  rw [hanswer]
  exact ⟨rfl, h.state_eq, h.watched_eq, h.spent, h.closed⟩

/-- Once its answer is on display, nothing is to come of the request. -/
theorem atRest (h : c.Asking earlier target step a .shown) : c.AtRest := by
  refine ⟨fun r hr => ?_, h.closed⟩
  rw [h.requests_eq, List.mem_append, List.mem_singleton] at hr
  rcases hr with hold | rfl
  · exact h.spent r hold
  · exact ⟨rfl, .inl rfl⟩

/-- With an answer on display, failed or not, another step can be asked for. -/
theorem asking_requestStep (h : c.Asking earlier target step a .shown) (next : UInt64)
    (b : Answer) :
    ∃ d, c.requestStep next = (d, .ok ()) ∧ d.Asking c.requests target next b .asked := by
  have hstate : c.state = .ofAnswer target step a := h.state_eq
  refine h.atRest.asking_requestStep ?_ ?_ next b
  · rw [hstate, State.target?_ofAnswer]
  · rw [hstate, State.mode?_ofAnswer]

end Asking

end Coordinator

end SpendTrace.Trace
