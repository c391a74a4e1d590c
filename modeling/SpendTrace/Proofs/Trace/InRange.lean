import SpendTrace.Proofs.Trace.Counted

/-!
# Every operation stays in range

A steady coordinator does nothing whose sums would not fit, as long as there are generations left
and fewer snapshots are delivered than there are numbers.

* `Opening.calls`: what comes in between while a stream is opened, counted.
* `Steady.inRange_follow`: a link that is followed begins two generations, and one more if a call
  comes in between.
* `Steady.inRange_move`, `inRange_settle`: what callers and tasks do.
-/

namespace SpendTrace.Trace

open SpendTrace.Stream (Event snapshots)

/-! ## Calls that open a stream -/

/-- The number of calls that come in between while a stream is opened. -/
def Opening.calls (o : Opening) : Nat :=
  match o.interruption with
  | some _ => 1
  | none => 0

namespace Coordinator

variable {c d : Coordinator} {n : Nat} {target : Target}

/-- The call that comes in between while a stream is opened, if any. -/
def afterOpening (c : Coordinator) (o : Opening) : Coordinator :=
  (o.interruption.map c.interrupt).getD c

/-- What is pushed while a stream is opened. -/
def pushedEagerly (c : Coordinator) (target : Target) : Coordinator :=
  c.nextOpening.eager.foldl (fun d e => d.push c.streams.length e) (c.spawnStream target)

theorem openStream_eq_ite (c : Coordinator) (target : Target) :
    c.openStream target =
      let opened := (c.pushedEagerly target).afterOpening c.nextOpening
      if opened.generation = c.generation then { opened with stream := some c.streams.length }
      else opened.cancelStream c.streams.length := rfl

theorem delivered_spawnStream (c : Coordinator) (target : Target) :
    (c.spawnStream target).delivered = c.delivered := by
  simp [delivered, spawnStream, snapshots, OpenedStream.callbacks]

theorem delivered_le_pushedEagerly (c : Coordinator) (target : Target) :
    c.delivered ≤ (c.pushedEagerly target).delivered := by
  rw [← c.delivered_spawnStream target]
  exact delivered_le_foldl (fun _ => c.streams.length) isUse_push _ _

theorem delivered_le_afterOpening (c : Coordinator) (o : Opening) :
    c.delivered ≤ (c.afterOpening o).delivered := by
  unfold afterOpening
  cases o.interruption with
  | none => exact Nat.le_refl _
  | some x =>
    cases x with
    | cancel => exact c.delivered_le_cancel
    | changeTarget t => exact c.delivered_le_cleared t .idle

theorem delivered_afterOpening_le_openStream (c : Coordinator) (target : Target) :
    ((c.pushedEagerly target).afterOpening c.nextOpening).delivered ≤
      (c.openStream target).delivered := by
  rw [openStream_eq_ite]
  dsimp only
  split
  · exact Nat.le_refl _
  · exact delivered_le_useStream _ isUse_cancel _

theorem delivered_pushedEagerly_le_openStream (c : Coordinator) (target : Target) :
    (c.pushedEagerly target).delivered ≤ (c.openStream target).delivered :=
  Nat.le_trans (delivered_le_afterOpening _ _) (c.delivered_afterOpening_le_openStream target)

theorem delivered_le_openStream (c : Coordinator) (target : Target) :
    c.delivered ≤ (c.openStream target).delivered :=
  Nat.le_trans (c.delivered_le_pushedEagerly target)
    (c.delivered_pushedEagerly_le_openStream target)

namespace Steady

theorem inRange_afterOpening (h : c.Steady n) (o : Opening) (hn : n + o.calls < UInt64.size) :
    InRange (c.afterOpening? o) (c.afterOpening o) (n + o.calls) := by
  unfold Opening.calls at hn ⊢
  unfold afterOpening? afterOpening
  cases hx : o.interruption with
  | none => exact ⟨rfl, h⟩
  | some x =>
    rw [hx] at hn
    cases x with
    | cancel => exact h.inRange_cancel hn
    | changeTarget t => exact h.inRange_changeTarget hn t

/-- The source opens a stream that is entered already. -/
theorem inRange_openStream (h : (c.spawnStream target).Steady n)
    (hn : n + c.nextOpening.calls < UInt64.size)
    (hd : (c.openStream target).delivered < UInt64.size) :
    InRange (c.openStream? target) (c.openStream target) (n + c.nextOpening.calls) := by
  have hpushed : InRange
      (c.nextOpening.eager.foldlM (fun d e => d.push? c.streams.length e) (c.spawnStream target))
      (c.pushedEagerly target) n :=
    h.inRange_foldlM (fun _ => c.streams.length) isUse_push c.nextOpening.eager
      (Nat.lt_of_le_of_lt (c.delivered_pushedEagerly_le_openStream target) hd)
  have hlt := Nat.lt_of_le_of_lt (c.delivered_afterOpening_le_openStream target) hd
  rw [openStream_eq_ite]
  refine hpushed.bind fun hsteady => (hsteady.inRange_afterOpening _ hn).bind fun hsteady => ?_
  dsimp only
  split
  · exact ⟨rfl, hsteady.hold _ _ _⟩
  · exact hsteady.inRange_useStream hlt isUse_cancel _

end Steady

/-! ## Calls that ask for something -/

theorem delivered_le_start (c : Coordinator) (target : Target) (mode : Mode) (step : UInt64) :
    c.delivered ≤ (c.start target mode step).delivered := by
  cases mode with
  | stepped => exact c.delivered_le_cleared target _
  | streamed => exact Nat.le_trans (c.delivered_le_cleared target _) (delivered_le_openStream _ _)

theorem delivered_requestStep (c : Coordinator) (step : UInt64) :
    (c.requestStep step).1.delivered = c.delivered :=
  delivered_congr (c.streams_requestStep step).1

theorem delivered_le_follow (c : Coordinator) (l : Link) :
    c.delivered ≤ (c.follow l).delivered := by
  cases hin : c.isInPlace l with
  | true =>
    have hdelivered := c.delivered_requestStep (l.requestedStep.getD 0)
    rw [requestStep_of_isInPlace hin] at hdelivered
    exact Nat.le_of_eq hdelivered.symm
  | false =>
    rw [follow_of_not_isInPlace hin]
    exact Nat.le_trans (c.delivered_le_cleared l.target .idle) (delivered_le_start _ _ _ _)

namespace Steady

theorem inRange_start (h : c.Steady n) (hn : n + 1 + c.nextOpening.calls < UInt64.size)
    (target : Target) (mode : Mode) (step : UInt64)
    (hd : (c.start target mode step).delivered < UInt64.size) :
    InRange (c.start? target mode step) (c.start target mode step)
      (n + 1 + c.nextOpening.calls) := by
  have hn' : n + 1 < UInt64.size := by omega
  have hgeneration := h.generation_lt hn'
  obtain ⟨f, htracks, -, -⟩ := h
  -- Between the publishing of a wait and its work no focus is sound: the two are taken together.
  cases mode with
  | stepped =>
    have hfree := ((htracks.reset hn' target).publish
      (.loading target .stepped (some step))).release rfl c.fetch c.stream
    have hstarted : (c.start target .stepped step).Steady (n + 1) :=
      ⟨_, hfree.spawnRequest rfl target step, f.sound_start target .stepped step [],
        State.counted_of_not_ready rfl _⟩
    have hcleared := cleared?_eq hgeneration target (s := .loading target .stepped (some step)) rfl
    refine ⟨?_, hstarted.mono (Nat.le_add_right _ _)⟩
    simp only [start?, hcleared, Option.bind_eq_bind, Option.bind_some, start_stepped]
  | streamed =>
    have hfree := ((htracks.reset hn' target).publish
      (.loading target .streamed none)).release rfl c.fetch c.stream
    have hspawned : ((c.cleared target (.loading target .streamed none)).spawnStream target).Steady
        (n + 1) :=
      ⟨_, hfree.spawnStream rfl target, f.sound_start target .streamed step [],
        State.counted_of_not_ready rfl _⟩
    have hopening : (c.cleared target (.loading target .streamed none)).nextOpening =
        c.nextOpening := by
      rw [nextOpening, openings_cleared, nextOpening]
    have hopened := hspawned.inRange_openStream (by rwa [hopening]) hd
    rw [hopening] at hopened
    have hcleared := cleared?_eq hgeneration target (s := .loading target .streamed none) rfl
    refine ⟨?_, hopened.steady⟩
    simp only [start?, hcleared, Option.bind_eq_bind, Option.bind_some]
    exact hopened.eq_some

theorem requestStep (h : c.Steady n) (hn : n + 1 < UInt64.size) (step : UInt64) :
    (c.requestStep step).1.Steady (n + 1) := by
  cases hd : (c.requestStep step).2 with
  | ok =>
    obtain ⟨f, htracks, hsound, -⟩ := h
    have hmode := mode?_of_requestStep hd
    rw [htracks.state_eq] at hmode
    obtain ⟨target, -, hstep⟩ := Focus.requestStep_of_stepped hmode step
    refine ⟨_, htracks.requestStep hn step, hsound.requestStep step, ?_⟩
    rw [hstep]
    exact State.counted_of_not_ready rfl _
  | error e =>
    rw [requestStep_of_error hd]
    exact h.mono (Nat.le_succ n)

theorem inRange_restart (h : c.Steady n) (hn : n + 2 + c.nextOpening.calls < UInt64.size) (l : Link)
    (hd : (c.restart l).delivered < UInt64.size) :
    InRange (c.restart? l) (c.restart l) (n + 2 + c.nextOpening.calls) := by
  have hopening : (c.changeTarget l.target).nextOpening = c.nextOpening := by
    rw [nextOpening, openings_changeTarget, nextOpening]
  have hchanged := h.inRange_changeTarget (by omega) l.target
  refine hchanged.bind fun hsteady => ?_
  have hstarted := hsteady.inRange_start (by rwa [hopening]) l.target l.mode
    (l.requestedStep.getD 0) hd
  rwa [hopening] at hstarted

/-- A link is followed in place, or with a change of target and a start. -/
theorem inRange_follow (h : c.Steady n) (hn : n + 2 + c.nextOpening.calls < UInt64.size) (l : Link)
    (hd : (c.follow l).delivered < UInt64.size) :
    InRange (c.follow? l) (c.follow l) (n + 2 + c.nextOpening.calls) := by
  have hn' : n + 1 < UInt64.size := by omega
  unfold follow?
  split
  · next hin =>
    have hsteady := h.requestStep hn' (l.requestedStep.getD 0)
    rw [requestStep_of_isInPlace hin] at hsteady
    rw [requestStep?_eq (h.generation_lt hn'), requestStep_of_isInPlace hin]
    exact ⟨rfl, hsteady.mono (by omega)⟩
  · next hin =>
    unfold follow at *
    rw [if_neg hin] at hd ⊢
    exact h.inRange_restart hn l hd

end Steady

/-! ## Moves -/

theorem delivered_le_move (c : Coordinator) (m : Move) : c.delivered ≤ (c.move m).delivered := by
  cases m with
  | start target mode step eager => exact (c.expecting eager).delivered_le_start target mode step
  | requestStep step => exact Nat.le_of_eq (c.delivered_requestStep step).symm
  | changeTarget target => exact c.delivered_le_cleared target .idle
  | cancel => exact c.delivered_le_cancel
  | follow link eager => exact (c.expecting eager).delivered_le_follow link
  | answer i a => exact Nat.le_of_eq (delivered_congr (c.streams_answer i a).1).symm
  | push i e => exact c.delivered_le_useStream (isUse_push e) i
  | cancelStream i => exact c.delivered_le_useStream isUse_cancel i

namespace Steady

theorem inRange_requestStep (h : c.Steady n) (hn : n + 1 < UInt64.size) (step : UInt64) :
    InRange (c.move? (.requestStep step)) (c.move (.requestStep step)) (n + 1) := by
  refine ⟨?_, h.requestStep hn step⟩
  rw [move?, requestStep?_eq (h.generation_lt hn) step]
  rfl

/-- An answer brings a stepped trace, if anything. -/
theorem answered (h : c.Steady n) (i : Nat) (a : Answer) : (c.move (.answer i a)).Steady n := by
  have hdelivered := delivered_congr (c.streams_answer i a).1
  obtain ⟨f, htracks, hsound, hcounted⟩ := h
  refine ⟨f.answer i a, htracks.answer i a, hsound.answer i a, ?_⟩
  rw [hdelivered]
  unfold Focus.answer
  split
  · cases a <;> exact State.counted_of_stepped rfl _
  · exact hcounted

/-- Every move stays in range. A call begins two generations at most. -/
theorem inRange_move (h : c.Steady n) (m : Move) (hn : n + 2 * calls [m] < UInt64.size)
    (hd : (c.move m).delivered < UInt64.size) :
    InRange (c.move? m) (c.move m) (n + 2 * calls [m]) := by
  have hlt := Nat.lt_of_le_of_lt (c.delivered_le_move m) hd
  have hexpecting (eager : List Event) : (c.expecting eager).Steady n :=
    h.hold c.fetch c.stream [{ eager }]
  cases m with
  | start target mode step eager =>
    have hstarted := (hexpecting eager).inRange_start (Nat.lt_of_succ_lt hn) target mode step hd
    exact hstarted.mono (Nat.le_succ _)
  | requestStep step =>
    exact (h.inRange_requestStep (Nat.lt_of_succ_lt hn) step).mono (Nat.le_succ _)
  | changeTarget target =>
    exact (h.inRange_changeTarget (Nat.lt_of_succ_lt hn) target).mono (Nat.le_succ _)
  | cancel => exact (h.inRange_cancel (Nat.lt_of_succ_lt hn)).mono (Nat.le_succ _)
  | follow link eager => exact (hexpecting eager).inRange_follow hn link hd
  | answer i a => exact ⟨rfl, h.answered i a⟩
  | push i e => exact h.inRange_useStream hlt (isUse_push e) i
  | cancelStream i => exact h.inRange_useStream hlt isUse_cancel i

end Steady

/-! ## Tasks -/

/-- A request brings nothing to a stream, and no streamed trace. -/
theorem runRequest_eq (c : Coordinator) (i : Nat) : (c.runRequest i).streams = c.streams ∧
    ((c.runRequest i).state = c.state ∨ (c.runRequest i).state.mode? = some .stepped) := by
  unfold runRequest
  cases c.requests[i]? with
  | none => exact ⟨rfl, .inl rfl⟩
  | some r =>
    cases hanswer : r.task.run.2 with
    | none =>
      dsimp only
      rw [hanswer]
      exact ⟨rfl, .inl rfl⟩
    | some a =>
      simp only [hanswer, applyAnswer]
      split
      · cases a <;> exact ⟨rfl, .inr rfl⟩
      · exact ⟨rfl, .inl rfl⟩

theorem delivered_runRequests (c : Coordinator) (is : List Nat) :
    (is.foldl runRequest c).delivered = c.delivered := by
  induction is generalizing c with
  | nil => rfl
  | cons i is ih => exact (ih _).trans (delivered_congr (c.runRequest_eq i).1)

theorem delivered_le_settle (c : Coordinator) : c.delivered ≤ c.settle.delivered := by
  rw [← c.delivered_runRequests (List.range c.requests.length)]
  exact delivered_le_foldl id (fun _ => isUse_settle) _ _

theorem delivered_finishProducer (c : Coordinator) (i : Nat) :
    (c.finishProducer i).1.delivered = c.delivered := by
  unfold finishProducer
  cases hs : c.streams[i]? with
  | none => rfl
  | some s =>
    let t : OpenedStream := { s with handle := s.handle.finish.1 }
    exact snapshots_set (t := t) hs (List.append_nil s.callbacks).symm

theorem delivered_answer (c : Coordinator) (number : Nat) (a : Answer) :
    (c.answer number a).1.delivered = c.delivered := by
  unfold answer
  cases c.requestIndex? number with
  | none => rfl
  | some i =>
    dsimp only
    cases c.requests[i]? <;> rfl

namespace Steady

theorem runRequest (h : c.Steady n) (i : Nat) : (c.runRequest i).Steady n := by
  have hcounted := h.counted
  obtain ⟨hstreams, hstate⟩ := c.runRequest_eq i
  obtain ⟨f, htracks, hsound, -⟩ := h
  obtain ⟨ms, -, hrun⟩ := htracks.runRequest i
  refine ⟨f.run ms, hrun, hsound.run ms, ?_⟩
  rw [← hrun.state_eq, delivered_congr hstreams]
  rcases hstate with hsame | hstepped
  · rwa [hsame]
  · exact State.counted_of_stepped hstepped _

theorem inRange_settle (h : c.Steady n) (hd : c.settle.delivered < UInt64.size) :
    InRange c.settle? c.settle n := by
  have hrequests : ((List.range c.requests.length).foldl Coordinator.runRequest c).Steady n := by
    refine List.foldlRecOn (motive := fun d => d.Steady n) _ Coordinator.runRequest h ?_
    rintro d hd i -
    exact hd.runRequest i
  exact hrequests.inRange_foldlM id (fun _ => isUse_settle) _ hd

/-- A request is handed its answer, which its task goes on with later. -/
theorem answer (h : c.Steady n) (number : Nat) (a : Answer) : (c.answer number a).1.Steady n := by
  unfold Coordinator.answer
  cases c.requestIndex? number with
  | none => exact h
  | some i =>
    cases hr : c.requests[i]? with
    | none => simpa only [hr] using h
    | some r =>
      obtain ⟨f, htracks, hsound, hcounted⟩ := h
      simp only [hr]
      exact ⟨f, htracks.setRequest hr r.begun (r.task.give a).1, hsound, hcounted⟩

theorem finishProducer (h : c.Steady n) (i : Nat) : (c.finishProducer i).1.Steady n := by
  obtain ⟨f, htracks, hsound, hcounted⟩ := h
  refine ⟨f, htracks.finishProducer i, hsound, ?_⟩
  rwa [delivered_finishProducer]

end Steady

end Coordinator

end SpendTrace.Trace
