import SpendTrace.Proofs.Trace.Shape
import SpendTrace.Proofs.Trace.Supersession

/-!
# A state that waits has something to wait for

A trace that is loading a step has asked for it, and a trace that may still be added to has an open
stream. That is more than that the work fits the state: the work is there.

* `Focus.Attends`: the request that is waited for is the last one, and a stream is open exactly if
  it is waited for.
* `Focus.Attends.run`: it is so at every point of a run.
-/

namespace SpendTrace.Trace

open Script (Snapshot)
open SpendTrace.Stream (CloseReason Event)

/-! ## Waiting -/

/-- Whether a stream may still add to the trace. -/
def State.isLive : State → Bool
  | idle => false
  | loading _ mode _ => mode = .streamed
  | ready r => r.stream = some .live
  | failed _ _ _ => false

/-- The step that is being loaded, if any. -/
def State.awaited? : State → Option (Target × Option UInt64)
  | loading target .stepped step => some (target, step)
  | _ => none

/-- Whether the work that counts is a stream that is still open. -/
def Work.isOpen : Work → Bool
  | nothing => false
  | request _ _ _ => false
  | stream _ _ closed => !closed

namespace State

variable {s : State} {target : Target}

theorem IsStreaming.isLive (h : s.IsStreaming target) : s.isLive = true := by
  rcases h with rfl | ⟨step, snapshot, rfl⟩ <;> rfl

theorem awaited?_of_isLive (h : s.isLive = true) : s.awaited? = none := by
  cases s with
  | loading t mode step =>
    cases mode with
    | stepped => cases h
    | streamed => rfl
  | idle | ready | failed => rfl

theorem isLive_of_stepped (h : s.mode? = some .stepped) (hs : s.WellShaped) : s.isLive = false := by
  cases s with
  | idle | failed => rfl
  | loading t mode step =>
    obtain rfl : mode = .stepped := Option.some.inj h
    rfl
  | ready r =>
    have hstream := hs.stream_eq_none_iff.2 (Option.some.inj h)
    simp [State.isLive, hstream]

/-- A stream that closes is waited for no longer. -/
theorem IsStreaming.exists_afterClose (h : s.IsStreaming target) (reason : CloseReason) :
    ∃ s', s.afterClose target reason = some s' ∧ s'.isLive = false ∧ s'.awaited? = none := by
  rcases h with rfl | ⟨step, snapshot, rfl⟩
  · cases reason <;> exact ⟨_, rfl, rfl, rfl⟩
  · by_cases hterminal : snapshot.isTerminal = true
    · exact ⟨_, if_pos hterminal, rfl, rfl⟩
    · cases reason <;> exact ⟨_, if_neg hterminal, rfl, rfl⟩

/-- A cancel leaves nothing to wait for, if what is remembered has no stream. -/
theorem afterCancel_getD {shown : Option Ready} (hshown : ∀ r ∈ shown, r.stream = none) :
    ((s.afterCancel shown).getD s).isLive = false ∧
      ((s.afterCancel shown).getD s).awaited? = none := by
  cases hs : s.afterCancel shown with
  | some s' =>
    rcases afterCancel_eq_some hs with rfl | ⟨r, hr, rfl⟩ | ⟨r, -, -, rfl⟩
    · exact ⟨rfl, rfl⟩
    · simp [State.isLive, hshown r hr, awaited?]
    · simp only [Option.getD_some, State.isLive, Ready.withStream, awaited?]
      split <;> simp
  | none =>
    cases s with
    | idle | failed => exact ⟨rfl, rfl⟩
    | loading t mode step => cases mode <;> cases shown <;> simp [afterCancel] at hs
    | ready r =>
      simp only [afterCancel] at hs
      split at hs
      · cases hs
      · next hlive => simp [State.isLive, hlive, awaited?]

end State

namespace Focus

/-- What the state waits for is the work that counts. -/
structure Attends (f : Focus) : Prop where
  sound : f.Sound
  isLive_eq : f.state.isLive = f.work.isOpen
  request : ∀ target step, f.state.awaited? = some (target, step) →
    ∃ i k, f.issued.requests = i + 1 ∧ step = some k ∧ f.work = .request i target k

variable {f : Focus}

theorem attends_new : Attends {} where
  sound := sound_new
  isLive_eq := rfl
  request := nofun

/-- With nothing awaited, no more is to be said of requests. -/
theorem attends_of_not_awaited (hsound : f.Sound) (hlive : f.state.isLive = f.work.isOpen)
    (hnone : f.state.awaited? = none) : f.Attends :=
  ⟨hsound, hlive, fun target step h => by simp [hnone] at h⟩

/-- Once a step has been asked for, it is waited for. -/
theorem attends_spawnRequest (hsound : (f.spawnRequest target step).Sound)
    (hstate : f.state = .loading target .stepped (some step)) :
    (f.spawnRequest target step).Attends where
  sound := hsound
  isLive_eq := by simp [spawnRequest, hstate, State.isLive, Work.isOpen]
  request := by
    intro t k h
    simp only [spawnRequest, hstate, State.awaited?, Option.some.injEq, Prod.mk.injEq] at h
    obtain ⟨rfl, rfl⟩ := h
    exact ⟨f.issued.requests, step, rfl, rfl, rfl⟩

namespace Attends

/-- What comes out of the stream that counts is waited for, until it closes. -/
theorem push (h : f.Attends) (i : Nat) (e : Event) : (f.push i e).Attends := by
  have hsound := h.sound.push i e
  cases hstream : f.work.stream? i with
  | none =>
    have hskip : f.push i e = f := by simp [Focus.push, hstream]
    rwa [hskip]
  | some p =>
    obtain ⟨target, closed⟩ := p
    cases closed with
    | true =>
      have hskip : f.push i e = f := by simp [Focus.push, hstream]
      rwa [hskip]
    | false =>
      have hpush : f.push i e = publish? { f with work := .stream i target e.isClose }
          (afterEvent f.state target e) := by simp [Focus.push, hstream]
      have hfits := h.sound.work
      rw [Work.eq_stream hstream] at hfits
      have hs : f.state.IsStreaming target := hfits rfl
      rw [hpush] at hsound ⊢
      cases e with
      | snapshot snapshot =>
        cases hs' : f.state.afterSnapshot target snapshot with
        | none =>
          have hlive := hs.isLive
          simp only [afterEvent, hs', publish?] at hsound ⊢
          exact attends_of_not_awaited hsound hlive (State.awaited?_of_isLive hlive)
        | some s' =>
          have hlive := (hs.afterSnapshot hs').1.isLive
          simp only [afterEvent, hs', publish?] at hsound ⊢
          exact attends_of_not_awaited hsound hlive (State.awaited?_of_isLive hlive)
      | close reason =>
        obtain ⟨s', hs', hlive, hnone⟩ := hs.exists_afterClose reason
        simp only [afterEvent, hs', publish?] at hsound ⊢
        exact attends_of_not_awaited hsound hlive hnone

theorem foldl_push (h : f.Attends) (i : Nat) (es : List Event) :
    (es.foldl (fun f e => f.push i e) f).Attends := by
  induction es generalizing f with
  | nil => exact h
  | cons e es ih => exact ih (h.push i e)

end Attends

/-- A start waits for what it has asked for, whatever was before. -/
theorem attends_start (f : Focus) (target : Target) (mode : Mode) (step : UInt64)
    (eager : List Event) : (f.start target mode step eager).Attends := by
  have hsound := sound_start f target mode step eager
  cases mode with
  | stepped => exact attends_spawnRequest hsound rfl
  | streamed =>
    -- What comes while the stream is being opened is pushed into it as anything later is.
    have hopen := sound_start f target .streamed step []
    have hattends : (f.start target .streamed step []).Attends :=
      attends_of_not_awaited hopen rfl rfl
    exact hattends.foldl_push f.issued.streams eager

theorem attends_changeTarget (f : Focus) (target : Target) : (f.changeTarget target).Attends :=
  attends_of_not_awaited (sound_changeTarget f target) rfl rfl

namespace Attends

theorem requestStep (h : f.Attends) (step : UInt64) : (f.requestStep step).Attends := by
  have hsound := h.sound.requestStep step
  by_cases hs : f.state.mode? = some .stepped
  · obtain ⟨target, -, hstep⟩ := requestStep_of_stepped hs step
    rw [hstep] at hsound ⊢
    exact attends_spawnRequest hsound rfl
  · rwa [requestStep_of_not_stepped hs]

/-- A cancel gives up the work, and the state stops waiting for it. -/
theorem cancel (h : f.Attends) : f.cancel.Attends := by
  have hshown : ∀ r ∈ f.shown, r.stream = none := fun r hr => (h.sound.view.shown r hr).2.1
  have hstate : f.cancel.state = (f.state.afterCancel f.shown).getD f.state := by
    unfold Focus.cancel
    cases f.state.afterCancel f.shown <;> rfl
  have hwork : f.cancel.work = .nothing := by simp [Focus.cancel, work_publish?]
  obtain ⟨hlive, hnone⟩ := State.afterCancel_getD (s := f.state) hshown
  refine attends_of_not_awaited h.sound.cancel ?_ ?_
  · rw [hstate, hlive, hwork]
    rfl
  · rwa [hstate]

theorem follow (h : f.Attends) (l : Link) (eager : List Event) : (f.follow l eager).Attends := by
  unfold Focus.follow
  split
  · exact h.requestStep _
  · exact attends_start _ _ _ _ _

theorem answer (h : f.Attends) (i : Nat) (a : Answer) : (f.answer i a).Attends := by
  have hsound := h.sound.answer i a
  cases hrequest : f.work.request? i with
  | none =>
    have hskip : f.answer i a = f := by simp [Focus.answer, hrequest]
    rwa [hskip]
  | some p =>
    obtain ⟨target, step⟩ := p
    have hsettle : f.answer i a = f.settle target step a := by simp [Focus.answer, hrequest]
    have hwork : (f.settle target step a).work = .request i target step :=
      Work.eq_request hrequest
    rw [hsettle] at hsound ⊢
    cases a with
    | ok s => exact attends_of_not_awaited hsound (by rw [hwork]; rfl) rfl
    | error e => exact attends_of_not_awaited hsound (by rw [hwork]; rfl) rfl

theorem move (h : f.Attends) (m : Move) : (f.move m).Attends := by
  cases m with
  | start target mode step eager => exact attends_start f target mode step eager
  | requestStep step => exact h.requestStep step
  | changeTarget target => exact attends_changeTarget f target
  | cancel => exact h.cancel
  | follow link eager => exact h.follow link eager
  | answer i a => exact h.answer i a
  | push i e => exact h.push i e
  | cancelStream i => exact h.push i _

theorem run (h : f.Attends) (ms : List Move) : (f.run ms).Attends := by
  induction ms generalizing f with
  | nil => exact h
  | cons m ms ih => exact ih (h.move m)

end Attends

end Focus

end SpendTrace.Trace
