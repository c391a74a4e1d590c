import SpendTrace.Proofs.Trace.Restoring
import SpendTrace.Proofs.Trace.Streamed
import SpendTrace.Proofs.Trace.Tending

/-!
# A refused request leaves no trace

A step can be asked for only where there is a stepped trace. Anywhere else the call is refused
before it has begun a generation, published a state or let go of any work, so nobody can tell later
that it was made: a stream goes on, and what a cancel brings back is the same.

* `Coordinator.refusal_eq_notStepped_iff`, `refusal_eq_notStarted_iff`: when a call is refused, and
  for which reason.
* `Coordinator.granted` leaves the refused calls out of a run, and `run_granted` says that nothing
  else changes.
* `Tends.exists_stream`: a state that waits for a stream has one that is applied.
* `refused_requests_have_no_effect` is the main statement.
-/

namespace SpendTrace.Trace

open Coordinator (View)

theorem State.mode?_eq_none_iff {s : State} : s.mode? = none ↔ s = .idle := by
  cases s <;> simp [State.mode?]

namespace Coordinator

variable {c : Coordinator} {m : Move}

/-! ## Which requests are refused -/

theorem refusal_eq_notStepped_iff (c : Coordinator) (step : UInt64) :
    c.refusal step = some .notStepped ↔ c.state.mode? = some .streamed := by
  rw [refusal_eq]
  cases c.state.mode? with
  | none => simp
  | some mode => cases mode <;> simp

theorem refusal_eq_notStarted_iff (c : Coordinator) (step : UInt64) :
    c.refusal step = some .notStarted ↔ c.state = .idle := by
  rw [refusal_eq, ← State.mode?_eq_none_iff]
  cases c.state.mode? with
  | none => simp
  | some mode => cases mode <;> simp

/-- A refusal changes nothing in the coordinator. -/
theorem requestStep_of_refusal {step : UInt64} {e : NavigationError}
    (he : c.refusal step = some e) : c.requestStep step = (c, .error e) := by
  unfold refusal at he
  cases hanswer : (c.requestStep step).2 with
  | ok =>
    rw [hanswer] at he
    cases he
  | error e' =>
    rw [hanswer] at he
    rw [← Option.some.inj he]
    exact requestStep_of_error hanswer

/-- Whether the move is a request that is refused. -/
def refuses (c : Coordinator) : Move → Bool
  | .requestStep step => (c.refusal step).isSome
  | _ => false

/-- The coordinator is the same one behind a request that it refused. -/
theorem move_of_refuses (h : c.refuses m = true) : c.move m = c := by
  cases m with
  | requestStep step =>
    obtain ⟨e, he⟩ := Option.isSome_iff_exists.1 h
    exact congrArg Prod.fst (requestStep_of_refusal he)
  | start | changeTarget | cancel | follow | answer | push | cancelStream => cases h

/-! ## Runs without refused requests -/

/-- The moves of a run, without the requests that are refused when their turn comes. -/
def granted (c : Coordinator) : List Move → List Move
  | [] => []
  | m :: ms => if c.refuses m then c.granted ms else m :: (c.move m).granted ms

theorem run_granted (c : Coordinator) (ms : List Move) : c.run (c.granted ms) = c.run ms := by
  induction ms generalizing c with
  | nil => rfl
  | cons m ms ih =>
    rw [granted]
    split
    · next hrefused =>
      rw [ih, run, run, List.foldl_cons, move_of_refuses hrefused]
    · exact ih (c.move m)

end Coordinator

/-! ## What goes on all the same -/

/-- A state that waits for a stream has one of its own target that is applied, whatever it
brings. -/
theorem Tends.exists_stream {n : Nat} {c : Coordinator} {f : Focus} {latest : Option Nat}
    (h : Tends n c f latest) (hlive : c.state.isLive = true) :
    ∃ i target, c.state.IsStreaming target ∧
      ∀ e, (c.push i e).state = (Focus.afterEvent c.state target e).getD c.state := by
  obtain ⟨s, hmem, hopen⟩ := h.exists_open_iff.2 hlive
  obtain ⟨i, hs⟩ := List.getElem?_of_mem hmem
  have hwork : f.work = .stream i s.target false := h.work_eq hs hopen
  have hfits := h.attends.sound.work
  rw [hwork, ← h.tracks.state_eq] at hfits
  refine ⟨i, s.target, hfits rfl, fun e => ?_⟩
  rw [(h.tracks.push i e).state_eq, Focus.push_of_open hwork, h.tracks.state_eq]
  cases Focus.afterEvent f.state s.target e <;> rfl

namespace Tracks

variable {n : Nat} {c : Coordinator} {f : Focus}

/-- A cancel leaves the snapshot of a streamed trace on display, and its stream live no longer. -/
theorem state_cancel_of_streamed (h : Tracks n c f) (hn : n + 1 < UInt64.size) (hsound : f.Sound)
    {r : Ready} (hr : c.state = .ready r) (hmode : r.mode = .streamed) :
    ∃ status, status ≠ .live ∧ c.cancel.state = .ready (r.withStream status) := by
  have hstate : f.state = .ready r := h.state_eq.symm.trans hr
  have hshape : f.state.WellShaped := hsound.view.state
  rw [hstate] at hshape
  cases hstream : r.stream with
  | none => simp [hshape.stream_eq_none_iff.1 hstream] at hmode
  | some status =>
    by_cases hlive : status = .live
    · have hafter : c.state.afterCancel f.shown =
          some (.ready (r.withStream (if r.isTerminal then .finished else .cancelled))) := by
        simp [hr, State.afterCancel, hstream, hlive]
      refine ⟨_, ?_, congrArg View.state (h.view_cancel_of_some hn hafter)⟩
      split <;> simp
    · have hafter : c.state.afterCancel f.shown = none := by
        simp [hr, State.afterCancel, hstream, hlive]
      have hsame : r.withStream status = r := by
        rw [Ready.withStream, ← hstream]
      refine ⟨status, hlive, ?_⟩
      rw [hsame, ← hr]
      exact congrArg View.state (h.view_cancel_of_none hn hafter)

/-- A cancel before anything was shown falls back to where nothing was started. -/
theorem state_cancel_of_nothing_shown (h : Tracks n c f) (hn : n + 1 < UInt64.size)
    (hloading : c.state.isLoading = true) (hshown : c.shown = none) : c.cancel.state = .idle := by
  have hidle : c.state.afterCancel f.shown = some .idle := by
    rw [← h.shown_eq, hshown]
    cases hs : c.state with
    | loading target mode step => cases mode <;> rfl
    | idle | ready | failed => simp [hs, State.isLoading] at hloading
  exact congrArg View.state (h.view_cancel_of_some hn hidle)

end Tracks

/-- **A refused request has no effect.** After any run, a step is refused as not to be stepped where
there is a streamed trace, as not started where there is none, and granted where there is a stepped
one. A refused request gives back the very coordinator it was made to, so that every run goes on as
it would have gone on without, and all the refused requests of a run can be left out of it. In
particular

* where a stream may still add to the trace, there is one that is applied, whatever it brings;
* a cancel leaves the snapshot that was on display, with a stream that is live no longer;
* a cancel with nothing on display falls back to where a step is refused as not started. -/
theorem refused_requests_have_no_effect (ms : List Move) (step : UInt64) :
    let c := Coordinator.run {} ms
    ((c.refusal step = some .notStepped ↔ c.state.mode? = some .streamed) ∧
      (c.refusal step = some .notStarted ↔ c.state = .idle) ∧
      (c.refusal step = none ↔ c.state.mode? = some .stepped)) ∧
    (∀ e, c.refusal step = some e → c.requestStep step = (c, .error e) ∧
      ∀ ns, c.run (.requestStep step :: ns) = c.run ns) ∧
    Coordinator.run {} (Coordinator.granted {} ms) = c ∧
    (calls ms < callLimit →
      (c.state.isLive = true → ∃ i target, c.state.IsStreaming target ∧
        ∀ e, (c.run [.requestStep step, .push i e]).state =
          (Focus.afterEvent c.state target e).getD c.state) ∧
      (∀ r, c.state = .ready r → r.mode = .streamed → ∃ status, status ≠ .live ∧
        (c.run [.requestStep step, .cancel]).state = .ready (r.withStream status)) ∧
      (c.state.isLoading = true → c.shown = none →
        (c.run [.cancel]).refusal step = some .notStarted)) := by
  intro c
  have hskip (e : NavigationError) (he : c.refusal step = some e) (ns : List Move) :
      c.run (.requestStep step :: ns) = c.run ns :=
    congrArg (Coordinator.run · ns) (congrArg Prod.fst (Coordinator.requestStep_of_refusal he))
  refine ⟨⟨c.refusal_eq_notStepped_iff step, c.refusal_eq_notStarted_iff step,
    c.refusal_eq_none_iff step⟩, fun e he => ⟨Coordinator.requestStep_of_refusal he, hskip e he⟩,
    Coordinator.run_granted {} ms, fun hcalls => ?_⟩
  have hsize : UInt64.size = 2 * callLimit := rfl
  have htends := Tends.init.run ms (by omega)
  have hn : 0 + 2 * calls ms + 1 < UInt64.size := by omega
  refine ⟨fun hlive => ?_, fun r hr hmode => ?_, fun hloading hshown => ?_⟩
  · obtain ⟨i, target, hstreaming, happlied⟩ := htends.exists_stream hlive
    refine ⟨i, target, hstreaming, fun e => ?_⟩
    rw [hskip _ ((c.refusal_eq_notStepped_iff step).2 hstreaming.mode?_eq)]
    exact happlied e
  · have hstate : c.state.mode? = some .streamed := by rw [hr, State.mode?, hmode]
    rw [hskip _ ((c.refusal_eq_notStepped_iff step).2 hstate)]
    exact htends.tracks.state_cancel_of_streamed hn htends.attends.sound hr hmode
  · rw [Coordinator.refusal_eq_notStarted_iff]
    exact htends.tracks.state_cancel_of_nothing_shown hn hloading hshown

/-- Steps are refused before a streamed trace is started, while it is loading, and while its first
snapshot is on display. -/
theorem refused_requests_around_a_snapshot :
    let s : Script.Snapshot := ⟨.locking, .pending, none, [], [], [], none, none, none, [], []⟩
    let first : Ready := ⟨⟨"a", 0⟩, .streamed, 0, s, some .live⟩
    let c := Coordinator.run {} [.requestStep 1, .start ⟨"a", 0⟩ .streamed 0 [], .requestStep 2,
      .push 0 (.snapshot s)]
    c = Coordinator.run {} [.start ⟨"a", 0⟩ .streamed 0 [], .push 0 (.snapshot s)] ∧
      c.requestStep 3 = (c, .error .notStepped) ∧
      (∃ i target, c.state.IsStreaming target ∧
        ∀ e, (c.run [.requestStep 3, .push i e]).state =
          (Focus.afterEvent c.state target e).getD c.state) ∧
      ∃ status, status ≠ .live ∧
        (c.run [.requestStep 3, .cancel]).state = .ready (first.withStream status) := by
  intro s first c
  obtain ⟨⟨hstreamed, -⟩, heffect, hgranted, hrest⟩ := refused_requests_have_no_effect
    [.requestStep 1, .start ⟨"a", 0⟩ .streamed 0 [], .requestStep 2, .push 0 (.snapshot s)] 3
  obtain ⟨hopen, hcancel, -⟩ := hrest (by decide)
  exact ⟨hgranted.symm, (heffect _ (hstreamed.2 rfl)).1, hopen (by decide),
    hcancel first rfl rfl⟩

end SpendTrace.Trace
