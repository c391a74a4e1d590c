import SpendTrace.Proofs.Trace.Restart
import SpendTrace.Proofs.Trace.Tending

/-!
# Which way a trace is cancelled does not matter

A coordinator cancels by beginning a generation, in which whatever the old work still brings is
stale. A stream that is cancelled at its source closes under the generation that is current, and
brings nothing more because it is closed. The two leave a coordinator in different states, but none
that anybody could tell apart, then or ever after.

* `Focus.remaining` leaves out work that is over, which is all that the two ways differ in.
* `Focus.remaining_move`: what a move leads to does not depend on work that is over.
* `Coordinator.Alike`: there is nothing to tell two coordinators apart by.
* `cancels_cannot_be_told_apart` is the main statement.
-/

namespace SpendTrace.Trace

open Script (Snapshot)
open SpendTrace.Stream (Event)

/-! ## States that are cancelled -/

namespace State

variable {s : State} {target : Target}

/-- A state that waits for nothing has nothing to be cancelled. -/
theorem afterCancel_of_not_waiting (hlive : s.isLive = false) (hawaited : s.awaited? = none)
    (shown : Option Ready) : s.afterCancel shown = none := by
  cases s with
  | idle | failed => rfl
  | loading t mode step =>
    cases mode with
    | stepped => cases hawaited
    | streamed => cases hlive
  | ready r => exact if_neg (of_decide_eq_false hlive)

/-- A state that was cancelled has nothing more to be cancelled. -/
theorem afterCancel_afterCancel (s : State) {shown : Option Ready}
    (hshown : ∀ r ∈ shown, r.stream = none) :
    ((s.afterCancel shown).getD s).afterCancel shown = none := by
  obtain ⟨hlive, hawaited⟩ := afterCancel_getD (s := s) hshown
  exact afterCancel_of_not_waiting hlive hawaited shown

/-- While a stream is open, its close by a cancel and the cancel of its trace lead to the same. -/
theorem IsStreaming.afterClose_cancelled (h : s.IsStreaming target) (shown : Option Ready) :
    s.afterClose target .cancelled = s.afterCancel shown := by
  obtain rfl | ⟨step, snapshot, rfl⟩ := h
  · rfl
  · cases hterminal : snapshot.isTerminal <;>
      simp [State.afterClose, afterCancel, Ready.isTerminal, hterminal]

end State

/-! ## Work that is over -/

/-- The work without a stream that is closed. -/
def Work.remaining : Work → Work
  | nothing => nothing
  | request number target step => request number target step
  | stream number target closed => if closed then nothing else stream number target false

theorem Work.remaining_eq (w : Work) :
    w.remaining = w ∨ ∃ i target, w = stream i target true := by
  cases w with
  | nothing | request => exact .inl rfl
  | stream i target closed =>
    cases closed with
    | false => exact .inl rfl
    | true => exact .inr ⟨i, target, rfl⟩

namespace Focus

variable {f g : Focus}

/-- The focus without work that is over. -/
def remaining (f : Focus) : Focus :=
  { f with work := f.work.remaining }

theorem remaining_remaining (f : Focus) : f.remaining.remaining = f.remaining := by
  rcases f.work.remaining_eq with hsame | ⟨j, target, hclosed⟩
  · simp only [remaining, hsame]
  · simp [remaining, hclosed, Work.remaining]

theorem remaining_publish? (f : Focus) (s : Option State) :
    (f.publish? s).remaining = f.remaining.publish? s := by
  cases s <;> rfl

theorem remaining_requestStep (f : Focus) (step : UInt64) :
    (f.remaining.requestStep step).remaining = (f.requestStep step).remaining := by
  by_cases hmode : f.state.mode? = some .stepped
  · obtain ⟨t, ht, hrequest⟩ := requestStep_of_stepped hmode step
    rw [hrequest]
    simp only [requestStep, remaining, ht, hmode]
  · rw [requestStep_of_not_stepped hmode, requestStep_of_not_stepped (f := f.remaining) hmode,
      remaining_remaining]

/-- A closed stream brings nothing. -/
theorem push_of_over {j : Nat} {target : Target} (h : f.work = .stream j target true) (i : Nat)
    (e : Event) : f.push i e = f := by
  simp only [push, h, Work.stream?]
  by_cases hij : i = j <;> simp [hij]

/-- What a move leads to does not depend on work that is over. -/
theorem remaining_move (f : Focus) (m : Move) :
    (f.remaining.move m).remaining = (f.move m).remaining := by
  rcases f.work.remaining_eq with hsame | ⟨j, target, hclosed⟩
  · have hf : f.remaining = f := by rw [remaining, hsame]
    rw [hf]
  · have hwork : f.remaining.work = .nothing := by simp [remaining, hclosed, Work.remaining]
    have hpush (i : Nat) (e : Event) :
        (f.remaining.push i e).remaining = (f.push i e).remaining := by
      rw [push_of_over hclosed, push, hwork]
      exact f.remaining_remaining
    cases m with
    | start t mode step eager => cases mode <;> rfl
    | requestStep step => exact f.remaining_requestStep step
    | changeTarget t => rfl
    | cancel => rfl
    | follow link eager =>
      show (f.remaining.follow link eager).remaining = (f.follow link eager).remaining
      have hstate : f.remaining.state = f.state := rfl
      unfold follow
      rw [hstate]
      split
      · exact f.remaining_requestStep _
      · cases link.mode <;> rfl
    | answer i a =>
      show (f.remaining.answer i a).remaining = (f.answer i a).remaining
      simp only [answer, hwork, hclosed, Work.request?]
      exact f.remaining_remaining
    | push i e => exact hpush i e
    | cancelStream i => exact hpush i _

/-- Two focuses that differ in work that is over alone go the same way. -/
theorem remaining_run (h : f.remaining = g.remaining) (ms : List Move) :
    (f.run ms).remaining = (g.run ms).remaining := by
  induction ms generalizing f g with
  | nil => exact h
  | cons m ms ih =>
    refine ih ?_
    rw [← remaining_move f, h, remaining_move g]

/-! ## Two ways to cancel -/

theorem cancel_cancel (h : f.Sound) : f.cancel.cancel = f.cancel := by
  have hshown : ∀ r ∈ f.shown, r.stream = none := fun r hr => (h.view.shown r hr).2.1
  have hnone := State.afterCancel_afterCancel f.state hshown
  unfold cancel
  cases hs : f.state.afterCancel f.shown with
  | none => simp only [publish?, hs]
  | some s =>
    rw [hs, Option.getD_some] at hnone
    simp only [publish?, publish, hnone]

/-- An open stream that is cancelled at its source. -/
theorem remaining_push_cancelled (h : f.Sound) {i : Nat} {target : Target}
    (hwork : f.work = .stream i target false) :
    (f.push i (.close .cancelled)).remaining = f.cancel.remaining := by
  have hstreaming : f.state.IsStreaming target := by
    have hfits := h.work
    rw [hwork] at hfits
    exact hfits rfl
  have hpush : f.push i (.close .cancelled) =
      { f with work := .stream i target true }.publish? (f.state.afterCancel f.shown) := by
    rw [← hstreaming.afterClose_cancelled]
    simp only [push, hwork, Work.stream?, if_pos]
    rfl
  rw [hpush, cancel, remaining_publish?, remaining_publish?]
  rfl

end Focus

/-! ## Coordinators that cannot be told apart -/

/-- Nothing tells the coordinators apart: neither what is seen of them, nor which steps they would
refuse, nor the numbers that their next requests and streams get. -/
structure Coordinator.Alike (c d : Coordinator) : Prop where
  view_eq : c.view = d.view
  refusal_eq : ∀ step, c.refusal step = d.refusal step
  issued_eq : c.issued = d.issued

/-- Work that is over does not show. -/
theorem Tracks.alike {n m : Nat} {c d : Coordinator} {f g : Focus} (hc : Tracks n c f)
    (hd : Tracks m d g) (h : f.remaining = g.remaining) : c.Alike d where
  view_eq := by
    have hview : f.remaining.view = g.remaining.view := congrArg Focus.view h
    exact hc.view_eq.trans (hview.trans hd.view_eq.symm)
  refusal_eq := by
    have hstate : f.remaining.state = g.remaining.state := congrArg Focus.state h
    exact Coordinator.refusal_congr (hc.state_eq.trans (hstate.trans hd.state_eq.symm))
  issued_eq := by
    have hissued : f.remaining.issued = g.remaining.issued := congrArg Focus.issued h
    exact hc.issued_eq.trans (hissued.trans hd.issued_eq.symm)

/-- **Which way a trace is cancelled does not matter.** After any run, to cancel twice leads to the
same as to cancel once; and if a stream is open, to cancel it at its source, through its handle or
by a close with that reason, leads to the same as to cancel the trace. What follows may be anything
at all: the coordinators are never told apart. -/
theorem cancels_cannot_be_told_apart (ms ns : List Move)
    (h : calls (ms ++ .cancel :: .cancel :: ns) < callLimit) :
    let c := Coordinator.run {} ms
    (c.run (.cancel :: .cancel :: ns)).Alike (c.run (.cancel :: ns)) ∧
      ∀ i s, c.streams[i]? = some s → s.handle.isClosed = false →
        (c.run (.cancelStream i :: ns)).Alike (c.run (.cancel :: ns)) ∧
        (c.run (.push i (.close .cancelled) :: ns)).Alike (c.run (.cancel :: ns)) := by
  intro c
  have hsize : UInt64.size = 2 * callLimit := rfl
  have htends := Tends.init.run ms (by rw [calls_append] at h; omega)
  have hsound := htends.attends.sound
  have htracks (more : List Move) (hmore : calls more ≤ calls (.cancel :: .cancel :: ns)) :
      ∃ n, Tracks n (c.run more) ((Focus.run {} ms).run more) := by
    rw [calls_append] at h
    exact ⟨_, tracks_run htends.tracks more (by omega)⟩
  have hone (m : Move) : calls (m :: ns) ≤ calls (.cancel :: .cancel :: ns) := by
    have hle : calls [m] ≤ 1 := List.countP_le_length
    rw [calls_cons m, calls_cons .cancel, calls_cons .cancel ns]
    exact Nat.add_le_add hle (Nat.le_add_left _ _)
  obtain ⟨_, honce⟩ := htracks (.cancel :: ns) (hone _)
  refine ⟨?_, fun i s hs hopen => ?_⟩
  · obtain ⟨_, htwice⟩ := htracks (.cancel :: .cancel :: ns) (Nat.le_refl _)
    have hsame : (Focus.run {} ms).cancel.cancel.remaining = (Focus.run {} ms).cancel.remaining :=
      congrArg Focus.remaining (Focus.cancel_cancel hsound)
    exact htwice.alike honce (Focus.remaining_run hsame ns)
  · have hsame := Focus.remaining_push_cancelled hsound (htends.work_eq hs hopen)
    obtain ⟨_, hsource⟩ := htracks (.cancelStream i :: ns) (hone _)
    obtain ⟨_, hclose⟩ := htracks (.push i (.close .cancelled) :: ns) (hone _)
    exact ⟨hsource.alike honce (Focus.remaining_run hsame ns),
      hclose.alike honce (Focus.remaining_run hsame ns)⟩

/-- A streamed trace with one snapshot is cancelled. The source pushes once more, a step is asked
for, and another trace is started. -/
theorem cancels_of_a_live_trace :
    let s : Snapshot := ⟨.locking, .pending, some 7, [], [], [], none, none, none, [], []⟩
    let c := Coordinator.run {} [.start ⟨"a", 0⟩ .streamed 0 [.snapshot s]]
    let ns : List Move :=
      [.push 0 (.snapshot s), .requestStep 3, .start ⟨"b", 1⟩ .stepped 2 [], .answer 0 (.ok s)]
    (c.run (.cancel :: .cancel :: ns)).Alike (c.run (.cancel :: ns)) ∧
      (c.run (.cancelStream 0 :: ns)).Alike (c.run (.cancel :: ns)) ∧
      (c.run (.push 0 (.close .cancelled) :: ns)).Alike (c.run (.cancel :: ns)) := by
  intro s c ns
  obtain ⟨htwice, hsource⟩ :=
    cancels_cannot_be_told_apart [.start ⟨"a", 0⟩ .streamed 0 [.snapshot s]] ns (by decide)
  exact ⟨htwice, hsource 0 _ rfl rfl⟩

end SpendTrace.Trace
