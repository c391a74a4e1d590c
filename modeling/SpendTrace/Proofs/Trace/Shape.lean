import SpendTrace.Proofs.Trace.Tracking

/-!
# What is seen is always well-shaped

A state has more room than a trace needs: a streamed trace could be loading a step, a stepped one
could have a stream, a trace could be of another target than the one selected. None of that is ever
seen. What keeps it out is that the work that counts is the work that the state waits for.

* `View.WellShaped` says what is never seen otherwise.
* `Work.Fits` ties the work that counts to the state.
* `every_view_is_well_shaped` is the main statement.
-/

namespace SpendTrace.Trace

open Script (Snapshot)
open SpendTrace.Stream (CloseReason Event)
open Coordinator (View)

/-! ## Well-shaped states -/

/-- Whether the error is one of requests for steps, not of streams. -/
def Error.isOfRequest : Error → Bool
  | invalidTarget _ _ => true
  | fetchFailed _ _ => true
  | streamFailed _ _ => false

structure Ready.WellShaped (r : Ready) : Prop where
  stream_eq_none_iff : r.stream = none ↔ r.mode = .stepped
  terminal_of_finished : r.stream = some .finished → r.isTerminal = true
  pending_of_cancelled : r.stream = some .cancelled → r.isTerminal = false

def State.WellShaped : State → Prop
  | idle => True
  | loading _ mode step => step.isSome = true ↔ mode = .stepped
  | ready r => r.WellShaped
  | failed _ mode error => error.isOfRequest = true ↔ mode = .stepped

/-- What can be seen of a coordinator and what it remembers fit together. -/
structure Coordinator.View.WellShaped (v : View) : Prop where
  state : v.state.WellShaped
  /-- A trace is of the selected target. -/
  selected_eq : ∀ t ∈ v.state.target?, v.selected = some t
  /-- What is remembered is a snapshot of a stepped trace of the selected target. -/
  shown : ∀ r ∈ v.shown, r.mode = .stepped ∧ r.stream = none ∧ v.selected = some r.target
  shown_of_stepped : ∀ r, v.state = .ready r → r.mode = .stepped → v.shown = some r
  shown_of_streamed : v.state.mode? = some .streamed → v.shown = none

namespace Ready

variable {target : Target} {step : UInt64} {s : Snapshot}

theorem wellShaped_live : WellShaped ⟨target, .streamed, step, s, some .live⟩ :=
  ⟨⟨nofun, nofun⟩, nofun, nofun⟩

theorem wellShaped_finished {r : Ready} (hm : r.mode = .streamed) (ht : r.isTerminal = true) :
    (r.withStream .finished).WellShaped := by
  have hmode : (r.withStream .finished).mode ≠ .stepped := by
    show r.mode ≠ .stepped
    rw [hm]
    nofun
  exact ⟨⟨nofun, fun h => absurd h hmode⟩, fun _ => ht, nofun⟩

theorem wellShaped_cancelled {r : Ready} (hm : r.mode = .streamed) (ht : r.isTerminal = false) :
    (r.withStream .cancelled).WellShaped := by
  have hmode : (r.withStream .cancelled).mode ≠ .stepped := by
    show r.mode ≠ .stepped
    rw [hm]
    nofun
  exact ⟨⟨nofun, fun h => absurd h hmode⟩, nofun, fun _ => ht⟩

end Ready

theorem Error.isOfRequest_ofFetch (target : Target) (step : UInt64) (failure : Service.Failure) :
    (ofFetch target step failure).isOfRequest = true := by
  unfold ofFetch
  split <;> rfl

/-! ## Three ways to be well-shaped -/

namespace Coordinator.View

variable {v : View}

/-- Nothing of a stepped trace is remembered while a streamed one is seen. -/
theorem wellShaped_of_streamed (hstate : v.state.WellShaped)
    (hmode : v.state.mode? = some .streamed) (hselected : v.state.target? = v.selected)
    (hshown : v.shown = none) : v.WellShaped where
  state := hstate
  selected_eq t ht := hselected.symm.trans ht
  shown r hr := by
    rw [hshown] at hr
    cases hr
  shown_of_stepped r hr hr' := by
    rw [hr] at hmode
    exact nomatch (Option.some.inj hmode).symm.trans hr'
  shown_of_streamed _ := hshown

/-- What is remembered may go on being remembered while no snapshot and no stream is seen. -/
theorem wellShaped_of_no_snapshot (hstate : v.state.WellShaped) (hready : v.state.ready? = none)
    (hmode : v.state.mode? ≠ some .streamed)
    (hselected : ∀ t ∈ v.state.target?, v.selected = some t)
    (hshown : ∀ r ∈ v.shown, r.mode = .stepped ∧ r.stream = none ∧ v.selected = some r.target) :
    v.WellShaped where
  state := hstate
  selected_eq := hselected
  shown := hshown
  shown_of_stepped r hr _ := by
    rw [hr] at hready
    cases hready
  shown_of_streamed h := absurd h hmode

theorem wellShaped_of_idle (hidle : v.state = .idle)
    (hshown : ∀ r ∈ v.shown, r.mode = .stepped ∧ r.stream = none ∧ v.selected = some r.target) :
    v.WellShaped := by
  refine wellShaped_of_no_snapshot ?_ ?_ ?_ ?_ hshown
  · rw [hidle]
    trivial
  · rw [hidle]
    rfl
  · rw [hidle]
    nofun
  · rw [hidle]
    nofun

/-- A snapshot of a stepped trace is seen and remembered. -/
theorem wellShaped_of_shown {r : Ready} (hstate : v.state = .ready r) (hshown : v.shown = some r)
    (hmode : r.mode = .stepped) (hstream : r.stream = none)
    (hselected : v.selected = some r.target) : v.WellShaped where
  state := by
    rw [hstate]
    exact ⟨⟨fun _ => hmode, fun _ => hstream⟩, by rw [hstream]; nofun, by rw [hstream]; nofun⟩
  selected_eq t ht := by
    rw [hstate] at ht
    cases ht
    exact hselected
  shown r' hr' := by
    rw [hshown] at hr'
    cases hr'
    exact ⟨hmode, hstream, hselected⟩
  shown_of_stepped r' hr' _ := by
    rw [hstate] at hr'
    cases hr'
    exact hshown
  shown_of_streamed h := by
    rw [hstate, State.mode?, hmode] at h
    cases h

end Coordinator.View

/-- A cancel leads to no trace, back to the remembered snapshot, or to a snapshot whose stream is
not live any more. -/
theorem State.afterCancel_eq_some {s s' : State} {shown : Option Ready}
    (h : s.afterCancel shown = some s') :
    s' = .idle ∨ (∃ r, shown = some r ∧ s' = .ready r) ∨
      ∃ r, s = .ready r ∧ r.stream = some .live ∧
        s' = .ready (r.withStream (if r.isTerminal then .finished else .cancelled)) := by
  cases s with
  | idle | failed => cases h
  | loading target mode step =>
    cases mode with
    | streamed =>
      cases h
      exact .inl rfl
    | stepped =>
      cases shown with
      | none =>
        cases h
        exact .inl rfl
      | some r =>
        simp only [afterCancel] at h
        split at h
        · exact .inr (.inl ⟨r, rfl, (Option.some.inj h).symm⟩)
        · exact .inl (Option.some.inj h).symm
  | ready r =>
    simp only [afterCancel] at h
    split at h
    · next hlive => exact .inr (.inr ⟨r, rfl, hlive, (Option.some.inj h).symm⟩)
    · cases h

/-- A cancel keeps a view well-shaped. -/
theorem Coordinator.View.WellShaped.afterCancel {v v' : View} (h : v.WellShaped)
    (hstate : v.state.afterCancel v.shown = some v'.state) (hselected : v'.selected = v.selected)
    (hshown : v'.shown = v.shown) : v'.WellShaped := by
  have hremembered : ∀ r ∈ v'.shown,
      r.mode = .stepped ∧ r.stream = none ∧ v'.selected = some r.target := by
    rw [hshown, hselected]
    exact h.shown
  obtain hidle | ⟨r, hr, hback⟩ | ⟨r, hr, hlive, hstopped⟩ := State.afterCancel_eq_some hstate
  · exact View.wellShaped_of_idle hidle hremembered
  · obtain ⟨hmode, hstream, htarget⟩ := hremembered r (hshown.trans hr)
    exact View.wellShaped_of_shown hback (hshown.trans hr) hmode hstream htarget
  · have hshape := h.state
    have htarget := h.selected_eq r.target
    have hnone := h.shown_of_streamed
    rw [hr] at hshape htarget hnone
    have hmode : r.mode = .streamed := by
      cases hm : r.mode with
      | streamed => rfl
      | stepped =>
        rw [hshape.stream_eq_none_iff.2 hm] at hlive
        cases hlive
    refine View.wellShaped_of_streamed ?_ ?_ ?_ (hshown.trans (hnone (congrArg some hmode)))
    · rw [hstopped]
      split
      · next hterminal => exact Ready.wellShaped_finished hmode hterminal
      · next hpending => exact Ready.wellShaped_cancelled hmode (Bool.eq_false_iff.2 hpending)
    · rw [hstopped]
      exact congrArg some hmode
    · rw [hstopped, hselected]
      exact (htarget rfl).symm

/-! ## The work that the state waits for -/

/-- The state is that of a streamed trace which may still be added to. -/
def State.IsStreaming (target : Target) (s : State) : Prop :=
  s = .loading target .streamed none ∨
    ∃ step snapshot, s = .ready ⟨target, .streamed, step, snapshot, some .live⟩

/-- The work that counts is what the state waits for, or what it has got already. -/
def Work.Fits (s : State) : Work → Prop
  | nothing => True
  | request _ target _ => s.mode? = some .stepped ∧ s.target? = some target
  | stream _ target closed => closed = false → s.IsStreaming target

/-- What is seen of the focus was published last, it is well-shaped, and the work fits it. -/
structure Focus.Sound (f : Focus) : Prop where
  watched_eq : f.published.getLast?.getD .idle = f.state
  view : f.view.WellShaped
  work : f.work.Fits f.state

namespace State.IsStreaming

variable {target : Target} {s : State}

theorem mode?_eq (h : s.IsStreaming target) : s.mode? = some .streamed := by
  obtain rfl | ⟨step, snapshot, rfl⟩ := h <;> rfl

theorem target?_eq (h : s.IsStreaming target) : s.target? = some target := by
  obtain rfl | ⟨step, snapshot, rfl⟩ := h <;> rfl

/-- A snapshot leads to a streamed trace again. -/
theorem afterSnapshot (h : s.IsStreaming target) {snapshot : Snapshot} {s' : State}
    (hs' : s.afterSnapshot target snapshot = some s') :
    s'.IsStreaming target ∧ s'.WellShaped := by
  obtain rfl | ⟨step, old, rfl⟩ := h
  · cases hs'
    exact ⟨.inr ⟨_, _, rfl⟩, Ready.wellShaped_live⟩
  · simp only [State.afterSnapshot] at hs'
    split at hs'
    · cases hs'
    · cases hs'
      exact ⟨.inr ⟨_, _, rfl⟩, Ready.wellShaped_live⟩

/-- A close leads to no trace, or to one of the same target that is streamed no longer. -/
theorem afterClose (h : s.IsStreaming target) {reason : CloseReason} {s' : State}
    (hs' : s.afterClose target reason = some s') :
    s' = .idle ∨
      s'.mode? = some .streamed ∧ s'.target? = some target ∧ s'.WellShaped := by
  have hfailed : ∀ text received,
      (State.failed target .streamed (.streamFailed text received)).WellShaped :=
    fun _ _ => ⟨nofun, nofun⟩
  obtain rfl | ⟨step, old, rfl⟩ := h
  · cases reason with
    | cancelled =>
      cases hs'
      exact .inl rfl
    | completed | failed =>
      cases hs'
      exact .inr ⟨rfl, rfl, hfailed _ _⟩
  · simp only [State.afterClose] at hs'
    split at hs'
    · next hterminal =>
      cases hs'
      exact .inr ⟨rfl, rfl, Ready.wellShaped_finished rfl hterminal⟩
    · next hpending =>
      cases reason with
      | cancelled =>
        cases hs'
        exact .inr ⟨rfl, rfl, Ready.wellShaped_cancelled rfl (Bool.eq_false_iff.2 hpending)⟩
      | completed | failed =>
        cases hs'
        exact .inr ⟨rfl, rfl, hfailed _ _⟩

end State.IsStreaming

/-! ## One move -/

namespace Focus

variable {f : Focus}

theorem getLast?_publish (f : Focus) (s : State) :
    (f.publish s).published.getLast?.getD .idle = (f.publish s).state := by
  rw [publish, List.getLast?_concat, Option.getD_some]

theorem sound_new : Sound {} where
  watched_eq := rfl
  view := View.wellShaped_of_idle rfl fun r hr => absurd hr (Option.not_mem_none r)
  work := trivial

namespace Sound

theorem spawnRequest (h : f.Sound) (hmode : f.state.mode? = some .stepped) {target : Target}
    (htarget : f.state.target? = some target) (step : UInt64) :
    (f.spawnRequest target step).Sound :=
  ⟨h.watched_eq, h.view, hmode, htarget⟩

/-- What comes out of the stream that counts. -/
theorem push (h : f.Sound) (i : Nat) (e : Event) : (f.push i e).Sound := by
  cases hstream : f.work.stream? i with
  | none =>
    rw [Focus.push, hstream]
    exact h
  | some p =>
    obtain ⟨target, closed⟩ := p
    cases closed with
    | true =>
      rw [Focus.push, hstream]
      exact h
    | false =>
      rw [Focus.push, hstream]
      have hfits := h.work
      rw [Work.eq_stream hstream] at hfits
      have hs : f.state.IsStreaming target := hfits rfl
      have hshown := h.view.shown_of_streamed hs.mode?_eq
      have hselected := h.view.selected_eq target hs.target?_eq
      cases e with
      | snapshot snapshot =>
        show (publish? { f with work := .stream i target false }
          (f.state.afterSnapshot target snapshot)).Sound
        cases hs' : f.state.afterSnapshot target snapshot with
        | none => exact ⟨h.watched_eq, h.view, fun _ => hs⟩
        | some s' =>
          obtain ⟨hs'', hshape⟩ := hs.afterSnapshot hs'
          exact ⟨getLast?_publish _ _,
            View.wellShaped_of_streamed hshape hs''.mode?_eq
              (hs''.target?_eq.trans hselected.symm) hshown,
            fun _ => hs''⟩
      | close reason =>
        show (publish? { f with work := .stream i target true }
          (f.state.afterClose target reason)).Sound
        cases hs' : f.state.afterClose target reason with
        | none => exact ⟨h.watched_eq, h.view, by rintro ⟨⟩⟩
        | some s' =>
          refine ⟨getLast?_publish _ _, ?_, by rintro ⟨⟩⟩
          obtain rfl | ⟨hmode, htarget, hshape⟩ := hs.afterClose hs'
          · exact View.wellShaped_of_idle rfl h.view.shown
          · exact View.wellShaped_of_streamed hshape hmode (htarget.trans hselected.symm) hshown

theorem foldl_push (h : f.Sound) (i : Nat) (es : List Event) :
    (es.foldl (fun f e => f.push i e) f).Sound := by
  induction es generalizing f with
  | nil => exact h
  | cons e es ih => exact ih (h.push i e)

end Sound

/-- A start leaves nothing of the past, so it needs no hypothesis. -/
theorem sound_start (f : Focus) (target : Target) (mode : Mode) (step : UInt64)
    (eager : List Event) : (f.start target mode step eager).Sound := by
  have hselected : ∀ t ∈ some target, some target = some t := fun _ ht => ht
  cases mode with
  | stepped =>
    have hloading : ((f.reset target).publish (.loading target .stepped (some step))).Sound :=
      ⟨getLast?_publish _ _,
        View.wellShaped_of_no_snapshot ⟨fun _ => rfl, fun _ => rfl⟩ rfl nofun hselected
          fun r hr => absurd hr (Option.not_mem_none r),
        trivial⟩
    exact hloading.spawnRequest rfl rfl step
  | streamed =>
    have hloading : Sound
        { (f.reset target).publish (.loading target .streamed none) with
          issued := ⟨f.issued.requests, f.issued.streams + 1⟩
          work := .stream f.issued.streams target false } :=
      ⟨getLast?_publish _ _, View.wellShaped_of_streamed ⟨nofun, nofun⟩ rfl rfl rfl,
        fun _ => .inl rfl⟩
    exact hloading.foldl_push f.issued.streams eager

theorem sound_changeTarget (f : Focus) (target : Target) : (f.changeTarget target).Sound :=
  ⟨getLast?_publish _ _,
    View.wellShaped_of_idle rfl fun r hr => absurd hr (Option.not_mem_none r), trivial⟩

namespace Sound

theorem requestStep (h : f.Sound) (step : UInt64) : (f.requestStep step).Sound := by
  unfold Focus.requestStep
  split
  · next target htarget hmode =>
    have hselected := h.view.selected_eq target htarget
    have hloading : (Focus.publish { f with work := .nothing }
        (.loading target .stepped (some step))).Sound := by
      refine ⟨getLast?_publish _ _, ?_, trivial⟩
      refine View.wellShaped_of_no_snapshot ⟨fun _ => rfl, fun _ => rfl⟩ rfl nofun ?_ h.view.shown
      rintro t ⟨⟩
      exact hselected
    exact hloading.spawnRequest rfl rfl step
  · exact h

theorem cancel (h : f.Sound) : f.cancel.Sound := by
  unfold Focus.cancel
  cases hs' : f.state.afterCancel f.shown with
  | none => exact ⟨h.watched_eq, h.view, trivial⟩
  | some s' => exact ⟨getLast?_publish _ _, h.view.afterCancel hs' rfl rfl, trivial⟩

theorem follow (h : f.Sound) (l : Link) (eager : List Event) : (f.follow l eager).Sound := by
  unfold Focus.follow
  split
  · exact h.requestStep _
  · exact sound_start _ _ _ _ _

theorem answer (h : f.Sound) (i : Nat) (a : Answer) : (f.answer i a).Sound := by
  unfold Focus.answer
  cases hrequest : f.work.request? i with
  | none => exact h
  | some p =>
    obtain ⟨target, step⟩ := p
    have hfits := h.work
    rw [Work.eq_request hrequest] at hfits
    have hselected := h.view.selected_eq target hfits.2
    have hwork : ∀ s : State, s.mode? = some .stepped → s.target? = some target →
        f.work.Fits s := by
      intro s hmode htarget
      rw [Work.eq_request hrequest]
      exact ⟨hmode, htarget⟩
    cases a with
    | ok s =>
      exact ⟨getLast?_publish _ _, View.wellShaped_of_shown rfl rfl rfl rfl hselected,
        hwork _ rfl rfl⟩
    | error e =>
      refine ⟨getLast?_publish _ _, ?_, hwork _ rfl rfl⟩
      have hshape : (State.failed target .stepped (.ofFetch target step e)).WellShaped :=
        ⟨fun _ => rfl, fun _ => Error.isOfRequest_ofFetch target step e⟩
      refine View.wellShaped_of_no_snapshot hshape rfl nofun ?_ h.view.shown
      rintro t ⟨⟩
      exact hselected

/-- Every move keeps what is seen well-shaped. -/
theorem move (h : f.Sound) (m : Move) : (f.move m).Sound := by
  cases m with
  | start target mode step eager => exact sound_start f target mode step eager
  | requestStep step => exact h.requestStep step
  | changeTarget target => exact sound_changeTarget f target
  | cancel => exact h.cancel
  | follow link eager => exact h.follow link eager
  | answer i a => exact h.answer i a
  | push i e => exact h.push i e
  | cancelStream i => exact h.push i _

theorem run (h : f.Sound) (ms : List Move) : (f.run ms).Sound := by
  induction ms generalizing f with
  | nil => exact h
  | cons m ms ih => exact ih (h.move m)

end Sound

end Focus

/-- **What is seen is always well-shaped.** After any run, those who watch what is published see the
state, and the state, the selected target and the remembered snapshot fit together. -/
theorem every_view_is_well_shaped (ms : List Move) (h : calls ms < callLimit) :
    let c := Coordinator.run {} ms
    c.watched = c.state ∧ c.view.WellShaped := by
  intro c
  have htracks := tracks_run_new ms h
  have hsound := Focus.sound_new.run ms
  refine ⟨?_, ?_⟩
  · rw [Coordinator.watched, htracks.published_eq, htracks.state_eq]
    exact hsound.watched_eq
  · rw [htracks.view_eq]
    exact hsound.view

/-- The stream of a trace is cancelled at its source and goes on bringing snapshots, after a step of
another trace was asked for and given up. -/
theorem view_of_cancelled_stream :
    let s : Snapshot := ⟨.locking, .pending, some 7, [], [], [], none, none, none, [], []⟩
    let c := Coordinator.run {}
      [.start ⟨"a", 0⟩ .stepped 3 [], .answer 0 (.ok s), .requestStep 5, .cancel,
        .start ⟨"b", 1⟩ .streamed 0 [.snapshot s], .cancelStream 0, .push 0 (.snapshot s)]
    c.watched = c.state ∧ c.view.WellShaped :=
  every_view_is_well_shaped
    [.start ⟨"a", 0⟩ .stepped 3 [], .answer 0 (.ok _), .requestStep 5, .cancel,
      .start ⟨"b", 1⟩ .streamed 0 [.snapshot _], .cancelStream 0, .push 0 (.snapshot _)] (by decide)

end SpendTrace.Trace
