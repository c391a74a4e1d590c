import SpendTrace.Proofs.Trace.Paths

/-!
# A cancel returns to what was shown last

A coordinator that is loading a step can be cancelled, and shows again what its trace showed last.
For that it remembers the last answer that brought a snapshot. Other steps may have been asked for
since, in requests that failed or that were superseded or cancelled: what is remembered stays, until
a start or a change of the target forgets it.

* `Coordinator.lastAnswer` reads that answer off a run.
* `Tracks.shown_run`: it is what is remembered.
* `cancel_returns_to_what_was_shown` is the main statement.
-/

namespace SpendTrace.Trace

open Script (Snapshot)
open SpendTrace.Stream (Event)

/-! ## The last answer -/

namespace Coordinator

/-- The snapshot that an answer brought last, behind one more move. It is forgotten when a trace is
started or its target changed, and replaced only by an answer to the request that counts. -/
def answeredAfter (c : Coordinator) (latest : Option Ready) : Move → Option Ready
  | .start _ _ _ _ => none
  | .changeTarget _ => none
  | .follow link _ => if c.isInPlace link then latest else none
  | .answer i (.ok s) =>
    match c.currentRequest? i with
    | some (target, step) => some (.ofAnswer target step s)
    | none => latest
  | _ => latest

/-- The snapshot that an answer brought last in a run, if it was not forgotten. -/
def lastAnswer (c : Coordinator) (latest : Option Ready) : List Move → Option Ready
  | [] => latest
  | m :: ms => (c.move m).lastAnswer (c.answeredAfter latest m) ms

variable {c : Coordinator} {latest : Option Ready} {ms : List Move} {m : Move} {r : Ready}

/-- Whatever is new was brought by the move, which has put it on display. -/
theorem answeredAfter_eq_some (h : c.answeredAfter latest m = some r) :
    latest = some r ∨ (c.move m).state = .ready r := by
  cases m with
  | start | changeTarget => cases h
  | requestStep | cancel | push | cancelStream => exact .inl h
  | follow link eager =>
    simp only [answeredAfter, Option.ite_none_right_eq_some] at h
    exact .inl h.2
  | answer i a =>
    cases a with
    | error e => exact .inl h
    | ok s =>
      simp only [answeredAfter] at h
      split at h
      · next target step hrequest =>
        obtain rfl := Option.some.inj h
        exact .inr (congrArg Display.state (display_answer hrequest (.ok s)))
      · exact .inl h

/-- The last answer of a run was on display when it came. -/
theorem exists_of_lastAnswer (h : c.lastAnswer latest ms = some r) : latest = some r ∨
    ∃ before m after, ms = before ++ m :: after ∧ (c.run (before ++ [m])).state = .ready r := by
  induction ms generalizing c latest with
  | nil => exact .inl h
  | cons m ms ih =>
    obtain hlatest | ⟨before, m', after, rfl, hshown⟩ := ih h
    · exact (answeredAfter_eq_some hlatest).imp_right fun hshown => ⟨[], m, ms, rfl, hshown⟩
    · exact .inr ⟨m :: before, m', after, rfl, hshown⟩

end Coordinator

/-! ## What is remembered -/

namespace Focus

theorem shown_follow (f : Focus) (l : Link) (eager : List Event) :
    (f.follow l eager).shown =
      if l.mode = .stepped ∧ f.state.target? = some l.target ∧ f.state.mode? = some .stepped then
        f.shown
      else none := by
  unfold follow
  split
  · rw [shown_requestStep]
  · rw [shown_start]

end Focus

namespace Tracks

variable {n : Nat} {c : Coordinator} {f : Focus}

theorem shown_move (h : Tracks n c f) (m : Move) :
    (f.move m).shown = c.answeredAfter f.shown m := by
  cases m with
  | start target mode step eager => exact f.shown_start target mode step eager
  | requestStep step => exact f.shown_requestStep step
  | changeTarget target => rfl
  | cancel => exact Focus.shown_publish? _ _
  | follow link eager =>
    have hin := Coordinator.isInPlace_iff (c := c) (l := link)
    rw [h.state_eq] at hin
    show (f.follow link eager).shown = if c.isInPlace link then f.shown else none
    simp only [f.shown_follow, hin]
  | answer i a =>
    cases a with
    | error e =>
      show (f.answer i (.error e)).shown = f.shown
      unfold Focus.answer
      split <;> rfl
    | ok s =>
      simp only [Coordinator.answeredAfter, h.request_eq i]
      show (f.answer i (.ok s)).shown = _
      unfold Focus.answer
      cases f.work.request? i <;> rfl
  | push i e => exact f.shown_push i e
  | cancelStream i => exact f.shown_push i _

/-- What is remembered behind a run is the last answer. -/
theorem shown_run (h : Tracks n c f) (ms : List Move) (hn : n + 2 * calls ms < UInt64.size) :
    (f.run ms).shown = c.lastAnswer f.shown ms := by
  induction ms generalizing n c f with
  | nil => rfl
  | cons m ms ih =>
    rw [add_two_mul_calls_cons] at hn
    rw [Coordinator.lastAnswer, ← h.shown_move m]
    exact ih (tracks_move h m (by omega)) hn

end Tracks

/-! ## A cancel -/

namespace Focus

variable {f : Focus}

/-- What is remembered is of the target that is being loaded, so it is shown again. -/
theorem Sound.afterCancel_of_loading (h : f.Sound) {target : Target} {step : Option UInt64}
    (hs : f.state = .loading target .stepped step) :
    f.state.afterCancel f.shown = some (f.shown.elim .idle .ready) := by
  have htarget : target ∈ f.state.target? := by
    rw [hs]
    rfl
  have hselected := h.view.selected_eq target htarget
  rw [hs]
  cases hr : f.shown with
  | none => rfl
  | some r =>
    obtain ⟨-, -, hremembered⟩ := h.view.shown r hr
    have hsame : r.target = target := Option.some.inj (hremembered.symm.trans hselected)
    exact congrArg some (if_pos hsame)

end Focus

namespace Tracks

variable {n : Nat} {c : Coordinator} {f : Focus}

theorem view_cancel_of_some (h : Tracks n c f) (hn : n + 1 < UInt64.size) {s : State}
    (hs : c.state.afterCancel f.shown = some s) : c.cancel.view = (c.publish s).view := by
  rw [h.state_eq] at hs
  rw [(h.cancel hn).view_eq, (h.publish s).view_eq, Focus.cancel, hs]
  rfl

theorem view_cancel_of_none (h : Tracks n c f) (hn : n + 1 < UInt64.size)
    (hs : c.state.afterCancel f.shown = none) : c.cancel.view = c.view := by
  rw [h.state_eq] at hs
  rw [(h.cancel hn).view_eq, h.view_eq, Focus.cancel, hs]
  rfl

theorem selected_cancel (h : Tracks n c f) (hn : n + 1 < UInt64.size) :
    c.cancel.selected = c.selected := by
  have hselected : c.cancel.view.selected = c.view.selected := by
    rw [(h.cancel hn).view_eq, h.view_eq, Focus.cancel]
    cases f.state.afterCancel f.shown <;> rfl
  exact hselected

end Tracks

namespace Coordinator

/-- A cancel when a step is loading and something is remembered. -/
theorem cancel_of_remembered {c : Coordinator} {r : Ready} (hmode : r.mode = .stepped)
    (hview : c.cancel.view = (c.publish (.ready r)).view) :
    c.cancel.navigation = r.navigation ∧
      ∀ step, (c.cancel.requestStep step).2 = .ok () := by
  have hstate : c.cancel.state = .ready r := congrArg View.state hview
  have htarget : c.cancel.state.target? = some r.target := by
    rw [hstate]
    rfl
  have hstepped : c.cancel.state.mode? = some .stepped := by
    rw [hstate]
    exact congrArg some hmode
  refine ⟨?_, fun step => congrArg Prod.snd (requestStep_of_stepped htarget hstepped step)⟩
  rw [navigation, hstate]
  rfl

end Coordinator

/-- **A cancel returns to what was shown last.** After any run, a cancel publishes one state at most
and changes nothing else that can be seen, the selected target in particular.

* While a step is loading, that is the last answer that took effect since the trace was started or
  its target changed, if there was one. It is shown as it was when it came, with the navigation it
  had, and every step can be asked for.
* While a stream is loading, there is no trace any more.
* A snapshot whose stream is live is finished if it has a verdict and cancelled otherwise.
* In every other state nothing happens. -/
theorem cancel_returns_to_what_was_shown (ms : List Move) (h : calls ms < callLimit) :
    let c := Coordinator.run {} ms
    let last := Coordinator.lastAnswer {} none ms
    (∀ target step, c.state = .loading target .stepped step →
      c.cancel.view = (c.publish (last.elim .idle .ready)).view ∧
      ∀ r, last = some r → (∀ step, (c.cancel.requestStep step).2 = .ok ()) ∧
        ∃ before m after, ms = before ++ m :: after ∧
          (Coordinator.run {} (before ++ [m])).state = .ready r ∧
          c.cancel.navigation = (Coordinator.run {} (before ++ [m])).navigation) ∧
    (∀ target step, c.state = .loading target .streamed step →
      c.cancel.view = (c.publish .idle).view) ∧
    (∀ r, c.state = .ready r → r.stream = some .live →
      c.cancel.view = (c.publish
        (.ready (r.withStream (if r.isTerminal then .finished else .cancelled)))).view) ∧
    (c.state.isLoading = false → (∀ r, c.state = .ready r → r.stream ≠ some .live) →
      c.cancel.view = c.view) ∧
    c.cancel.selected = c.selected := by
  intro c last
  have hsize : UInt64.size = 2 * callLimit := rfl
  have htracks : Tracks (2 * calls ms) c (Focus.run {} ms) := tracks_run_new ms h
  have hn : 2 * calls ms + 1 < UInt64.size := by omega
  have hsound := Focus.sound_new.run ms
  have hlast : (Focus.run {} ms).shown = last :=
    (Tracks.init (n := 0)).shown_run ms (by omega)
  refine ⟨fun target step hs => ?_, fun target step hs => ?_, fun r hr hlive => ?_,
    fun hloading hlive => ?_, htracks.selected_cancel hn⟩
  · have hview : c.cancel.view = (c.publish (last.elim .idle .ready)).view := by
      refine htracks.view_cancel_of_some hn ?_
      rw [htracks.state_eq] at hs ⊢
      rw [hsound.afterCancel_of_loading hs, hlast]
    refine ⟨hview, fun r hr => ?_⟩
    rw [hr] at hview
    obtain ⟨hmode, -, -⟩ := hsound.view.shown r (hlast.trans hr)
    obtain ⟨hnavigation, hstep⟩ := Coordinator.cancel_of_remembered hmode hview
    obtain hnew | ⟨before, m, after, hms, hshown⟩ := Coordinator.exists_of_lastAnswer hr
    · cases hnew
    · refine ⟨hstep, before, m, after, hms, hshown, ?_⟩
      rw [hnavigation, Coordinator.navigation, hshown]
      rfl
  · refine htracks.view_cancel_of_some hn ?_
    rw [hs]
    rfl
  · refine htracks.view_cancel_of_some hn ?_
    rw [hr]
    exact if_pos hlive
  · refine htracks.view_cancel_of_none hn ?_
    cases hs : c.state with
    | idle | failed => rfl
    | loading => simp [hs, State.isLoading] at hloading
    | ready r => exact if_neg (hlive r hs)

/-- A step is shown, two others are asked for and fail or are cancelled, and a fourth is cancelled
while it is loading. -/
theorem cancel_returns_over_failures_and_cancels :
    let s : Snapshot := ⟨.locking, .pending, some 7, [], [], [], none, none, none, [], []⟩
    let ms : List Move :=
      [.start ⟨"a", 0⟩ .stepped 3 [], .answer 0 (.ok s), .requestStep 8,
        .answer 1 (.error (.transport "gone")), .requestStep 9, .cancel, .answer 2 (.ok s),
        .requestStep 10]
    let c := Coordinator.run {} ms
    c.cancel.view = (c.publish (.ready ⟨⟨"a", 0⟩, .stepped, 7, s, none⟩)).view := by
  intro s ms c
  obtain ⟨hloading, -⟩ := cancel_returns_to_what_was_shown ms (by decide)
  exact (hloading ⟨"a", 0⟩ (some 10) (by decide)).1

end SpendTrace.Trace
