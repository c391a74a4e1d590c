import SpendTrace.Proofs.Trace.Restoring

/-!
# Following a link

A link is followed to where it points, whatever was before. If it points to a step of the stepped
trace on display, the trace goes on, and a cancel leads back to the snapshot that it showed last;
otherwise a new trace begins, and a cancel leads nowhere. From a snapshot of a stepped trace there
are links to the steps next to it, and to no others.

* `Coordinator.lastShown` reads off a run what the current trace showed last.
* `Tracks.shown_run_eq`: that is what is remembered.
* `Navigation.IsAround`: where the links of a snapshot point.
* `links_lead_where_they_point` is the main statement.
-/

namespace SpendTrace

/-- Above zero a number goes down by one. -/
theorem toNat_sub_one {n : UInt64} (h : 0 < n.toNat) : (n - 1).toNat + 1 = n.toNat := by
  have hle : (1 : UInt64) ≤ n := UInt64.le_iff_toNat_le.2 h
  rw [UInt64.toNat_sub_of_le n 1 hle, UInt64.toNat_one]
  omega

namespace Link

/-- The step of a link to a stepped trace is known. -/
theorem requestedStep_of_stepped {l : Link} (h : l.mode = .stepped) :
    l.requestedStep = some (l.requestedStep.getD 0) := by
  obtain ⟨step, hstep⟩ := Option.isSome_iff_exists.1 (l.requestedStep_isSome_iff.2 h)
  rw [hstep, Option.getD_some]

theorem requestedStep_of_streamed {l : Link} (h : l.mode = .streamed) : l.requestedStep = none := by
  refine Option.not_isSome_iff_eq_none.1 fun hsome => ?_
  rw [l.requestedStep_isSome_iff.1 hsome] at h
  cases h

end Link

end SpendTrace

namespace SpendTrace.Trace

open Script (Snapshot)

/-! ## What the current trace showed last -/

/-- The snapshot of a stepped trace, if there is one on display. -/
def State.stepped? (s : State) : Option Ready :=
  s.ready?.filter (·.mode = .stepped)

theorem State.stepped?_eq_some_iff {s : State} {r : Ready} :
    s.stepped? = some r ↔ s = .ready r ∧ r.mode = .stepped := by
  cases s <;> simp [stepped?, ready?, Option.filter_eq_some_iff]

namespace Coordinator

/-- Whether the move gives up the trace before it. -/
def leavesTrace (c : Coordinator) : Move → Bool
  | .start _ _ _ _ => true
  | .changeTarget _ => true
  | .follow link _ => !c.isInPlace link
  | _ => false

/-- What the current trace showed last, behind one more move: what is on display now, or else what
it showed before, if it is the same trace. -/
def shownAfter (c : Coordinator) (latest : Option Ready) (m : Move) : Option Ready :=
  (c.move m).state.stepped?.or (if c.leavesTrace m then none else latest)

/-- The last snapshot of a stepped trace on display in a run, if its trace was not given up since. -/
def lastShown (c : Coordinator) (latest : Option Ready) : List Move → Option Ready
  | [] => latest
  | m :: ms => (c.move m).lastShown (c.shownAfter latest m) ms

/-- Only an answer brings something new, and then that is on display. -/
theorem answeredAfter_eq (c : Coordinator) (latest : Option Ready) (m : Move) :
    c.answeredAfter latest m = (if c.leavesTrace m then none else latest) ∨
      ∃ r, (c.move m).state.stepped? = some r := by
  cases m with
  | start | changeTarget | requestStep | cancel | push | cancelStream => exact .inl rfl
  | follow link eager =>
    left
    cases hin : c.isInPlace link <;> simp [answeredAfter, leavesTrace, hin]
  | answer i a =>
    cases a with
    | error e => exact .inl rfl
    | ok s =>
      cases hrequest : c.currentRequest? i with
      | none => exact .inl (by simp [answeredAfter, leavesTrace, hrequest])
      | some p =>
        obtain ⟨target, step⟩ := p
        refine .inr ⟨.ofAnswer target step s, State.stepped?_eq_some_iff.2 ⟨?_, rfl⟩⟩
        exact congrArg Display.state (display_answer hrequest (.ok s))

end Coordinator

namespace Tracks

variable {n : Nat} {c : Coordinator} {f : Focus}

theorem shownAfter_eq (h : Tracks n c f) (hsound : f.Sound) (m : Move)
    (hn : n + 2 * calls [m] < UInt64.size) : (f.move m).shown = c.shownAfter f.shown m := by
  have hstate : (c.move m).state = (f.move m).state := (tracks_move h m hn).state_eq
  cases hs : (c.move m).state.stepped? with
  | some r =>
    obtain ⟨hready, hmode⟩ := State.stepped?_eq_some_iff.1 hs
    rw [Coordinator.shownAfter, hs, Option.some_or]
    exact (hsound.move m).view.shown_of_stepped r (hstate.symm.trans hready) hmode
  | none =>
    rw [Coordinator.shownAfter, hs, Option.none_or, h.shown_move m]
    obtain hkept | ⟨r, hr⟩ := c.answeredAfter_eq f.shown m
    · exact hkept
    · rw [hs] at hr
      cases hr

/-- What is remembered behind a run is what the trace showed last. -/
theorem shown_run_eq (h : Tracks n c f) (hsound : f.Sound) (ms : List Move)
    (hn : n + 2 * calls ms < UInt64.size) : (f.run ms).shown = c.lastShown f.shown ms := by
  induction ms generalizing n c f with
  | nil => rfl
  | cons m ms ih =>
    rw [add_two_mul_calls_cons] at hn
    have hm : n + 2 * calls [m] < UInt64.size := by omega
    rw [Coordinator.lastShown, ← h.shownAfter_eq hsound m hm]
    exact ih (tracks_move h m hm) (hsound.move m) hn

end Tracks

/-! ## Where a link leads -/

namespace Focus

variable {f : Focus}

theorem state_requestStep {target : Target} (htarget : f.state.target? = some target)
    (hmode : f.state.mode? = some .stepped) (step : UInt64) :
    (f.requestStep step).state = .loading target .stepped (some step) := by
  simp only [requestStep, htarget, hmode]
  rfl

theorem state_follow (f : Focus) (l : Link) :
    (f.follow l []).state = .loading l.target l.mode l.requestedStep := by
  unfold follow
  split
  · next hin =>
    obtain ⟨hl, htarget, hmode⟩ := hin
    rw [state_requestStep htarget hmode, ← Link.requestedStep_of_stepped hl, hl]
  · cases hl : l.mode with
    | stepped =>
      rw [Link.requestedStep_of_stepped hl]
      rfl
    | streamed =>
      rw [Link.requestedStep_of_streamed hl]
      rfl

/-- A cancel of whatever is loading leads back to what is remembered, or nowhere. -/
theorem Sound.state_cancel_of_loading (h : f.Sound) {target : Target} {mode : Mode}
    {step : Option UInt64} (hs : f.state = .loading target mode step) :
    f.cancel.state = f.shown.elim .idle .ready := by
  have hafter : f.state.afterCancel f.shown = some (f.shown.elim .idle .ready) := by
    cases mode with
    | stepped => exact h.afterCancel_of_loading hs
    | streamed =>
      have hnone : f.shown = none := h.view.shown_of_streamed (congrArg State.mode? hs)
      rw [hs, hnone]
      rfl
  rw [Focus.cancel, hafter]
  rfl

end Focus

namespace Tracks

variable {n : Nat} {c : Coordinator} {f : Focus}

theorem state_follow (h : Tracks n c f) (hn : n + 2 < UInt64.size) (l : Link) :
    (c.move (.follow l [])).state = .loading l.target l.mode l.requestedStep :=
  (h.follow hn l []).state_eq.trans (f.state_follow l)

theorem selected_follow (h : Tracks n c f) (hsound : f.Sound) (hn : n + 2 < UInt64.size)
    (l : Link) : (c.move (.follow l [])).selected = some l.target := by
  have htarget : (f.follow l []).state.target? = some l.target :=
    congrArg State.target? (f.state_follow l)
  rw [(h.follow hn l []).selected_eq]
  exact (hsound.follow l []).view.selected_eq l.target htarget

/-- A cancel right after a link was followed. -/
theorem state_cancel_follow (h : Tracks n c f) (hsound : f.Sound) (hn : n + 3 < UInt64.size)
    (l : Link) : (c.move (.follow l [])).cancel.state =
      if l.mode = .stepped ∧ c.state.target? = some l.target ∧ c.state.mode? = some .stepped then
        f.shown.elim .idle .ready
      else .idle := by
  have hfollow := h.follow (Nat.lt_of_succ_lt hn) l []
  rw [(hfollow.cancel hn).state_eq,
    (hsound.follow l []).state_cancel_of_loading (f.state_follow l), f.shown_follow, h.state_eq]
  split <;> rfl

end Tracks

/-! ## The links of a snapshot -/

/-- The links lead to the steps next to a snapshot, as far as there are any. -/
structure Navigation.IsAround (n : Navigation) (r : Ready) : Prop where
  previous_isSome_iff : n.previous.isSome ↔ 0 < r.step.toNat
  previous_eq : ∀ l ∈ n.previous,
    ∃ k : UInt64, k.toNat + 1 = r.step.toNat ∧ l = ⟨r.target, .step k⟩
  next_isSome_iff :
    n.next.isSome ↔ r.snapshot.outcome = .pending ∧ r.step.toNat + 1 < UInt64.size
  next_eq : ∀ l ∈ n.next, ∃ k : UInt64, k.toNat = r.step.toNat + 1 ∧ l = ⟨r.target, .step k⟩

namespace Ready

theorem navigation_isSome_iff (r : Ready) : r.navigation.isSome ↔ r.mode = .stepped := by
  unfold navigation
  cases r.mode <;> simp

theorem isAround_of_navigation {r : Ready} {n : Navigation} (h : r.navigation = some n) :
    n.IsAround r := by
  have hmode : r.mode = .stepped := r.navigation_isSome_iff.1 (by simp [h])
  simp only [navigation, hmode, Option.some.injEq] at h
  subst h
  have hfirst : r.step = 0 ↔ r.step.toNat = 0 := by rw [← UInt64.toNat_inj, UInt64.toNat_zero]
  refine ⟨?_, ?_, ?_, ?_⟩
  · by_cases hzero : r.step = 0
    · simp [hzero]
    · simp [hzero, Nat.pos_iff_ne_zero, ← hfirst]
  · intro l hl
    simp only [Option.mem_def, Option.ite_none_left_eq_some, Option.some.injEq] at hl
    obtain ⟨hpos, rfl⟩ := hl
    exact ⟨r.step - 1, toNat_sub_one (Nat.pos_of_ne_zero (mt hfirst.2 hpos)), rfl⟩
  · cases houtcome : r.snapshot.outcome with
    | pending => by_cases hlast : r.step.toNat + 1 < UInt64.size <;> simp [hlast]
    | result verified => simp
  · intro l hl
    cases houtcome : r.snapshot.outcome with
    | pending =>
      simp only [houtcome, Option.mem_def, Option.ite_none_right_eq_some, Option.some.injEq] at hl
      obtain ⟨hlast, rfl⟩ := hl
      exact ⟨r.step + 1, toNat_add_one hlast, rfl⟩
    | result verified => simp [houtcome] at hl

end Ready

namespace Coordinator

variable {c : Coordinator} {r : Ready} {n : Navigation} {l : Link}

theorem navigation_of_ready (hr : c.state = .ready r) : c.navigation = r.navigation := by
  rw [navigation, hr]
  rfl

/-- There are links exactly around a snapshot of a stepped trace. -/
theorem navigation_isSome_iff (c : Coordinator) :
    c.navigation.isSome ↔ ∃ r, c.state = .ready r ∧ r.mode = .stepped := by
  cases hs : c.state with
  | ready r =>
    rw [navigation_of_ready hs, r.navigation_isSome_iff]
    simp
  | idle | loading | failed => simp [navigation, hs, State.navigation, State.ready?]

/-- The links of a snapshot lead to steps of its target. -/
theorem eq_linkTo_of_isAround (h : n.IsAround r) (hl : n.previous = some l ∨ n.next = some l) :
    ∃ k, l = r.linkTo k := by
  obtain hl | hl := hl
  · obtain ⟨k, -, hk⟩ := h.previous_eq l hl
    exact ⟨k, hk⟩
  · obtain ⟨k, -, hk⟩ := h.next_eq l hl
    exact ⟨k, hk⟩

theorem isInPlace_linkTo (hr : c.state = .ready r) (hmode : r.mode = .stepped) (k : UInt64) :
    c.isInPlace (r.linkTo k) = true := by
  rw [isInPlace_iff, hr]
  exact ⟨rfl, rfl, congrArg some hmode⟩

/-- To follow a link to a step of the trace on display is to ask for that step. -/
theorem requestStep_eq_follow (hr : c.state = .ready r) (hmode : r.mode = .stepped) (k : UInt64) :
    c.requestStep k = (c.follow (r.linkTo k), .ok ()) :=
  requestStep_of_isInPlace (isInPlace_linkTo hr hmode k)

end Coordinator

/-- A cancel right after such a link was followed leads back to the snapshot. -/
theorem Tracks.state_cancel_linkTo {n : Nat} {c : Coordinator} {f : Focus} (h : Tracks n c f)
    (hsound : f.Sound) (hn : n + 3 < UInt64.size) {r : Ready} (hr : c.state = .ready r)
    (hmode : r.mode = .stepped) (k : UInt64) :
    (c.move (.follow (r.linkTo k) [])).cancel.state = .ready r := by
  have hshown : f.shown = some r :=
    hsound.view.shown_of_stepped r (h.state_eq.symm.trans hr) hmode
  have hin := Coordinator.isInPlace_iff.1 (Coordinator.isInPlace_linkTo hr hmode k)
  rw [h.state_cancel_follow hsound hn, if_pos hin, hshown]
  rfl

/-! ## Main statement -/

/-- **A link leads where it points, and the links of a snapshot point to its neighbours.** After any
run, whatever link is followed, that is what is loading, and its target is selected. A cancel then
leads back to what the trace showed last, if the link points to a step of a stepped trace that was
going on, and nowhere otherwise. There are links exactly around a snapshot of a stepped trace, to
the steps next to it; to follow one of them is to ask for its step, and a cancel then leads back to
the snapshot. -/
theorem links_lead_where_they_point (ms : List Move) (h : calls ms + 1 < callLimit) :
    let c := Coordinator.run {} ms
    let last := Coordinator.lastShown {} none ms
    (∀ l : Link,
      let d := c.move (.follow l [])
      d.state = .loading l.target l.mode l.requestedStep ∧ d.selected = some l.target ∧
        d.cancel.state =
          if l.mode = .stepped ∧ c.state.target? = some l.target ∧
              c.state.mode? = some .stepped then
            last.elim .idle .ready
          else .idle) ∧
    (c.navigation.isSome ↔ ∃ r, c.state = .ready r ∧ r.mode = .stepped) ∧
    ∀ r n, c.state = .ready r → c.navigation = some n → n.IsAround r ∧
      ∀ l, n.previous = some l ∨ n.next = some l →
        ∃ k, l.view = .step k ∧ c.requestStep k = (c.follow l, .ok ()) ∧
          (c.move (.follow l [])).cancel.state = .ready r := by
  intro c last
  have hsize : UInt64.size = 2 * callLimit := rfl
  have htracks : Tracks (2 * calls ms) c (Focus.run {} ms) := tracks_run_new ms (by omega)
  have hsound := Focus.sound_new.run ms
  have hlast : (Focus.run {} ms).shown = last :=
    (Tracks.init (n := 0)).shown_run_eq Focus.sound_new ms (by omega)
  have hfollow : 2 * calls ms + 2 < UInt64.size := by omega
  have hcancel : 2 * calls ms + 3 < UInt64.size := by omega
  refine ⟨fun l => ⟨htracks.state_follow hfollow l, htracks.selected_follow hsound hfollow l, ?_⟩,
    c.navigation_isSome_iff, fun r n hr hn => ?_⟩
  · rw [htracks.state_cancel_follow hsound hcancel, hlast]
  · rw [Coordinator.navigation_of_ready hr] at hn
    have haround := Ready.isAround_of_navigation hn
    have hmode : r.mode = .stepped := r.navigation_isSome_iff.1 (by simp [hn])
    refine ⟨haround, fun l hl => ?_⟩
    obtain ⟨k, rfl⟩ := Coordinator.eq_linkTo_of_isAround haround hl
    exact ⟨k, rfl, Coordinator.requestStep_eq_follow hr hmode k,
      htracks.state_cancel_linkTo hsound hcancel hr hmode k⟩

/-- A request failed since the step was shown. A link to another step keeps the trace all the same,
and one to another target gives it up. -/
theorem cancel_of_link_over_a_failure :
    let s : Snapshot := ⟨.locking, .pending, some 7, [], [], [], none, none, none, [], []⟩
    let c := Coordinator.run {} [.start ⟨"a", 0⟩ .stepped 3 [], .answer 0 (.ok s), .requestStep 8,
      .answer 1 (.error (.transport "gone"))]
    (c.move (.follow ⟨⟨"a", 0⟩, .step 9⟩ [])).cancel.state =
        .ready ⟨⟨"a", 0⟩, .stepped, 7, s, none⟩ ∧
      (c.move (.follow ⟨⟨"b", 0⟩, .step 9⟩ [])).cancel.state = .idle := by
  intro s c
  obtain ⟨hfollow, -⟩ := links_lead_where_they_point [.start ⟨"a", 0⟩ .stepped 3 [],
    .answer 0 (.ok s), .requestStep 8, .answer 1 (.error (.transport "gone"))] (by decide)
  obtain ⟨-, -, hsame⟩ := hfollow ⟨⟨"a", 0⟩, .step 9⟩
  obtain ⟨-, -, hother⟩ := hfollow ⟨⟨"b", 0⟩, .step 9⟩
  exact ⟨hsame.trans (by decide), hother.trans (by decide)⟩

end SpendTrace.Trace
