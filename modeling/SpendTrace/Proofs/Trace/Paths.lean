import SpendTrace.Proofs.Trace.Attending
import SpendTrace.Proofs.Trace.Calls

/-!
# The way to a step does not matter

A step of a stepped trace can be reached in many ways: by a start, by a request from any state of
the trace, by a link from within or from without. Whatever the way, what is displayed in the end is
settled by the target, the step and the answer alone.

* `Coordinator.Asks`: the ways to ask for a step. Each of them makes a request that counts.
* `Coordinator.display_answer`: what the answer to a request that counts displays.
* `Coordinator.display_fetched_again`: a step that is asked for again looks as it did.
* `stepping_is_path_independent` is the main statement.
-/

namespace SpendTrace.Trace

open Script (Snapshot)
open SpendTrace.Stream (Event)

namespace Coordinator

/-- What is displayed: the state, as it is and as it was published last, and where one can go. -/
structure Display where
  watched : State
  state : State
  navigation : Option Navigation
  deriving DecidableEq

def display (c : Coordinator) : Display :=
  ⟨c.watched, c.state, c.navigation⟩

/-- The moves that ask for a step of a target. -/
inductive Asks (c : Coordinator) (target : Target) (step : UInt64) : Move → Prop where
  | start (eager : List Event) : c.Asks target step (.start target .stepped step eager)
  | requestStep (htarget : c.state.target? = some target) (hmode : c.state.mode? = some .stepped) :
    c.Asks target step (.requestStep step)
  | follow (eager : List Event) : c.Asks target step (.follow ⟨target, .step step⟩ eager)

/-- The coordinator once it has asked for something and has got its answer. -/
def fetched (c : Coordinator) (m : Move) (a : Answer) : Coordinator :=
  c.run [m, .answer c.requests.length a]

/-- What a new coordinator displays when it is started at a step and gets its answer. -/
def firstDisplay (target : Target) (step : UInt64) (a : Answer) : Display :=
  (fetched {} (.start target .stepped step []) a).display

/-- Where the link to the next step leads, if there is one. -/
def next? (c : Coordinator) : Option Link :=
  c.navigation.bind Navigation.next

/-- Where the link to the previous step leads, if there is one. -/
def previous? (c : Coordinator) : Option Link :=
  c.navigation.bind Navigation.previous

variable {c : Coordinator} {target : Target} {step : UInt64} {m : Move}

/-! ## The answer to a request -/

theorem firstDisplay_eq (target : Target) (step : UInt64) (a : Answer) :
    firstDisplay target step a =
      ⟨.ofAnswer target step a, .ofAnswer target step a,
        (State.ofAnswer target step a).navigation⟩ := rfl

/-- A snapshot that carries its number is displayed the same whatever step was asked for. -/
theorem firstDisplay_of_numbered {s : Snapshot} {number : UInt64} (h : s.step = some number)
    {step' : UInt64} :
    firstDisplay target step (.ok s) = firstDisplay target step' (.ok s) := by
  simp only [firstDisplay_eq, State.ofAnswer, Ready.ofAnswer, h, Option.getD_some]

/-- The answer to a request that counts displays what it would display to a new coordinator. -/
theorem display_answer {i : Nat} (h : c.currentRequest? i = some (target, step)) (a : Answer) :
    (c.move (.answer i a)).display = firstDisplay target step a := by
  simp only [currentRequest?, Option.bind_eq_some_iff, Option.ite_none_right_eq_some,
    Option.some.injEq, Prod.mk.injEq] at h
  obtain ⟨r, hr, hgeneration, rfl, rfl⟩ := h
  have happly : c.applyAnswer r a = publish _ (.ofAnswer r.target r.step a) := if_pos hgeneration
  rw [c.move_answer_some hr, happly, firstDisplay_eq, display, watched_publish]
  rfl

/-! ## Asking for a step -/

theorem currentRequest?_spawnRequest (c : Coordinator) (target : Target) (step : UInt64) :
    (c.spawnRequest target step).currentRequest? c.requests.length = some (target, step) := by
  simp [currentRequest?, spawnRequest]

theorem currentRequest?_start (c : Coordinator) (target : Target) (step : UInt64) :
    (c.start target .stepped step).currentRequest? c.requests.length = some (target, step) := by
  have hspawn := currentRequest?_spawnRequest
    (c.cleared target (.loading target .stepped (some step))) target step
  rwa [length_requests_cleared] at hspawn

/-- The request that is made by asking for a step counts, whatever was before. -/
theorem Asks.currentRequest?_eq (h : c.Asks target step m) :
    (c.move m).currentRequest? c.requests.length = some (target, step) := by
  cases h with
  | start eager => exact currentRequest?_start (c.expecting eager) target step
  | requestStep htarget hmode =>
    rw [move, requestStep_of_stepped htarget hmode step]
    exact currentRequest?_spawnRequest (c.nextGeneration.publish _) target step
  | follow eager =>
    show ((c.expecting eager).follow ⟨target, .step step⟩).currentRequest? _ = _
    cases hin : (c.expecting eager).isInPlace ⟨target, .step step⟩ with
    | true =>
      obtain ⟨-, htarget, hmode⟩ := isInPlace_iff.1 hin
      have hfollow := requestStep_of_isInPlace hin
      rw [requestStep_of_stepped htarget hmode] at hfollow
      rw [← (Prod.mk.inj hfollow).1]
      exact currentRequest?_spawnRequest ((c.expecting eager).nextGeneration.publish _) target step
    | false =>
      -- The trace is given up twice, which changes nothing that the request depends on.
      rw [follow_of_not_isInPlace hin, changeTarget_eq]
      have hstart := currentRequest?_start ((c.expecting eager).cleared target .idle) target step
      rwa [length_requests_cleared] at hstart

/-- However a step is asked for, its answer displays what it would display to a new coordinator. -/
theorem display_fetched (h : c.Asks target step m) (a : Answer) :
    (c.fetched m a).display = firstDisplay target step a :=
  display_answer h.currentRequest?_eq a

end Coordinator

/-! ## What is on display came as an answer -/

/-- What is shown is what its own snapshot would show as the answer to a request for its step. -/
def Ready.IsAnswer (r : Ready) : Prop :=
  .ofAnswer r.target r.step r.snapshot = r

theorem Ready.isAnswer_ofAnswer (target : Target) (step : UInt64) (s : Snapshot) :
    (Ready.ofAnswer target step s).IsAnswer := by
  cases hs : s.step <;> simp [Ready.IsAnswer, Ready.ofAnswer, hs]

namespace Focus

/-- What is remembered came as an answer. -/
def ShowsAnswers (f : Focus) : Prop :=
  ∀ r ∈ f.shown, r.IsAnswer

variable {f : Focus}

theorem showsAnswers_new : ShowsAnswers {} :=
  fun r hr => absurd hr (Option.not_mem_none r)

theorem shown_publish? (f : Focus) (s : Option State) : (f.publish? s).shown = f.shown := by
  cases s <;> rfl

theorem shown_push (f : Focus) (i : Nat) (e : Event) : (f.push i e).shown = f.shown := by
  unfold push
  split
  · rw [shown_publish?]
  · rfl

theorem shown_foldl_push (f : Focus) (i : Nat) (es : List Event) :
    (es.foldl (fun f e => f.push i e) f).shown = f.shown := by
  induction es generalizing f with
  | nil => rfl
  | cons e es ih => exact (ih (f.push i e)).trans (f.shown_push i e)

theorem shown_start (f : Focus) (target : Target) (mode : Mode) (step : UInt64)
    (eager : List Event) : (f.start target mode step eager).shown = none := by
  cases mode with
  | stepped => rfl
  | streamed => exact shown_foldl_push _ _ _

theorem shown_requestStep (f : Focus) (step : UInt64) : (f.requestStep step).shown = f.shown := by
  unfold requestStep
  split <;> rfl

theorem ShowsAnswers.congr {g : Focus} (h : f.ShowsAnswers) (hshown : g.shown = f.shown) :
    g.ShowsAnswers := by
  unfold ShowsAnswers
  rwa [hshown]

theorem showsAnswers_start (f : Focus) (target : Target) (mode : Mode) (step : UInt64)
    (eager : List Event) : (f.start target mode step eager).ShowsAnswers := by
  simp [ShowsAnswers, shown_start]

/-- Nothing but the answer to a request changes what is remembered, other than to forget it. -/
theorem ShowsAnswers.move (h : f.ShowsAnswers) (m : Move) : (f.move m).ShowsAnswers := by
  cases m with
  | start target mode step eager => exact showsAnswers_start f target mode step eager
  | requestStep step => exact h.congr (f.shown_requestStep step)
  | changeTarget target => exact fun r hr => absurd hr (Option.not_mem_none r)
  | cancel => exact h.congr (shown_publish? _ _)
  | follow link eager =>
    show (f.follow link eager).ShowsAnswers
    unfold follow
    split
    · exact h.congr (f.shown_requestStep _)
    · exact showsAnswers_start _ _ _ _ _
  | answer i a =>
    show (f.answer i a).ShowsAnswers
    unfold answer
    split
    · cases a with
      | ok s =>
        rintro r ⟨⟩
        exact Ready.isAnswer_ofAnswer _ _ _
      | error e => exact h
    · exact h
  | push i e => exact h.congr (f.shown_push i e)
  | cancelStream i => exact h.congr (f.shown_push i _)

theorem ShowsAnswers.run (h : f.ShowsAnswers) (ms : List Move) : (f.run ms).ShowsAnswers := by
  induction ms generalizing f with
  | nil => exact h
  | cons m ms ih => exact ih (h.move m)

end Focus

namespace Coordinator

variable {ms : List Move} {c : Coordinator} {target : Target} {step : UInt64} {r : Ready}

/-- A snapshot of a stepped trace on display is what an answer to a request for its step shows. -/
theorem display_of_ready (h : calls ms < callLimit) (hr : (run {} ms).state = .ready r)
    (hmode : r.mode = .stepped) :
    (run {} ms).display = firstDisplay r.target r.step (.ok r.snapshot) := by
  have htracks := tracks_run_new ms h
  have hsound := Focus.sound_new.run ms
  have hanswers : (Focus.run {} ms).ShowsAnswers := Focus.showsAnswers_new.run ms
  have hstate : (Focus.run {} ms).state = .ready r := htracks.state_eq.symm.trans hr
  have hwatched : (run {} ms).watched = .ready r := by
    rw [watched, htracks.published_eq, hsound.watched_eq, hstate]
  have hanswer : r.IsAnswer := hanswers r (hsound.view.shown_of_stepped r hstate hmode)
  rw [firstDisplay_eq, State.ofAnswer, hanswer]
  simp only [display, navigation, hwatched, hr]

/-- A step that was on display looks as it did when it is asked for again, whatever lies between,
if it is answered with the same snapshot. -/
theorem display_fetched_again (h : calls ms < callLimit) (hr : (run {} ms).state = .ready r)
    (hmode : r.mode = .stepped) {m : Move} (hm : c.Asks r.target r.step m) :
    (c.fetched m (.ok r.snapshot)).display = (run {} ms).display :=
  (display_fetched hm _).trans (display_of_ready h hr hmode).symm

/-! ## Forth and back -/

/-- Only a snapshot of a stepped trace has a next step, and the link to it leads there. -/
theorem next?_eq_some (hr : c.state = .ready r) {l : Link} (hl : c.next? = some l) :
    r.mode = .stepped ∧ r.step.toNat + 1 < UInt64.size ∧ l = r.linkTo (r.step + 1) := by
  simp only [next?, navigation, hr, State.navigation, State.ready?, Option.bind_some,
    Ready.navigation] at hl
  cases hmode : r.mode with
  | streamed => simp [hmode] at hl
  | stepped =>
    simp only [hmode, Option.bind_some] at hl
    split at hl
    · split at hl
      · next hlt => exact ⟨rfl, hlt, (Option.some.inj hl).symm⟩
      · cases hl
    · cases hl

/-- The way back from a step that was displayed by an answer. -/
theorem previous?_of_display {s : Snapshot} (h : c.display = firstDisplay target step (.ok s)) :
    c.previous? = if s.step.getD step = 0 then none
      else some ⟨target, .step (s.step.getD step - 1)⟩ := by
  have hnavigation : c.navigation = (Ready.ofAnswer target step s).navigation :=
    congrArg Display.navigation h
  simp only [previous?, hnavigation, Ready.navigation, Ready.ofAnswer, Option.bind_some]
  rfl

/-- A link to a previous step is one to a step, of the target that is on display. -/
theorem previous?_eq_linkTo {s : Snapshot} {k : UInt64} {p : Link}
    (h : c.display = firstDisplay r.target k (.ok s)) (hp : c.previous? = some p) :
    ∃ j, p = r.linkTo j := by
  rw [previous?_of_display h] at hp
  split at hp
  · cases hp
  · exact ⟨_, (Option.some.inj hp).symm⟩

/-- One step forth and one step back display what was displayed before, when the same snapshot is
got again. If it carries no number of its own, it has to be the answer to the same request. -/
theorem display_forth_and_back (h : calls ms < callLimit) (hr : (run {} ms).state = .ready r)
    {l : Link} (hl : (run {} ms).next? = some l) (forth back : List Event) (s : Snapshot) :
    let d := (run {} ms).fetched (.follow l forth) (.ok s)
    (s.step.getD (r.step + 1) = r.step + 1 → d.previous? = some (r.linkTo r.step)) ∧
      ∀ p, d.previous? = some p → (r.snapshot.step = none → p = r.linkTo r.step) →
        (d.fetched (.follow p back) (.ok r.snapshot)).display = (run {} ms).display := by
  intro d
  obtain ⟨hmode, hlt, rfl⟩ := next?_eq_some hr hl
  have hd : d.display = firstDisplay r.target (r.step + 1) (.ok s) :=
    display_fetched (.follow forth) _
  refine ⟨fun hs => ?_, fun p hp hsame => ?_⟩
  · have hpositive : r.step + 1 ≠ 0 := by
      intro hzero
      have hnat : (r.step + 1).toNat = 0 := congrArg UInt64.toNat hzero
      rw [toNat_add_one hlt] at hnat
      omega
    rw [previous?_of_display hd, hs, if_neg hpositive, UInt64.add_sub_cancel]
    rfl
  · obtain ⟨j, rfl⟩ := previous?_eq_linkTo hd hp
    -- A snapshot that carries its number is shown under it whatever step it was got for.
    cases hnumber : r.snapshot.step with
    | none =>
      obtain rfl : j = r.step := Link.View.step.inj (congrArg Link.view (hsame hnumber))
      exact display_fetched_again h hr hmode (.follow back)
    | some number =>
      have hback : (d.fetched (.follow (r.linkTo j) back) (.ok r.snapshot)).display =
          firstDisplay r.target j (.ok r.snapshot) := display_fetched (.follow back) _
      rw [hback, display_of_ready h hr hmode]
      exact firstDisplay_of_numbered hnumber

end Coordinator

/-! ## Runs -/

/-- While a step is loading, the request that was made last counts, and it is for that step. -/
theorem Coordinator.currentRequest?_of_loading {ms : List Move} (h : calls ms < callLimit)
    {target : Target} {step : Option UInt64}
    (hloading : (run {} ms).state = .loading target .stepped step) :
    ∃ i k, (run {} ms).requests.length = i + 1 ∧ step = some k ∧
      (run {} ms).currentRequest? i = some (target, k) := by
  have htracks := tracks_run_new ms h
  have hattends := Focus.attends_new.run ms
  have hawaited : (Focus.run {} ms).state.awaited? = some (target, step) := by
    rw [← htracks.state_eq, hloading]
    rfl
  obtain ⟨i, k, hissued, hstep, hwork⟩ := hattends.request target step hawaited
  rw [← htracks.issued_eq] at hissued
  refine ⟨i, k, hissued, hstep, ?_⟩
  rw [htracks.request_eq, hwork]
  exact if_pos rfl

/-- **The way to a step does not matter.** After any run, the answer to a request that counts
displays what it would display to a new coordinator that is started at that step. Every way of
asking for a step makes such a request, and a step that is asked for twice, whatever way, is
displayed as it was. Unless the generations come round, whatever step is loading has a request that
counts, and one step forth and one step back display what was displayed before: the way back is
there if the snapshot in between is numbered as it was asked for or not at all, and it leads back
whenever the source gives the snapshot again, under the number that it had. -/
theorem stepping_is_path_independent (ms : List Move) :
    let c := Coordinator.run {} ms
    (∀ i target step, c.currentRequest? i = some (target, step) →
      ∀ a, (c.move (.answer i a)).display = Coordinator.firstDisplay target step a) ∧
    (∀ target step m, c.Asks target step m →
      (c.move m).currentRequest? c.requests.length = some (target, step) ∧
      ∀ a m', (c.fetched m a).Asks target step m' →
        ((c.fetched m a).fetched m' a).display = (c.fetched m a).display) ∧
    (calls ms < callLimit →
      (∀ target step, c.state = .loading target .stepped step →
        ∃ i k, c.requests.length = i + 1 ∧ step = some k ∧
          c.currentRequest? i = some (target, k)) ∧
      ∀ r l, c.state = .ready r → c.next? = some l → ∀ s forth back,
        let d := c.fetched (.follow l forth) (.ok s)
        (s.step.getD (r.step + 1) = r.step + 1 → d.previous? = some (r.linkTo r.step)) ∧
        ∀ p, d.previous? = some p → (r.snapshot.step = none → p = r.linkTo r.step) →
          (d.fetched (.follow p back) (.ok r.snapshot)).display = c.display) := by
  intro c
  refine ⟨fun i target step hcurrent a => Coordinator.display_answer hcurrent a, ?_, fun h => ?_⟩
  · intro target step m hm
    refine ⟨hm.currentRequest?_eq, fun a m' hm' => ?_⟩
    rw [Coordinator.display_fetched hm' a, Coordinator.display_fetched hm a]
  · refine ⟨fun target step => Coordinator.currentRequest?_of_loading h, ?_⟩
    intro r l hr hl s forth back
    exact Coordinator.display_forth_and_back h hr hl forth back s

/-- The fifth step is displayed again after a cancel, and then left and reached again by links. -/
theorem stepping_forth_and_back_after_cancel :
    let s : Snapshot := ⟨.locking, .pending, none, [], [], [], none, none, none, [], []⟩
    let t : Snapshot := ⟨.locking, .result true, some 6, [], [], [], none, none, none, [], []⟩
    let c := Coordinator.run {} [.start ⟨"a", 0⟩ .stepped 3 [], .requestStep 5, .answer 1 (.ok s),
      .requestStep 8, .cancel]
    let d := c.fetched (.follow ⟨⟨"a", 0⟩, .step 6⟩ []) (.ok t)
    c.state = .ready ⟨⟨"a", 0⟩, .stepped, 5, s, none⟩ ∧
      d.previous? = some ⟨⟨"a", 0⟩, .step 5⟩ ∧
      (d.fetched (.follow ⟨⟨"a", 0⟩, .step 5⟩ []) (.ok s)).display = c.display := by
  intro s t c d
  have hstate : c.state = .ready ⟨⟨"a", 0⟩, .stepped, 5, s, none⟩ := rfl
  obtain ⟨-, -, hpaths⟩ := stepping_is_path_independent [.start ⟨"a", 0⟩ .stepped 3 [],
    .requestStep 5, .answer 1 (.ok s), .requestStep 8, .cancel]
  obtain ⟨-, hneighbours⟩ := hpaths (by decide)
  obtain ⟨hprevious, hback⟩ := hneighbours _ ⟨⟨"a", 0⟩, .step 6⟩ hstate rfl t [] []
  exact ⟨hstate, hprevious rfl, hback _ (hprevious rfl) fun _ => rfl⟩

end SpendTrace.Trace
