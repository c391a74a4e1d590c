import SpendTrace.Proofs.Trace.Supersession

/-!
# A restart forgets everything

After a start, or after a change of target, a coordinator is as good as new: its past shows in
nothing but the numbers of its requests and streams and in what had been published before. So two
coordinators with any two pasts go on alike, whatever the late work of either still brings.

* `Move.since` reads a move from a later start: late moves vanish, the others are renumbered.
* `viewSince_run_restart`: what is seen after a restart is what a new coordinator would show.
* `restart_forgets` compares two coordinators.
-/

namespace SpendTrace.Trace

open SpendTrace.Stream (Event)
open Coordinator (Issued)

/-! ## Moves, read from a restart -/

/-- The calls that discard the current trace for good. -/
def Move.isRestart : Move → Bool
  | start _ _ _ _ => true
  | changeTarget _ => true
  | _ => false

/-- A move where only what was issued after `old` is counted; there is none for a late move. -/
def Move.since (old : Issued) : Move → Option Move
  | answer i a => if i < old.requests then none else some (answer (i - old.requests) a)
  | push i e => if i < old.streams then none else some (push (i - old.streams) e)
  | cancelStream i => if i < old.streams then none else some (cancelStream (i - old.streams))
  | m => some m

/-- A move of later work, where all that was issued before counts as well. -/
def Move.renumber (old : Issued) : Move → Move
  | answer i a => answer (old.requests + i) a
  | push i e => push (old.streams + i) e
  | cancelStream i => cancelStream (old.streams + i)
  | m => m

theorem Move.isOf_of_since_eq_none {m : Move} {old : Issued} (h : m.since old = none) :
    m.isOf old = true := by
  cases m with
  | answer i a | push i e | cancelStream i =>
    simp only [since] at h
    split at h
    · next hi => exact decide_eq_true hi
    · cases h
  | start | requestStep | changeTarget | cancel | follow => cases h

theorem Move.renumber_of_since {m m' : Move} {old : Issued} (h : m.since old = some m') :
    m'.renumber old = m := by
  cases m with
  | answer i a | push i e | cancelStream i =>
    simp only [since] at h
    split at h
    · cases h
    · next hi =>
      cases h
      rw [renumber, Nat.add_sub_cancel' (Nat.le_of_not_lt hi)]
  | start | requestStep | changeTarget | cancel | follow =>
    cases h
    rfl

/-! ## One focus on top of the past of another -/

def Work.renumber (old : Issued) : Work → Work
  | nothing => nothing
  | request i target step => request (old.requests + i) target step
  | stream i target closed => stream (old.streams + i) target closed

namespace Focus

/-- The focus `g` with the past of `old`. -/
def onTop (old g : Focus) : Focus :=
  { g with
    published := old.published ++ g.published
    issued :=
      ⟨old.issued.requests + g.issued.requests, old.issued.streams + g.issued.streams⟩
    work := g.work.renumber old.issued }

variable (old g : Focus)

theorem since_onTop : (old.onTop g).work.Since old.issued := by
  cases hw : g.work with
  | nothing => simp [onTop, hw, Work.renumber, Work.Since]
  | request i t k => simp [onTop, hw, Work.renumber, Work.Since]
  | stream i t b => simp [onTop, hw, Work.renumber, Work.Since]

theorem publish_onTop (s : State) : (old.onTop g).publish s = old.onTop (g.publish s) := by
  simp only [publish, onTop, List.append_assoc]

theorem publish?_onTop (s : Option State) :
    (old.onTop g).publish? s = old.onTop (g.publish? s) := by
  cases s with
  | none => rfl
  | some s => exact publish_onTop old g s

theorem request?_onTop (i : Nat) :
    (old.onTop g).work.request? (old.issued.requests + i) = g.work.request? i := by
  cases hw : g.work <;> simp [onTop, hw, Work.renumber, Work.request?]

theorem stream?_onTop (i : Nat) :
    (old.onTop g).work.stream? (old.issued.streams + i) = g.work.stream? i := by
  cases hw : g.work <;> simp [onTop, hw, Work.renumber, Work.stream?]

theorem settle_onTop (target : Target) (step : UInt64) (a : Answer) :
    (old.onTop g).settle target step a = old.onTop (g.settle target step a) := by
  cases a with
  | ok s => exact publish_onTop old { g with shown := some (.ofAnswer target step s) } _
  | error e => exact publish_onTop old g _

theorem answer_onTop (i : Nat) (a : Answer) :
    (old.onTop g).answer (old.issued.requests + i) a = old.onTop (g.answer i a) := by
  unfold answer
  rw [request?_onTop]
  split
  · exact settle_onTop old g _ _ a
  · rfl

theorem push_onTop (i : Nat) (e : Event) :
    (old.onTop g).push (old.issued.streams + i) e = old.onTop (g.push i e) := by
  unfold push
  rw [stream?_onTop]
  split
  · next target _ => exact publish?_onTop old { g with work := .stream i target e.isClose } _
  · rfl

theorem foldl_push_onTop (i : Nat) (es : List Event) :
    es.foldl (fun f e => f.push (old.issued.streams + i) e) (old.onTop g) =
      old.onTop (es.foldl (fun f e => f.push i e) g) := by
  induction es generalizing g with
  | nil => rfl
  | cons e es ih => rw [List.foldl_cons, List.foldl_cons, push_onTop, ih]

theorem openStream_onTop (target : Target) (eager : List Event) :
    (old.onTop g).openStream target eager = old.onTop (g.openStream target eager) :=
  foldl_push_onTop old
    { g with
      issued := ⟨g.issued.requests, g.issued.streams + 1⟩
      work := .stream g.issued.streams target false }
    g.issued.streams eager

theorem start_onTop (target : Target) (mode : Mode) (step : UInt64) (eager : List Event) :
    (old.onTop g).start target mode step eager = old.onTop (g.start target mode step eager) := by
  have hreset := publish_onTop old (g.reset target)
  cases mode with
  | stepped => exact congrArg (spawnRequest · target step) (hreset _)
  | streamed =>
    exact (congrArg (openStream · target eager) (hreset _)).trans
      (openStream_onTop old _ target eager)

theorem requestStep_onTop (step : UInt64) :
    (old.onTop g).requestStep step = old.onTop (g.requestStep step) := by
  by_cases hs : g.state.mode? = some .stepped
  · have hs' : (old.onTop g).state.mode? = some .stepped := hs
    obtain ⟨t, ht, hstep⟩ := requestStep_of_stepped hs step
    obtain ⟨t', ht', hstep'⟩ := requestStep_of_stepped hs' step
    have htt : t' = t := Option.some.inj (ht'.symm.trans ht)
    rw [hstep, hstep', htt]
    exact congrArg (spawnRequest · t step) (publish_onTop old { g with work := .nothing } _)
  · rw [requestStep_of_not_stepped hs,
      requestStep_of_not_stepped (show (old.onTop g).state.mode? ≠ _ from hs)]

theorem follow_onTop (l : Link) (eager : List Event) :
    (old.onTop g).follow l eager = old.onTop (g.follow l eager) := by
  unfold follow
  rw [show (old.onTop g).state = g.state from rfl]
  split
  · exact requestStep_onTop old g _
  · have hchange : (old.onTop g).changeTarget l.target = old.onTop (g.changeTarget l.target) :=
      publish_onTop old (g.reset l.target) .idle
    rw [hchange]
    exact start_onTop old _ _ _ _ eager

/-- A focus goes on the same on top of any past, with the moves renumbered. -/
theorem move_onTop (m : Move) :
    (old.onTop g).move (m.renumber old.issued) = old.onTop (g.move m) := by
  cases m with
  | start target mode step eager => exact start_onTop old g target mode step eager
  | requestStep step => exact requestStep_onTop old g step
  | changeTarget target => exact publish_onTop old (g.reset target) .idle
  | cancel => exact publish?_onTop old { g with work := .nothing } _
  | follow link eager => exact follow_onTop old g link eager
  | answer i a => exact answer_onTop old g i a
  | push i e => exact push_onTop old g i e
  | cancelStream i => exact push_onTop old g i _

/-- Late moves vanish in a run, and the others go on as they would without the past. -/
theorem run_onTop (ms : List Move) :
    (old.onTop g).run ms = old.onTop (g.run (ms.filterMap (Move.since old.issued))) := by
  induction ms generalizing g with
  | nil => rfl
  | cons m ms ih =>
    cases hm : m.since old.issued with
    | none =>
      have hskip := move_of_isOf (since_onTop old g) (Move.isOf_of_since_eq_none hm)
      rw [List.filterMap_cons_none hm, ← ih g]
      exact congrArg (run · ms) hskip
    | some m' =>
      have hmove := move_onTop old g m'
      rw [Move.renumber_of_since hm] at hmove
      rw [List.filterMap_cons_some hm]
      exact (congrArg (run · ms) hmove).trans (ih (g.move m'))

/-- A restart leaves the past behind. -/
theorem move_restart (f : Focus) {m : Move} (hm : m.isRestart = true) :
    f.move m = f.onTop (move {} m) := by
  have hreset : ∀ t s, (f.reset t).publish s = f.onTop ((reset {} t).publish s) := fun _ _ => rfl
  cases m with
  | start target mode step eager =>
    cases mode with
    | stepped => exact congrArg (spawnRequest · target step) (hreset target _)
    | streamed =>
      exact (congrArg (openStream · target eager) (hreset target _)).trans
        (openStream_onTop f _ target eager)
  | changeTarget target => exact hreset target .idle
  | requestStep | cancel | follow | answer | push | cancelStream => cases hm

theorem run_restart (before after : List Move) {m : Move} (hm : m.isRestart = true) :
    run {} (before ++ m :: after) = (run {} before).onTop
      (run {} (m :: after.filterMap (Move.since (run {} before).issued))) := by
  rw [run_append]
  show ((run {} before).move m).run after = _
  rw [move_restart _ hm, run_onTop]
  rfl

end Focus

/-! ## Two coordinators -/

/-- Whether a step is refused, and why, is a matter of the state alone. -/
theorem Coordinator.refusal_congr {c d : Coordinator} (h : c.state = d.state) (step : UInt64) :
    c.refusal step = d.refusal step := by
  rw [refusal_eq, refusal_eq, h]

/-- What is seen since a restart is what a new focus shows. -/
theorem viewSince_run_restart {before after : List Move} {m : Move} (hm : m.isRestart = true)
    (h : calls (before ++ m :: after) < callLimit) :
    ((Coordinator.run {} before).run (m :: after)).viewSince (Coordinator.run {} before) =
      (Focus.run {} (m :: after.filterMap
        (Move.since (Coordinator.run {} before).issued))).view := by
  have hcalls := calls_append before (m :: after)
  have hbefore := tracks_run_new before (by omega)
  have hall := tracks_run_new (before ++ m :: after) h
  rw [Coordinator.run_append, Focus.run_restart before after hm, ← hbefore.issued_eq] at hall
  rw [Coordinator.viewSince, hall.view_eq, hall.published_eq, hbefore.published_eq]
  simp only [Focus.onTop, Focus.view, List.drop_left]

/-- **A restart forgets everything.** Two coordinators with any two pasts are restarted by the same
call. From then on they see the same calls and whatever the work issued since brings, in the same
order; in between, each may see anything that its own earlier work still brings. Then they publish
the same states since the restart, and agree on all that can be seen and on every request for a
step. As the runs behind the restart may end anywhere, this holds at every point of them. -/
theorem restart_forgets {before₁ before₂ after₁ after₂ : List Move} {m : Move}
    (hm : m.isRestart = true)
    (hsame : after₁.filterMap (Move.since (Coordinator.run {} before₁).issued) =
      after₂.filterMap (Move.since (Coordinator.run {} before₂).issued))
    (h₁ : calls (before₁ ++ m :: after₁) < callLimit)
    (h₂ : calls (before₂ ++ m :: after₂) < callLimit) :
    let c₁ := Coordinator.run {} before₁
    let c₂ := Coordinator.run {} before₂
    let d₁ := c₁.run (m :: after₁)
    let d₂ := c₂.run (m :: after₂)
    d₁.viewSince c₁ = d₂.viewSince c₂ ∧ ∀ step, d₁.refusal step = d₂.refusal step := by
  intro c₁ c₂ d₁ d₂
  have hview : d₁.viewSince c₁ = d₂.viewSince c₂ := by
    rw [viewSince_run_restart hm h₁, viewSince_run_restart hm h₂, hsame]
  exact ⟨hview, Coordinator.refusal_congr (congrArg Coordinator.View.state hview)⟩

/-- One coordinator had asked for a step, the other had cancelled a stream. -/
theorem restart_forgets_request_and_stream :
    let c₁ := Coordinator.run {} [.start ⟨"a", 0⟩ .stepped 3 []]
    let c₂ := Coordinator.run {} [.start ⟨"b", 1⟩ .streamed 0 [], .cancel]
    let d₁ := c₁.run [.changeTarget ⟨"c", 2⟩, .answer 0 (.error .notFound),
      .start ⟨"c", 2⟩ .stepped 0 [], .answer 1 (.error .notFound)]
    let d₂ := c₂.run [.changeTarget ⟨"c", 2⟩, .start ⟨"c", 2⟩ .stepped 0 [],
      .push 0 (.close .completed), .answer 0 (.error .notFound)]
    d₁.viewSince c₁ = d₂.viewSince c₂ ∧ ∀ step, d₁.refusal step = d₂.refusal step :=
  restart_forgets rfl rfl (by decide) (by decide)

end SpendTrace.Trace
