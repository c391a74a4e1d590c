import SpendTrace.Proofs.Trace.Tracking

/-!
# Superseded work is never seen

Most calls make all earlier work pointless. Whatever that work brings later on, in whatever order
and however often, it publishes nothing and changes nothing that can be seen: the run might as well
have gone without it.

* `Course` keeps, along a run, how much had been issued when the last such call was made.
* `Course.prune` erases from a run all that superseded work brings.
* `superseded_work_is_never_seen` is the main statement.
-/

namespace SpendTrace.Trace

open SpendTrace.Stream (Event)
open Coordinator (Issued)

/-! ## What supersedes what -/

/-- Whether a move makes all earlier work pointless. A request for a step does if it is granted. -/
def Coordinator.supersedes (c : Coordinator) : Move → Bool
  | .start _ _ _ _ => true
  | .requestStep step => (c.refusal step).isNone
  | .changeTarget _ => true
  | .cancel => true
  | .follow _ _ => true
  | .answer _ _ => false
  | .push _ _ => false
  | .cancelStream _ => false

/-- A run so far: the coordinator, and what had been issued when the last move was made that
superseded anything. -/
structure Course where
  coordinator : Coordinator := {}
  superseded : Issued := {}

namespace Course

def move (k : Course) (m : Move) : Course :=
  ⟨k.coordinator.move m,
    if k.coordinator.supersedes m then k.coordinator.issued else k.superseded⟩

def run (k : Course) (ms : List Move) : Course :=
  ms.foldl move k

/-- Whether a move is brought by superseded work. -/
def isLate (k : Course) (m : Move) : Bool :=
  m.isOf k.superseded

/-- The run without all that superseded work brings. -/
def prune : Course → List Move → List Move
  | _, [] => []
  | k, m :: ms => if k.isLate m then (k.move m).prune ms else m :: (k.move m).prune ms

end Course

/-! ## The work that counts is never superseded -/

/-- The work is none of what was issued first. -/
def Work.Since (old : Issued) : Work → Prop
  | nothing => True
  | request i _ _ => old.requests ≤ i
  | stream i _ _ => old.streams ≤ i

namespace Focus

variable {f : Focus} {old : Issued}

/-- What superseded work brings is not even looked at. -/
theorem move_of_isOf (hw : f.work.Since old) {m : Move} (hm : m.isOf old = true) :
    f.move m = f := by
  have hpush : ∀ i e, i < old.streams → f.push i e = f := by
    intro i e hi
    have hnone : f.work.stream? i = none := by
      cases hwork : f.work with
      | nothing => rfl
      | request => rfl
      | stream j t closed =>
        rw [hwork] at hw
        exact if_neg (Nat.ne_of_lt (Nat.lt_of_lt_of_le hi hw))
    rw [push, hnone]
  cases m with
  | answer i a =>
    have hi : i < old.requests := of_decide_eq_true hm
    have hnone : f.work.request? i = none := by
      cases hwork : f.work with
      | nothing => rfl
      | request j t k =>
        rw [hwork] at hw
        exact if_neg (Nat.ne_of_lt (Nat.lt_of_lt_of_le hi hw))
      | stream => rfl
    rw [move, answer, hnone]
  | push i e => exact hpush i e (of_decide_eq_true hm)
  | cancelStream i => exact hpush i _ (of_decide_eq_true hm)
  | start | requestStep | changeTarget | cancel | follow => cases hm

theorem work_publish? (f : Focus) (s : Option State) : (f.publish? s).work = f.work := by
  cases s <;> rfl

theorem since_push (hw : f.work.Since old) (i : Nat) (e : Event) :
    (f.push i e).work.Since old := by
  unfold push
  split
  · next target hstream =>
    rw [work_publish?]
    rw [Work.eq_stream hstream] at hw
    exact hw
  · exact hw

theorem since_foldl_push (hw : f.work.Since old) (i : Nat) (es : List Event) :
    (es.foldl (fun f e => f.push i e) f).work.Since old := by
  induction es generalizing f with
  | nil => exact hw
  | cons e es ih => exact ih (since_push hw i e)

theorem since_openStream (f : Focus) (target : Target) (eager : List Event) :
    (f.openStream target eager).work.Since f.issued := by
  refine since_foldl_push ?_ _ _
  exact Nat.le_refl f.issued.streams

theorem since_start (f : Focus) (target : Target) (mode : Mode) (step : UInt64)
    (eager : List Event) : (f.start target mode step eager).work.Since f.issued := by
  cases mode with
  | stepped => exact Nat.le_refl _
  | streamed => exact since_openStream _ target eager

theorem requestStep_of_stepped (hs : f.state.mode? = some .stepped) (step : UInt64) :
    ∃ target, f.state.target? = some target ∧ f.requestStep step =
      (publish { f with work := .nothing }
        (.loading target .stepped (some step))).spawnRequest target step := by
  cases hstate : f.state with
  | idle => simp [hstate, State.mode?] at hs
  | loading | ready | failed =>
    rw [hstate] at hs
    exact ⟨_, rfl, by rw [requestStep, hstate, hs]; rfl⟩

theorem requestStep_of_not_stepped (hs : f.state.mode? ≠ some .stepped) (step : UInt64) :
    f.requestStep step = f := by
  unfold requestStep
  split
  · next hmode => exact absurd hmode hs
  · rfl

theorem since_requestStep (hs : f.state.mode? = some .stepped) (step : UInt64) :
    (f.requestStep step).work.Since f.issued := by
  obtain ⟨target, -, hstep⟩ := requestStep_of_stepped hs step
  rw [hstep]
  exact Nat.le_refl _

theorem since_follow (f : Focus) (l : Link) (eager : List Event) :
    (f.follow l eager).work.Since f.issued := by
  unfold follow
  split
  · next hin => exact since_requestStep hin.2.2 _
  · exact since_start (f.changeTarget l.target) _ _ _ _

end Focus

/-- Whether a step is granted depends on the mode of the trace alone. -/
theorem Coordinator.refusal_eq (c : Coordinator) (step : UInt64) :
    c.refusal step = c.state.mode?.elim (some .notStarted)
      fun mode => if mode = .stepped then none else some .notStepped := by
  unfold refusal requestStep
  cases c.state with
  | idle => simp [State.target?, State.mode?]
  | loading target mode k => cases mode <;> simp [State.target?, State.mode?]
  | ready r => cases hm : r.mode <;> simp [State.target?, State.mode?, hm]
  | failed target mode e => cases mode <;> simp [State.target?, State.mode?]

/-- A step is granted exactly where there is a stepped trace. -/
theorem Coordinator.refusal_eq_none_iff (c : Coordinator) (step : UInt64) :
    c.refusal step = none ↔ c.state.mode? = some .stepped := by
  rw [refusal_eq]
  cases c.state.mode? <;> simp

/-- With each move, the work that counts has been issued by the last superseding move or later. -/
theorem Tracks.since_move {n : Nat} {c : Coordinator} {f : Focus} {old : Issued}
    (h : Tracks n c f) (hw : f.work.Since old) (m : Move) :
    (f.move m).work.Since (if c.supersedes m then c.issued else old) := by
  rw [h.issued_eq]
  cases m with
  | start target mode step eager => exact f.since_start target mode step eager
  | requestStep step =>
    by_cases hs : c.state.mode? = some .stepped
    · have hnone := (c.refusal_eq_none_iff step).2 hs
      rw [Coordinator.supersedes, hnone]
      rw [h.state_eq] at hs
      exact Focus.since_requestStep hs step
    · have hsome := mt (c.refusal_eq_none_iff step).1 hs
      rw [h.state_eq] at hs
      have hsup : c.supersedes (.requestStep step) = false :=
        Bool.eq_false_iff.2 fun he => hsome (Option.isNone_iff_eq_none.1 he)
      rw [hsup, Focus.move, Focus.requestStep_of_not_stepped hs]
      exact hw
  | changeTarget target => exact trivial
  | cancel =>
    show (f.cancel).work.Since f.issued
    rw [Focus.cancel, Focus.work_publish?]
    exact trivial
  | follow link eager => exact f.since_follow link eager
  | answer i a =>
    show (f.answer i a).work.Since old
    unfold Focus.answer
    split <;> exact hw
  | push i e => exact Focus.since_push hw i e
  | cancelStream i => exact Focus.since_push hw i _

namespace Course

/-- The focus follows the course, and the work that counts is not superseded. -/
structure Tracked (n : Nat) (k : Course) (f : Focus) : Prop where
  tracks : Tracks n k.coordinator f
  since : f.work.Since k.superseded

variable {n : Nat} {k : Course} {f : Focus}

theorem Tracked.init : Tracked 0 {} {} := ⟨Tracks.init, trivial⟩

theorem Tracked.move (h : Tracked n k f) (m : Move) (hn : n + 2 * calls [m] < UInt64.size) :
    Tracked (n + 2 * calls [m]) (k.move m) (f.move m) :=
  ⟨tracks_move h.tracks m hn, h.tracks.since_move h.since m⟩

theorem Tracked.run (h : Tracked n k f) (ms : List Move) (hn : n + 2 * calls ms < UInt64.size) :
    Tracked (n + 2 * calls ms) (k.run ms) (f.run ms) := by
  induction ms generalizing n k f with
  | nil => exact h
  | cons m ms ih =>
    rw [add_two_mul_calls_cons] at hn ⊢
    exact ih (h.move m (by omega)) hn

/-! ## Runs without late moves -/

theorem calls_prune_le (k : Course) (ms : List Move) : calls (k.prune ms) ≤ calls ms := by
  induction ms generalizing k with
  | nil => exact Nat.le_refl _
  | cons m ms ih =>
    have hih := ih (k.move m)
    have hcons := calls_cons m ms
    unfold prune
    split
    · omega
    · rw [calls_cons m ((k.move m).prune ms)]
      omega

/-- A focus that follows the whole run follows the pruned one as well. -/
theorem Tracked.run_prune (h : Tracked n k f) (ms : List Move)
    (hn : n + 2 * calls ms < UInt64.size) : f.run (k.prune ms) = f.run ms := by
  induction ms generalizing n k f with
  | nil => rfl
  | cons m ms ih =>
    rw [add_two_mul_calls_cons] at hn
    have hrest := ih (h.move m (by omega)) hn
    unfold prune
    split
    · next hlate =>
      have hskip := Focus.move_of_isOf h.since hlate
      rw [hskip] at hrest
      rw [hrest, Focus.run, Focus.run, List.foldl_cons, hskip]
    · exact hrest

end Course

/-- **Superseded work is never seen.** In any run, whatever is brought by work that was issued
before the last superseding move publishes nothing and changes nothing that can be seen, and the run
without all of that publishes the same states and ends with the same view. -/
theorem superseded_work_is_never_seen (ms : List Move) (h : calls ms < callLimit) :
    (∀ before m after, ms = before ++ m :: after → (Course.run {} before).isLate m = true →
      (Coordinator.run {} (before ++ [m])).view = (Coordinator.run {} before).view) ∧
    (Coordinator.run {} (Course.prune {} ms)).view = (Coordinator.run {} ms).view := by
  have hsize : UInt64.size = 2 * callLimit := rfl
  constructor
  · intro before m after hms hlate
    have hcalls : calls ms = calls before + calls (m :: after) := by rw [hms, calls_append]
    have hm : calls [m] = 0 := calls_of_isOf hlate
    have hn : 0 + 2 * calls before < UInt64.size := by omega
    have hbefore := tracks_run_new before (by omega)
    have hboth := tracks_run_new (before ++ [m]) (by rw [calls_append]; omega)
    have hcourse := Course.Tracked.init.run before hn
    rw [hboth.view_eq, hbefore.view_eq, Focus.run_append]
    exact congrArg Focus.view (Focus.move_of_isOf hcourse.since hlate)
  · have hle := Course.calls_prune_le {} ms
    have hn : 0 + 2 * calls ms < UInt64.size := by omega
    have hpruned := tracks_run_new (Course.prune {} ms) (by omega)
    rw [hpruned.view_eq, (tracks_run_new ms h).view_eq,
      Course.Tracked.init.run_prune ms hn]

/-- A failure that arrives after another step was asked for. -/
theorem late_failure_is_never_seen :
    let before : List Move := [.start ⟨"a", 0⟩ .stepped 0 [], .requestStep 5]
    (Coordinator.run {} (before ++ [.answer 0 (.error .notFound)])).view =
      (Coordinator.run {} before).view :=
  (superseded_work_is_never_seen
    [.start ⟨"a", 0⟩ .stepped 0 [], .requestStep 5, .answer 0 (.error .notFound)] (by decide)).1
    [.start ⟨"a", 0⟩ .stepped 0 [], .requestStep 5] _ [] rfl rfl

end SpendTrace.Trace
