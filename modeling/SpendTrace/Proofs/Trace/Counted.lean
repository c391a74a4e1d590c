import SpendTrace.Proofs.Trace.Checked
import SpendTrace.Proofs.Trace.Undisturbed

/-!
# The step of a streamed snapshot counts deliveries

What a stream shows is one of the snapshots that streams have delivered so far, and its step is the
number of earlier ones. So as long as fewer snapshots are delivered than there are numbers, there is
always a next step for a stream. With that, and as long as the generations do not come round, no
operation of a coordinator leaves the range of its words.

* `Coordinator.delivered`: how many snapshots were delivered.
* `Coordinator.Steady`: the invariant.
* `Coordinator.InRange`: an operation whose checks make no difference, and which keeps it steady.
* `Steady.inRange_useStream`, `inRange_cancel`, `inRange_changeTarget`: what comes of a stream, and
  of the calls that start no work.
-/

namespace SpendTrace.Trace

open Script (Snapshot)
open SpendTrace.Stream (CloseReason Event Handle snapshots)

/-! ## Steps that count -/

namespace State

/-- The step of a streamed snapshot is one of the first `d`. Of stepped ones nothing is said: their
steps come from the interpreter. -/
def Counted (s : State) (d : Nat) : Prop :=
  ∀ r ∈ s.ready?, r.mode = .streamed → r.step.toNat < d

variable {s s' : State} {target : Target} {d : Nat}

theorem Counted.mono (h : s.Counted d) {d' : Nat} (hd : d ≤ d') : s.Counted d' :=
  fun r hr hmode => Nat.lt_of_lt_of_le (h r hr hmode) hd

theorem counted_of_not_ready (h : s.ready? = none) (d : Nat) : s.Counted d := by
  simp [Counted, h]

theorem counted_of_stepped (h : s.mode? = some .stepped) (d : Nat) : s.Counted d := by
  intro r hr hmode
  cases s with
  | ready r' =>
    obtain rfl := Option.some.inj hr
    rw [mode?, hmode] at h
    cases h
  | idle | loading | failed => cases hr

theorem IsStreaming.hasNext (h : s.IsStreaming target) (hcounted : s.Counted d)
    (hd : d < UInt64.size) : s.HasNext := by
  rcases h with rfl | ⟨step, snapshot, rfl⟩
  · exact hasNext_of_not_ready rfl
  · rintro r ⟨⟩
    have hlt : step.toNat < d := hcounted _ rfl rfl
    show step.toNat + 1 < UInt64.size
    omega

/-- One more snapshot is delivered. -/
theorem IsStreaming.counted_afterSnapshot (h : s.IsStreaming target) (hcounted : s.Counted d)
    (hd : d < UInt64.size) {snapshot : Snapshot}
    (hs' : s.afterSnapshot target snapshot = some s') : s'.Counted (d + 1) := by
  have hnext := h.hasNext hcounted hd
  rcases h with rfl | ⟨step, old, rfl⟩
  · cases hs'
    rintro r ⟨⟩ -
    exact Nat.succ_pos d
  · have hlt : step.toNat < d := hcounted _ rfl rfl
    have hsucc : (step + 1).toNat = step.toNat + 1 := toNat_add_one (hnext _ rfl)
    simp only [State.afterSnapshot] at hs'
    split at hs'
    · cases hs'
    · cases hs'
      rintro r ⟨⟩ -
      show (step + 1).toNat < d + 1
      omega

/-- A close keeps the snapshot, or takes it away. -/
theorem Counted.afterClose (h : s.Counted d) {reason : CloseReason}
    (hs' : s.afterClose target reason = some s') : s'.Counted d := by
  cases s with
  | idle | failed => cases hs'
  | loading t mode step =>
    cases reason <;> cases hs' <;> exact counted_of_not_ready rfl d
  | ready r =>
    have hkept (status : StreamStatus) : (ready (r.withStream status)).Counted d := by
      rintro q ⟨⟩ hmode
      exact h r rfl hmode
    simp only [State.afterClose] at hs'
    split at hs'
    · cases hs'
      exact hkept .finished
    · cases reason with
      | cancelled =>
        cases hs'
        exact hkept .cancelled
      | completed | failed =>
        cases hs'
        exact counted_of_not_ready rfl d

/-- So does a cancel, or it brings back a stepped one. -/
theorem Counted.afterCancel (h : s.Counted d) {shown : Option Ready}
    (hshown : ∀ r ∈ shown, r.mode = .stepped) (hs' : s.afterCancel shown = some s') :
    s'.Counted d := by
  rcases afterCancel_eq_some hs' with rfl | ⟨r, hr, rfl⟩ | ⟨r, rfl, -, rfl⟩
  · exact counted_of_not_ready rfl d
  · exact counted_of_stepped (s := ready r) (congrArg some (hshown r hr)) d
  · rintro q ⟨⟩ hmode
    exact h r rfl hmode

end State

namespace Focus

theorem state_publish? (f : Focus) (s : Option State) : (f.publish? s).state = s.getD f.state := by
  cases s <;> rfl

variable {f : Focus} {d : Nat}

theorem Sound.counted_cancel (hsound : f.Sound) (h : f.state.Counted d) :
    f.cancel.state.Counted d := by
  rw [Focus.cancel, state_publish?]
  cases hs' : f.state.afterCancel f.shown with
  | none => exact h
  | some s' => exact h.afterCancel (fun r hr => (hsound.view.shown r hr).1) hs'

/-- An event comes out of the stream that counts. -/
theorem Sound.counted_push (hsound : f.Sound) (h : f.state.Counted d) (hd : d < UInt64.size)
    {i : Nat} {target : Target} (hwork : f.work.stream? i = some (target, false)) (e : Event) :
    (f.push i e).state.Counted (d + snapshots [e]) := by
  have hfits := hsound.work
  rw [Work.eq_stream hwork] at hfits
  have hstreaming : f.state.IsStreaming target := hfits rfl
  rw [Focus.push, hwork, state_publish?]
  cases e with
  | snapshot snapshot =>
    cases hs' : f.state.afterSnapshot target snapshot with
    | none =>
      rw [afterEvent, hs']
      exact h.mono (Nat.le_add_right _ _)
    | some s' =>
      rw [afterEvent, hs']
      exact hstreaming.counted_afterSnapshot h hd hs'
  | close reason =>
    cases hs' : f.state.afterClose target reason with
    | none =>
      rw [afterEvent, hs']
      exact h
    | some s' =>
      rw [afterEvent, hs']
      exact h.afterClose hs'

end Focus

/-! ## What was delivered -/

/-- What a stream has handed on. -/
def OpenedStream.callbacks (s : OpenedStream) : List Event :=
  s.handle.delivery.callbacks

theorem snapshots_set {l : List OpenedStream} {i : Nat} {s t : OpenedStream} (hs : l[i]? = some s)
    {es : List Event} (ht : t.callbacks = s.callbacks ++ es) :
    snapshots ((l.set i t).flatMap OpenedStream.callbacks) =
      snapshots (l.flatMap OpenedStream.callbacks) + snapshots es := by
  induction l generalizing i with
  | nil => cases hs
  | cons x l ih =>
    cases i with
    | zero =>
      obtain rfl : x = s := Option.some.inj hs
      simp only [List.set_cons_zero, List.flatMap_cons, Stream.snapshots_append, ht]
      omega
    | succ i =>
      have hrest := ih (i := i) (by simpa using hs)
      simp only [List.set_cons_succ, List.flatMap_cons, Stream.snapshots_append]
      omega

namespace Coordinator

/-- The number of snapshots that streams have handed on so far. -/
def delivered (c : Coordinator) : Nat :=
  snapshots (c.streams.flatMap OpenedStream.callbacks)

variable {c d : Coordinator} {i n : Nat} {s : OpenedStream} {target : Target}
  {use : Handle → Handle × Option Event}

theorem delivered_congr (h : d.streams = c.streams) : d.delivered = c.delivered := by
  rw [delivered, h, delivered]

/-- What is done with a stream delivers what it hands on. -/
theorem delivered_useStream (huse : IsUse use) (hs : c.streams[i]? = some s) :
    (c.useStream i use).delivered = c.delivered + snapshots (use s.handle).2.toList := by
  simp only [useStream, hs, delivered, streams_updateStream]
  exact snapshots_set hs (huse.callbacks_eq s.handle)

theorem delivered_le_useStream (c : Coordinator) (huse : IsUse use) (i : Nat) :
    c.delivered ≤ (c.useStream i use).delivered := by
  cases hs : c.streams[i]? with
  | none => simp only [useStream, hs, Nat.le_refl]
  | some s =>
    rw [delivered_useStream huse hs]
    exact Nat.le_add_right _ _

theorem delivered_le_foldl {α : Type} (place : α → Nat) {use : α → Handle → Handle × Option Event}
    (huse : ∀ a, IsUse (use a)) (c : Coordinator) (as : List α) :
    c.delivered ≤ (as.foldl (fun c a => c.useStream (place a) (use a)) c).delivered := by
  induction as generalizing c with
  | nil => exact Nat.le_refl _
  | cons a as ih => exact Nat.le_trans (c.delivered_le_useStream (huse a) _) (ih _)

/-- What was delivered stays delivered when work is given up. -/
theorem delivered_le_release (h : d.streams = c.streams) (fetch stream : Option Nat) :
    c.delivered ≤ (d.release fetch stream).delivered := by
  rw [← delivered_congr h]
  unfold release
  cases fetch <;> cases stream
  · exact Nat.le_refl _
  · exact d.delivered_le_useStream isUse_cancel _
  · exact Nat.le_refl _
  · exact (d.abortRequest _).delivered_le_useStream isUse_cancel _

theorem delivered_le_cleared (c : Coordinator) (target : Target) (s : State) :
    c.delivered ≤ (c.cleared target s).delivered :=
  delivered_le_release (by rfl) c.fetch c.stream

theorem delivered_le_cancel (c : Coordinator) : c.delivered ≤ c.cancel.delivered :=
  delivered_le_release (by exact streams_publish? _ _) c.fetch c.stream

/-! ## Steady coordinators -/

/-- The coordinator has begun no more than `n` generations, and shows of a stream nothing but what
was delivered. -/
def Steady (c : Coordinator) (n : Nat) : Prop :=
  ∃ f, Tracks n c f ∧ f.Sound ∧ f.state.Counted c.delivered

theorem Steady.mono (h : c.Steady n) {m : Nat} (hnm : n ≤ m) : c.Steady m := by
  obtain ⟨f, htracks, hsound, hcounted⟩ := h
  exact ⟨f, htracks.mono hnm, hsound, hcounted⟩

/-- The checks make no difference to an operation, which leads to `d`, and `d` is steady. -/
structure InRange (op? : Option Coordinator) (d : Coordinator) (n : Nat) : Prop where
  eq_some : op? = some d
  steady : d.Steady n

theorem InRange.mono {op? : Option Coordinator} (h : InRange op? d n) {m : Nat} (hnm : n ≤ m) :
    InRange op? d m :=
  ⟨h.eq_some, h.steady.mono hnm⟩

theorem InRange.bind {op? : Option Coordinator} {m : Nat} (h : InRange op? c n)
    {next? : Coordinator → Option Coordinator} (hnext : c.Steady n → InRange (next? c) d m) :
    InRange (op? >>= next?) d m := by
  have hd := hnext h.steady
  exact ⟨by rw [h.eq_some]; exact hd.eq_some, hd.steady⟩

namespace Steady

theorem init : Steady {} 0 :=
  ⟨{}, Tracks.init, Focus.sound_new, State.counted_of_not_ready rfl _⟩

theorem fenced (h : c.Steady n) : c.Fenced n := by
  obtain ⟨f, htracks, -, -⟩ := h
  exact htracks.fenced

theorem generation_lt (h : c.Steady n) (hn : n + 1 < UInt64.size) :
    c.generation.toNat + 1 < UInt64.size :=
  Nat.lt_of_le_of_lt (Nat.succ_le_succ h.fenced.generation_le) hn

theorem hold (h : c.Steady n) (fetch stream : Option Nat) (openings : List Opening) :
    Steady { c with fetch, stream, openings } n := by
  obtain ⟨f, htracks, hsound, hcounted⟩ := h
  exact ⟨f, htracks.hold fetch stream openings, hsound, hcounted⟩

/-- Whoever looks on sees the state, and of a stream no more than was delivered. -/
theorem watched_eq (h : c.Steady n) : c.watched = c.state := by
  obtain ⟨f, htracks, hsound, -⟩ := h
  rw [watched, htracks.published_eq, hsound.watched_eq, htracks.state_eq]

theorem counted (h : c.Steady n) : c.state.Counted c.delivered := by
  obtain ⟨f, htracks, -, hcounted⟩ := h
  rwa [htracks.state_eq]

/-- An open stream is one that the state waits for. -/
theorem hasRoom (h : c.Steady n) (hd : c.delivered < UInt64.size) : c.HasRoom := by
  obtain ⟨f, htracks, hsound, hcounted⟩ := h
  intro s hs hcurrent hopen
  obtain ⟨i, hi⟩ := List.getElem?_of_mem hs
  have hwork := Work.eq_stream
    ((htracks.stream_eq i).symm.trans (currentStream?_of_current hi hcurrent))
  have hfits := hsound.work
  rw [hwork, hopen] at hfits
  rw [htracks.state_eq]
  exact (hfits rfl).hasNext hcounted hd

/-! ### Streams -/

theorem useStream (h : c.Steady n) (hd : c.delivered < UInt64.size) (huse : IsUse use) (i : Nat) :
    (c.useStream i use).Steady n := by
  obtain ⟨f, htracks, hsound, hcounted⟩ := h
  cases hs : c.streams[i]? with
  | none =>
    simp only [Coordinator.useStream, hs]
    exact ⟨f, htracks, hsound, hcounted⟩
  | some s =>
    have hle := c.delivered_le_useStream huse i
    have hdelivered := delivered_useStream huse hs
    simp only [Coordinator.useStream, hs] at hle hdelivered ⊢
    rcases huse.acts s.handle with ⟨e, hclosed, hcallback⟩ | ⟨hclosed, hnone⟩
    · refine ⟨f.push i e, htracks.updateStream hs hclosed hcallback, hsound.push i e, ?_⟩
      have hstream := htracks.stream_eq i
      cases hwork : f.work.stream? i with
      | none =>
        rw [Focus.push, hwork]
        exact hcounted.mono hle
      | some p =>
        obtain ⟨t, closed⟩ := p
        cases closed with
        | true =>
          rw [Focus.push, hwork]
          exact hcounted.mono hle
        | false =>
          -- The stream is the one that counts, and it hands on the event.
          have hopen : s.handle.isClosed = false := by
            rw [hwork, currentStream?, hs, Option.bind_some] at hstream
            split at hstream
            · exact (Prod.mk.inj (Option.some.inj hstream)).2
            · cases hstream
          rw [hcallback, hopen] at hdelivered
          rw [hcallback, hopen, hdelivered]
          exact hsound.counted_push hcounted hd hwork e
    · rw [hnone] at hle ⊢
      exact ⟨f, htracks.setHandle_of_same hs hclosed, hsound, hcounted.mono hle⟩

theorem inRange_useStream (h : c.Steady n) (hd : c.delivered < UInt64.size) (huse : IsUse use)
    (i : Nat) : InRange (c.useStream? i use) (c.useStream i use) n :=
  ⟨useStream?_eq (h.hasRoom hd) huse i, h.useStream hd huse i⟩

/-- Several things are done, one after the other. -/
theorem inRange_foldlM (h : c.Steady n) {α : Type} (place : α → Nat)
    {use : α → Handle → Handle × Option Event} (huse : ∀ a, IsUse (use a)) (as : List α)
    (hd : (as.foldl (fun c a => c.useStream (place a) (use a)) c).delivered < UInt64.size) :
    InRange (as.foldlM (fun c a => c.useStream? (place a) (use a)) c)
      (as.foldl (fun c a => c.useStream (place a) (use a)) c) n := by
  have hle := delivered_le_foldl place huse c as
  induction as generalizing c with
  | nil => exact ⟨rfl, h⟩
  | cons a as ih =>
    rw [List.foldlM_cons]
    have hfirst := h.inRange_useStream (Nat.lt_of_le_of_lt hle hd) (huse a) (place a)
    exact hfirst.bind fun hsteady => ih hsteady hd (delivered_le_foldl place huse _ as)

/-! ### Calls that start no work -/

theorem inRange_cancel (h : c.Steady n) (hn : n + 1 < UInt64.size) :
    InRange c.cancel? c.cancel (n + 1) := by
  refine ⟨cancel?_eq h.fenced hn, ?_⟩
  obtain ⟨f, htracks, hsound, hcounted⟩ := h
  exact ⟨f.cancel, htracks.cancel hn, hsound.cancel,
    (hsound.counted_cancel hcounted).mono c.delivered_le_cancel⟩

theorem inRange_changeTarget (h : c.Steady n) (hn : n + 1 < UInt64.size) (target : Target) :
    InRange (c.changeTarget? target) (c.changeTarget target) (n + 1) := by
  refine ⟨cleared?_eq (h.generation_lt hn) target rfl, ?_⟩
  obtain ⟨f, htracks, -, -⟩ := h
  exact ⟨f.changeTarget target, htracks.changeTarget hn target, f.sound_changeTarget target,
    State.counted_of_not_ready rfl _⟩

end Steady

end Coordinator

end SpendTrace.Trace
