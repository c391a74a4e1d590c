import SpendTrace.Proofs.Trace.Settling
import SpendTrace.Proofs.Trace.Shape
import SpendTrace.Proofs.Trace.Streamed

/-!
# A streamed trace that nobody replaces

As long as no other trace is started and no other target chosen, a streamed trace stays what its
stream makes of it. To cancel the trace is to close its stream: whoever looks on cannot tell the one
from the other.

* `Focus.Undisturbed`: a focus on a streamed trace that may have been cancelled.
* `Coordinator.Streams`: a coordinator with such a focus, which shows what was received.
* `Streams.move`, `Streams.settle`, `Streams.finishProducer`: what may happen to it.
-/

namespace SpendTrace.Stream

open Script (Snapshot)

/-- What was received of a stream is received whatever comes next. -/
theorem received_prefix (es fs : List Event) : received es <+: received (es ++ fs) := by
  induction fs generalizing es with
  | nil => simp
  | cons e fs ih =>
    have hrest := ih (es ++ [e])
    rw [List.append_assoc, List.singleton_append] at hrest
    refine List.IsPrefix.trans ?_ hrest
    cases hc : closing? es with
    | some r => exact received_concat_of_closed hc e ▸ List.prefix_rfl
    | none =>
      cases e with
      | close r => exact received_concat_close hc r ▸ List.prefix_rfl
      | snapshot s =>
        rw [received_concat_snapshot hc]
        split
        · exact List.prefix_rfl
        · exact List.prefix_append _ _

/-- Behind a close nothing more is received. -/
theorem received_append_of_closed {es : List Event} {r : CloseReason} (h : closing? es = some r)
    (fs : List Event) : received (es ++ fs) = received es ∧ closing? (es ++ fs) = some r := by
  induction fs generalizing es with
  | nil => simpa using h
  | cons e fs ih =>
    obtain ⟨hreceived, hclosing⟩ := ih (closing?_concat_of_closed h e)
    rw [List.append_assoc, List.singleton_append] at hreceived hclosing
    exact ⟨hreceived.trans (received_concat_of_closed h e), hclosing⟩

theorem length_upToVerdict_le (ss : List Snapshot) : (upToVerdict ss).length ≤ ss.length := by
  induction ss with
  | nil => simp [upToVerdict]
  | cons s ss ih =>
    unfold upToVerdict
    split
    · simp
    · simpa using ih

/-- The number of snapshots among events. -/
def snapshots (es : List Event) : Nat :=
  es.countP fun e => !e.isClose

theorem snapshots_append (es fs : List Event) :
    snapshots (es ++ fs) = snapshots es + snapshots fs := by
  simp [snapshots]

/-- No more is received than is pushed. -/
theorem length_received_le (es : List Event) : (received es).length ≤ snapshots es := by
  refine Nat.le_trans (length_upToVerdict_le _) ?_
  induction es with
  | nil => simp
  | cons e es ih =>
    cases e with
    | close r => simp [Event.isClose]
    | snapshot s => simpa [snapshots, Event.isClose, Event.snapshot?] using ih

end SpendTrace.Stream

namespace SpendTrace.Trace

open Script (Snapshot)
open SpendTrace.Stream (CloseReason Event received closing? snapshots)

/-! ## What is on display -/

/-- A streamed trace has nothing to show, or the last snapshot that was received under its number,
or a failure that says how many were received. -/
theorem streamedState_cases (target : Target) (ss : List Snapshot) (closing : Option CloseReason) :
    (streamedState target ss closing = .loading target .streamed none ∨
      streamedState target ss closing = .idle) ∨
    (∃ ss' r, ss = ss' ++ [r.snapshot] ∧ streamedState target ss closing = .ready r ∧
      r.mode = .streamed ∧ r.step = UInt64.ofNat ss'.length) ∨
    ∃ reason count, streamedState target ss closing =
      .failed target .streamed (.streamFailed reason count) ∧ count = UInt64.ofNat ss.length := by
  obtain rfl | ⟨ss, x, rfl⟩ := List.eq_nil_or_concat ss
  · cases closing with
    | none => exact .inl (.inl rfl)
    | some r =>
      cases r with
      | cancelled => exact .inl (.inr rfl)
      | completed | failed => exact .inr (.inr ⟨_, _, rfl, rfl⟩)
  · rw [List.concat_eq_append]
    cases closing with
    | none => exact .inr (.inl ⟨ss, _, rfl, streamedState_concat target ss x, rfl, rfl⟩)
    | some r =>
      simp only [streamedState, List.getLast?_concat, lastOf_concat]
      split
      · exact .inr (.inl ⟨ss, _, rfl, rfl, rfl, rfl⟩)
      · split
        · exact .inr (.inl ⟨ss, _, rfl, rfl, rfl, rfl⟩)
        · exact .inr (.inr ⟨_, _, rfl, rfl⟩)

theorem exists_of_streamedState_eq_ready {target : Target} {ss : List Snapshot}
    {closing : Option CloseReason} {r : Ready} (h : streamedState target ss closing = .ready r) :
    ∃ ss', ss = ss' ++ [r.snapshot] ∧ r.mode = .streamed ∧ r.step = UInt64.ofNat ss'.length := by
  rcases streamedState_cases target ss closing with
    (hnone | hnone) | ⟨ss', r', hss, hready, hmode, hstep⟩ | ⟨reason, count, hfailed, -⟩
  · cases h.symm.trans hnone
  · cases h.symm.trans hnone
  · obtain rfl := State.ready.inj (h.symm.trans hready)
    exact ⟨ss', hss, hmode, hstep⟩
  · cases h.symm.trans hfailed

theorem count_of_streamedState_eq_failed {target : Target} {ss : List Snapshot}
    {closing : Option CloseReason} {reason : String} {count : UInt64}
    (h : streamedState target ss closing = .failed target .streamed (.streamFailed reason count)) :
    count = UInt64.ofNat ss.length := by
  rcases streamedState_cases target ss closing with
    (hnone | hnone) | ⟨ss', r, -, hready, -⟩ | ⟨reason', count', hfailed, hcount⟩
  · cases h.symm.trans hnone
  · cases h.symm.trans hnone
  · cases h.symm.trans hready
  · cases h.symm.trans hfailed
    exact hcount

/-! ## Cancelling -/

/-- The calls that replace a streamed trace, or give it up for another target. -/
def Move.replaces : Move → Bool
  | start _ _ _ _ => true
  | changeTarget _ => true
  | follow _ _ => true
  | _ => false

/-- What a move does to the stream with this number. A cancel of the trace closes it. -/
def Move.entryOf (i : Nat) : Move → Option Event
  | cancel => some (.close .cancelled)
  | m => m.eventOf i

/-- Whether the move brings a snapshot. -/
def Move.isDelivery : Move → Bool
  | push _ e => !e.isClose
  | _ => false

/-- The number of snapshots that are brought in a run. -/
def deliveries (ms : List Move) : Nat :=
  ms.countP Move.isDelivery

theorem deliveries_append (ms ns : List Move) :
    deliveries (ms ++ ns) = deliveries ms + deliveries ns := by
  simp [deliveries, List.countP_append]

theorem deliveries_cons (m : Move) (ms : List Move) :
    deliveries (m :: ms) = deliveries [m] + deliveries ms :=
  deliveries_append [m] ms

theorem deliveries_pushes (i : Nat) (es : List Event) :
    deliveries (es.map (Move.push i)) = snapshots es := by
  simp [deliveries, snapshots, List.countP_map, Function.comp_def, Move.isDelivery]

/-- A stream gets no more snapshots than are brought. -/
theorem snapshots_entryOf_le (i : Nat) (m : Move) :
    snapshots (m.entryOf i).toList ≤ deliveries [m] := by
  cases m with
  | push j e =>
    by_cases hj : j = i <;> cases e <;>
      simp [Move.entryOf, Move.eventOf, deliveries, Move.isDelivery, snapshots, hj, Event.isClose]
  | cancelStream j =>
    by_cases hj : j = i <;> simp [Move.entryOf, Move.eventOf, snapshots, hj, Event.isClose]
  | start | requestStep | changeTarget | cancel | follow | answer =>
    simp [Move.entryOf, Move.eventOf, snapshots, Event.isClose]

/-- To cancel a streamed trace shows what the close of its stream would show. -/
theorem afterCancel_streamedState (target : Target) (ss : List Snapshot) (shown : Option Ready) :
    (streamedState target ss none).afterCancel shown =
      some (streamedState target ss (some .cancelled)) := by
  obtain rfl | ⟨ss, x, rfl⟩ := List.eq_nil_or_concat ss
  · rfl
  · rw [List.concat_eq_append, streamedState_concat]
    by_cases hx : x.isTerminal = true
    · simp [State.afterCancel, streamedState, lastOf_concat, Ready.isTerminal, Ready.withStream, hx]
    · simp [State.afterCancel, streamedState, lastOf_concat, Ready.isTerminal, Ready.withStream, hx]

/-- Once the stream is closed there is nothing to cancel. -/
theorem afterCancel_streamedState_of_closed (target : Target) (ss : List Snapshot)
    (r : CloseReason) (shown : Option Ready) :
    (streamedState target ss (some r)).afterCancel shown = none := by
  obtain rfl | ⟨ss, x, rfl⟩ := List.eq_nil_or_concat ss
  · cases r <;> simp [State.afterCancel, streamedState, brokenOff]
  · rw [List.concat_eq_append]
    by_cases hx : x.isTerminal = true
    · simp [State.afterCancel, streamedState, lastOf_concat, hx]
    · by_cases hr : r = .cancelled <;>
        simp [State.afterCancel, streamedState, lastOf_concat, brokenOff, hx, hr]

namespace Focus

/-- After a cancel nothing counts any more. -/
theorem work_cancel (f : Focus) : f.cancel.work = .nothing :=
  work_publish? _ _

/-- The focus is on a streamed trace, or was until its stream closed. -/
structure Undisturbed (f : Focus) (i : Nat) (target : Target) (es : List Event) : Prop where
  work : f.work = .stream i target (closing? es).isSome ∨
    f.work = .nothing ∧ (closing? es).isSome = true
  state_eq : f.state = streamedState target (received es) (closing? es)

variable {f : Focus} {i : Nat} {target : Target} {es : List Event}

theorem Streaming.undisturbed (h : f.Streaming i target es) : f.Undisturbed i target es :=
  ⟨.inl h.work_eq, h.state_eq⟩

namespace Undisturbed

/-- What no longer counts changes nothing, and adds nothing to what was received. -/
theorem of_closed {g : Focus} (h : f.Undisturbed i target es)
    (hclosed : (closing? es).isSome = true) (hwork : g.work = f.work ∨ g.work = .nothing)
    (hstate : g.state = f.state) (fs : List Event) : g.Undisturbed i target (es ++ fs) := by
  obtain ⟨r, hr⟩ := Option.isSome_iff_exists.1 hclosed
  obtain ⟨hreceived, hclosing⟩ := Stream.received_append_of_closed hr fs
  refine ⟨?_, ?_⟩
  · rw [hclosing]
    rcases hwork with hwork | hwork
    · rw [hwork]
      simpa [hr] using h.work
    · exact .inr ⟨hwork, rfl⟩
  · rw [hstate, h.state_eq, hreceived, hclosing, hr]

/-- Whatever happens but a cancel happens as it would in a trace that was not cancelled. -/
theorem move_of_keeping (h : f.Undisturbed i target es) {m : Move} (hm : m.givesUp = false) :
    (f.move m).Undisturbed i target (es ++ (m.eventOf i).toList) := by
  rcases h.work with hwork | ⟨hwork, hclosed⟩
  · have hstreaming : f.Streaming i target es := ⟨hwork, h.state_eq⟩
    exact (hstreaming.move hm).undisturbed
  · -- Nothing counts, so nothing changes.
    have hsame : f.move m = f := by
      cases m with
      | requestStep step =>
        refine requestStep_of_not_stepped ?_ step
        rw [h.state_eq]
        exact mode?_streamedState _ _ _
      | answer j a => simp [move, answer, hwork, Work.request?]
      | push j e => simp [move, push, hwork, Work.stream?]
      | cancelStream j => simp [move, push, hwork, Work.stream?]
      | start | changeTarget | cancel | follow => cases hm
    exact h.of_closed hclosed (.inl (by rw [hsame])) (by rw [hsame]) _

/-- The trace is cancelled. -/
theorem cancel (h : f.Undisturbed i target es) :
    f.cancel.Undisturbed i target (es ++ [.close .cancelled]) := by
  have hwork := f.work_cancel
  have hstate : f.cancel.state = (f.state.afterCancel f.shown).getD f.state := by
    unfold Focus.cancel
    cases f.state.afterCancel f.shown <;> rfl
  cases hc : closing? es with
  | some r =>
    refine h.of_closed (by simp [hc]) (.inr hwork) ?_ _
    rw [hstate, h.state_eq, hc, afterCancel_streamedState_of_closed]
    rfl
  | none =>
    refine ⟨.inr ⟨hwork, ?_⟩, ?_⟩
    · rw [Stream.closing?_concat_of_open hc]
      rfl
    · rw [hstate, h.state_eq, hc, afterCancel_streamedState, Stream.received_concat_close hc,
        Stream.closing?_concat_of_open hc]
      rfl

theorem move (h : f.Undisturbed i target es) {m : Move} (hm : m.replaces = false) :
    (f.move m).Undisturbed i target (es ++ (m.entryOf i).toList) := by
  cases m with
  | cancel => exact h.cancel
  | requestStep | answer | push | cancelStream => exact h.move_of_keeping rfl
  | start | changeTarget | follow => cases hm

theorem run (h : f.Undisturbed i target es) {ms : List Move}
    (hms : ∀ m ∈ ms, m.replaces = false) :
    (f.run ms).Undisturbed i target (es ++ ms.filterMap (Move.entryOf i)) := by
  induction ms generalizing f es with
  | nil =>
    rw [List.filterMap_nil, List.append_nil]
    exact h
  | cons m ms ih =>
    have hrest := ih (h.move (hms m List.mem_cons_self)) fun m' hm' =>
      hms m' (List.mem_cons_of_mem m hm')
    rw [List.append_assoc] at hrest
    cases he : m.entryOf i with
    | none =>
      rw [he] at hrest
      rw [List.filterMap_cons_none he]
      exact hrest
    | some e =>
      rw [he] at hrest
      rw [List.filterMap_cons_some he]
      exact hrest

end Undisturbed

end Focus

/-! ## A coordinator with such a trace -/

namespace Coordinator

/-- The coordinator is about a streamed trace that may have been cancelled, of which these events
came, and no more than `n` generations have begun. -/
def Streams (c : Coordinator) (n i : Nat) (target : Target) (es : List Event) : Prop :=
  ∃ f, Tracks n c f ∧ f.Sound ∧ f.Undisturbed i target es

variable {c : Coordinator} {n i : Nat} {target : Target} {es : List Event}

namespace Streams

theorem state_eq (h : c.Streams n i target es) :
    c.state = streamedState target (received es) (closing? es) := by
  obtain ⟨f, htracks, -, hundisturbed⟩ := h
  exact htracks.state_eq.trans hundisturbed.state_eq

/-- Whoever looks on sees what was received. -/
theorem watched_eq (h : c.Streams n i target es) :
    c.watched = streamedState target (received es) (closing? es) := by
  obtain ⟨f, htracks, hsound, hundisturbed⟩ := h
  rw [watched, htracks.published_eq, hsound.watched_eq, hundisturbed.state_eq]

theorem move (h : c.Streams n i target es) {m : Move} (hm : m.replaces = false)
    (hn : n + 2 * calls [m] < UInt64.size) :
    (c.move m).Streams (n + 2 * calls [m]) i target (es ++ (m.entryOf i).toList) := by
  obtain ⟨f, htracks, hsound, hundisturbed⟩ := h
  exact ⟨f.move m, tracks_move htracks m hn, hsound.move m, hundisturbed.move hm⟩

/-- The tasks run, which may close the stream but brings no snapshot. -/
theorem settle (h : c.Streams n i target es) :
    ∃ fs, snapshots fs = 0 ∧ c.settle.Streams n i target (es ++ fs) := by
  obtain ⟨f, htracks, hsound, hundisturbed⟩ := h
  obtain ⟨ms, hms, hsettled⟩ := htracks.settle
  have hkeep : ∀ m ∈ ms, m.replaces = false := by
    intro m hm
    have htask := hms m hm
    cases m <;> simp_all [Move.isOfTask, Move.replaces]
  refine ⟨ms.filterMap (Move.entryOf i), ?_, f.run ms, hsettled, hsound.run ms,
    hundisturbed.run hkeep⟩
  refine List.countP_eq_zero.2 fun e he => ?_
  obtain ⟨m, hm, hentry⟩ := List.mem_filterMap.1 he
  have htask := hms m hm
  cases m with
  | push j e' =>
    simp only [Move.entryOf, Move.eventOf] at hentry
    split at hentry
    · obtain rfl := Option.some.inj hentry
      simpa [Move.isOfTask] using htask
    · cases hentry
  | answer => cases hentry
  | start | requestStep | changeTarget | cancel | follow | cancelStream => cases htask

theorem finishProducer (h : c.Streams n i target es) (j : Nat) :
    (c.finishProducer j).1.Streams n i target es := by
  obtain ⟨f, htracks, hsound, hundisturbed⟩ := h
  exact ⟨f, htracks.finishProducer j, hsound, hundisturbed⟩

end Streams

end Coordinator

/-! ## How such a trace begins -/

theorem Focus.push_cancel (f : Focus) (i : Nat) (e : Event) : f.cancel.push i e = f.cancel := by
  rw [push, work_cancel]
  rfl

theorem Coordinator.openings_changeTarget (c : Coordinator) (target : Target) :
    (c.changeTarget target).openings = c.openings :=
  openings_release _ _ _

/-- A stream that is given up as soon as it is open is in an earlier generation, unless the
generations have come round. -/
theorem Coordinator.openStream_of_cancel (c : Coordinator) (target : Target) {eager : List Event}
    (ho : c.openings = [⟨eager, some .cancel⟩]) :
    let i := c.streams.length
    let given := (eager.foldl (fun c' e => c'.push i e) (c.spawnStream target)).cancel
    c.openStream target = { given with stream := some i } ∨
      c.openStream target = given.cancelStream i := by
  unfold openStream
  simp only [ho, List.head?_cons, Option.getD_some, Option.map_some]
  rw [← ho]
  split
  · exact .inl rfl
  · exact .inr rfl

namespace Tracks

variable {n : Nat} {c : Coordinator} {f : Focus}

/-- The trace is cancelled while its stream is being opened. -/
theorem openStream_of_cancel (h : Tracks n c f) (hw : f.work = .nothing) (hn : n + 1 < UInt64.size)
    (target : Target) {eager : List Event} (ho : c.openings = [⟨eager, some .cancel⟩]) :
    Tracks (n + 1) (c.openStream target) (f.openStream target eager).cancel := by
  have hlen : f.issued.streams = c.streams.length := by rw [← h.issued_eq]; rfl
  have hgiven := ((h.spawnStream hw target).foldl_push c.streams.length eager).cancel hn
  rw [Focus.openStream, hlen]
  rw [hlen] at hgiven
  rcases c.openStream_of_cancel target ho with hopen | hopen
  · rw [hopen]
    exact hgiven.hold _ _ _
  · have hclosed := hgiven.cancelStream c.streams.length
    rwa [← hopen, Focus.push_cancel] at hclosed

theorem start_of_cancel (h : Tracks n c f) (hn : n + 2 < UInt64.size) (target : Target)
    (step : UInt64) {eager : List Event} (ho : c.openings = [⟨eager, some .cancel⟩]) :
    Tracks (n + 2) (c.start target .streamed step)
      (f.start target .streamed step eager).cancel := by
  have hloading := (h.reset (by omega) target).publish (.loading target .streamed none)
  have hfree := hloading.release rfl c.fetch c.stream
  exact hfree.openStream_of_cancel rfl hn target ((Coordinator.openings_release _ _ _).trans ho)

end Tracks

/-- What the stream of a trace gets while it is opened. -/
def Opening.entries (o : Opening) : List Event :=
  match o.interruption with
  | none => o.eager
  | some _ => o.eager ++ [.close .cancelled]

theorem Opening.snapshots_entries (o : Opening) : snapshots o.entries = snapshots o.eager := by
  cases h : o.interruption with
  | none => simp [entries, h]
  | some _ => simp [entries, h, snapshots, Event.isClose]

namespace Coordinator

/-- A link to all of a streamed trace is never followed in place. -/
theorem follow_automatic (c : Coordinator) (target : Target) :
    c.follow ⟨target, .automatic⟩ = (c.changeTarget target).start target .streamed 0 :=
  rfl

/-- A link to all of a streamed trace starts one, whatever was before. The trace may be cancelled
while its stream is being opened. -/
theorem exists_streams_follow (before : List Move) (target : Target) {o : Opening}
    (ho : o.interruption = none ∨ o.interruption = some .cancel)
    (h : calls before + 2 < callLimit) :
    ∃ i, Streams (follow { run {} before with openings := [o] } ⟨target, .automatic⟩)
      (2 * (calls before + 2)) i target o.entries := by
  have hsize : UInt64.size = 2 * callLimit := rfl
  have hbefore := (tracks_run_new before (by omega)).hold (run {} before).fetch
    (run {} before).stream [o]
  have hchoose := hbefore.changeTarget (by omega) target
  have hsound := (Focus.sound_new.run before).move (.follow ⟨target, .automatic⟩ o.eager)
  have hstreaming := Focus.streaming_start ((Focus.run {} before).changeTarget target) target 0
    o.eager
  refine ⟨((Focus.run {} before).changeTarget target).issued.streams, ?_⟩
  rw [follow_automatic]
  obtain ⟨eager, interruption⟩ := o
  rcases ho with rfl | rfl
  · have hstart := hchoose.start (by omega) target .streamed 0 (openings_changeTarget _ _)
    exact ⟨_, hstart.mono (by omega), hsound, hstreaming.undisturbed⟩
  · have hstart := hchoose.start_of_cancel (by omega) target 0 (openings_changeTarget _ _)
    exact ⟨_, hstart.mono (by omega), hsound.move .cancel, hstreaming.undisturbed.cancel⟩

end Coordinator

end SpendTrace.Trace
