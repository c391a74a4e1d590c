import SpendTrace.Proofs.Trace.Supersession

/-!
# A streamed trace is what its sink received

As long as a streamed trace is not given up, its state is determined by what was pushed into its
stream: by the snapshots up to the first verdict or the first close, and by the reason of that
close. How the pushes were spread over the run, what steps the snapshots say they are at, and what
other work brings meanwhile make no difference.

* `received` and `closing?` say what counts of all that was pushed.
* `streamedState` is the state that comes of it.
* `state_of_streamed_trace` is the main statement.
-/

namespace SpendTrace.Stream

open Script (Snapshot)

namespace Event

def snapshot? : Event → Option Snapshot
  | snapshot s => some s
  | close _ => none

def reason? : Event → Option CloseReason
  | snapshot _ => none
  | close r => some r

end Event

/-- The snapshots up to the first one with a verdict. -/
def upToVerdict : List Snapshot → List Snapshot
  | [] => []
  | s :: ss => if s.isTerminal then [s] else s :: upToVerdict ss

/-- The snapshots that count of what was pushed: those before the first close, up to a verdict. -/
def received (es : List Event) : List Snapshot :=
  upToVerdict ((es.takeWhile fun e => !e.isClose).filterMap Event.snapshot?)

/-- The reason of the first close, if there is one. -/
def closing? (es : List Event) : Option CloseReason :=
  es.findSome? Event.reason?

/-- Whether the last of the snapshots has a verdict. -/
def isDecided (ss : List Snapshot) : Bool :=
  ss.getLast?.any Snapshot.isTerminal

/-! ## One more event -/

theorem isDecided_cons_cons (s s' : Snapshot) (ss : List Snapshot) :
    isDecided (s :: s' :: ss) = isDecided (s' :: ss) := by
  simp [isDecided, List.getLast?_cons_cons]

theorem isDecided_concat (ss : List Snapshot) (s : Snapshot) :
    isDecided (ss ++ [s]) = s.isTerminal := by
  simp [isDecided]

theorem upToVerdict_cons_of_pending {s : Snapshot} (h : ¬s.isTerminal = true)
    (ss : List Snapshot) : upToVerdict (s :: ss) = s :: upToVerdict ss := by
  rw [upToVerdict, if_neg h]

theorem upToVerdict_concat (ss : List Snapshot) (s : Snapshot) :
    upToVerdict (ss ++ [s]) =
      if isDecided (upToVerdict ss) then upToVerdict ss else upToVerdict ss ++ [s] := by
  induction ss with
  | nil => simp [upToVerdict, isDecided]
  | cons x xs ih =>
    by_cases hx : x.isTerminal = true
    · simp [upToVerdict, hx, isDecided]
    · rw [List.cons_append, upToVerdict_cons_of_pending hx, upToVerdict_cons_of_pending hx, ih]
      cases hxs : upToVerdict xs with
      | nil => simp [isDecided, hx]
      | cons y ys =>
        rw [isDecided_cons_cons]
        split <;> simp

/-- Behind a close nothing counts. -/
theorem takeWhile_concat {es : List Event} (e : Event) {r : CloseReason}
    (h : closing? es = some r) :
    ((es ++ [e]).takeWhile fun e => !e.isClose) = es.takeWhile fun e => !e.isClose := by
  induction es with
  | nil => cases h
  | cons x xs ih =>
    cases x with
    | snapshot s => simpa [Event.isClose] using ih h
    | close r' => simp [Event.isClose]

theorem received_concat_of_closed {es : List Event} {r : CloseReason} (h : closing? es = some r)
    (e : Event) : received (es ++ [e]) = received es := by
  rw [received, takeWhile_concat e h, received]

theorem closing?_concat_of_closed {es : List Event} {r : CloseReason} (h : closing? es = some r)
    (e : Event) : closing? (es ++ [e]) = some r := by
  rw [closing?, List.findSome?_append, ← closing?, h]
  rfl

theorem takeWhile_append_of_open {es : List Event} (h : closing? es = none) (fs : List Event) :
    ((es ++ fs).takeWhile fun e => !e.isClose) = es ++ fs.takeWhile fun e => !e.isClose := by
  refine List.takeWhile_append_of_pos fun e he => ?_
  have hnone := List.findSome?_eq_none_iff.1 h e he
  cases e with
  | snapshot s => rfl
  | close r => cases hnone

theorem received_of_open {es : List Event} (h : closing? es = none) :
    received es = upToVerdict (es.filterMap Event.snapshot?) := by
  have hself := takeWhile_append_of_open h []
  rw [List.append_nil, List.takeWhile_nil, List.append_nil] at hself
  rw [received, hself]

theorem received_concat_snapshot {es : List Event} (h : closing? es = none) (s : Snapshot) :
    received (es ++ [.snapshot s]) =
      if isDecided (received es) then received es else received es ++ [s] := by
  rw [received, takeWhile_append_of_open h, List.filterMap_append, received_of_open h]
  exact upToVerdict_concat _ s

theorem received_concat_close {es : List Event} (h : closing? es = none) (r : CloseReason) :
    received (es ++ [.close r]) = received es := by
  rw [received, takeWhile_append_of_open h, received_of_open h]
  simp [Event.isClose]

theorem closing?_concat_of_open {es : List Event} (h : closing? es = none) (e : Event) :
    closing? (es ++ [e]) = e.reason? := by
  rw [closing?, List.findSome?_append, ← closing?, h]
  cases e <;> rfl

end SpendTrace.Stream

namespace SpendTrace.Trace

open Script (Snapshot)
open SpendTrace.Stream (CloseReason Event received closing? isDecided)

/-! ## The state of a streamed trace -/

/-- The snapshot `s` on display as the last of those that were received. -/
def lastOf (target : Target) (ss : List Snapshot) (s : Snapshot) (status : StreamStatus) : State :=
  .ready ⟨target, .streamed, UInt64.ofNat (ss.length - 1), s, some status⟩

/-- The stream failed before there was a verdict. -/
def brokenOff (target : Target) (ss : List Snapshot) (r : CloseReason) : State :=
  .failed target .streamed (.streamFailed (closeDescription r) (UInt64.ofNat ss.length))

/-- What becomes of a streamed trace of which these snapshots were received, and that was closed
for this reason, if it was. -/
def streamedState (target : Target) (ss : List Snapshot) (closing : Option CloseReason) : State :=
  match closing, ss.getLast? with
  | none, none => .loading target .streamed none
  | none, some s => lastOf target ss s .live
  | some r, none => if r = .cancelled then .idle else brokenOff target ss r
  | some r, some s =>
    if s.isTerminal then lastOf target ss s .finished
    else if r = .cancelled then lastOf target ss s .cancelled
    else brokenOff target ss r

/-- The step counts the snapshots before the last one. -/
theorem lastOf_concat (target : Target) (ss : List Snapshot) (s : Snapshot)
    (status : StreamStatus) : lastOf target (ss ++ [s]) s status =
      .ready ⟨target, .streamed, UInt64.ofNat ss.length, s, some status⟩ := by
  rw [lastOf, List.length_append, List.length_singleton, Nat.add_sub_cancel]

theorem streamedState_concat (target : Target) (ss : List Snapshot) (s : Snapshot) :
    streamedState target (ss ++ [s]) none =
      .ready ⟨target, .streamed, UInt64.ofNat ss.length, s, some .live⟩ := by
  simp only [streamedState, List.getLast?_concat, lastOf_concat]

theorem afterSnapshot_streamedState (target : Target) (ss : List Snapshot) (s : Snapshot) :
    (streamedState target ss none).afterSnapshot target s =
      if isDecided ss then none else some (streamedState target (ss ++ [s]) none) := by
  obtain rfl | ⟨ss, x, rfl⟩ := List.eq_nil_or_concat ss
  · rfl
  · rw [List.concat_eq_append, Stream.isDecided_concat, streamedState_concat, streamedState_concat,
      State.afterSnapshot, Ready.isTerminal, List.length_append, List.length_singleton]
    simp only [UInt64.ofNat_add]
    rfl

theorem brokenOff_concat (target : Target) (ss : List Snapshot) (s : Snapshot) (r : CloseReason) :
    brokenOff target (ss ++ [s]) r =
      .failed target .streamed
        (.streamFailed (closeDescription r) (UInt64.ofNat ss.length + 1)) := by
  rw [brokenOff, List.length_append, List.length_singleton, UInt64.ofNat_add]
  rfl

theorem afterClose_of_terminal {r : Ready} (h : r.snapshot.isTerminal = true) (target : Target)
    (reason : CloseReason) :
    (State.ready r).afterClose target reason = some (.ready (r.withStream .finished)) := by
  cases reason <;> exact if_pos h

theorem afterClose_of_pending {r : Ready} (h : ¬r.snapshot.isTerminal = true) (target : Target)
    (reason : CloseReason) :
    (State.ready r).afterClose target reason =
      if reason = .cancelled then some (.ready (r.withStream .cancelled))
      else
        some (.failed target .streamed
          (.streamFailed (closeDescription reason) (r.step + 1))) := by
  cases reason <;> exact if_neg h

/-- A verdict goes before a cancel, and a cancel before a failure. -/
theorem afterClose_streamedState (target : Target) (ss : List Snapshot) (r : CloseReason) :
    (streamedState target ss none).afterClose target r =
      some (streamedState target ss (some r)) := by
  obtain rfl | ⟨ss, x, rfl⟩ := List.eq_nil_or_concat ss
  · cases r <;> rfl
  · rw [List.concat_eq_append, streamedState_concat]
    simp only [streamedState, List.getLast?_concat, lastOf_concat, brokenOff_concat]
    by_cases hx : x.isTerminal = true
    · rw [if_pos hx]
      exact afterClose_of_terminal (r := ⟨target, .streamed, _, x, _⟩) hx target r
    · rw [if_neg hx]
      refine (afterClose_of_pending (r := ⟨target, .streamed, _, x, _⟩) hx target r).trans ?_
      split <;> rfl

theorem mode?_streamedState (target : Target) (ss : List Snapshot)
    (closing : Option CloseReason) :
    (streamedState target ss closing).mode? ≠ some .stepped := by
  unfold streamedState
  split
  · nofun
  · nofun
  · split <;> nofun
  · split
    · nofun
    · split <;> nofun

/-! ## Moves of a streamed trace -/

/-- What a move pushes into the stream with this number. A cancel at the handle closes it. -/
def Move.eventOf (i : Nat) : Move → Option Event
  | push j e => if j = i then some e else none
  | cancelStream j => if j = i then some (.close .cancelled) else none
  | _ => none

/-- The calls that give up a streamed trace. -/
def Move.givesUp : Move → Bool
  | start _ _ _ _ => true
  | changeTarget _ => true
  | cancel => true
  | follow _ _ => true
  | _ => false

namespace Focus

/-- The focus is on a streamed trace, into whose stream these events were pushed. -/
structure Streaming (f : Focus) (i : Nat) (target : Target) (es : List Event) : Prop where
  work_eq : f.work = .stream i target (closing? es).isSome
  state_eq : f.state = streamedState target (received es) (closing? es)

variable {f : Focus} {i : Nat} {target : Target} {es : List Event}

/-- A closed stream hands on nothing. -/
theorem push_of_closed {closed : Bool} (hwork : f.work = .stream i target closed)
    (hclosed : closed = true) (e : Event) : f.push i e = f := by
  rw [push, hwork, hclosed]
  simp [Work.stream?]

theorem push_of_open (hwork : f.work = .stream i target false) (e : Event) :
    f.push i e = publish? { f with work := .stream i target e.isClose }
      (afterEvent f.state target e) := by
  rw [push, hwork]
  simp [Work.stream?]

theorem push_of_other {j : Nat} {closed : Bool} (hwork : f.work = .stream i target closed)
    (hj : j ≠ i) (e : Event) : f.push j e = f := by
  rw [push, hwork]
  simp [Work.stream?, hj]

theorem Streaming.push (h : f.Streaming i target es) (e : Event) :
    (f.push i e).Streaming i target (es ++ [e]) := by
  have hwork := h.work_eq
  have hstate := h.state_eq
  cases hc : closing? es with
  | some r =>
    -- A closed stream hands on nothing, and nothing behind a close counts.
    rw [hc] at hwork hstate
    rw [push_of_closed hwork rfl e]
    refine ⟨?_, ?_⟩
    · rw [Stream.closing?_concat_of_closed hc]
      exact hwork
    · rw [Stream.closing?_concat_of_closed hc, Stream.received_concat_of_closed hc]
      exact hstate
  | none =>
    rw [hc] at hwork hstate
    rw [push_of_open hwork, hstate]
    refine ⟨?_, ?_⟩
    · rw [work_publish?, Stream.closing?_concat_of_open hc]
      cases e <;> rfl
    · rw [Stream.closing?_concat_of_open hc]
      cases e with
      | snapshot s =>
        rw [afterEvent, afterSnapshot_streamedState, Stream.received_concat_snapshot hc]
        split <;> rfl
      | close r =>
        rw [afterEvent, afterClose_streamedState, Stream.received_concat_close hc]
        rfl

theorem Streaming.foldl_push (h : f.Streaming i target es) (fs : List Event) :
    (fs.foldl (fun f e => f.push i e) f).Streaming i target (es ++ fs) := by
  induction fs generalizing f es with
  | nil => rwa [List.append_nil]
  | cons e fs ih =>
    have hrest := ih (h.push e)
    rwa [List.append_assoc] at hrest

theorem Streaming.move (h : f.Streaming i target es) {m : Move} (hm : m.givesUp = false) :
    (f.move m).Streaming i target (es ++ (m.eventOf i).toList) := by
  have hsame : ∀ g : Focus, g = f → g.Streaming i target (es ++ []) := by
    rintro g rfl
    rwa [List.append_nil]
  have hpush : ∀ j e, (f.push j e).Streaming i target
      (es ++ (if j = i then some e else none).toList) := by
    intro j e
    by_cases hj : j = i
    · rw [if_pos hj, hj]
      exact h.push e
    · rw [if_neg hj]
      exact hsame _ (push_of_other h.work_eq hj e)
  cases m with
  | requestStep step =>
    refine hsame _ (requestStep_of_not_stepped ?_ step)
    rw [h.state_eq]
    exact mode?_streamedState _ _ _
  | answer j a =>
    refine hsame _ ?_
    show f.answer j a = f
    rw [answer, h.work_eq]
    rfl
  | push j e => exact hpush j e
  | cancelStream j => exact hpush j _
  | start | changeTarget | cancel | follow => cases hm

/-- Until the trace is given up, all that a run does to it is push into its stream. -/
theorem Streaming.run (h : f.Streaming i target es) {ms : List Move}
    (hms : ∀ m ∈ ms, m.givesUp = false) :
    (f.run ms).Streaming i target (es ++ ms.filterMap (Move.eventOf i)) := by
  induction ms generalizing f es with
  | nil => rwa [List.filterMap_nil, List.append_nil]
  | cons m ms ih =>
    have hfirst := h.move (hms m List.mem_cons_self)
    have hrest := ih hfirst fun m' hm' => hms m' (List.mem_cons_of_mem m hm')
    rw [List.append_assoc] at hrest
    cases he : m.eventOf i with
    | none =>
      rw [he] at hrest
      rw [List.filterMap_cons_none he]
      exact hrest
    | some e =>
      rw [he] at hrest
      rw [List.filterMap_cons_some he]
      exact hrest

/-- A streamed trace starts with what is pushed while its stream is opened. -/
theorem streaming_start (f : Focus) (target : Target) (step : UInt64) (eager : List Event) :
    (f.start target .streamed step eager).Streaming f.issued.streams target eager := by
  have hopen : Streaming
      { (f.reset target).publish (.loading target .streamed none) with
        issued := ⟨f.issued.requests, f.issued.streams + 1⟩
        work := .stream f.issued.streams target false } f.issued.streams target [] := ⟨rfl, rfl⟩
  exact hopen.foldl_push eager

end Focus

end SpendTrace.Trace
