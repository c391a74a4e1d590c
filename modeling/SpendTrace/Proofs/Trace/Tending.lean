import SpendTrace.Proofs.Stream.Closing
import SpendTrace.Proofs.Trace.Attending
import SpendTrace.Proofs.Trace.Calls

/-!
# No stream is leaked

A coordinator opens streams and has to see to it that they are closed again: by a later start, by a
cancel, or at their source. It keeps the number of the one stream it may still have to cancel, and
forgets it when that stream has closed.

* `Coordinator.EachOpen`: what holds of every stream that is open.
* `Coordinator.Keeps`: an open stream is the one that is kept, and that is the one which the latest
  start opened. This is what a move preserves, however many calls were made before.
* `no_stream_is_leaked` is the main statement.
-/

namespace SpendTrace.Trace

open SpendTrace.Stream (Event Handle)

/-! ## Open streams -/

namespace Coordinator

/-- Every stream that is open satisfies `P`, which tells of its number and its generation. -/
def EachOpen (c : Coordinator) (P : Nat → UInt64 → Prop) : Prop :=
  ∀ i s, c.streams[i]? = some s → s.handle.isClosed = false → P i s.generation

/-- No stream is open. -/
def Quiet (c : Coordinator) : Prop :=
  c.EachOpen fun _ _ => False

/-- Every handle is one that a new handle may come to be. -/
def Reached (c : Coordinator) : Prop :=
  ∀ s ∈ c.streams, s.handle.Reached

variable {c d : Coordinator} {P Q : Nat → UInt64 → Prop} {i : Nat}

theorem EachOpen.imp (h : c.EachOpen P) (hPQ : ∀ i g, P i g → Q i g) : c.EachOpen Q :=
  fun i s hs hopen => hPQ i _ (h i s hs hopen)

theorem Quiet.eachOpen (h : c.Quiet) (P : Nat → UInt64 → Prop) : c.EachOpen P :=
  h.imp fun _ _ => False.elim

theorem EachOpen.congr (h : c.EachOpen P) (hstreams : d.streams = c.streams) : d.EachOpen P := by
  unfold EachOpen
  rw [hstreams]
  exact h

theorem Reached.congr (h : c.Reached) (hstreams : d.streams = c.streams) : d.Reached := by
  unfold Reached
  rw [hstreams]
  exact h

/-! ## A stream is used -/

/-- A stream that is closed stays so. -/
theorem EachOpen.used (h : c.EachOpen P) (hd : c.Used d) : d.EachOpen P := by
  cases hd with
  | unchanged => exact h
  | @moved i s callback hs m _ =>
    -- A stream that is open now is one of the others, or was open before it moved.
    intro j t ht hopen
    rw [streams_updateStream] at ht
    by_cases hij : i = j
    · subst hij
      have hi := (List.getElem?_eq_some_iff.1 hs).1
      obtain rfl : { s with handle := s.handle.move m } = t := by simpa [hi] using ht
      refine h i s hs (Bool.eq_false_iff.2 fun hc => ?_)
      simp [Handle.isClosed_move hc m] at hopen
    · exact h j t (by simpa [hij] using ht) hopen

theorem Reached.used (h : c.Reached) (hd : c.Used d) : d.Reached := by
  cases hd with
  | unchanged => exact h
  | @moved i s callback hs m _ =>
    intro t ht
    rw [streams_updateStream] at ht
    rcases List.mem_or_eq_of_mem_set ht with hold | rfl
    · exact h t hold
    · exact (h s (List.mem_of_getElem? hs)).move m

theorem EachOpen.foldl_push (h : c.EachOpen P) (i : Nat) (es : List Event) :
    (es.foldl (fun c e => c.push i e) c).EachOpen P := by
  induction es generalizing c with
  | nil => exact h
  | cons e es ih => exact ih (h.used (c.used_push i e))

theorem Reached.foldl_push (h : c.Reached) (i : Nat) (es : List Event) :
    (es.foldl (fun c e => c.push i e) c).Reached := by
  induction es generalizing c with
  | nil => exact h
  | cons e es ih => exact ih (h.used (c.used_push i e))

/-! ## Streams are given up -/

/-- If only one stream may be open, its cancel leaves none. -/
theorem EachOpen.quiet_cancelStream (h : c.EachOpen fun j _ => i = j) :
    (c.cancelStream i).Quiet := by
  intro j t ht hopen
  obtain rfl := h.used (c.used_cancelStream i) j t ht hopen
  cases hs : c.streams[i]? with
  | none => simp [cancelStream_of_getElem?_none hs, hs] at ht
  | some s =>
    have hi := (List.getElem?_eq_some_iff.1 hs).1
    rw [cancelStream_of_getElem? hs, streams_updateStream, List.getElem?_set_self hi] at ht
    obtain rfl := Option.some.inj ht
    simp [Handle.isClosed_cancel] at hopen

/-- All streams are closed, and none is kept. -/
structure Free (c : Coordinator) : Prop where
  reached : c.Reached
  quiet : c.Quiet
  stream_eq : c.stream = none

/-- Whoever keeps the only stream that may be open can give up all. -/
theorem free_release {slot : Option Nat} (hreached : c.Reached)
    (hopen : c.EachOpen fun i _ => slot = some i) (hnone : c.stream = none) (fetch : Option Nat) :
    (c.release fetch slot).Free := by
  -- The request that is aborted has to do with no stream.
  have hfetch : ∃ d : Coordinator, d.streams = c.streams ∧ d.stream = c.stream ∧
      c.release fetch slot = d.release none slot := by
    cases fetch with
    | none => exact ⟨c, rfl, rfl, rfl⟩
    | some i => exact ⟨c.abortRequest i, rfl, rfl, rfl⟩
  obtain ⟨d, hstreams, hstream, hrelease⟩ := hfetch
  rw [hrelease]
  have hreached' := hreached.congr hstreams
  have hopen' := hopen.congr hstreams
  have hnone' := hstream.trans hnone
  cases slot with
  | none => exact ⟨hreached', hopen'.imp (by simp), hnone'⟩
  | some i =>
    have honly : d.EachOpen fun j _ => i = j := hopen'.imp (by simp)
    exact ⟨hreached'.used (d.used_cancelStream i), honly.quiet_cancelStream,
      (d.used_cancelStream i).stream_eq_none hnone'⟩

/-! ## A stream is opened -/

/-- The stream that is being opened is the only one that may be open, and it is kept. -/
theorem Free.openStream (h : c.Free) (target : Target) {eager : List Event}
    (ho : c.openings = [{ eager }]) :
    (c.openStream target).Reached ∧ (c.openStream target).stream = some c.streams.length ∧
      (c.openStream target).EachOpen fun i g => i = c.streams.length ∧ g = c.generation := by
  have hreached : (c.spawnStream target).Reached := by
    intro s hs
    rcases List.mem_append.1 hs with hold | hnew
    · exact h.reached s hold
    · rw [List.mem_singleton.1 hnew]
      exact Handle.reached_new
  have hopen : (c.spawnStream target).EachOpen
      fun i g => i = c.streams.length ∧ g = c.generation := by
    intro i s hs hopen
    have hle : i < c.streams.length + 1 := by
      simpa [spawnStream] using (List.getElem?_eq_some_iff.1 hs).1
    rcases Nat.lt_succ_iff_lt_or_eq.1 hle with hlt | rfl
    · have hold : c.streams[i]? = some s := by
        simpa [spawnStream, List.getElem?_append_left hlt] using hs
      exact (h.quiet i s hold hopen).elim
    · obtain rfl : ({ generation := c.generation, target } : OpenedStream) = s := by
        simpa [spawnStream] using hs
      exact ⟨rfl, rfl⟩
  rw [openStream_eq c target ho]
  exact ⟨hreached.foldl_push _ eager, rfl, hopen.foldl_push _ eager⟩

/-! ## The stream that is kept -/

/-- An open stream is kept, and it is the one that the latest start opened, if it opened one. -/
structure Keeps (c : Coordinator) (latest : Option Nat) : Prop where
  reached : c.Reached
  eachOpen : c.EachOpen fun i _ => c.stream = some i
  latest_eq : ∀ i ∈ c.stream, latest = some i

variable {latest : Option Nat}

theorem Free.keeps (h : c.Free) (latest : Option Nat) : c.Keeps latest where
  reached := h.reached
  eachOpen := h.quiet.eachOpen _
  latest_eq := by simp [h.stream_eq]

namespace Keeps

/-- The stream that is kept is forgotten only when it closes. -/
theorem used (h : c.Keeps latest) (hd : c.Used d) : d.Keeps latest := by
  have hreached := h.reached.used hd
  have hopen := h.eachOpen.used hd
  cases hd with
  | unchanged => exact h
  | @moved i s callback hs m hclose =>
    rcases c.stream_updateStream i s (s.handle.move m) callback with
      heq | ⟨⟨e, he, hclosing⟩, hnone⟩
    · refine ⟨hreached, ?_, ?_⟩
      · rwa [heq]
      · rw [heq]
        exact h.latest_eq
    · -- The open stream was the one that is kept, and now it is closed.
      obtain ⟨hs', hclosed⟩ := hclose e he hclosing
      have hkept : c.stream = some i := h.eachOpen i s hs hs'
      refine Free.keeps ⟨hreached, ?_, hnone⟩ latest
      intro j t ht hj
      obtain rfl : i = j := Option.some.inj (hkept.symm.trans (hopen j t ht hj))
      have hi := (List.getElem?_eq_some_iff.1 hs).1
      rw [streams_updateStream, List.getElem?_set_self hi] at ht
      obtain rfl := Option.some.inj ht
      simp [hclosed] at hj

/-- Giving up all, with whatever else is changed. -/
theorem release (h : c.Keeps latest) (hstreams : d.streams = c.streams) (hnone : d.stream = none) :
    (d.release c.fetch c.stream).Free :=
  free_release (h.reached.congr hstreams) (h.eachOpen.congr hstreams) hnone c.fetch

theorem changeTarget (h : c.Keeps latest) (target : Target) : (c.changeTarget target).Free :=
  h.release rfl rfl

theorem cancel (h : c.Keeps latest) : c.cancel.Free :=
  h.release (streams_publish? _ _) (stream_publish? _ _)

end Keeps

/-! ## Moves -/

/-- The mode of the trace that a move starts, if it starts one. A step of the trace on display is
asked for without a start. -/
def startedMode? (c : Coordinator) : Move → Option Mode
  | .start _ mode _ _ => some mode
  | .follow link _ => if c.isInPlace link then none else some link.mode
  | _ => none

/-- The number of the stream that the latest start has opened, if it opened one, behind one more
move. -/
def latestAfter (c : Coordinator) (latest : Option Nat) (m : Move) : Option Nat :=
  match c.startedMode? m with
  | some .streamed => some c.streams.length
  | some .stepped => none
  | none => latest

/-- The number of the stream that the latest start of a run has opened, if it opened one. -/
def latestStream (c : Coordinator) (latest : Option Nat) : List Move → Option Nat
  | [] => latest
  | m :: ms => (c.move m).latestStream (c.latestAfter latest m) ms

/-- Every open stream is of the current generation. -/
def Current (c : Coordinator) : Prop :=
  c.EachOpen fun _ g => g = c.generation

theorem Keeps.congr (h : c.Keeps latest) (hstreams : d.streams = c.streams)
    (hstream : d.stream = c.stream) : d.Keeps latest where
  reached := h.reached.congr hstreams
  eachOpen := by
    rw [hstream]
    exact h.eachOpen.congr hstreams
  latest_eq := by
    rw [hstream]
    exact h.latest_eq

theorem Current.used (h : c.Current) (hd : c.Used d) : d.Current := by
  unfold Current
  rw [hd.generation_eq]
  exact EachOpen.used h hd

theorem Current.congr (h : c.Current) (hstreams : d.streams = c.streams)
    (hgeneration : d.generation = c.generation) : d.Current := by
  unfold Current
  rw [hgeneration]
  exact EachOpen.congr h hstreams

namespace Keeps

theorem cleared (h : c.Keeps latest) (target : Target) (s : State) : (c.cleared target s).Free :=
  h.release rfl rfl

/-- A start gives up all, and keeps the stream that it opens, if it opens one. -/
theorem start (h : c.Keeps latest) (target : Target) (mode : Mode) (step : UInt64)
    {eager : List Event} (ho : c.openings = [{ eager }]) :
    (c.start target mode step).Keeps
        (match mode with
        | .streamed => some c.streams.length
        | .stepped => none) ∧
      (c.start target mode step).Current := by
  cases mode with
  | stepped =>
    have hfree := h.cleared target (.loading target .stepped (some step))
    rw [start_stepped]
    have hspawned : ((c.cleared target (.loading target .stepped (some step))).spawnRequest
        target step).Free := ⟨hfree.reached, hfree.quiet, hfree.stream_eq⟩
    exact ⟨hspawned.keeps none, hspawned.quiet.eachOpen _⟩
  | streamed =>
    -- The coordinator is cleared before the stream is opened, so nothing else is open.
    have hopenings := (c.openings_cleared target (.loading target .streamed none)).trans ho
    have hgeneration := generation_openStream _ target hopenings
    obtain ⟨hreached, hstream, hopen⟩ :=
      (h.cleared target (.loading target .streamed none)).openStream target hopenings
    rw [length_streams_cleared] at hstream hopen
    rw [start_streamed]
    refine ⟨⟨hreached, ?_, ?_⟩, ?_⟩
    · rw [hstream]
      exact hopen.imp fun i g hi => congrArg some hi.1.symm
    · intro i hi
      exact hstream.symm.trans hi
    · unfold Current
      rw [hgeneration]
      exact hopen.imp fun i g hi => hi.2

/-- A trace that a link leads to is started as any other. -/
theorem restart (h : c.Keeps latest) (l : Link) {eager : List Event}
    (ho : c.openings = [{ eager }]) :
    ((c.changeTarget l.target).start l.target l.mode (l.requestedStep.getD 0)).Keeps
        (match l.mode with
        | .streamed => some c.streams.length
        | .stepped => none) ∧
      ((c.changeTarget l.target).start l.target l.mode (l.requestedStep.getD 0)).Current := by
  have hopenings := (c.openings_cleared l.target .idle).trans ho
  have hlength := c.length_streams_cleared l.target .idle
  have hstart := ((h.changeTarget l.target).keeps latest).start l.target l.mode
    (l.requestedStep.getD 0) hopenings
  rwa [show (c.changeTarget l.target).streams.length = c.streams.length from hlength] at hstart

/-- What is kept behind a move. -/
theorem move (h : c.Keeps latest) (m : Move) : (c.move m).Keeps (c.latestAfter latest m) := by
  have hexpecting (eager : List Event) : (c.expecting eager).Keeps latest := h.congr rfl rfl
  cases m with
  | start target mode step eager =>
    have hstart := ((hexpecting eager).start target mode step rfl).1
    cases mode <;> exact hstart
  | requestStep step =>
    obtain ⟨hstreams, hstream⟩ := c.streams_requestStep step
    exact h.congr hstreams hstream
  | changeTarget target => exact (h.changeTarget target).keeps latest
  | cancel => exact h.cancel.keeps latest
  | follow link eager =>
    show ((c.expecting eager).follow link).Keeps _
    cases hin : c.isInPlace link with
    | true =>
      obtain ⟨hstreams, hstream⟩ :=
        (c.expecting eager).streams_requestStep (link.requestedStep.getD 0)
      rw [requestStep_of_isInPlace (c := c.expecting eager) hin] at hstreams hstream
      simpa [latestAfter, startedMode?, hin] using h.congr hstreams hstream
    | false =>
      have hrestart := ((hexpecting eager).restart link rfl).1
      have hstreams : (c.expecting eager).streams = c.streams := rfl
      rw [follow_of_not_isInPlace (c := c.expecting eager) hin]
      cases hmode : link.mode <;>
        simpa [latestAfter, startedMode?, hin, hmode, hstreams] using hrestart
  | answer i a =>
    obtain ⟨hstreams, hstream, -⟩ := c.streams_answer i a
    exact h.congr hstreams hstream
  | push i e => exact h.used (c.used_push i e)
  | cancelStream i => exact h.used (c.used_cancelStream i)

theorem run (h : c.Keeps latest) (ms : List Move) :
    (c.run ms).Keeps (c.latestStream latest ms) := by
  induction ms generalizing c latest with
  | nil => exact h
  | cons m ms ih => exact ih (h.move m)

end Keeps

/-- A granted step begins a generation and gives up nothing, so no stream may be open then. Every
other call gives up what is open. -/
theorem Current.move (h : c.Current) (hkeeps : c.Keeps latest)
    (hquiet : c.state.mode? = some .stepped → c.Quiet) (m : Move) : (c.move m).Current := by
  have hstep {b : Coordinator} {k : UInt64} (hb : b.streams = c.streams)
      (hmode : b.state = c.state) (hd : (b.requestStep k).2 = .ok ()) :
      (b.requestStep k).1.Current := by
    have hc : c.Quiet := hquiet (hmode ▸ mode?_of_requestStep hd)
    exact (hc.eachOpen _).congr ((b.streams_requestStep k).1.trans hb)
  have hexpecting (eager : List Event) : (c.expecting eager).Keeps latest := hkeeps.congr rfl rfl
  cases m with
  | start target mode step eager => exact ((hexpecting eager).start target mode step rfl).2
  | requestStep step =>
    show (c.requestStep step).1.Current
    cases hd : (c.requestStep step).2 with
    | ok => exact hstep rfl rfl hd
    | error e =>
      rw [requestStep_of_error hd]
      exact h
  | changeTarget target => exact (hkeeps.changeTarget target).quiet.eachOpen _
  | cancel => exact hkeeps.cancel.quiet.eachOpen _
  | follow link eager =>
    show ((c.expecting eager).follow link).Current
    cases hin : (c.expecting eager).isInPlace link with
    | true =>
      have hfollow := requestStep_of_isInPlace hin
      have hcurrent := hstep (b := c.expecting eager) rfl rfl (congrArg Prod.snd hfollow)
      rwa [hfollow] at hcurrent
    | false =>
      rw [follow_of_not_isInPlace hin]
      exact ((hexpecting eager).restart link rfl).2
  | answer i a =>
    obtain ⟨hstreams, -, hgeneration⟩ := c.streams_answer i a
    exact h.congr hstreams hgeneration
  | push i e => exact h.used (c.used_push i e)
  | cancelStream i => exact h.used (c.used_cancelStream i)

end Coordinator

/-! ## Runs -/

/-- A coordinator with its focus, and with what is to be known of its streams. -/
structure Tends (n : Nat) (c : Coordinator) (f : Focus) (latest : Option Nat) : Prop where
  tracks : Tracks n c f
  attends : f.Attends
  keeps : c.Keeps latest
  current : c.Current

namespace Tends

variable {n : Nat} {c : Coordinator} {f : Focus} {latest : Option Nat} {i : Nat} {s : OpenedStream}

theorem init : Tends 0 {} {} none where
  tracks := Tracks.init
  attends := Focus.attends_new
  keeps := ⟨nofun, nofun, nofun⟩
  current := nofun

/-- An open stream is the work that counts. -/
theorem work_eq (h : Tends n c f latest) (hs : c.streams[i]? = some s)
    (hopen : s.handle.isClosed = false) : f.work = .stream i s.target false := by
  have hgeneration : s.generation = c.generation := h.current i s hs hopen
  have hcurrent : c.currentStream? i = some (s.target, false) := by
    simp [Coordinator.currentStream?, hs, hgeneration, hopen]
  exact Work.eq_stream ((h.tracks.stream_eq i).symm.trans hcurrent)

/-- A stream is open exactly while the state waits for one. -/
theorem exists_open_iff (h : Tends n c f latest) :
    (∃ s ∈ c.streams, s.handle.isClosed = false) ↔ c.state.isLive = true := by
  rw [h.tracks.state_eq, h.attends.isLive_eq]
  constructor
  · rintro ⟨s, hs, hopen⟩
    obtain ⟨i, hi⟩ := List.getElem?_of_mem hs
    rw [h.work_eq hi hopen]
    rfl
  · intro hlive
    cases hwork : f.work with
    | nothing | request =>
      rw [hwork] at hlive
      cases hlive
    | stream i target closed =>
      rw [hwork] at hlive
      have hcurrent := h.tracks.stream_eq i
      simp only [hwork, Work.stream?, if_pos, Coordinator.currentStream?,
        Option.bind_eq_some_iff, Option.ite_none_right_eq_some, Option.some.injEq,
        Prod.mk.injEq] at hcurrent
      obtain ⟨s, hs, -, -, hclosed⟩ := hcurrent
      refine ⟨s, List.mem_of_getElem? hs, ?_⟩
      simpa [Work.isOpen, ← hclosed] using hlive

/-- No stream is open while there is a stepped trace. -/
theorem quiet_of_stepped (h : Tends n c f latest) (hmode : c.state.mode? = some .stepped) :
    c.Quiet := by
  intro i s hs hopen
  have hlive := h.exists_open_iff.1 ⟨s, List.mem_of_getElem? hs, hopen⟩
  have hshape : c.state.WellShaped := by
    rw [h.tracks.state_eq]
    exact h.attends.sound.view.state
  rw [State.isLive_of_stepped hmode hshape] at hlive
  cases hlive

theorem move (h : Tends n c f latest) (m : Move) (hn : n + 2 * calls [m] < UInt64.size) :
    Tends (n + 2 * calls [m]) (c.move m) (f.move m) (c.latestAfter latest m) where
  tracks := tracks_move h.tracks m hn
  attends := h.attends.move m
  keeps := h.keeps.move m
  current := h.current.move h.keeps h.quiet_of_stepped m

theorem run (h : Tends n c f latest) (ms : List Move) (hn : n + 2 * calls ms < UInt64.size) :
    Tends (n + 2 * calls ms) (c.run ms) (f.run ms) (c.latestStream latest ms) := by
  induction ms generalizing n c f latest with
  | nil => exact h
  | cons m ms ih =>
    rw [add_two_mul_calls_cons] at hn ⊢
    exact ih (h.move m (by omega)) hn

end Tends

/-- **No stream is leaked.** At every point of any run, of all the streams that a coordinator ever
opened one at most is open, and that is the one which the latest start has opened. Every stream has
closed as often as it should have: once, and not at all while it is open. All this holds however
long the run is; and unless the generations come round, a stream is open exactly while the state is
one that a stream may still add to. -/
theorem no_stream_is_leaked (ms : List Move) :
    let c := Coordinator.run {} ms
    c.streams.countP (fun s => !s.handle.isClosed) ≤ 1 ∧
      (∀ i s, c.streams[i]? = some s →
        (s.handle.isClosed = false → Coordinator.latestStream {} none ms = some i) ∧
        s.handle.delivery.callbacks.countP Event.isClose = if s.handle.isClosed then 1 else 0) ∧
      (calls ms < callLimit →
        ((∃ s ∈ c.streams, s.handle.isClosed = false) ↔ c.state.isLive = true)) := by
  intro c
  have hkeeps : c.Keeps (Coordinator.latestStream {} none ms) := Tends.init.keeps.run ms
  have hlatest (i : Nat) (s : OpenedStream) (hs : c.streams[i]? = some s)
      (hopen : s.handle.isClosed = false) : Coordinator.latestStream {} none ms = some i :=
    hkeeps.latest_eq i (hkeeps.eachOpen i s hs hopen)
  refine ⟨?_, fun i s hs => ⟨hlatest i s hs, ?_⟩, fun h => ?_⟩
  · refine Stream.countP_le_one_of_unique
      (n := (Coordinator.latestStream {} none ms).elim 0 Nat.succ) fun i s hs hopen => ?_
    rw [hlatest i s hs (by simpa using hopen)]
    rfl
  · exact (hkeeps.reached s (List.mem_of_getElem? hs)).countP_close
  · have hsize : UInt64.size = 2 * callLimit := rfl
    exact (Tends.init.run ms (by omega)).exists_open_iff

/-- The first stream is cancelled at its source, the second closes while it is being opened, the
third is given up by the start of the last. -/
theorem no_stream_is_leaked_by_restarts :
    let ms : List Move := [.start ⟨"a", 0⟩ .streamed 0 [], .cancelStream 0,
      .start ⟨"a", 0⟩ .streamed 0 [.close .completed], .start ⟨"b", 1⟩ .streamed 0 [],
      .follow ⟨⟨"c", 2⟩, .automatic⟩ []]
    let c := Coordinator.run {} ms
    c.streams.map (·.handle.isClosed) = [true, true, true, false] ∧
      Coordinator.latestStream {} none ms = some 3 ∧
      (∃ s ∈ c.streams, s.handle.isClosed = false) := by
  intro ms c
  obtain ⟨-, -, hlive⟩ := no_stream_is_leaked ms
  exact ⟨by decide, by decide, (hlive (by decide)).2 (by decide)⟩

end SpendTrace.Trace
