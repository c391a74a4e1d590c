import SpendTrace.Proofs.Trace.Focus

/-!
# A coordinator does what its focus does

A coordinator fences off stale work by generations; its focus knows of no stale work. `Tracks` ties
the two together: they show the same, and the work of the current generation is the work of the
focus. Every operation preserves that, one lemma for each, as long as the generations do not come
round.

* `tracks_move`: what one move preserves.
* `tracks_run_new`: over any run with fewer calls than `callLimit` a new coordinator does what a new
  focus does.
-/

namespace SpendTrace.Trace

open SpendTrace.Stream (Event)

/-! ## The work of a coordinator that counts -/

namespace Coordinator

/-- The request with this number, if it belongs to the current generation. -/
def currentRequest? (c : Coordinator) (i : Nat) : Option (Target × UInt64) :=
  c.requests[i]?.bind fun r =>
    if r.generation = c.generation then some (r.target, r.step) else none

/-- The stream with this number, if it belongs to the current generation. -/
def currentStream? (c : Coordinator) (i : Nat) : Option (Target × Bool) :=
  c.streams[i]?.bind fun s =>
    if s.generation = c.generation then some (s.target, s.handle.isClosed) else none

/-- No more than `n` generations have begun, and no work is of a generation still to come. -/
structure Fenced (c : Coordinator) (n : Nat) : Prop where
  generation_le : c.generation.toNat ≤ n
  request_le : ∀ r ∈ c.requests, r.generation.toNat ≤ c.generation.toNat
  stream_le : ∀ s ∈ c.streams, s.generation.toNat ≤ c.generation.toNat

end Coordinator

/-- The coordinator does what the focus says, after at most `n` generations. -/
structure Tracks (n : Nat) (c : Coordinator) (f : Focus) : Prop where
  published_eq : c.published = f.published
  state_eq : c.state = f.state
  selected_eq : c.selected = f.selected
  shown_eq : c.shown = f.shown
  issued_eq : c.issued = f.issued
  request_eq : ∀ i, c.currentRequest? i = f.work.request? i
  stream_eq : ∀ i, c.currentStream? i = f.work.stream? i
  fenced : c.Fenced n

namespace Tracks

variable {n : Nat} {c : Coordinator} {f : Focus}

theorem view_eq (h : Tracks n c f) : c.view = f.view := by
  simp only [Coordinator.view, Focus.view, Coordinator.navigation, h.published_eq, h.state_eq,
    h.selected_eq, h.shown_eq]

theorem init : Tracks n {} {} where
  published_eq := rfl
  state_eq := rfl
  selected_eq := rfl
  shown_eq := rfl
  issued_eq := rfl
  request_eq := fun _ => rfl
  stream_eq := fun _ => rfl
  fenced := ⟨Nat.zero_le _, by simp, by simp⟩

theorem mono (h : Tracks n c f) {m : Nat} (hnm : n ≤ m) : Tracks m c f :=
  { h with fenced := { h.fenced with generation_le := Nat.le_trans h.fenced.generation_le hnm } }

/-! ## What a state is published with -/

theorem publish (h : Tracks n c f) (s : State) : Tracks n (c.publish s) (f.publish s) where
  published_eq := by rw [Coordinator.publish, Focus.publish, h.published_eq]
  state_eq := rfl
  selected_eq := h.selected_eq
  shown_eq := h.shown_eq
  issued_eq := h.issued_eq
  request_eq := h.request_eq
  stream_eq := h.stream_eq
  fenced := ⟨h.fenced.generation_le, h.fenced.request_le, h.fenced.stream_le⟩

theorem publish? (h : Tracks n c f) (s : Option State) :
    Tracks n (c.publish? s) (f.publish? s) := by
  cases s with
  | none => exact h
  | some s => exact h.publish s

/-- The parts that nobody looks at make no difference. -/
theorem hold (h : Tracks n c f) (fetch stream : Option Nat) (openings : List Opening) :
    Tracks n { c with fetch, stream, openings } f :=
  ⟨h.published_eq, h.state_eq, h.selected_eq, h.shown_eq, h.issued_eq, h.request_eq, h.stream_eq,
    ⟨h.fenced.generation_le, h.fenced.request_le, h.fenced.stream_le⟩⟩

theorem choose (h : Tracks n c f) (selected : Option Target) :
    Tracks n { c with selected } { f with selected } :=
  ⟨h.published_eq, h.state_eq, rfl, h.shown_eq, h.issued_eq, h.request_eq, h.stream_eq,
    ⟨h.fenced.generation_le, h.fenced.request_le, h.fenced.stream_le⟩⟩

theorem remember (h : Tracks n c f) (shown : Option Ready) :
    Tracks n { c with shown } { f with shown } :=
  ⟨h.published_eq, h.state_eq, h.selected_eq, rfl, h.issued_eq, h.request_eq, h.stream_eq,
    ⟨h.fenced.generation_le, h.fenced.request_le, h.fenced.stream_le⟩⟩

end Tracks

/-! ## A new generation -/

namespace Coordinator

variable {n : Nat} {c : Coordinator}

/-- As long as the generations do not come round, the next one is new. -/
theorem Fenced.toNat_next (h : c.Fenced n) (hn : n + 1 < UInt64.size) :
    (c.generation + 1).toNat = c.generation.toNat + 1 := by
  have hle := h.generation_le
  exact toNat_add_one (by omega)

theorem Fenced.ne_next (h : c.Fenced n) (hn : n + 1 < UInt64.size) {g : UInt64}
    (hg : g.toNat ≤ c.generation.toNat) : g ≠ c.generation + 1 := by
  intro he
  have hnext := h.toNat_next hn
  rw [← he] at hnext
  omega

theorem Fenced.nextGeneration (h : c.Fenced n) (hn : n + 1 < UInt64.size) :
    c.nextGeneration.Fenced (n + 1) := by
  have hnext : c.nextGeneration.generation.toNat = c.generation.toNat + 1 := h.toNat_next hn
  refine ⟨?_, fun r hr => ?_, fun s hs => ?_⟩
  · have := h.generation_le
    omega
  · have := h.request_le r hr
    omega
  · have := h.stream_le s hs
    omega

theorem currentRequest?_nextGeneration (h : c.Fenced n) (hn : n + 1 < UInt64.size) (i : Nat) :
    c.nextGeneration.currentRequest? i = none := by
  unfold currentRequest?
  cases hr : c.nextGeneration.requests[i]? with
  | none => rfl
  | some r =>
    have hne := h.ne_next hn (h.request_le r (List.mem_of_getElem? hr))
    simp [nextGeneration, hne]

theorem currentStream?_nextGeneration (h : c.Fenced n) (hn : n + 1 < UInt64.size) (i : Nat) :
    c.nextGeneration.currentStream? i = none := by
  unfold currentStream?
  cases hs : c.nextGeneration.streams[i]? with
  | none => rfl
  | some s =>
    have hne := h.ne_next hn (h.stream_le s (List.mem_of_getElem? hs))
    simp [nextGeneration, hne]

end Coordinator

/-- In a new generation nothing counts any more. -/
theorem Tracks.nextGeneration {n : Nat} {c : Coordinator} {f : Focus} (h : Tracks n c f)
    (hn : n + 1 < UInt64.size) : Tracks (n + 1) c.nextGeneration { f with work := .nothing } where
  published_eq := h.published_eq
  state_eq := h.state_eq
  selected_eq := h.selected_eq
  shown_eq := h.shown_eq
  issued_eq := h.issued_eq
  request_eq := Coordinator.currentRequest?_nextGeneration h.fenced hn
  stream_eq := Coordinator.currentStream?_nextGeneration h.fenced hn
  fenced := h.fenced.nextGeneration hn

/-! ## What comes out of a stream -/

namespace Coordinator

/-- The coordinator with another handle for a stream. -/
def setHandle (c : Coordinator) (i : Nat) (s : OpenedStream) (handle : Stream.Handle) :
    Coordinator :=
  { c with streams := c.streams.set i { s with handle } }

variable {c : Coordinator} {i : Nat} {s : OpenedStream}

theorem currentStream?_of_current (hs : c.streams[i]? = some s) (hg : s.generation = c.generation) :
    c.currentStream? i = some (s.target, s.handle.isClosed) := by
  rw [currentStream?, hs, Option.bind_some, if_pos hg]

theorem currentStream?_of_stale (hs : c.streams[i]? = some s) (hg : s.generation ≠ c.generation) :
    c.currentStream? i = none := by
  rw [currentStream?, hs, Option.bind_some, if_neg hg]

/-- A new handle is seen only if it is closed where the old one was open, or the other way round. -/
theorem currentStream?_setHandle (hs : c.streams[i]? = some s) (handle : Stream.Handle) (j : Nat) :
    (c.setHandle i s handle).currentStream? j =
      if i = j then (c.currentStream? i).map fun p => (p.1, handle.isClosed)
      else c.currentStream? j := by
  have hi : i < c.streams.length := (List.getElem?_eq_some_iff.1 hs).1
  by_cases hij : i = j
  · subst hij
    have hget : (c.setHandle i s handle).streams[i]? = some { s with handle } :=
      List.getElem?_set_self hi
    rw [if_pos rfl]
    by_cases hg : s.generation = c.generation
    · rw [currentStream?_of_current hs hg, currentStream?_of_current hget hg]
      rfl
    · rw [currentStream?_of_stale hs hg, currentStream?_of_stale hget hg]
      rfl
  · have hget : (c.setHandle i s handle).streams[j]? = c.streams[j]? :=
      List.getElem?_set_ne hij
    rw [if_neg hij, currentStream?, hget]
    rfl

theorem Fenced.setHandle {n : Nat} (h : c.Fenced n) (hs : c.streams[i]? = some s)
    (handle : Stream.Handle) : (c.setHandle i s handle).Fenced n := by
  refine ⟨h.generation_le, h.request_le, fun s' hs' => ?_⟩
  rcases List.mem_or_eq_of_mem_set hs' with hold | rfl
  · exact h.stream_le s' hold
  · exact h.stream_le s (List.mem_of_getElem? hs)

end Coordinator

namespace Tracks

variable {n : Nat} {c : Coordinator} {f : Focus} {i : Nat} {s : OpenedStream}

/-- A stream of an earlier generation gets a new handle. -/
theorem setHandle_of_stale (h : Tracks n c f) (hs : c.streams[i]? = some s)
    (hg : s.generation ≠ c.generation) (handle : Stream.Handle) :
    Tracks n (c.setHandle i s handle) f where
  published_eq := h.published_eq
  state_eq := h.state_eq
  selected_eq := h.selected_eq
  shown_eq := h.shown_eq
  issued_eq := by rw [← h.issued_eq]; simp [Coordinator.issued, Coordinator.setHandle]
  request_eq := h.request_eq
  stream_eq := fun j => by
    rw [Coordinator.currentStream?_setHandle hs, ← h.stream_eq j]
    split
    · next hij => rw [← hij, Coordinator.currentStream?_of_stale hs hg]; rfl
    · rfl
  fenced := h.fenced.setHandle hs handle

/-- The stream that counts gets a new handle. -/
theorem setHandle_of_current (h : Tracks n c f) (hs : c.streams[i]? = some s)
    (hg : s.generation = c.generation) (handle : Stream.Handle) :
    Tracks n (c.setHandle i s handle)
      { f with work := .stream i s.target handle.isClosed } where
  published_eq := h.published_eq
  state_eq := h.state_eq
  selected_eq := h.selected_eq
  shown_eq := h.shown_eq
  issued_eq := by rw [← h.issued_eq]; simp [Coordinator.issued, Coordinator.setHandle]
  request_eq := fun j => by
    have hw := Work.eq_stream ((h.stream_eq i).symm.trans
      (Coordinator.currentStream?_of_current hs hg))
    have hj := h.request_eq j
    rw [hw] at hj
    exact hj
  stream_eq := fun j => by
    have hcur := Coordinator.currentStream?_of_current hs hg
    have hw := Work.eq_stream ((h.stream_eq i).symm.trans hcur)
    rw [Coordinator.currentStream?_setHandle hs, hcur, h.stream_eq j, hw]
    by_cases hij : i = j
    · simp [Work.stream?, hij]
    · simp [Work.stream?, hij, Ne.symm hij]
  fenced := h.fenced.setHandle hs handle

/-- A callback of a stream. -/
theorem applyEvent_of_current (h : Tracks n c f) {g : UInt64} (hg : g = c.generation)
    (target : Target) (e : Event) :
    Tracks n (c.applyEvent g target e) (f.publish? (Focus.afterEvent f.state target e)) := by
  unfold Coordinator.applyEvent
  rw [if_pos hg, ← h.state_eq]
  cases e with
  | snapshot snapshot => exact h.publish? _
  | close reason => exact (h.hold c.fetch none c.openings).publish? _

/-- A stream with a handle that took an event; it took nothing if it was closed. -/
theorem updateStream (h : Tracks n c f) (hs : c.streams[i]? = some s) {handle : Stream.Handle}
    {e : Event} {callback : Option Event}
    (hclosed : handle.isClosed = (s.handle.isClosed || e.isClose))
    (hcallback : callback = if s.handle.isClosed then none else some e) :
    Tracks n (c.updateStream i s handle callback) (f.push i e) := by
  by_cases hg : s.generation = c.generation
  · have hcur := Coordinator.currentStream?_of_current hs hg
    have hwork := (h.stream_eq i).symm.trans hcur
    have hset := h.setHandle_of_current hs hg handle
    cases hb : s.handle.isClosed with
    | true =>
      rw [hb] at hwork hclosed hcallback
      have hself : { f with work := .stream i s.target handle.isClosed } = f := by
        rw [hclosed, Bool.true_or, ← Work.eq_stream hwork]
      rw [hself] at hset
      rw [Focus.push, hwork, hcallback]
      exact hset
    | false =>
      rw [hb] at hwork hclosed hcallback
      rw [hclosed, Bool.false_or] at hset
      rw [Focus.push, hwork, hcallback]
      exact hset.applyEvent_of_current hg s.target e
  · have hset := h.setHandle_of_stale hs hg handle
    have hwork := (h.stream_eq i).symm.trans (Coordinator.currentStream?_of_stale hs hg)
    have hskip : f.push i e = f := by rw [Focus.push, hwork]
    rw [hskip]
    cases callback with
    | none => exact hset
    | some e' =>
      have happly : (c.setHandle i s handle).applyEvent s.generation s.target e' =
          c.setHandle i s handle := if_neg hg
      show Tracks n ((c.setHandle i s handle).applyEvent s.generation s.target e') f
      rw [happly]
      exact hset

theorem push (h : Tracks n c f) (i : Nat) (e : Event) : Tracks n (c.push i e) (f.push i e) := by
  unfold Coordinator.push
  cases hs : c.streams[i]? with
  | none =>
    have hwork : f.work.stream? i = none := by
      rw [← h.stream_eq i, Coordinator.currentStream?, hs, Option.bind_none]
    rw [Focus.push, hwork]
    exact h
  | some s =>
    exact h.updateStream hs (Stream.Handle.isClosed_push s.handle e)
      (Stream.Handle.callback_push s.handle e)

theorem cancelStream (h : Tracks n c f) (i : Nat) :
    Tracks n (c.cancelStream i) (f.push i (.close .cancelled)) := by
  unfold Coordinator.cancelStream
  cases hs : c.streams[i]? with
  | none =>
    have hwork : f.work.stream? i = none := by
      rw [← h.stream_eq i, Coordinator.currentStream?, hs, Option.bind_none]
    rw [Focus.push, hwork]
    exact h
  | some s =>
    have hclosed : s.handle.cancel.1.isClosed = (s.handle.isClosed || true) := by
      rw [Stream.Handle.isClosed_cancel, Bool.or_true]
    exact h.updateStream hs hclosed (Stream.Handle.callback_cancel s.handle)

end Tracks

/-! ## Giving up work -/

namespace Coordinator

/-- An abort is seen by the task alone. -/
theorem getElem?_abortRequest (c : Coordinator) (i j : Nat) :
    ∃ task : Request → Task Answer, (c.abortRequest i).requests[j]? =
      c.requests[j]?.map fun r => { r with task := task r } := by
  rw [abortRequest, List.getElem?_modify]
  by_cases hij : i = j
  · exact ⟨fun r => r.task.abort, by simp [hij]⟩
  · exact ⟨fun r => r.task, by simp [hij]⟩

theorem currentRequest?_abortRequest (c : Coordinator) (i j : Nat) :
    (c.abortRequest i).currentRequest? j = c.currentRequest? j := by
  obtain ⟨task, htask⟩ := c.getElem?_abortRequest i j
  unfold currentRequest?
  rw [htask]
  cases c.requests[j]? <;> rfl

theorem Fenced.abortRequest {c : Coordinator} {n : Nat} (h : c.Fenced n) (i : Nat) :
    (c.abortRequest i).Fenced n := by
  refine ⟨h.generation_le, fun r hr => ?_, h.stream_le⟩
  obtain ⟨j, hj⟩ := List.getElem?_of_mem hr
  obtain ⟨task, htask⟩ := c.getElem?_abortRequest i j
  obtain ⟨r', hr', rfl⟩ := Option.map_eq_some_iff.1 (htask.symm.trans hj)
  exact h.request_le r' (List.mem_of_getElem? hr')

end Coordinator

namespace Tracks

variable {n : Nat} {c : Coordinator} {f : Focus}

theorem abortRequest (h : Tracks n c f) (i : Nat) : Tracks n (c.abortRequest i) f where
  published_eq := h.published_eq
  state_eq := h.state_eq
  selected_eq := h.selected_eq
  shown_eq := h.shown_eq
  issued_eq := by rw [← h.issued_eq]; simp [Coordinator.issued, Coordinator.abortRequest]
  request_eq := fun j => by rw [Coordinator.currentRequest?_abortRequest, h.request_eq]
  stream_eq := h.stream_eq
  fenced := h.fenced.abortRequest i

/-- Where nothing counts any more, the callback of a stream that is given up is not heard. -/
theorem release (h : Tracks n c f) (hw : f.work = .nothing) (fetch stream : Option Nat) :
    Tracks n (c.release fetch stream) f := by
  have hfetch : ∃ c', Tracks n c' f ∧ c.release fetch stream = c'.release none stream := by
    cases fetch with
    | none => exact ⟨c, h, rfl⟩
    | some i => exact ⟨c.abortRequest i, h.abortRequest i, rfl⟩
  obtain ⟨c', h', hc'⟩ := hfetch
  rw [hc']
  cases stream with
  | none => exact h'
  | some i =>
    have hskip : f.push i (.close .cancelled) = f := by rw [Focus.push, hw]; rfl
    have hcancel := h'.cancelStream i
    rw [hskip] at hcancel
    exact hcancel

end Tracks

/-! ## Starting work -/

/-- A stream is put into the book before anything comes out of it. -/
def Coordinator.spawnStream (c : Coordinator) (target : Target) : Coordinator :=
  { c with
    streams := c.streams ++ [{ generation := c.generation, target }]
    openings := c.openings.tail }

namespace Tracks

variable {n : Nat} {c : Coordinator} {f : Focus}

theorem spawnRequest (h : Tracks n c f) (hw : f.work = .nothing) (target : Target)
    (step : UInt64) : Tracks n (c.spawnRequest target step) (f.spawnRequest target step) where
  published_eq := h.published_eq
  state_eq := h.state_eq
  selected_eq := h.selected_eq
  shown_eq := h.shown_eq
  issued_eq := by
    rw [Focus.spawnRequest, ← h.issued_eq]
    simp [Coordinator.issued, Coordinator.spawnRequest]
  request_eq := fun i => by
    have hnone : c.currentRequest? i = none := by rw [h.request_eq, hw]; rfl
    have hlen : f.issued.requests = c.requests.length := by rw [← h.issued_eq]; rfl
    simp only [Coordinator.currentRequest?] at hnone
    simp only [Coordinator.currentRequest?, Coordinator.spawnRequest, Focus.spawnRequest,
      Work.request?, hlen]
    by_cases hi : i = c.requests.length
    · simp [hi]
    · rw [if_neg hi]
      rcases Nat.lt_or_gt_of_ne hi with hlt | hgt
      · rw [List.getElem?_append_left hlt]
        exact hnone
      · rw [List.getElem?_eq_none (by simp; omega)]
        rfl
  stream_eq := fun i => by
    have hnone := h.stream_eq i
    rw [hw] at hnone
    exact hnone
  fenced := by
    refine ⟨h.fenced.generation_le, fun r hr => ?_, h.fenced.stream_le⟩
    rcases List.mem_append.1 hr with hold | hnew
    · exact h.fenced.request_le r hold
    · rw [List.mem_singleton.1 hnew]
      exact Nat.le_refl _

theorem spawnStream (h : Tracks n c f) (hw : f.work = .nothing) (target : Target) :
    Tracks n (c.spawnStream target)
      { f with
        issued := ⟨f.issued.requests, f.issued.streams + 1⟩
        work := .stream f.issued.streams target false } where
  published_eq := h.published_eq
  state_eq := h.state_eq
  selected_eq := h.selected_eq
  shown_eq := h.shown_eq
  issued_eq := by
    rw [← h.issued_eq]
    simp [Coordinator.issued, Coordinator.spawnStream]
  request_eq := fun i => by
    have hnone := h.request_eq i
    rw [hw] at hnone
    exact hnone
  stream_eq := fun i => by
    have hnone : c.currentStream? i = none := by rw [h.stream_eq, hw]; rfl
    have hlen : f.issued.streams = c.streams.length := by rw [← h.issued_eq]; rfl
    simp only [Coordinator.currentStream?] at hnone
    simp only [Coordinator.currentStream?, Coordinator.spawnStream, Work.stream?, hlen]
    by_cases hi : i = c.streams.length
    · simp [hi, Stream.Handle.isClosed]
    · rw [if_neg hi]
      rcases Nat.lt_or_gt_of_ne hi with hlt | hgt
      · rw [List.getElem?_append_left hlt]
        exact hnone
      · rw [List.getElem?_eq_none (by simp; omega)]
        rfl
  fenced := by
    refine ⟨h.fenced.generation_le, h.fenced.request_le, fun s hs => ?_⟩
    rcases List.mem_append.1 hs with hold | hnew
    · exact h.fenced.stream_le s hold
    · rw [List.mem_singleton.1 hnew]
      exact Nat.le_refl _

end Tracks

namespace Coordinator

theorem generation_publish? (c : Coordinator) (s : Option State) :
    (c.publish? s).generation = c.generation := by
  cases s <;> rfl

theorem generation_applyEvent (c : Coordinator) (g : UInt64) (target : Target) (e : Event) :
    (c.applyEvent g target e).generation = c.generation := by
  unfold applyEvent
  split
  · cases e <;> simp only [generation_publish?]
  · rfl

theorem generation_push (c : Coordinator) (i : Nat) (e : Event) :
    (c.push i e).generation = c.generation := by
  unfold push
  cases c.streams[i]? with
  | none => rfl
  | some s =>
    simp only [updateStream]
    split
    · rw [generation_applyEvent]
    · rfl

theorem generation_foldl_push (c : Coordinator) (i : Nat) (es : List Event) :
    (es.foldl (fun c e => c.push i e) c).generation = c.generation := by
  induction es generalizing c with
  | nil => rfl
  | cons e es ih => rw [List.foldl_cons, ih, generation_push]

/-- A stream that is opened without a call in between is in the current generation still. -/
theorem openStream_eq (c : Coordinator) (target : Target) {eager : List Event}
    (ho : c.openings = [{ eager }]) :
    c.openStream target =
      { eager.foldl (fun c' e => c'.push c.streams.length e) (c.spawnStream target) with
        stream := some c.streams.length } := by
  have hgen := generation_foldl_push (c.spawnStream target) c.streams.length eager
  unfold openStream
  simp only [ho, List.head?_cons, Option.getD_some, Option.map_none, Option.getD_none]
  rw [← ho]
  exact if_pos hgen

end Coordinator

namespace Tracks

variable {n : Nat} {c : Coordinator} {f : Focus}

theorem foldl_push (h : Tracks n c f) (i : Nat) (es : List Event) :
    Tracks n (es.foldl (fun c e => c.push i e) c) (es.foldl (fun f e => f.push i e) f) := by
  induction es generalizing c f with
  | nil => exact h
  | cons e es ih => exact ih (h.push i e)

theorem openStream (h : Tracks n c f) (hw : f.work = .nothing) (target : Target)
    {eager : List Event} (ho : c.openings = [{ eager }]) :
    Tracks n (c.openStream target) (f.openStream target eager) := by
  have hlen : f.issued.streams = c.streams.length := by rw [← h.issued_eq]; rfl
  have hpushed := (h.spawnStream hw target).foldl_push c.streams.length eager
  rw [Coordinator.openStream_eq c target ho, Focus.openStream, hlen]
  rw [hlen] at hpushed
  exact hpushed.hold _ (some c.streams.length) _

end Tracks

/-! ## Calls -/

namespace Coordinator

theorem openings_publish? (c : Coordinator) (s : Option State) :
    (c.publish? s).openings = c.openings := by
  cases s <;> rfl

theorem openings_applyEvent (c : Coordinator) (g : UInt64) (target : Target) (e : Event) :
    (c.applyEvent g target e).openings = c.openings := by
  unfold applyEvent
  split
  · cases e <;> simp only [openings_publish?]
  · rfl

theorem openings_cancelStream (c : Coordinator) (i : Nat) :
    (c.cancelStream i).openings = c.openings := by
  unfold cancelStream
  cases c.streams[i]? with
  | none => rfl
  | some s =>
    simp only [updateStream]
    split
    · rw [openings_applyEvent]
    · rfl

/-- Giving up work leaves alone what a source is about to push. -/
theorem openings_release (c : Coordinator) (fetch stream : Option Nat) :
    (c.release fetch stream).openings = c.openings := by
  unfold release
  cases fetch <;> cases stream <;> simp only [openings_cancelStream] <;> rfl

theorem isInPlace_iff {c : Coordinator} {l : Link} : c.isInPlace l = true ↔
    l.mode = .stepped ∧ c.state.target? = some l.target ∧ c.state.mode? = some .stepped := by
  simp only [isInPlace, Bool.and_eq_true, decide_eq_true_eq, and_assoc]

/-- A link is followed in place by a request for its step, which is granted. -/
theorem requestStep_of_isInPlace {c : Coordinator} {l : Link} (h : c.isInPlace l = true) :
    c.requestStep (l.requestedStep.getD 0) = (c.follow l, .ok ()) := by
  obtain ⟨-, htarget, hmode⟩ := isInPlace_iff.1 h
  simp only [follow, if_pos h, requestStep, htarget, hmode]

theorem move_answer_none (c : Coordinator) {i : Nat} (hr : c.requests[i]? = none) (a : Answer) :
    c.move (.answer i a) = c := by
  simp only [move, hr]

theorem move_answer_some (c : Coordinator) {i : Nat} {r : Request} (hr : c.requests[i]? = some r)
    (a : Answer) : c.move (.answer i a) = c.applyAnswer r a := by
  simp only [move, hr]

end Coordinator

namespace Tracks

variable {n : Nat} {c : Coordinator} {f : Focus}

/-- Everything is given up for a target. -/
theorem reset (h : Tracks n c f) (hn : n + 1 < UInt64.size) (target : Target) :
    Tracks (n + 1) (Coordinator.nextGeneration
      { c with selected := some target, shown := none, fetch := none, stream := none })
      (f.reset target) :=
  (((h.choose (some target)).remember none).hold none none c.openings).nextGeneration hn

theorem start (h : Tracks n c f) (hn : n + 1 < UInt64.size) (target : Target) (mode : Mode)
    (step : UInt64) {eager : List Event} (ho : c.openings = [{ eager }]) :
    Tracks (n + 1) (c.start target mode step) (f.start target mode step eager) := by
  cases mode with
  | stepped =>
    have hloading := (h.reset hn target).publish (.loading target .stepped (some step))
    have hfree := hloading.release rfl c.fetch c.stream
    exact hfree.spawnRequest rfl target step
  | streamed =>
    have hloading := (h.reset hn target).publish (.loading target .streamed none)
    have hfree := hloading.release rfl c.fetch c.stream
    exact hfree.openStream rfl target ((Coordinator.openings_release _ _ _).trans ho)

theorem changeTarget (h : Tracks n c f) (hn : n + 1 < UInt64.size) (target : Target) :
    Tracks (n + 1) (c.changeTarget target) (f.changeTarget target) := by
  have hidle := (h.reset hn target).publish .idle
  exact hidle.release rfl c.fetch c.stream

theorem cancel (h : Tracks n c f) (hn : n + 1 < UInt64.size) :
    Tracks (n + 1) c.cancel f.cancel := by
  have hnext := (h.hold none none c.openings).nextGeneration hn
  have hpub := hnext.publish? (c.state.afterCancel c.shown)
  have hwork : ∀ s : Option State,
      (Focus.publish? { f with work := .nothing } s).work = .nothing := by
    intro s
    cases s <;> rfl
  rw [h.state_eq, h.shown_eq] at hpub
  have hfree := hpub.release (hwork _) c.fetch c.stream
  rw [← h.state_eq, ← h.shown_eq] at hfree
  unfold Focus.cancel
  rw [← h.state_eq, ← h.shown_eq]
  exact hfree

/-- A step is granted exactly in the states that have a stepped trace. -/
theorem requestStep (h : Tracks n c f) (hn : n + 1 < UInt64.size) (step : UInt64) :
    Tracks (n + 1) (c.move (.requestStep step)) (f.requestStep step) := by
  have hgrant : ∀ target : Target, Tracks (n + 1)
      ((c.nextGeneration.publish (.loading target .stepped (some step))).spawnRequest target step)
      ((Focus.publish { f with work := .nothing }
        (.loading target .stepped (some step))).spawnRequest target step) :=
    fun target => ((h.nextGeneration hn).publish _).spawnRequest rfl target step
  have hrefuse := h.mono (Nat.le_succ n)
  unfold Coordinator.move Coordinator.requestStep Focus.requestStep
  rw [← h.state_eq]
  cases c.state.target? with
  | none => exact hrefuse
  | some target =>
    cases c.state.mode? with
    | none => exact hrefuse
    | some mode =>
      cases mode with
      | stepped => exact hgrant target
      | streamed => exact hrefuse

theorem applyAnswer_of_current (h : Tracks n c f) {r : Request} (hg : r.generation = c.generation)
    (a : Answer) : Tracks n (c.applyAnswer r a) (f.settle r.target r.step a) := by
  have hfree := h.hold none c.stream c.openings
  unfold Coordinator.applyAnswer
  rw [if_pos hg]
  cases a with
  | ok s => exact (hfree.remember (some (.ofAnswer r.target r.step s))).publish _
  | error e =>
    have hkept := hfree.remember f.shown
    rw [← h.shown_eq] at hkept
    unfold Focus.settle
    rw [← h.shown_eq]
    exact hkept.publish _

theorem answer (h : Tracks n c f) (i : Nat) (a : Answer) :
    Tracks n (c.move (.answer i a)) (f.answer i a) := by
  have hreq := h.request_eq i
  unfold Focus.answer
  rw [← hreq, Coordinator.currentRequest?]
  cases hr : c.requests[i]? with
  | none =>
    rw [c.move_answer_none hr]
    exact h
  | some r =>
    rw [c.move_answer_some hr, Option.bind_some]
    by_cases hg : r.generation = c.generation
    · rw [if_pos hg]
      exact h.applyAnswer_of_current hg a
    · rw [if_neg hg]
      have hskip : c.applyAnswer r a = c := if_neg hg
      rw [hskip]
      exact h

theorem restart (h : Tracks n c f) (hn : n + 2 < UInt64.size) (l : Link) {eager : List Event}
    (ho : c.openings = [{ eager }]) :
    Tracks (n + 2) (c.restart l)
      ((f.changeTarget l.target).start l.target l.mode (l.requestedStep.getD 0) eager) := by
  have hchange := h.changeTarget (Nat.lt_of_succ_lt hn) l.target
  exact hchange.start hn l.target l.mode (l.requestedStep.getD 0)
    ((Coordinator.openings_release _ _ _).trans ho)

/-- A link is followed in place, or with a change of target and a start. -/
theorem follow (h : Tracks n c f) (hn : n + 2 < UInt64.size) (l : Link) (eager : List Event) :
    Tracks (n + 2) (c.move (.follow l eager)) (f.follow l eager) := by
  have he : Tracks n (c.expecting eager) f := h.hold c.fetch c.stream [{ eager }]
  show Tracks (n + 2) ((c.expecting eager).follow l) (f.follow l eager)
  unfold Focus.follow
  rw [← he.state_eq]
  by_cases hin : (c.expecting eager).isInPlace l = true
  · have hstep := he.requestStep (Nat.lt_of_succ_lt hn) (l.requestedStep.getD 0)
    rw [Coordinator.move, Coordinator.requestStep_of_isInPlace hin] at hstep
    rw [if_pos (Coordinator.isInPlace_iff.1 hin)]
    exact hstep.mono (Nat.le_succ (n + 1))
  · rw [Coordinator.follow, if_neg hin, if_neg (mt Coordinator.isInPlace_iff.2 hin)]
    exact he.restart hn l rfl

end Tracks

/-! ## Runs -/

/-- A call begins two generations at most, and nothing else begins any. -/
theorem tracks_move {n : Nat} {c : Coordinator} {f : Focus} (h : Tracks n c f) (m : Move)
    (hn : n + 2 * calls [m] < UInt64.size) : Tracks (n + 2 * calls [m]) (c.move m) (f.move m) := by
  have hone : ∀ k : Nat, k + 2 < UInt64.size → k + 1 < UInt64.size := fun k => Nat.lt_of_succ_lt
  cases m with
  | start target mode step eager =>
    have he : Tracks n (c.expecting eager) f := h.hold c.fetch c.stream [{ eager }]
    exact (he.start (hone n hn) target mode step rfl).mono (Nat.le_succ (n + 1))
  | requestStep step => exact (h.requestStep (hone n hn) step).mono (Nat.le_succ (n + 1))
  | changeTarget target => exact (h.changeTarget (hone n hn) target).mono (Nat.le_succ (n + 1))
  | cancel => exact (h.cancel (hone n hn)).mono (Nat.le_succ (n + 1))
  | follow link eager => exact h.follow hn link eager
  | answer i a => exact h.answer i a
  | push i e => exact h.push i e
  | cancelStream i => exact h.cancelStream i

/-- Over a run a coordinator does what its focus does. -/
theorem tracks_run {n : Nat} {c : Coordinator} {f : Focus} (h : Tracks n c f) (ms : List Move)
    (hn : n + 2 * calls ms < UInt64.size) :
    Tracks (n + 2 * calls ms) (c.run ms) (f.run ms) := by
  induction ms generalizing n c f with
  | nil => exact h
  | cons m ms ih =>
    rw [add_two_mul_calls_cons] at hn ⊢
    exact ih (tracks_move h m (by omega)) hn

/-- A new coordinator does what a new focus does. -/
theorem tracks_run_new (ms : List Move) (h : calls ms < callLimit) :
    Tracks (2 * calls ms) (Coordinator.run {} ms) (Focus.run {} ms) := by
  have hsize : UInt64.size = 2 * callLimit := rfl
  have hn : 0 + 2 * calls ms < UInt64.size := by omega
  have htracks := tracks_run Tracks.init ms hn
  rwa [Nat.zero_add] at htracks

end SpendTrace.Trace
