import SpendTrace.Proofs.Stream.Closing
import SpendTrace.Stream.Client

/-!
# The streams of a client take turns

A client may be told to open a stream at any time, and its earlier streams may still be used by
whoever holds them: their producers go on pushing, their handles may be cancelled. Even so one
stream is through before the next one begins.

* `Client.move`: what may happen to a client and its streams.
* `Client.InTurns`: only the active stream, the last one, can be open. This is what a move
  preserves.
* `streams_take_turns` is the main statement.
-/

namespace SpendTrace.Stream

open Script (Snapshot)
open Service (Endpoint)

namespace Client

/-! ## Runs -/

/-- Lets the producer of a stream come to its end. -/
def finishProducer (c : Client) (i : Nat) : Client :=
  match c.streams[i]? with
  | none => c
  | some s => c.update i { s with handle := s.handle.finish.1 } none

/-- Lets the task of a producer run; if it ends, so does the stream. -/
def runProducer (c : Client) (i : Nat) : Client :=
  match c.streams[i]? with
  | none => c
  | some s =>
    let (handle, callback) := s.handle.settle
    c.update i { s with handle } callback

/-- An atomic step in the life of a client. The streams are named by their numbers, and any of them
may be used, however many have been opened since. -/
inductive Move where
  | openStream (target : Target) (attempt : String → Attempt)
  | cancel
  | cancelHandle (stream : Nat)
  /-- Something is pushed through the sink of a stream. -/
  | push (stream : Nat) (event : Event)
  | finishProducer (stream : Nat)
  | runProducer (stream : Nat)
  /-- The producer pushes what its connection brings next. -/
  | arrive (stream : Nat)

def move (c : Client) : Move → Client
  | .openStream target attempt => c.openStream target attempt
  | .cancel => c.cancel
  | .cancelHandle i => c.cancelHandle i
  | .push i e => c.push i e
  | .finishProducer i => c.finishProducer i
  | .runProducer i => c.runProducer i
  | .arrive i => c.arrive i

def run (c : Client) (ms : List Move) : Client :=
  ms.foldl move c

/-- For each stream the callbacks that were run for it, as the log has them. -/
def segments (c : Client) : List (List (Nat × Event)) :=
  c.streams.mapIdx fun i s => s.handle.delivery.callbacks.map fun e => (i, e)

/-! ## What every move preserves -/

/-- A stream that is open is the active one, which is the last one. -/
structure InTurns (c : Client) : Prop where
  reached : ∀ s ∈ c.streams, s.handle.Reached
  active_last : ∀ i ∈ c.active, i + 1 = c.streams.length
  active_of_open : ∀ i s, c.streams[i]? = some s → s.handle.isClosed = false → c.active = some i
  log_eq : c.log = c.segments.flatten

theorem inTurns_new (e : Endpoint) : InTurns { endpoint := e } where
  reached := by simp
  active_last := by simp
  active_of_open := by simp
  log_eq := rfl

variable {c : Client} {i : Nat} {s s' : Opened} {callback : Option Event}

/-- The last segment grows with the callbacks of the last stream. -/
theorem segments_update_last (hs : c.streams[i]? = some s) (hi : i + 1 = c.streams.length)
    (hcallbacks : s'.handle.delivery.callbacks =
      s.handle.delivery.callbacks ++ callback.toList) :
    (c.update i s' callback).segments.flatten =
      c.segments.flatten ++ callback.toList.map fun e => (i, e) := by
  obtain ⟨front, last, hstreams⟩ : ∃ front last, c.streams = front ++ [last] := by
    rcases List.eq_nil_or_concat c.streams with hnil | ⟨front, last, hconcat⟩
    · simp [hnil] at hs
    · exact ⟨front, last, by simpa using hconcat⟩
  have hlen : i = front.length := by simpa [hstreams] using hi
  have hlast : last = s := by simpa [hstreams, hlen] using hs
  subst hlen hlast
  simp [segments, update, hstreams, List.mapIdx_concat, hcallbacks]

/-- A closed stream may be replaced by one that has handed on the same. -/
theorem segments_update_same (hs : c.streams[i]? = some s)
    (hcallbacks : s'.handle.delivery.callbacks = s.handle.delivery.callbacks) :
    (c.update i s' callback).segments = c.segments := by
  refine List.ext_getElem? fun j => ?_
  by_cases hij : i = j
  · subst hij
    obtain ⟨hi, rfl⟩ := List.getElem?_eq_some_iff.1 hs
    simp [segments, update, hi, hcallbacks]
  · simp [segments, update, hij]

/-! ### What a producer pushes -/

section

variable {handle : Handle} {e : Event} {coming : List Event}

theorem arrive_of_none (hs : c.streams[i]? = none) : c.arrive i = c := by
  simp [Client.arrive, hs]

theorem arrive_of_nil (hs : c.streams[i]? = some ⟨handle, []⟩) : c.arrive i = c := by
  simp [Client.arrive, hs]

theorem arrive_of_aborted (hs : c.streams[i]? = some ⟨handle, coming⟩)
    (ha : handle.producer.aborted = true) : c.arrive i = c := by
  cases coming with
  | nil => exact arrive_of_nil hs
  | cons e coming => simp [Client.arrive, hs, ha]

/-- A producer pushes what comes next. -/
theorem arrive_of_cons (hs : c.streams[i]? = some ⟨handle, e :: coming⟩)
    (ha : handle.producer.aborted = false) :
    c.arrive i = c.update i ⟨(handle.push e).1, coming⟩ (handle.push e).2 := by
  have hi := (List.getElem?_eq_some_iff.1 hs).1
  have hstep :
      c.arrive i = Client.push { c with streams := c.streams.set i ⟨handle, coming⟩ } i e := by
    simp only [Client.arrive, hs, ha, Bool.false_eq_true, if_false]
  rw [hstep]
  simp [Client.push, Client.update, hi]

end

namespace InTurns

/-- A stream makes one of its moves. -/
theorem update (h : c.InTurns) (hs : c.streams[i]? = some s) {m : Handle.Move}
    (hmove : s'.handle = s.handle.move m)
    (hcallbacks : s'.handle.delivery.callbacks =
      s.handle.delivery.callbacks ++ callback.toList) :
    (c.update i s' callback).InTurns where
  reached := by
    intro t ht
    rcases List.mem_or_eq_of_mem_set ht with hold | rfl
    · exact h.reached t hold
    · rw [hmove]
      exact (h.reached s (List.mem_of_getElem? hs)).move m
  active_last := by
    intro j hj
    simpa [Client.update] using h.active_last j hj
  active_of_open := by
    intro j t ht hopen
    by_cases hij : i = j
    · subst hij
      have hi := (List.getElem?_eq_some_iff.1 hs).1
      obtain rfl : s' = t := by simpa [Client.update, hi] using ht
      refine h.active_of_open i s hs (Bool.eq_false_iff.2 fun hclosed => ?_)
      rw [hmove, Handle.isClosed_move hclosed] at hopen
      cases hopen
    · exact h.active_of_open j t (by simpa [Client.update, hij] using ht) hopen
  log_eq := by
    have hlog : (c.update i s' callback).log =
        c.log ++ callback.toList.map fun e => (i, e) := rfl
    -- Only a stream that is open adds to the log, and it is the last one.
    cases hclosed : s.handle.isClosed with
    | true =>
      have hsame : s'.handle.delivery.callbacks = s.handle.delivery.callbacks := by
        rw [hmove, Handle.delivery_move_of_closed hclosed]
      have hnone : callback.toList = [] := by simpa [hsame] using hcallbacks
      rw [hlog, hnone, segments_update_same hs hsame, ← h.log_eq]
      simp
    | false =>
      have hlast := h.active_last i (h.active_of_open i s hs hclosed)
      rw [hlog, segments_update_last hs hlast hcallbacks, ← h.log_eq]

theorem push (h : c.InTurns) (i : Nat) (e : Event) : (c.push i e).InTurns := by
  unfold Client.push
  cases hs : c.streams[i]? with
  | none => exact h
  | some s =>
    obtain ⟨m, hm⟩ := s.handle.push_eq_move e
    exact h.update hs hm (s.handle.callbacks_push e)

theorem cancelHandle (h : c.InTurns) (i : Nat) : (c.cancelHandle i).InTurns := by
  unfold Client.cancelHandle
  cases hs : c.streams[i]? with
  | none => exact h
  | some s => exact h.update (m := .cancel) hs rfl s.handle.callbacks_cancel

theorem finishProducer (h : c.InTurns) (i : Nat) : (c.finishProducer i).InTurns := by
  unfold Client.finishProducer
  cases hs : c.streams[i]? with
  | none => exact h
  | some s =>
    exact h.update (m := .finish) hs rfl (by simp [Handle.finish])

theorem runProducer (h : c.InTurns) (i : Nat) : (c.runProducer i).InTurns := by
  unfold Client.runProducer
  cases hs : c.streams[i]? with
  | none => exact h
  | some s => exact h.update (m := .settle) hs rfl s.handle.callbacks_settle

theorem arrive (h : c.InTurns) (i : Nat) : (c.arrive i).InTurns := by
  cases hs : c.streams[i]? with
  | none => rwa [arrive_of_none hs]
  | some s =>
    obtain ⟨handle, coming⟩ := s
    cases coming with
    | nil => rwa [arrive_of_nil hs]
    | cons e coming =>
      cases ha : handle.producer.aborted with
      | true => rwa [arrive_of_aborted hs ha]
      | false =>
        obtain ⟨m, hm⟩ := handle.push_eq_move e
        rw [arrive_of_cons hs ha]
        exact h.update hs hm (handle.callbacks_push e)

end InTurns

/-! ### Cancelling and opening -/

theorem active_cancelHandle (c : Client) (i : Nat) : (c.cancelHandle i).active = c.active := by
  unfold cancelHandle
  cases c.streams[i]? <;> rfl

theorem isClosed_getElem?_cancelHandle (h : (c.cancelHandle i).streams[i]? = some s) :
    s.handle.isClosed = true := by
  unfold cancelHandle at h
  cases hs : c.streams[i]? with
  | none =>
    rw [hs] at h
    simp [hs] at h
  | some t =>
    have hi := (List.getElem?_eq_some_iff.1 hs).1
    rw [hs] at h
    obtain rfl : { t with handle := t.handle.cancel.1 } = s := by simpa [update, hi] using h
    exact t.handle.isClosed_cancel

/-- The active stream is forgotten when it is cancelled. -/
theorem cancel_eq (hi : c.active = some i) :
    c.cancel = { c.cancelHandle i with active := none } := by
  unfold cancel cancelHandle
  rw [hi]
  cases hs : c.streams[i]? <;> simp [hs, update]

namespace InTurns

/-- A client whose streams are closed may forget which was active. -/
theorem forget (h : c.InTurns) (hclosed : ∀ s ∈ c.streams, s.handle.isClosed = true) :
    InTurns { c with active := none } where
  reached := h.reached
  active_last := by simp
  active_of_open := by
    intro i s hs hopen
    rw [hclosed s (List.mem_of_getElem? hs)] at hopen
    cases hopen
  log_eq := h.log_eq

/-- A cancel leaves no stream open: the active one is closed, and no other was open. -/
theorem isClosed_cancel (h : c.InTurns) : ∀ s ∈ c.cancel.streams, s.handle.isClosed = true := by
  intro s hs
  obtain ⟨j, hj⟩ := List.getElem?_of_mem hs
  refine eq_true_of_ne_false fun hopen => ?_
  cases hi : c.active with
  | none =>
    have hsame : c.cancel = c := by simp [Client.cancel, hi]
    rw [hsame] at hj
    have hactive := h.active_of_open j s hj hopen
    simp [hi] at hactive
  | some i =>
    rw [cancel_eq hi] at hj
    have hactive := (h.cancelHandle i).active_of_open j s hj hopen
    rw [active_cancelHandle, hi] at hactive
    obtain rfl := Option.some.inj hactive
    rw [isClosed_getElem?_cancelHandle hj] at hopen
    cases hopen

theorem cancel (h : c.InTurns) : c.cancel.InTurns := by
  have hclosed := h.isClosed_cancel
  cases hi : c.active with
  | none => simpa [Client.cancel, hi] using h
  | some i =>
    rw [cancel_eq hi] at hclosed ⊢
    exact (h.cancelHandle i).forget hclosed

/-- A stream is opened when no other is open. -/
theorem openStream (h : c.InTurns) (target : Target) (attempt : String → Attempt) :
    (c.openStream target attempt).InTurns where
  reached := by
    intro s hs
    rcases List.mem_append.1 hs with hold | hnew
    · exact h.cancel.reached s hold
    · rw [List.mem_singleton.1 hnew]
      exact Handle.reached_new
  active_last := by
    intro i hi
    obtain rfl : c.cancel.streams.length = i := Option.some.inj hi
    simp [Client.openStream]
  active_of_open := by
    intro i s hs hopen
    have hle : i < c.cancel.streams.length + 1 := by
      simpa [Client.openStream] using (List.getElem?_eq_some_iff.1 hs).1
    rcases Nat.lt_succ_iff_lt_or_eq.1 hle with hlt | rfl
    · have hold : c.cancel.streams[i]? = some s := by
        simpa [Client.openStream, List.getElem?_append_left hlt] using hs
      rw [h.isClosed_cancel s (List.mem_of_getElem? hold)] at hopen
      cases hopen
    · rfl
  log_eq := by
    have hlog : (c.openStream target attempt).log = c.cancel.log := rfl
    rw [hlog, h.cancel.log_eq]
    simp [segments, Client.openStream, List.mapIdx_concat]

theorem move (h : c.InTurns) (m : Move) : (c.move m).InTurns := by
  cases m with
  | openStream target attempt => exact h.openStream target attempt
  | cancel => exact h.cancel
  | cancelHandle i => exact h.cancelHandle i
  | push i e => exact h.push i e
  | finishProducer i => exact h.finishProducer i
  | runProducer i => exact h.runProducer i
  | arrive i => exact h.arrive i

theorem run (h : c.InTurns) (ms : List Move) : (c.run ms).InTurns := by
  induction ms generalizing c with
  | nil => exact h
  | cons m ms ih => exact ih (h.move m)

/-- The streams before the last one are closed. -/
theorem last_of_open (h : c.InTurns) (hs : c.streams[i]? = some s)
    (hopen : s.handle.isClosed = false) : i + 1 = c.streams.length :=
  h.active_last i (h.active_of_open i s hs hopen)

theorem countP_open_le_one (h : c.InTurns) :
    c.streams.countP (fun s => !s.handle.isClosed) ≤ 1 :=
  countP_le_one_of_unique fun i s hs hopen => h.last_of_open hs (by simpa using hopen)

end InTurns

/-! ## How many streams there are -/

section

variable {j : Nat} {m : Move}

/-- The stream that the move is about, if it is about one. -/
def Move.stream? : Move → Option Nat
  | openStream _ _ => none
  | cancel => none
  | cancelHandle j => some j
  | push j _ => some j
  | finishProducer j => some j
  | runProducer j => some j
  | arrive j => some j

/-- A move about a stream does nothing, or lets its handle make a move. -/
theorem move_of_stream? (h : m.stream? = some j) : c.move m = c ∨
    ∃ s s' callback hm, c.streams[j]? = some s ∧ s'.handle = s.handle.move hm ∧
      c.move m = c.update j s' callback := by
  cases hs : c.streams[j]? with
  | none =>
    left
    cases m with
    | openStream | cancel => cases h
    | cancelHandle | push | finishProducer | runProducer | arrive =>
      obtain rfl := Option.some.inj h
      simp [move, cancelHandle, push, finishProducer, runProducer, arrive, hs]
  | some s =>
    cases m with
    | openStream | cancel => cases h
    | cancelHandle k =>
      obtain rfl : k = j := Option.some.inj h
      exact .inr ⟨s, _, _, .cancel, rfl, rfl, by simp only [move, cancelHandle, hs]; rfl⟩
    | push k e =>
      obtain rfl : k = j := Option.some.inj h
      obtain ⟨hm, hhm⟩ := s.handle.push_eq_move e
      refine .inr
        ⟨s, { s with handle := (s.handle.push e).1 }, (s.handle.push e).2, hm, rfl, hhm, ?_⟩
      simp only [move, push, hs]
    | finishProducer k =>
      obtain rfl : k = j := Option.some.inj h
      exact .inr ⟨s, _, _, .finish, rfl, rfl, by simp only [move, finishProducer, hs]; rfl⟩
    | runProducer k =>
      obtain rfl : k = j := Option.some.inj h
      exact .inr ⟨s, _, _, .settle, rfl, rfl, by simp only [move, runProducer, hs]; rfl⟩
    | arrive k =>
      obtain rfl : k = j := Option.some.inj h
      obtain ⟨handle, coming⟩ := s
      cases coming with
      | nil => exact .inl (arrive_of_nil hs)
      | cons e coming =>
        cases ha : handle.producer.aborted with
        | true => exact .inl (arrive_of_aborted hs ha)
        | false =>
          obtain ⟨hm, hhm⟩ := handle.push_eq_move e
          exact .inr ⟨_, ⟨(handle.push e).1, coming⟩, _, hm, rfl, hhm, arrive_of_cons hs ha⟩

theorem length_streams_of_stream? (h : m.stream? = some j) :
    (c.move m).streams.length = c.streams.length := by
  rcases move_of_stream? (c := c) h with hsame | ⟨s, s', callback, hm, -, -, hupdate⟩
  · rw [hsame]
  · rw [hupdate, update, List.length_set]

theorem streams_cancel (hi : c.active = some i) :
    c.cancel.streams = (c.move (.cancelHandle i)).streams := by
  rw [cancel_eq hi]
  rfl

theorem cancel_of_inactive (hi : c.active = none) : c.cancel = c := by
  simp [cancel, hi]

theorem length_streams_cancel (c : Client) : c.cancel.streams.length = c.streams.length := by
  cases hi : c.active with
  | none => rw [cancel_of_inactive hi]
  | some i =>
    rw [streams_cancel hi]
    exact length_streams_of_stream? rfl

/-- Whether the move opens a stream. -/
def Move.opens : Move → Bool
  | openStream _ _ => true
  | _ => false

theorem length_streams_move (c : Client) (m : Move) :
    (c.move m).streams.length = c.streams.length + if m.opens then 1 else 0 := by
  cases m with
  | openStream target attempt => simp [move, openStream, Move.opens, length_streams_cancel]
  | cancel => exact length_streams_cancel c
  | cancelHandle | push | finishProducer | runProducer | arrive =>
    exact length_streams_of_stream? rfl

theorem length_streams_run (c : Client) (ms : List Move) :
    (c.run ms).streams.length = c.streams.length + ms.countP Move.opens := by
  induction ms generalizing c with
  | nil => rfl
  | cons m ms ih =>
    have hrest : (c.run (m :: ms)).streams.length = _ := ih (c.move m)
    rw [hrest, length_streams_move, List.countP_cons, Nat.add_assoc, Nat.add_comm (ms.countP _)]

end

end Client

/-- **The streams of a client take turns.** In any run, every move that asks for a stream opens one,
and at most one stream is open. The log of all callbacks is made up of one segment for each stream,
in the order in which they were opened: its snapshots, and then one close. Only the segment of the
last stream may still be without its close, and it is so as long as that stream is open. As the run
is any run, this holds at every point of it. -/
theorem streams_take_turns (e : Endpoint) (ms : List Client.Move) :
    let c := Client.run { endpoint := e } ms
    c.streams.length = ms.countP Client.Move.opens ∧
    c.streams.countP (fun s => !s.handle.isClosed) ≤ 1 ∧
    c.log = c.segments.flatten ∧
    ∀ i s, c.streams[i]? = some s → ∃ ss : List Snapshot,
      (s.handle.isClosed = true ∧
        ∃ r, s.handle.delivery.callbacks = ss.map .snapshot ++ [.close r]) ∨
      (s.handle.isClosed = false ∧ i + 1 = c.streams.length ∧
        s.handle.delivery.callbacks = ss.map .snapshot) := by
  intro c
  have h : c.InTurns := (Client.inTurns_new e).run ms
  have hlength := Client.length_streams_run { endpoint := e } ms
  refine ⟨hlength.trans (Nat.zero_add _), h.countP_open_le_one, h.log_eq, ?_⟩
  intro i s hs
  obtain ⟨ss, r?, hclosed, hcallbacks⟩ := (h.reached s (List.mem_of_getElem? hs)).exists_callbacks
  refine ⟨ss, ?_⟩
  cases r? with
  | some r => exact .inl ⟨hclosed, r, by simpa using hcallbacks⟩
  | none => exact .inr ⟨hclosed, h.last_of_open hs hclosed, by simpa using hcallbacks⟩

/-- The producer of the first stream goes on after the second one was opened. -/
example (e : Endpoint) (target : Target) (attempt : String → Attempt) (s : Snapshot) :
    (Client.run { endpoint := e }
      [.openStream target attempt, .push 0 (.snapshot s), .openStream target attempt,
        .push 0 (.snapshot s), .push 1 (.snapshot s)]).log =
      [(0, .snapshot s), (0, .close .cancelled), (1, .snapshot s)] := rfl

end SpendTrace.Stream
