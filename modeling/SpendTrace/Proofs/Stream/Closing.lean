import SpendTrace.Stream.Handle

/-!
# A stream closes once and is silent afterwards

A stream is used through its sink and its handle, in any order: snapshots are delivered, the sink
closes it, the handle cancels it, the producer comes to its end. Clones of a sink or of a handle
are the same stream, so a move does not say through which of them it is made.

* `cutAtClose` reads off a run what comes before its first closing move, and the reason of that.
* `delivery_run`: the callbacks that were run are determined by that cut.
* `closes_once_and_is_silent` is the main statement.
-/

namespace SpendTrace.Stream

open Script (Snapshot)

/-- At most one entry satisfies `p` if its place is known. -/
theorem countP_le_one_of_unique {α : Type} {p : α → Bool} {l : List α} {n : Nat}
    (h : ∀ i a, l[i]? = some a → p a = true → i + 1 = n) : l.countP p ≤ 1 := by
  induction l generalizing n with
  | nil => simp
  | cons a l ih =>
    have hrest : ∀ i b, l[i]? = some b → p b = true → i + 1 = n - 1 := by
      intro i b hb hp
      have := h (i + 1) b (by simpa using hb) hp
      omega
    by_cases ha : p a = true
    · have hn := h 0 a rfl ha
      have hnone : l.countP p = 0 := by
        refine List.countP_eq_zero.2 fun b hb hp => ?_
        obtain ⟨i, hi⟩ := List.getElem?_of_mem hb
        have := hrest i b hi hp
        omega
      simp [ha, hnone]
    · simpa [ha] using ih hrest

namespace Handle

/-! ## Runs -/

/-- An atomic step in the life of a stream. -/
inductive Move where
  | deliver (snapshot : Snapshot)
  | close (reason : CloseReason)
  | cancel
  /-- The producer comes to its end; its task notices when it runs next. -/
  | finish
  /-- The producer's task is given the chance to run. -/
  | settle

def move (h : Handle) : Move → Handle
  | .deliver s => (h.deliver s).1
  | .close r => h.close r
  | .cancel => h.cancel.1
  | .finish => h.finish.1
  | .settle => h.settle.1

def run (h : Handle) (ms : List Move) : Handle :=
  ms.foldl move h

/-! ## The first closing move -/

namespace Move

def snapshot? : Move → Option Snapshot
  | deliver s => some s
  | _ => none

/-- Why the move closes a stream that is still open, if it does. The task of the producer closes
the stream when it runs after the producer has `finished`. -/
def reason? (finished : Bool) : Move → Option CloseReason
  | deliver _ => none
  | close r => some r
  | cancel => some .cancelled
  | finish => none
  | settle => if finished then some .completed else none

def isFinish : Move → Bool
  | finish => true
  | _ => false

end Move

/-- What comes before the first closing move of a run, and the reason of that move. -/
def cutAtClose (finished : Bool) : List Move → List Move × Option CloseReason
  | [] => ([], none)
  | m :: ms =>
    match m.reason? finished with
    | some r => ([], some r)
    | none =>
      let (before, reason) := cutAtClose (finished || m.isFinish) ms
      (m :: before, reason)

/-- The reason of the first closing move, if there is one. -/
def closing? (finished : Bool) (ms : List Move) : Option CloseReason :=
  (cutAtClose finished ms).2

/-- The snapshots that are delivered before the first closing move. -/
def delivered (finished : Bool) (ms : List Move) : List Snapshot :=
  (cutAtClose finished ms).1.filterMap Move.snapshot?

section

variable {finished : Bool} {m : Move}

theorem closing?_cons_of_closing {r : CloseReason} (h : m.reason? finished = some r)
    (ms : List Move) : closing? finished (m :: ms) = some r := by
  rw [closing?, cutAtClose, h]

theorem delivered_cons_of_closing {r : CloseReason} (h : m.reason? finished = some r)
    (ms : List Move) : delivered finished (m :: ms) = [] := by
  rw [delivered, cutAtClose, h]
  rfl

theorem closing?_cons_of_open (h : m.reason? finished = none) (ms : List Move) :
    closing? finished (m :: ms) = closing? (finished || m.isFinish) ms := by
  rw [closing?, cutAtClose, h]
  rfl

theorem delivered_cons_of_open (h : m.reason? finished = none) (ms : List Move) :
    delivered finished (m :: ms) =
      m.snapshot?.toList ++ delivered (finished || m.isFinish) ms := by
  rw [delivered, cutAtClose, h]
  cases m <;> rfl

end

/-! ## Closed streams -/

variable {h : Handle}

/-- Whatever is pushed into a closed stream is refused. -/
theorem push_of_closed (hc : h.delivery.closed = true) (e : Event) : h.push e = (h, none) := by
  rw [push, Delivery.accept_of_closed hc]

/-- Whatever is pushed into an open stream is handed on. -/
theorem push_of_not_closed (hc : h.delivery.closed = false) (e : Event) :
    h.push e = ({ h with delivery := .after e.isClose (h.delivery.callbacks ++ [e]) }, some e) := by
  rw [push, Delivery.accept_of_not_closed hc]

theorem delivery_settle_of_closed (hc : h.delivery.closed = true) :
    h.settle.1.delivery = h.delivery := by
  cases hrun : h.producer.run with
  | mk producer ended =>
    have hc' : { h with producer }.delivery.closed = true := hc
    cases ended with
    | none => simp only [settle, hrun]
    | some _ => simp only [settle, hrun, push_of_closed hc']

theorem delivery_move_of_closed (hc : h.delivery.closed = true) (m : Move) :
    (h.move m).delivery = h.delivery := by
  cases m with
  | deliver s => simp only [move, deliver, push_of_closed hc]
  | close r => simp only [move, close, push_of_closed hc]
  | cancel => simp only [move, cancel, push_of_closed hc]
  | finish => rfl
  | settle => exact delivery_settle_of_closed hc

/-- No move makes a closed stream run another callback. -/
theorem delivery_run_of_closed (hc : h.delivery.closed = true) (ms : List Move) :
    (h.run ms).delivery = h.delivery := by
  induction ms generalizing h with
  | nil => rfl
  | cons m ms ih =>
    have hm := delivery_move_of_closed hc m
    have hrest := ih (hm ▸ hc : (h.move m).delivery.closed = true)
    exact hrest.trans hm

/-! ## Open streams -/

/-- The stream that is open after these callbacks, and whose producer has or has not finished. -/
def opened (callbacks : List Event) (finished : Bool) : Handle where
  delivery := .after false callbacks
  producer := { given := if finished then some () else none }

variable {finished : Bool} {m : Move}

/-- A move that does not close the stream leaves it open; a delivery runs its callback. -/
theorem move_opened_of_open (callbacks : List Event) (hm : m.reason? finished = none) :
    (opened callbacks finished).move m =
      opened (callbacks ++ m.snapshot?.toList.map .snapshot) (finished || m.isFinish) := by
  cases m with
  | deliver s => cases finished <;> rfl
  | close r => cases hm
  | cancel => cases hm
  | finish =>
    show _ = opened (callbacks ++ []) (finished || true)
    rw [List.append_nil]
    cases finished <;> rfl
  | settle =>
    cases finished with
    | true => cases hm
    | false =>
      show _ = opened (callbacks ++ []) false
      rw [List.append_nil]
      rfl

/-- A move that closes the stream runs the callback for its reason. -/
theorem delivery_move_opened_of_closing {r : CloseReason} (callbacks : List Event)
    (hm : m.reason? finished = some r) :
    ((opened callbacks finished).move m).delivery = .after true (callbacks ++ [.close r]) := by
  cases m with
  | deliver s => cases hm
  | close r' =>
    cases hm
    rfl
  | cancel =>
    cases hm
    rfl
  | finish => cases hm
  | settle =>
    cases finished with
    | false => cases hm
    | true =>
      cases hm
      rfl

/-- What an open stream hands on in a run: the snapshots up to the first closing move, and then the
reason of that move. -/
theorem delivery_run (callbacks : List Event) (finished : Bool) (ms : List Move) :
    ((opened callbacks finished).run ms).delivery =
      .after (closing? finished ms).isSome
        (callbacks ++ (delivered finished ms).map .snapshot ++
          (closing? finished ms).toList.map .close) := by
  induction ms generalizing callbacks finished with
  | nil => simp [run, opened, closing?, delivered, cutAtClose]
  | cons m ms ih =>
    show (((opened callbacks finished).move m).run ms).delivery = _
    cases hm : m.reason? finished with
    | some r =>
      have hmove := delivery_move_opened_of_closing callbacks hm
      rw [delivery_run_of_closed (congrArg Delivery.closed hmove), hmove,
        closing?_cons_of_closing hm, delivered_cons_of_closing hm]
      simp
    | none =>
      rw [move_opened_of_open callbacks hm, ih, closing?_cons_of_open hm, delivered_cons_of_open hm,
        List.map_append, ← List.append_assoc callbacks]

/-! ## What a move hands on -/

theorem callbacks_push (h : Handle) (e : Event) :
    (h.push e).1.delivery.callbacks = h.delivery.callbacks ++ (h.push e).2.toList := by
  cases hc : h.delivery.closed with
  | true => simp [push, Delivery.accept_of_closed hc]
  | false => simp [push, Delivery.accept_of_not_closed hc]

theorem callbacks_cancel (h : Handle) :
    h.cancel.1.delivery.callbacks = h.delivery.callbacks ++ h.cancel.2.toList :=
  callbacks_push h (.close .cancelled)

theorem callbacks_settle (h : Handle) :
    h.settle.1.delivery.callbacks = h.delivery.callbacks ++ h.settle.2.toList := by
  cases hrun : h.producer.run with
  | mk producer ended =>
    cases ended with
    | none => simp [settle, hrun]
    | some _ => simp only [settle, hrun, callbacks_push]

/-- A push is a delivery or a close. -/
theorem push_eq_move (h : Handle) (e : Event) : ∃ m, (h.push e).1 = h.move m := by
  cases e with
  | snapshot s => exact ⟨.deliver s, rfl⟩
  | close r => exact ⟨.close r, rfl⟩

theorem isClosed_move {h : Handle} (hc : h.isClosed = true) (m : Move) :
    (h.move m).isClosed = true := by
  have hdelivery := delivery_move_of_closed hc m
  simpa [isClosed, hdelivery] using hc

/-! ## Handles that a run leads to -/

/-- A new handle comes to be this one in some run. -/
def Reached (h : Handle) : Prop :=
  ∃ ms, h = run {} ms

theorem reached_new : Reached {} := ⟨[], rfl⟩

theorem Reached.move (hr : h.Reached) (m : Move) : (h.move m).Reached := by
  obtain ⟨ms, rfl⟩ := hr
  exact ⟨ms ++ [m], by simp [run]⟩

/-- What a handle has handed on: snapshots, and one close behind them if it is closed. -/
theorem Reached.exists_callbacks (hr : h.Reached) :
    ∃ (ss : List Snapshot) (r? : Option CloseReason), h.isClosed = r?.isSome ∧
      h.delivery.callbacks = ss.map .snapshot ++ r?.toList.map .close := by
  obtain ⟨ms, rfl⟩ := hr
  have hdelivery := delivery_run [] false ms
  rw [List.nil_append] at hdelivery
  exact ⟨_, _, congrArg Delivery.closed hdelivery, congrArg Delivery.callbacks hdelivery⟩

theorem Reached.countP_close (hr : h.Reached) :
    h.delivery.callbacks.countP Event.isClose = if h.isClosed then 1 else 0 := by
  obtain ⟨ss, r?, hclosed, hcallbacks⟩ := hr.exists_callbacks
  rw [hclosed, hcallbacks]
  cases r? <;> simp [List.countP_map, List.countP_eq_zero, Event.isClose]

/-! ## Main statement -/

/-- **A stream closes once and is silent afterwards.** In any run, the callbacks are the snapshots
that were delivered before the first closing move, in order, and then, as soon as there is such a
move, one close, with the reason of that move. The stream says that it is closed from then on, and a
delivery is accepted exactly until then. As the run is any run, this holds at every point of it. -/
theorem closes_once_and_is_silent (ms : List Move) :
    let h := run {} ms
    let callbacks := h.delivery.callbacks
    callbacks = (delivered false ms).map .snapshot ++ (closing? false ms).toList.map .close ∧
    callbacks.countP Event.isClose = (if (closing? false ms).isSome then 1 else 0) ∧
    h.isClosed = callbacks.any Event.isClose ∧
    ∀ s, (h.deliver s).2 = (closing? false ms).isNone := by
  intro h callbacks
  have hdelivery : h.delivery = _ := delivery_run [] false ms
  rw [List.nil_append] at hdelivery
  have hcallbacks : callbacks =
      (delivered false ms).map .snapshot ++ (closing? false ms).toList.map .close :=
    congrArg Delivery.callbacks hdelivery
  have hclosed : h.isClosed = (closing? false ms).isSome := congrArg Delivery.closed hdelivery
  refine ⟨hcallbacks, ?_, ?_, fun s => ?_⟩
  · rw [hcallbacks]
    cases closing? false ms <;> simp [List.countP_map, List.countP_eq_zero, Event.isClose]
  · rw [hcallbacks, hclosed]
    cases closing? false ms <;> simp [Event.isClose]
  · show (!h.isClosed) = _
    rw [hclosed]
    cases closing? false ms <;> rfl

/-- A cancel comes before the end of the producer, and a failure after both. -/
example (s : Snapshot) :
    (run {} [.deliver s, .finish, .cancel, .settle, .close (.failed "late"), .deliver s]).delivery =
      .after true [.snapshot s, .close .cancelled] := rfl

end Handle

end SpendTrace.Stream
