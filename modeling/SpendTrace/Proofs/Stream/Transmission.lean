import SpendTrace.Proofs.Stream.Turns

/-!
# A stream tells what its connection brought

The producer of a stream reads its connection up to the first thing that stops it: a text that is
no snapshot, a close, a fault, or the end. Meanwhile the stream may be cancelled at any point,
through its handle or by its client. What the stream hands on is the snapshots that were read by
then, in order, and then one close, for whatever came first.

* `transmission`: what there is to be read at an endpoint, said without the order of events.
* `Progress`: how far a run has come with a stream; `Transmission.told` is what has been handed on.
* `Client.Tells`: a stream has told as much as its progress says. This is what a move preserves.
* `stream_tells_its_connection` is the main statement.
-/

namespace SpendTrace.Stream

open Script (Snapshot)
open Service (Endpoint)

/-! ## What there is to be read -/

/-- Why the reading stops at an arrival, if it does. -/
def Arrival.stop? : Arrival → Option CloseReason
  | text document =>
    match Snapshot.ofJson document with
    | .ok _ => none
    | .error e => some (.failed (Script.SnapshotError.document e).message)
  | other => none
  | closeFrame => some .completed
  | fault reason => some (.failed reason)
  | ended => some .completed

/-- The snapshot that an arrival writes, if it is the text of one. -/
def Arrival.snapshot? : Arrival → Option Snapshot
  | text document => (Snapshot.ofJson document).toOption
  | _ => none

/-- The snapshots that can be read, and why the reading stops behind them, if it does. -/
structure Transmission where
  snapshots : List Snapshot
  stop : Option CloseReason
  deriving DecidableEq

namespace Transmission

/-- Of a connection what is in front of the first arrival that stops the reading. -/
def ofArrivals (as : List Arrival) : Transmission where
  snapshots := (as.takeWhile fun a => a.stop?.isNone).filterMap Arrival.snapshot?
  stop := as.findSome? Arrival.stop?

/-- There is nothing to be read. -/
def failure (message : String) : Transmission :=
  ⟨[], some (.failed message)⟩

def events (t : Transmission) : List Event :=
  t.snapshots.map .snapshot ++ t.stop.toList.map .close

end Transmission

/-- What there is to be read of an input at an endpoint, where `attempt` tells what the network
makes of an address. -/
def transmission (e : Endpoint) (target : Target) (attempt : String → Attempt) : Transmission :=
  match e.streamUrl target with
  | .error u => .failure (Service.Failure.ofUnusableServer u).message
  | .ok url =>
    match attempt url with
    | .refused reason => .failure reason
    | .connected arrivals => .ofArrivals arrivals

/-! ### The producer pushes that -/

theorem event?_of_stop {a : Arrival} {r : CloseReason} (h : a.stop? = some r) :
    a.event? = some (.close r) := by
  cases a with
  | text document =>
    simp only [Arrival.stop?] at h
    cases hs : Snapshot.ofJson document with
    | ok s => simp [hs] at h
    | error e => simp_all [Arrival.event?, documentEvent]
  | other => cases h
  | closeFrame | fault | ended => simp_all [Arrival.event?, Arrival.stop?]

theorem event?_of_no_stop {a : Arrival} (h : a.stop? = none) :
    a.event? = a.snapshot?.map .snapshot := by
  cases a with
  | text document =>
    simp only [Arrival.stop?] at h
    cases hs : Snapshot.ofJson document with
    | ok s => simp [Arrival.event?, documentEvent, Arrival.snapshot?, hs, Except.toOption]
    | error e => simp [hs] at h
  | other => rfl
  | closeFrame | fault | ended => cases h

theorem pushed_eq (as : List Arrival) : pushed as = (Transmission.ofArrivals as).events := by
  induction as with
  | nil => rfl
  | cons a as ih =>
    rw [pushed, ih]
    cases hstop : a.stop? with
    | some r =>
      simp [event?_of_stop hstop, hstop, Event.isClose, Transmission.ofArrivals,
        Transmission.events]
    | none =>
      rw [event?_of_no_stop hstop]
      cases hs : a.snapshot? with
      | none => simp [Transmission.ofArrivals, Transmission.events, hstop, hs]
      | some s =>
        simp [Transmission.ofArrivals, Transmission.events, hstop, hs, Event.isClose]

theorem producerEvents_eq (e : Endpoint) (target : Target) (attempt : String → Attempt) :
    producerEvents e target attempt = (transmission e target attempt).events := by
  unfold producerEvents transmission
  cases e.streamUrl target with
  | error u => rfl
  | ok url =>
    cases hattempt : attempt url with
    | refused reason => simp [hattempt, Attempt.events, Transmission.failure, Transmission.events]
    | connected arrivals => simp [hattempt, Attempt.events, pushed_eq]

/-! ## How far a stream has come -/

/-- How much of its connection the producer of a stream has read, and whether the stream was
cancelled then. -/
structure Progress where
  read : Nat := 0
  cancelled : Bool := false

namespace Transmission

variable {t : Transmission} {p : Progress}

/-- Why the stream has closed by then, if it has: the reading stopped, or else it was cancelled. -/
def closing (t : Transmission) (p : Progress) : Option CloseReason :=
  if t.snapshots.length < p.read ∧ t.stop.isSome then t.stop
  else if p.cancelled then some .cancelled
  else none

/-- What the stream has handed on by then: the snapshots that were read, and then why it closed. -/
def told (t : Transmission) (p : Progress) : List Event :=
  (t.snapshots.take p.read).map .snapshot ++ (t.closing p).toList.map .close

end Transmission

namespace Client

/-- Whether the move cancels stream `i`, as long as that is the active one. To open another stream
does that as well. -/
def Move.cancels (i : Nat) : Move → Bool
  | openStream _ _ => true
  | cancel => true
  | cancelHandle j => j = i
  | _ => false

/-- Whether the move lets the producer of stream `i` read what its connection brings next. -/
def Move.reads (i : Nat) : Move → Bool
  | arrive j => j = i
  | _ => false

end Client

open Client (Move)

/-- What a move makes of the progress of stream `i`. Behind a cancel there is none. -/
def Progress.move (i : Nat) (p : Progress) (m : Move) : Progress :=
  if p.cancelled then p
  else if m.cancels i then { p with cancelled := true }
  else if m.reads i then { p with read := p.read + 1 }
  else p

def Progress.run (i : Nat) (p : Progress) (ms : List Move) : Progress :=
  ms.foldl (Progress.move i) p

/-- Whether the move leaves stream `i` to its producer: nobody else pushes into it, and the producer
does not come to its end before the reading has stopped or the stream was cancelled. -/
def Client.Move.isFair (i : Nat) (t : Transmission) (p : Progress) : Move → Bool
  | push j _ => j ≠ i
  | finishProducer j => j ≠ i || (t.closing p).isSome
  | _ => true

/-- Whether all moves of a run leave stream `i` to its producer. -/
def isFair (i : Nat) (t : Transmission) : Progress → List Move → Bool
  | _, [] => true
  | p, m :: ms => m.isFair i t p && isFair i t (p.move i m) ms

namespace Transmission

variable {t : Transmission} {p : Progress} {i : Nat} {m : Move}

/-! ### Closed streams -/

theorem closing_of_stopped (h : t.snapshots.length < p.read ∧ t.stop.isSome) :
    t.closing p = t.stop := if_pos h

theorem closing_of_not_stopped (h : ¬(t.snapshots.length < p.read ∧ t.stop.isSome)) :
    t.closing p = if p.cancelled then some .cancelled else none := if_neg h

/-- Behind a close nothing more is told. -/
theorem told_move_of_closed (h : (t.closing p).isSome) (i : Nat) (m : Move) :
    t.told (p.move i m) = t.told p ∧ t.closing (p.move i m) = t.closing p := by
  by_cases hcancelled : p.cancelled = true
  · simp [Progress.move, hcancelled]
  · -- The stream was not cancelled, so the reading has stopped.
    have hstopped : t.snapshots.length < p.read ∧ t.stop.isSome :=
      Decidable.byContradiction fun hn => by simp [closing_of_not_stopped hn, hcancelled] at h
    have hread : p.read ≤ (p.move i m).read := by
      simp only [Progress.move, hcancelled, Bool.false_eq_true, if_false]
      split
      · exact Nat.le_refl _
      · split <;> simp
    have hstopped' : t.snapshots.length < (p.move i m).read ∧ t.stop.isSome :=
      ⟨Nat.lt_of_lt_of_le hstopped.1 hread, hstopped.2⟩
    rw [told, told, closing_of_stopped hstopped, closing_of_stopped hstopped',
      List.take_of_length_le (Nat.le_of_lt hstopped.1),
      List.take_of_length_le (Nat.le_of_lt hstopped'.1)]
    exact ⟨rfl, rfl⟩

end Transmission

/-! ## What a move does to a stream -/

namespace Client

variable {c : Client} {i j : Nat} {s s' : Opened} {callback : Option Event} {m : Move}

theorem getElem?_update_self (hs : c.streams[i]? = some s) :
    (c.update i s' callback).streams[i]? = some s' :=
  List.getElem?_set_self (List.getElem?_eq_some_iff.1 hs).1

theorem getElem?_update_ne (h : j ≠ i) :
    (c.update j s' callback).streams[i]? = c.streams[i]? :=
  List.getElem?_set_ne h

theorem active_move_of_stream? (h : m.stream? = some j) : (c.move m).active = c.active := by
  rcases move_of_stream? (c := c) h with hsame | ⟨s, s', callback, hm, -, -, hupdate⟩
  · rw [hsame]
  · rw [hupdate]
    rfl

/-- A move about a stream leaves the others alone. -/
theorem getElem?_move_of_ne (h : m.stream? = some j) (hij : j ≠ i) :
    (c.move m).streams[i]? = c.streams[i]? := by
  rcases move_of_stream? (c := c) h with hsame | ⟨s, s', callback, hm, -, -, hupdate⟩
  · rw [hsame]
  · rw [hupdate, getElem?_update_ne hij]

/-- The streams there are stay where they are when another one is opened. -/
theorem getElem?_openStream (target : Target) (attempt : String → Attempt)
    (hs : c.cancel.streams[i]? = some s) :
    (c.openStream target attempt).streams[i]? = some s := by
  have hi := (List.getElem?_eq_some_iff.1 hs).1
  simpa [openStream, List.getElem?_append_left hi] using hs

theorem exists_getElem?_of_stream? (hs : c.streams[i]? = some s) (hc : s.handle.isClosed = true)
    (hj : m.stream? = some j) :
    ∃ s', (c.move m).streams[i]? = some s' ∧ s'.handle.delivery = s.handle.delivery := by
  by_cases hij : j = i
  · subst hij
    rcases move_of_stream? (c := c) hj with hsame | ⟨s₀, s', callback, hm, hs₀, hhm, hupdate⟩
    · exact ⟨s, by rwa [hsame], rfl⟩
    · obtain rfl : s₀ = s := Option.some.inj (hs₀.symm.trans hs)
      refine ⟨s', ?_, ?_⟩
      · rw [hupdate, getElem?_update_self hs]
      · rw [hhm, Handle.delivery_move_of_closed hc]
  · exact ⟨s, (getElem?_move_of_ne hj hij).trans hs, rfl⟩

/-- A closed stream hands on nothing more, whatever is done. -/
theorem exists_getElem?_move_of_closed (hs : c.streams[i]? = some s)
    (hc : s.handle.isClosed = true) (m : Move) :
    ∃ s', (c.move m).streams[i]? = some s' ∧ s'.handle.delivery = s.handle.delivery := by
  have hcancel : ∃ s', c.cancel.streams[i]? = some s' ∧
      s'.handle.delivery = s.handle.delivery := by
    cases hk : c.active with
    | none => exact ⟨s, by rwa [cancel_of_inactive hk], rfl⟩
    | some k =>
      rw [streams_cancel hk]
      exact exists_getElem?_of_stream? hs hc rfl
  cases m with
  | openStream target attempt =>
    obtain ⟨s', hs', hdelivery⟩ := hcancel
    exact ⟨s', getElem?_openStream target attempt hs', hdelivery⟩
  | cancel => exact hcancel
  | cancelHandle | push | finishProducer | runProducer | arrive =>
    exact exists_getElem?_of_stream? hs hc rfl

end Client

/-! ## What every move preserves -/

namespace Transmission

/-- The stream while its producer is still reading. -/
def reading (t : Transmission) (p : Progress) : Opened where
  handle := { delivery := .after false (t.told p) }
  coming := t.events.drop p.read

variable {t : Transmission} {p : Progress}

theorem not_stopped_of_closing (h : t.closing p = none) :
    ¬(t.snapshots.length < p.read ∧ t.stop.isSome) ∧ p.cancelled = false := by
  by_cases hstopped : t.snapshots.length < p.read ∧ t.stop.isSome
  · rw [closing_of_stopped hstopped] at h
    simp [h] at hstopped
  · rw [closing_of_not_stopped hstopped] at h
    exact ⟨hstopped, by simpa using h⟩

theorem told_of_open (h : t.closing p = none) :
    t.told p = (t.snapshots.take p.read).map .snapshot := by
  simp [told, h]

/-- A cancel closes a stream that is still open. -/
theorem told_cancelled (h : t.closing p = none) :
    t.told { p with cancelled := true } = t.told p ++ [.close .cancelled] ∧
      t.closing { p with cancelled := true } = some .cancelled := by
  have hstopped := (not_stopped_of_closing h).1
  have hclosing : t.closing { p with cancelled := true } = some .cancelled :=
    closing_of_not_stopped (p := { p with cancelled := true }) hstopped
  exact ⟨by simp [told, hclosing, h], hclosing⟩

/-- What comes of one more thing that is read: a snapshot, a stop, or nothing. -/
theorem read_cases (h : t.closing p = none) :
    (∃ s, t.events.drop p.read = .snapshot s :: t.events.drop (p.read + 1) ∧
      t.told { p with read := p.read + 1 } = t.told p ++ [.snapshot s] ∧
      t.closing { p with read := p.read + 1 } = none) ∨
    (∃ r, t.events.drop p.read = [.close r] ∧
      t.told { p with read := p.read + 1 } = t.told p ++ [.close r] ∧
      t.closing { p with read := p.read + 1 } = some r) ∨
    (t.events.drop p.read = [] ∧ t.told { p with read := p.read + 1 } = t.told p ∧
      t.closing { p with read := p.read + 1 } = none) := by
  obtain ⟨hstopped, hcancelled⟩ := not_stopped_of_closing h
  have hnext : ¬(t.snapshots.length < p.read + 1 ∧ t.stop.isSome) →
      t.closing { p with read := p.read + 1 } = none := by
    intro hn
    refine (closing_of_not_stopped (p := { p with read := p.read + 1 }) hn).trans ?_
    simp [hcancelled]
  rcases Nat.lt_or_ge p.read t.snapshots.length with hlt | hge
  · left
    have hclosing := hnext (by omega)
    refine ⟨t.snapshots[p.read], ?_, ?_, hclosing⟩
    · have hlt' : p.read < t.events.length := by simp [events]; omega
      rw [List.drop_eq_getElem_cons hlt']
      simp [events, hlt]
    · rw [told_of_open h, told_of_open hclosing, List.take_succ_eq_append_getElem hlt,
        List.map_append]
      rfl
  · right
    cases hstop : t.stop with
    | some r =>
      left
      have hlen : p.read = t.snapshots.length := by simp [hstop] at hstopped; omega
      have hclosing : t.closing { p with read := p.read + 1 } = some r := by
        refine (closing_of_stopped (p := { p with read := p.read + 1 }) ?_).trans hstop
        simp [hstop, hlen]
      refine ⟨r, ?_, ?_, hclosing⟩
      · simp [events, hlen, hstop]
      · rw [told_of_open h, told, hclosing, List.take_of_length_le (Nat.le_of_eq hlen.symm),
          List.take_of_length_le (Nat.le_succ_of_le (Nat.le_of_eq hlen.symm))]
        rfl
    | none =>
      right
      have hclosing := hnext (by simp [hstop])
      refine ⟨?_, ?_, hclosing⟩
      · simpa [events, hstop] using hge
      · rw [told_of_open h, told_of_open hclosing, List.take_of_length_le hge,
          List.take_of_length_le (Nat.le_succ_of_le hge)]

end Transmission

/-- Stream `i` has handed on what is told by then, and its producer goes on reading unless the
stream has closed. -/
inductive Client.Tells (c : Client) (i : Nat) (t : Transmission) (p : Progress) : Prop where
  | reading (hclosing : t.closing p = none) (hactive : c.active = some i)
    (hs : c.streams[i]? = some (t.reading p))
  | closed (hclosing : (t.closing p).isSome) (s : Opened) (hs : c.streams[i]? = some s)
    (hdelivery : s.handle.delivery = .after true (t.told p))

namespace Client

variable {c : Client} {i : Nat} {t : Transmission} {p : Progress}

theorem Tells.exists_stream (h : c.Tells i t p) : ∃ s, c.streams[i]? = some s ∧
    s.handle.delivery.callbacks = t.told p ∧ s.handle.isClosed = (t.closing p).isSome := by
  cases h with
  | reading hclosing hactive hs => exact ⟨_, hs, rfl, by simp [hclosing]; rfl⟩
  | closed hclosing s hs hdelivery =>
    exact ⟨s, hs, congrArg Delivery.callbacks hdelivery,
      (congrArg Delivery.closed hdelivery).trans hclosing.symm⟩

/-- Cancelling the stream through its handle. -/
theorem tells_cancelled (hclosing : t.closing p = none)
    (hs : c.streams[i]? = some (t.reading p)) :
    ∃ s, (c.move (.cancelHandle i)).streams[i]? = some s ∧
      s.handle.delivery = .after true (t.told { p with cancelled := true }) := by
  refine ⟨{ t.reading p with handle := (t.reading p).handle.cancel.1 }, ?_, ?_⟩
  · simp only [move, cancelHandle, hs, getElem?_update_self hs]
  · rw [(Transmission.told_cancelled hclosing).1]
    rfl

/-- What the producer reads next. -/
theorem tells_read (hclosing : t.closing p = none) (hactive : c.active = some i)
    (hs : c.streams[i]? = some (t.reading p)) :
    (c.move (.arrive i)).Tells i t { p with read := p.read + 1 } := by
  have harrive : ∀ {e : Event} {es : List Event}, t.events.drop p.read = e :: es →
      c.move (.arrive i) =
        c.update i ⟨{ delivery := .after e.isClose (t.told p ++ [e]) }, es⟩ (some e) := by
    intro e es hcoming
    have hs' : c.streams[i]? = some ⟨{ delivery := .after false (t.told p) }, e :: es⟩ := by
      rw [hs, Transmission.reading, hcoming]
    have harrive := arrive_of_cons hs' rfl
    rwa [Handle.push_of_not_closed rfl] at harrive
  rcases Transmission.read_cases hclosing with ⟨s, hcoming, htold, hnext⟩ |
    ⟨r, hcoming, htold, hnext⟩ | ⟨hcoming, htold, hnext⟩
  · rw [harrive hcoming]
    refine .reading hnext hactive ?_
    rw [getElem?_update_self hs, Transmission.reading, htold]
    rfl
  · rw [harrive hcoming]
    refine .closed (by simp [hnext]) _ (getElem?_update_self hs) ?_
    rw [htold]
    rfl
  · have hs' : c.streams[i]? = some ⟨{ delivery := .after false (t.told p) }, []⟩ := by
      rw [hs, Transmission.reading, hcoming]
    have hsame : c.move (.arrive i) = c := arrive_of_nil hs'
    rw [hsame]
    have hrest : t.events.drop (p.read + 1) = [] :=
      List.drop_eq_nil_iff.2 (Nat.le_succ_of_le (List.drop_eq_nil_iff.1 hcoming))
    refine .reading hnext hactive ?_
    rw [hs', Transmission.reading, htold, hrest]

/-- A move about another stream. -/
theorem Tells.other {m : Move} {j : Nat} (hclosing : t.closing p = none)
    (hactive : c.active = some i) (hs : c.streams[i]? = some (t.reading p))
    (hj : m.stream? = some j) (hij : j ≠ i) : (c.move m).Tells i t p :=
  .reading hclosing ((active_move_of_stream? hj).trans hactive)
    ((getElem?_move_of_ne hj hij).trans hs)

/-- The client cancels the stream, or the stream's handle does. -/
theorem Tells.of_cancelled {d : Client} (hclosing : t.closing p = none)
    (hs : ∃ s, d.streams[i]? = some s ∧
      s.handle.delivery = .after true (t.told { p with cancelled := true })) :
    d.Tells i t { p with cancelled := true } := by
  obtain ⟨s, hs, hdelivery⟩ := hs
  exact .closed (by simp [(Transmission.told_cancelled hclosing).2]) s hs hdelivery

theorem move_eq_of_open {m : Move} (h : p.cancelled = false) :
    p.move i m =
      if m.cancels i then { p with cancelled := true }
      else if m.reads i then { p with read := p.read + 1 }
      else p := by
  simp [Progress.move, h]

/-- A fair move takes the stream where the move takes its progress. -/
theorem Tells.move (h : c.Tells i t p) {m : Move} (hm : m.isFair i t p = true) :
    (c.move m).Tells i t (p.move i m) := by
  cases h with
  | closed hclosing s hs hdelivery =>
    have hc : s.handle.isClosed = true := congrArg Delivery.closed hdelivery
    obtain ⟨s', hs', hsame⟩ := exists_getElem?_move_of_closed hs hc m
    obtain ⟨htold, hclosing'⟩ := Transmission.told_move_of_closed hclosing i m
    exact .closed (hclosing' ▸ hclosing) s' hs' (by rw [hsame, hdelivery, htold])
  | reading hclosing hactive hs =>
    have hcancel : ∃ s, c.cancel.streams[i]? = some s ∧
        s.handle.delivery = .after true (t.told { p with cancelled := true }) := by
      rw [streams_cancel hactive]
      exact tells_cancelled hclosing hs
    rw [move_eq_of_open (Transmission.not_stopped_of_closing hclosing).2]
    cases m with
    | openStream target attempt =>
      obtain ⟨s, hs', hdelivery⟩ := hcancel
      exact .of_cancelled hclosing ⟨s, getElem?_openStream target attempt hs', hdelivery⟩
    | cancel => exact .of_cancelled hclosing hcancel
    | cancelHandle j =>
      by_cases hij : j = i
      · subst hij
        simpa [Move.cancels] using Tells.of_cancelled hclosing (tells_cancelled hclosing hs)
      · simpa [Move.cancels, Move.reads, hij] using Tells.other hclosing hactive hs rfl hij
    | push j e =>
      exact .other hclosing hactive hs rfl (by simpa [Move.isFair] using hm)
    | finishProducer j =>
      exact .other hclosing hactive hs rfl (by simpa [Move.isFair, hclosing] using hm)
    | runProducer j =>
      by_cases hij : j = i
      · -- The producer is still reading, so its task has nothing to do.
        subst hij
        have hsame : c.move (.runProducer j) = c.update j (t.reading p) none := by
          simp only [Client.move, runProducer, hs]
          rfl
        have hs' : (c.move (.runProducer j)).streams[j]? = some (t.reading p) := by
          rw [hsame, getElem?_update_self hs]
        exact .reading hclosing ((active_move_of_stream? rfl).trans hactive) hs'
      · exact .other hclosing hactive hs rfl hij
    | arrive j =>
      by_cases hij : j = i
      · subst hij
        simpa [Move.cancels, Move.reads] using tells_read hclosing hactive hs
      · simpa [Move.cancels, Move.reads, hij] using Tells.other hclosing hactive hs rfl hij

theorem Tells.run (h : c.Tells i t p) {ms : List Move} (hms : isFair i t p ms = true) :
    (c.run ms).Tells i t (p.run i ms) := by
  induction ms generalizing c p with
  | nil => exact h
  | cons m ms ih =>
    obtain ⟨hm, hrest⟩ := Bool.and_eq_true_iff.1 hms
    exact ih (h.move hm) hrest

theorem endpoint_cancel (c : Client) : c.cancel.endpoint = c.endpoint := by
  unfold cancel cancelHandle
  cases c.active with
  | none => rfl
  | some i => cases hs : c.streams[i]? <;> simp [hs, update]

/-- A stream that has just been opened has told nothing yet. -/
theorem tells_openStream (c : Client) (target : Target) (attempt : String → Attempt) :
    (c.openStream target attempt).Tells c.streams.length
      (transmission c.endpoint target attempt) {} := by
  have hopen : (transmission c.endpoint target attempt).closing {} = none := by
    simp [Transmission.closing]
  refine .reading hopen ?_ ?_
  · simp [openStream, length_streams_cancel]
  · simp [openStream, ← length_streams_cancel c, endpoint_cancel, producerEvents_eq,
      Transmission.reading, Transmission.told_of_open hopen]

end Client

/-! ## Main statement -/

/-- **A stream tells what its connection brought.** A stream is opened by any client, and from then
on the client and its streams may do whatever they like, but that stream is left to its producer. At
every point it has then handed on the snapshots that its producer has read, and behind them why it
closed, if it has: because the reading stopped, or else because it was cancelled. -/
theorem stream_tells_its_connection (c : Client) (target : Target) (attempt : String → Attempt)
    (ms : List Client.Move) :
    let i := c.streams.length
    let t := transmission c.endpoint target attempt
    let p := Progress.run i {} ms
    isFair i t {} ms = true →
      ∃ s, ((c.openStream target attempt).run ms).streams[i]? = some s ∧
        s.handle.delivery.callbacks =
          (t.snapshots.take p.read).map .snapshot ++ (t.closing p).toList.map .close ∧
        s.handle.isClosed = (t.closing p).isSome := by
  intro i t p hfair
  exact ((Client.tells_openStream c target attempt).run hfair).exists_stream

/-- The stream is cancelled between two of the texts, and its producer comes to its end later. -/
theorem stream_tells_until_cancelled :
    let s : Snapshot := ⟨.locking, .pending, some 7, [], [], [], none, none, none, [], []⟩
    let c : Client := { endpoint := ⟨"https://script.example/", "api"⟩ }
    let attempt := fun _ : String =>
      Attempt.connected [.other, .text s.toJson, .other, .text s.toJson, .closeFrame]
    let ms : List Client.Move :=
      [.arrive 0, .runProducer 0, .cancelHandle 0, .arrive 0, .finishProducer 0, .runProducer 0]
    ∃ o, ((c.openStream ⟨"ab", 1⟩ attempt).run ms).streams[0]? = some o ∧
      o.handle.delivery.callbacks = [.snapshot s, .close .cancelled] ∧
      o.handle.isClosed = true := by
  intro s c attempt ms
  have ht : transmission c.endpoint ⟨"ab", 1⟩ attempt = ⟨[s, s], some .completed⟩ := by
    decide +kernel
  have hfair : isFair 0 (transmission c.endpoint ⟨"ab", 1⟩ attempt) {} ms = true := by
    rw [ht]
    rfl
  obtain ⟨o, ho, hcallbacks, hclosed⟩ :=
    stream_tells_its_connection c ⟨"ab", 1⟩ attempt ms hfair
  rw [ht] at hcallbacks hclosed
  exact ⟨o, ho, hcallbacks, hclosed⟩

end SpendTrace.Stream
