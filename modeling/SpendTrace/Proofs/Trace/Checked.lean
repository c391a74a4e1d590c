import SpendTrace.Proofs.Trace.Calls
import SpendTrace.Trace.Schedule

/-!
# A coordinator that checks its sums

Steps and generations are words, and a coordinator adds to them without looking whether the sum
still fits. Here it looks: every sum is made only if it is in range, and where one is not there is
no result. Everything else is done as before.

* `successor?`, `difference?`: the sums that are checked.
* `Coordinator.useStream`: the one way of doing something with a stream.
* `Coordinator.HasRoom`: what a stream may bring next can be counted.
* `Coordinator.useStream?_eq`, `cleared?_eq`, `requestStep?_eq`: where there is room, the checks
  make no difference.
-/

namespace SpendTrace

/-! ## Sums -/

/-- The number behind another, if it is in range. -/
def successor? (n : UInt64) : Option UInt64 :=
  if n.toNat + 1 < UInt64.size then some (n + 1) else none

/-- What one number is more than another, if that is in range. -/
def difference? (m n : UInt64) : Option UInt64 :=
  if n.toNat ≤ m.toNat then some (m - n) else none

theorem successor?_eq {n : UInt64} (h : n.toNat + 1 < UInt64.size) :
    successor? n = some (n + 1) :=
  if_pos h

theorem difference?_eq {m n : UInt64} (h : n < m) : difference? m n = some (m - n) :=
  if_pos (Nat.le_of_lt (UInt64.lt_iff_toNat_lt.1 h))

end SpendTrace

namespace SpendTrace.Trace

open Script (Snapshot)
open SpendTrace.Stream (CloseReason Event Handle)

/-! ## Transitions -/

namespace State

/-- The stream brings a snapshot, whose step is counted on from the one before. -/
def afterSnapshot? (state : State) (target : Target) (s : Snapshot) : Option (Option State) :=
  match state with
  | loading _ _ _ => some (some (ready ⟨target, .streamed, 0, s, some .live⟩))
  | ready r =>
    if r.isTerminal then some none
    else (successor? r.step).map fun step => some (ready ⟨target, .streamed, step, s, some .live⟩)
  | idle => some none
  | failed _ _ _ => some none

/-- The stream closes. How many snapshots it brought is counted for the failure, and also where
there is a verdict, though only a log gets to know it then. -/
def afterClose? (state : State) (target : Target) (reason : CloseReason) : Option (Option State) :=
  let failure := fun received =>
    some (failed target .streamed (.streamFailed (closeDescription reason) received))
  match state with
  | ready r =>
    if r.isTerminal then (successor? r.step).map fun _ => some (ready (r.withStream .finished))
    else
      match reason with
      | .cancelled => some (some (ready (r.withStream .cancelled)))
      | _ => (successor? r.step).map failure
  | loading _ _ _ =>
    match reason with
    | .cancelled => some (some idle)
    | _ => some (failure 0)
  | idle => some none
  | failed _ _ _ => some none

/-- There is a step behind the one on display. -/
def HasNext (s : State) : Prop :=
  ∀ r ∈ s.ready?, r.step.toNat + 1 < UInt64.size

theorem hasNext_of_not_ready {s : State} (h : s.ready? = none) : s.HasNext := by
  simp [HasNext, h]

variable {state : State}

theorem afterSnapshot?_eq (h : state.HasNext) (target : Target) (s : Snapshot) :
    state.afterSnapshot? target s = some (state.afterSnapshot target s) := by
  cases state with
  | idle | loading | failed => rfl
  | ready r =>
    simp only [afterSnapshot?, afterSnapshot, successor?_eq (h r rfl)]
    split <;> rfl

theorem afterClose?_eq (h : state.HasNext) (target : Target) (reason : CloseReason) :
    state.afterClose? target reason = some (state.afterClose target reason) := by
  cases state with
  | idle | failed => rfl
  | loading => cases reason <;> rfl
  | ready r =>
    simp only [afterClose?, afterClose, successor?_eq (h r rfl)]
    cases reason <;> split <;> rfl

end State

/-! ## Streams that are used -/

/-- What may be done with a stream: it hands on what it is given unless it is closed, or it hands on
nothing and is open or closed as before. -/
structure IsUse (use : Handle → Handle × Option Event) : Prop where
  callbacks_eq : ∀ h, (use h).1.delivery.callbacks = h.delivery.callbacks ++ (use h).2.toList
  acts : ∀ h,
    (∃ e, (use h).1.isClosed = (h.isClosed || e.isClose) ∧
      (use h).2 = if h.isClosed then none else some e) ∨
    (use h).1.isClosed = h.isClosed ∧ (use h).2 = none

theorem isUse_push (e : Event) : IsUse fun h => h.push e where
  callbacks_eq h := h.callbacks_push e
  acts h := .inl ⟨e, h.isClosed_push e, h.callback_push e⟩

theorem isUse_cancel : IsUse Handle.cancel where
  callbacks_eq h := h.callbacks_cancel
  acts h := .inl ⟨.close .cancelled, h.isClosed_push (.close .cancelled), h.callback_cancel⟩

theorem isUse_settle : IsUse Handle.settle where
  callbacks_eq h := h.callbacks_settle
  acts h := by
    cases hended : h.producer.run.2 with
    | none =>
      have hsettle : h.settle = ({ h with producer := h.producer.run.1 }, none) := by
        simp only [Handle.settle, hended]
      rw [hsettle]
      exact .inr ⟨rfl, rfl⟩
    | some _ =>
      have hsettle : h.settle =
          ({ h with producer := h.producer.run.1 } : Handle).push (.close .completed) := by
        simp only [Handle.settle, hended]
      rw [hsettle]
      exact .inl ⟨.close .completed, Handle.isClosed_push _ _, Handle.callback_push _ _⟩

/-- Nothing comes of a closed stream. -/
theorem IsUse.isClosed_eq_false {use : Handle → Handle × Option Event} (h : IsUse use)
    {handle : Handle} {e : Event} (he : (use handle).2 = some e) : handle.isClosed = false := by
  rcases h.acts handle with ⟨e', -, hcallback⟩ | ⟨-, hnone⟩
  · refine Bool.eq_false_iff.2 fun hclosed => ?_
    rw [hcallback, if_pos hclosed] at he
    cases he
  · rw [hnone] at he
    cases he

namespace Coordinator

/-- Something is done with a stream, and the callback that it asks for is run. What is pushed, a
cancel and a producer that runs are all this, with `Handle.push`, `cancel` and `settle`. -/
def useStream (c : Coordinator) (i : Nat) (use : Handle → Handle × Option Event) : Coordinator :=
  match c.streams[i]? with
  | none => c
  | some s => c.updateStream i s (use s.handle).1 (use s.handle).2

/-! ## Checked operations -/

def applyEvent? (c : Coordinator) (generation : UInt64) (target : Target) (e : Event) :
    Option Coordinator :=
  if generation = c.generation then
    match e with
    | .snapshot s => (c.state.afterSnapshot? target s).map c.publish?
    | .close reason => (c.state.afterClose? target reason).map { c with stream := none }.publish?
  else some c

def updateStream? (c : Coordinator) (i : Nat) (s : OpenedStream) (handle : Handle)
    (callback : Option Event) : Option Coordinator :=
  let c := { c with streams := c.streams.set i { s with handle } }
  match callback with
  | some e => c.applyEvent? s.generation s.target e
  | none => some c

def useStream? (c : Coordinator) (i : Nat) (use : Handle → Handle × Option Event) :
    Option Coordinator :=
  match c.streams[i]? with
  | none => some c
  | some s => c.updateStream? i s (use s.handle).1 (use s.handle).2

def push? (c : Coordinator) (i : Nat) (e : Event) : Option Coordinator :=
  c.useStream? i fun h => h.push e

def cancelStream? (c : Coordinator) (i : Nat) : Option Coordinator :=
  c.useStream? i Handle.cancel

def runProducer? (c : Coordinator) (i : Nat) : Option Coordinator :=
  c.useStream? i Handle.settle

def settle? (c : Coordinator) : Option Coordinator :=
  let c := (List.range c.requests.length).foldl runRequest c
  (List.range c.streams.length).foldlM runProducer? c

def release? (c : Coordinator) (fetch stream : Option Nat) : Option Coordinator :=
  let c :=
    match fetch with
    | some i => c.abortRequest i
    | none => c
  match stream with
  | some i => c.cancelStream? i
  | none => some c

def nextGeneration? (c : Coordinator) : Option Coordinator :=
  (successor? c.generation).map fun generation => { c with generation }

def cleared? (c : Coordinator) (target : Target) (s : State) : Option Coordinator := do
  let next := { c with selected := some target, shown := none, fetch := none, stream := none }
  ((← next.nextGeneration?).publish s).release? c.fetch c.stream

def changeTarget? (c : Coordinator) (target : Target) : Option Coordinator :=
  c.cleared? target .idle

def cancel? (c : Coordinator) : Option Coordinator := do
  let next := { c with fetch := none, stream := none }
  ((← next.nextGeneration?).publish? (c.state.afterCancel c.shown)).release? c.fetch c.stream

def shutDown? (c : Coordinator) : Option Coordinator := do
  (← { c with fetch := none, stream := none }.nextGeneration?).release? c.fetch c.stream

/-- What happens while the next stream is opened. -/
def nextOpening (c : Coordinator) : Opening :=
  c.openings.head?.getD {}

/-- The call that comes in between while a stream is opened, if any. -/
def afterOpening? (c : Coordinator) (o : Opening) : Option Coordinator :=
  match o.interruption with
  | some .cancel => c.cancel?
  | some (.changeTarget target) => c.changeTarget? target
  | none => some c

def openStream? (c : Coordinator) (target : Target) : Option Coordinator := do
  let i := c.streams.length
  let pushed ← c.nextOpening.eager.foldlM (fun c e => c.push? i e) (c.spawnStream target)
  let opened ← pushed.afterOpening? c.nextOpening
  if opened.generation = c.generation then some { opened with stream := some i }
  else opened.cancelStream? i

def start? (c : Coordinator) (target : Target) (mode : Mode) (step : UInt64) :
    Option Coordinator := do
  match mode with
  | .stepped =>
    let started ← c.cleared? target (.loading target .stepped (some step))
    some (started.spawnRequest target step)
  | .streamed =>
    let started ← c.cleared? target (.loading target .streamed none)
    started.openStream? target

def requestStep? (c : Coordinator) (step : UInt64) :
    Option (Coordinator × Except NavigationError Unit) := do
  match c.state.target?, c.state.mode? with
  | some target, some .stepped =>
    let next ← c.nextGeneration?
    let loading := next.publish (.loading target .stepped (some step))
    some (loading.spawnRequest target step, .ok ())
  | some _, some .streamed => some (c, .error .notStepped)
  | _, _ => some (c, .error .notStarted)

def restart? (c : Coordinator) (l : Link) : Option Coordinator := do
  (← c.changeTarget? l.target).start? l.target l.mode (l.requestedStep.getD 0)

def follow? (c : Coordinator) (l : Link) : Option Coordinator := do
  if c.isInPlace l then
    match ← c.requestStep? (l.requestedStep.getD 0) with
    | (c, .ok ()) => some c
    | (c, .error _) => c.restart? l
  else c.restart? l

/-- What becomes of a coordinator with one move. An answer to a request adds nothing up. -/
def move? (c : Coordinator) : Move → Option Coordinator
  | .start target mode step eager => (c.expecting eager).start? target mode step
  | .requestStep step => (c.requestStep? step).map Prod.fst
  | .changeTarget target => c.changeTarget? target
  | .cancel => c.cancel?
  | .follow link eager => (c.expecting eager).follow? link
  | .answer i a => some (c.move (.answer i a))
  | .push i e => c.push? i e
  | .cancelStream i => c.cancelStream? i

/-! ## Room -/

/-- What an open stream of the current generation may bring next can be counted. -/
def HasRoom (c : Coordinator) : Prop :=
  ∀ s ∈ c.streams, s.generation = c.generation → s.handle.isClosed = false → c.state.HasNext

theorem hasRoom_of_not_ready {c : Coordinator} (h : c.state.ready? = none) : c.HasRoom :=
  fun _ _ _ _ => State.hasNext_of_not_ready h

/-- A new generation has no stream yet, unless the generations have come round. -/
theorem Fenced.hasRoom {c d : Coordinator} {n : Nat} (h : c.Fenced n) (hn : n + 1 < UInt64.size)
    (hstreams : d.streams = c.streams) (hgeneration : d.generation = c.generation + 1) :
    d.HasRoom := by
  intro s hs hcurrent _
  rw [hstreams] at hs
  rw [hgeneration] at hcurrent
  exact absurd hcurrent (h.ne_next hn (h.stream_le s hs))

variable {c : Coordinator}

theorem applyEvent?_eq {generation : UInt64} (h : generation = c.generation → c.state.HasNext)
    (target : Target) (e : Event) :
    c.applyEvent? generation target e = some (c.applyEvent generation target e) := by
  unfold applyEvent? applyEvent
  split
  · next hcurrent =>
    cases e with
    | snapshot s => simp only [State.afterSnapshot?_eq (h hcurrent), Option.map_some]
    | close reason => simp only [State.afterClose?_eq (h hcurrent), Option.map_some]
  · rfl

theorem updateStream?_eq {s : OpenedStream} {callback : Option Event}
    (h : callback.isSome = true → s.generation = c.generation → c.state.HasNext) (i : Nat)
    (handle : Handle) :
    c.updateStream? i s handle callback = some (c.updateStream i s handle callback) := by
  cases callback with
  | none => rfl
  | some e => exact applyEvent?_eq (c := c.setHandle i s handle) (h rfl) s.target e

theorem useStream?_eq (h : c.HasRoom) {use : Handle → Handle × Option Event} (huse : IsUse use)
    (i : Nat) : c.useStream? i use = some (c.useStream i use) := by
  cases hs : c.streams[i]? with
  | none => simp only [useStream?, useStream, hs]
  | some s =>
    simp only [useStream?, useStream, hs]
    refine updateStream?_eq (fun hcallback hcurrent => ?_) i _
    obtain ⟨e, he⟩ := Option.isSome_iff_exists.1 hcallback
    exact h s (List.mem_of_getElem? hs) hcurrent (huse.isClosed_eq_false he)

theorem release?_eq (h : c.HasRoom) (fetch stream : Option Nat) :
    c.release? fetch stream = some (c.release fetch stream) := by
  have hcancel {d : Coordinator} (hd : d.HasRoom) (i : Nat) :
      d.cancelStream? i = some (d.cancelStream i) := useStream?_eq hd isUse_cancel i
  -- Which request is aborted does not matter to the streams.
  have habort (i : Nat) : (c.abortRequest i).HasRoom := h
  cases fetch <;> cases stream
  · rfl
  · exact hcancel h _
  · rfl
  · exact hcancel (habort _) _

theorem nextGeneration?_eq (h : c.generation.toNat + 1 < UInt64.size) :
    c.nextGeneration? = some c.nextGeneration := by
  rw [nextGeneration?, successor?_eq h]
  rfl

theorem cleared?_eq (h : c.generation.toNat + 1 < UInt64.size) (target : Target) {s : State}
    (hs : s.ready? = none) : c.cleared? target s = some (c.cleared target s) := by
  have hnext := nextGeneration?_eq
    (c := { c with selected := some target, shown := none, fetch := none, stream := none }) h
  simp only [cleared?, hnext, Option.bind_eq_bind, Option.bind_some]
  exact release?_eq (hasRoom_of_not_ready hs) c.fetch c.stream

theorem requestStep?_eq (h : c.generation.toNat + 1 < UInt64.size) (step : UInt64) :
    c.requestStep? step = some (c.requestStep step) := by
  unfold requestStep? requestStep
  cases c.state.target? with
  | none => rfl
  | some target =>
    cases c.state.mode? with
    | none => rfl
    | some mode =>
      cases mode with
      | stepped => simp only [nextGeneration?_eq h, Option.bind_eq_bind, Option.bind_some]
      | streamed => rfl

theorem cancel?_eq {n : Nat} (h : c.Fenced n) (hn : n + 1 < UInt64.size) :
    c.cancel? = some c.cancel := by
  have hnext := nextGeneration?_eq (c := { c with fetch := none, stream := none })
    (Nat.lt_of_le_of_lt (Nat.succ_le_succ h.generation_le) hn)
  simp only [cancel?, hnext, Option.bind_eq_bind, Option.bind_some]
  refine release?_eq (h.hasRoom hn ?_ ?_) c.fetch c.stream
  · exact streams_publish? _ _
  · exact generation_publish? _ _

theorem shutDown?_eq {n : Nat} (h : c.Fenced n) (hn : n + 1 < UInt64.size) :
    c.shutDown? = some c.shutDown := by
  have hnext := nextGeneration?_eq (c := { c with fetch := none, stream := none })
    (Nat.lt_of_le_of_lt (Nat.succ_le_succ h.generation_le) hn)
  simp only [shutDown?, hnext, Option.bind_eq_bind, Option.bind_some]
  refine release?_eq (h.hasRoom hn ?_ ?_) c.fetch c.stream
  · rfl
  · rfl

end Coordinator

end SpendTrace.Trace
