import SpendTrace.Proofs.View.Courses

/-!
# No sum leaves its range

A viewer adds to steps as well, and those of a stepped trace come from the interpreter, which may
say what it likes. Here the viewer checks its sums, as the coordinator does. It never comes to a sum
that would not fit: behind a step that nothing follows, it stops.

* `Viewer.HasNext`: there is a step behind the one printed last.
* `Session.Steady`: a steady coordinator, and a viewer that can count on while it goes on.
* `Session.course?`: a course in which every sum is checked.
* `step_arithmetic_never_wraps`: the checks make no difference.
-/

namespace SpendTrace.View

open Script (Snapshot)
open Trace (Answer Coordinator Navigation Opening Ready State)

/-! ## Viewers -/

namespace Viewer

def expected? (v : Viewer) : Option UInt64 :=
  match v.printed with
  | some p => successor? p
  | none => some 0

def news? (v : Viewer) (r : Ready) : Option (List Piece) := do
  if v.printed = some r.step then some []
  else
    let expected ← v.expected?
    if r.mode = .streamed ∧ expected < r.step then
      some [.skipped (← difference? r.step expected), .report r]
    else some [.report r]

def lookAtReady? (v : Viewer) (r : Ready) : Option Look := do
  let news ← v.news? r
  let viewer := { v with printed := some r.step }
  match r.mode with
  | .stepped =>
    match r.navigation.bind Navigation.nextStep, v.toEnd with
    | some next, true => some ⟨news, viewer, .request next⟩
    | _, _ => some ⟨news ++ r.navigation.toList.map .navigation, viewer, .stop⟩
  | .streamed => some ⟨news, viewer, if r.stream = some .live then .wait else .stop⟩

def look? (v : Viewer) : State → Option Look
  | .idle => some ⟨[], v, .wait⟩
  | .loading _ _ _ => some ⟨[], v, .wait⟩
  | .failed target _ error => some ⟨[], v, .fail target error⟩
  | .ready r => v.lookAtReady? r

/-- There is a step behind the one printed last. -/
def HasNext (v : Viewer) : Prop :=
  ∀ p ∈ v.printed, p.toNat + 1 < UInt64.size

theorem hasNext_new (toEnd : Bool) : HasNext { toEnd } := by
  rintro p ⟨⟩

variable {v : Viewer} {r : Ready}

theorem expected?_eq (h : v.HasNext) : v.expected? = some v.expected := by
  unfold expected? expected
  cases hprinted : v.printed with
  | none => rfl
  | some p => exact successor?_eq (h p hprinted)

/-- Nothing comes behind the last number. -/
example : expected? { toEnd := true, printed := some 0xFFFFFFFFFFFFFFFF } = none := rfl

/-- What was skipped is counted only where there is something to count. -/
theorem news?_eq (h : v.HasNext) (r : Ready) : v.news? r = some (v.news r) := by
  unfold news? news
  split
  · rfl
  · rw [expected?_eq h, Option.bind_eq_bind, Option.bind_some]
    split
    · next hskipped =>
      rw [difference?_eq hskipped.2]
      rfl
    · rfl

theorem look?_eq (h : v.HasNext) (s : State) : v.look? s = some (v.look s) := by
  cases s with
  | idle | loading | failed => rfl
  | ready r =>
    simp only [look?, look, lookAtReady?, lookAtReady, news?_eq h, Option.bind_eq_bind,
      Option.bind_some]
    cases r.mode with
    | stepped => cases r.navigation.bind Navigation.nextStep <;> cases v.toEnd <;> rfl
    | streamed => rfl

/-! ### Viewers that go on -/

/-- A step is followed by another only if there is one, whatever the interpreter says. -/
theorem toNat_add_one_lt_of_nextStep {next : UInt64}
    (h : r.navigation.bind Navigation.nextStep = some next) : r.step.toNat + 1 < UInt64.size := by
  unfold Ready.navigation at h
  cases hmode : r.mode with
  | streamed =>
    simp only [hmode] at h
    cases h
  | stepped =>
    simp only [hmode, Navigation.nextStep, Option.bind_some] at h
    cases houtcome : r.snapshot.outcome with
    | result b =>
      simp only [houtcome] at h
      cases h
    | pending =>
      simp only [houtcome] at h
      split at h
      · next hlt => exact hlt
      · cases h

theorem printed_lookAtReady (v : Viewer) (r : Ready) :
    (v.lookAtReady r).viewer.printed = some r.step := by
  unfold lookAtReady
  dsimp only
  repeat' split
  all_goals rfl

/-- A viewer that does not stop has printed a step that another can follow: one that it asks for, or
one of a stream. -/
theorem hasNext_look {s : State} {d : Nat} (h : v.HasNext) (hcounted : s.Counted d)
    (hd : d < UInt64.size) (hgo : (v.look s).move ≠ .stop) : (v.look s).viewer.HasNext := by
  cases s with
  | idle | loading | failed => exact h
  | ready r =>
    intro p hp
    obtain rfl : r.step = p := Option.some.inj ((v.printed_lookAtReady r).symm.trans hp)
    cases hmode : r.mode with
    | streamed =>
      have hlt : r.step.toNat < d := hcounted r rfl hmode
      omega
    | stepped =>
      cases hnext : r.navigation.bind Navigation.nextStep with
      | none =>
        refine absurd ?_ hgo
        rw [look, lookAtReady_of_stop hmode (.inr hnext)]
      | some next => exact toNat_add_one_lt_of_nextStep hnext

end Viewer

/-! ## Sessions -/

namespace Session

def look? (s : Session) : Option Session := do
  match s.ending with
  | some _ => some s
  | none =>
    let l ← s.viewer.look? s.coordinator.watched
    let s := { s with viewer := l.viewer, printed := s.printed ++ l.pieces }
    match l.move with
    | .wait => some s
    | .stop => some { s with ending := some .ok }
    | .fail target error =>
      some { s with
        ending := some (.failed ["tracing " ++ target.display ++ " failed", error.message]) }
    | .request step =>
      match ← s.coordinator.requestStep? step with
      | (coordinator, .ok ()) => some { s with coordinator }
      | (coordinator, .error e) =>
        some { s with coordinator, ending := some (.failed [e.message]) }

/-- What happens in a session. The end of a producer adds nothing up. -/
def happen? (s : Session) : Happening → Option Session
  | .look => s.look?
  | .settle => s.coordinator.settle?.map fun coordinator => { s with coordinator }
  | .finish i => some (s.happen (.finish i))
  | .move m => (s.coordinator.move? m).map fun coordinator => { s with coordinator }

/-- What occurs to a session. An answer that is handed to a request adds nothing up. -/
def occur? (s : Session) : Occurrence → Option Session
  | .visit toEnd link o =>
    ((s.opening o).follow? link).map fun coordinator => { coordinator, viewer := { toEnd } }
  | .start target mode step o =>
    ((s.opening o).start? target mode step).map fun coordinator => { s with coordinator }
  | .follow link o => ((s.opening o).follow? link).map fun coordinator => { s with coordinator }
  | .answer number a => some (s.occur (.answer number a))
  | .happening h => s.happen? h

/-- What becomes of a session in a course, if every sum is in range. -/
def course? (s : Session) (os : List Occurrence) : Option Session :=
  os.foldlM occur? s

/-! ### Steady sessions -/

/-- The coordinator is steady, and a viewer that goes on can count on. -/
structure Steady (s : Session) (n : Nat) : Prop where
  coordinator : s.coordinator.Steady n
  viewer : s.ending = none → s.viewer.HasNext

/-- The checks make no difference to what leads to `t`, and `t` is steady. -/
structure InRange (t? : Option Session) (t : Session) (n : Nat) : Prop where
  eq_some : t? = some t
  steady : t.Steady n

/-- What is done with the coordinator of a session stays in range. -/
theorem inRange_map {d? : Option Coordinator} {d : Coordinator} {n : Nat}
    (h : Coordinator.InRange d? d n) {next : Coordinator → Session}
    (hnext : d.Steady n → (next d).Steady n) : InRange (d?.map next) (next d) n :=
  ⟨by rw [h.eq_some, Option.map_some], hnext h.steady⟩

namespace Steady

variable {s : Session} {n : Nat}

theorem alone : Session.alone.Steady 0 :=
  ⟨Coordinator.Steady.init, by rintro ⟨⟩⟩

theorem withCoordinator (h : s.Steady n) {d : Coordinator} {m : Nat} (hd : d.Steady m) :
    Steady { s with coordinator := d } m :=
  ⟨hd, h.viewer⟩

theorem opening (h : s.Steady n) (o : Opening) : (s.opening o).Steady n :=
  h.coordinator.hold _ _ _

theorem inRange_follow (h : s.Steady n) (link : Link) (o : Opening)
    (hn : n + 2 * (1 + o.calls) < UInt64.size)
    (hd : ((s.opening o).follow link).delivered < UInt64.size) :
    Coordinator.InRange ((s.opening o).follow? link) ((s.opening o).follow link)
      (n + 2 * (1 + o.calls)) := by
  have hbegun : n + 2 + o.calls ≤ n + 2 * (1 + o.calls) := by omega
  exact ((h.opening o).inRange_follow (Nat.lt_of_le_of_lt hbegun hn) link hd).mono hbegun

theorem inRange_look (h : s.Steady n)
    (hn : n + 2 * s.operationsAt (.happening .look) < UInt64.size)
    (hd : s.coordinator.delivered < UInt64.size) :
    InRange s.look? s.look (n + 2 * s.operationsAt (.happening .look)) := by
  unfold operationsAt asksOn at *
  unfold Session.look? Session.look
  cases hopen : s.ending with
  | some e => exact ⟨rfl, h⟩
  | none =>
    have hlook := Viewer.look?_eq (h.viewer hopen) s.coordinator.watched
    have hnext : (s.viewer.look s.coordinator.watched).move ≠ .stop →
        (s.viewer.look s.coordinator.watched).viewer.HasNext :=
      Viewer.hasNext_look (h.viewer hopen)
        (by rw [h.coordinator.watched_eq]; exact h.coordinator.counted) hd
    rw [hopen] at hn
    simp only [hlook, Option.bind_eq_bind, Option.bind_some]
    generalize s.viewer.look s.coordinator.watched = l at hn hnext ⊢
    cases hmove : l.move with
    | wait => exact ⟨rfl, h.coordinator, fun _ => hnext (by simp [hmove])⟩
    | stop => exact ⟨rfl, h.coordinator, by rintro ⟨⟩⟩
    | fail target error => exact ⟨rfl, h.coordinator, by rintro ⟨⟩⟩
    | request step =>
      simp only [hmove, if_true] at hn
      have hn' : n + 1 < UInt64.size := Nat.lt_of_succ_lt hn
      have hchecked := Coordinator.requestStep?_eq (h.coordinator.generation_lt hn') step
      simp only [hchecked, Option.bind_some]
      have hsteady := (h.coordinator.requestStep hn' step).mono (Nat.le_succ _)
      generalize s.coordinator.requestStep step = asked at hsteady ⊢
      obtain ⟨d, e | _⟩ := asked
      · exact ⟨rfl, hsteady, by rintro ⟨⟩⟩
      · exact ⟨rfl, hsteady, fun _ => hnext (by simp [hmove])⟩

theorem inRange_happen (h : s.Steady n) (e : Happening)
    (hn : n + 2 * s.operationsAt (.happening e) < UInt64.size)
    (hd : (s.happen e).coordinator.delivered < UInt64.size) :
    InRange (s.happen? e) (s.happen e) (n + 2 * s.operationsAt (.happening e)) := by
  cases e with
  | look => exact h.inRange_look hn (Nat.lt_of_le_of_lt (s.delivered_le_happen .look) hd)
  | settle => exact inRange_map (h.coordinator.inRange_settle hd) h.withCoordinator
  | finish i => exact ⟨rfl, h.withCoordinator (h.coordinator.finishProducer i)⟩
  | move m => exact inRange_map (h.coordinator.inRange_move m hn hd) h.withCoordinator

/-- Whatever occurs stays in range. An operation begins two generations at most. -/
theorem inRange_occur (h : s.Steady n) (o : Occurrence)
    (hn : n + 2 * s.operationsAt o < UInt64.size)
    (hd : (s.occur o).coordinator.delivered < UInt64.size) :
    InRange (s.occur? o) (s.occur o) (n + 2 * s.operationsAt o) := by
  cases o with
  | visit toEnd link o =>
    exact inRange_map (h.inRange_follow link o hn hd)
      fun hsteady => ⟨hsteady, fun _ => Viewer.hasNext_new toEnd⟩
  | start target mode step o =>
    have hbegun : n + 1 + o.calls ≤ n + 2 * (1 + o.calls) := by omega
    have hstarted :=
      (h.opening o).inRange_start (Nat.lt_of_le_of_lt hbegun hn) target mode step hd
    exact inRange_map (hstarted.mono hbegun) h.withCoordinator
  | follow link o => exact inRange_map (h.inRange_follow link o hn hd) h.withCoordinator
  | answer number a => exact ⟨rfl, h.withCoordinator (h.coordinator.answer number a)⟩
  | happening e => exact h.inRange_happen e hn hd

theorem inRange_course (h : s.Steady n) (os : List Occurrence)
    (hn : n + 2 * s.operations os < UInt64.size)
    (hd : (s.course os).coordinator.delivered < UInt64.size) :
    InRange (s.course? os) (s.course os) (n + 2 * s.operations os) := by
  induction os generalizing s n with
  | nil => exact ⟨rfl, h⟩
  | cons o os ih =>
    -- The generations of the first occurrence are begun before those of the rest.
    have hsplit : n + 2 * s.operations (o :: os) =
        n + 2 * s.operationsAt o + 2 * (s.occur o).operations os := by
      rw [operations]
      omega
    rw [hsplit] at hn ⊢
    have hfirst := h.inRange_occur o (by omega)
      (Nat.lt_of_le_of_lt ((s.occur o).delivered_le_course os) hd)
    have hrest := ih hfirst.steady hn hd
    refine ⟨?_, hrest.steady⟩
    rw [course?, List.foldlM_cons, hfirst.eq_some]
    exact hrest.eq_some

end Steady

end Session

/-! ## The main statement -/

/-- **Step arithmetic never wraps.** A coordinator takes any course: viewers visit it with and
without going on to the verdict, links are followed, traces are started, cancelled and given up,
answers come with any step that the interpreter likes to name, and streams bring snapshots whenever
they like. As long as it makes fewer operations than `callLimit`, and fewer snapshots are delivered
than there are numbers, every sum of a step or a generation is in range, and so is the last one,
when the coordinator is dropped. What the program does on a link is the end of such a course. -/
theorem step_arithmetic_never_wraps (os : List Occurrence) :
    let s := Session.alone.course os
    (Session.alone.operations os < Trace.callLimit → s.coordinator.delivered < UInt64.size →
      Session.alone.course? os = some s ∧
        s.coordinator.shutDown? = some s.coordinator.shutDown) ∧
    ∀ (toEnd : Bool) (link : Link) (o : Opening) (answers : List Answer) (entries : List Entry),
      Session.run { coordinator := s.opening o, viewer := { toEnd } } link answers entries =
        Session.alone.course (os ++ s.itinerary toEnd link o answers entries) := by
  intro s
  refine ⟨fun hcalls hd => ?_, fun toEnd link o answers entries => ?_⟩
  · have hlimit : UInt64.size = 2 * Trace.callLimit := rfl
    have hcourse := Session.Steady.alone.inRange_course os (by omega) hd
    exact ⟨hcourse.eq_some,
      Coordinator.shutDown?_eq hcourse.steady.coordinator.fenced (by omega)⟩
  · rw [Session.course_append]
    exact s.run_eq_course toEnd link o answers entries

/-- A viewer that goes on to the verdict is told of the last step that there is, and stops. Then
another one looks at a stream, and misses a snapshot. -/
theorem last_step_ends_a_visit :
    let pending : Snapshot := ⟨.locking, .pending, none, [], [], [], none, none, none, [], []⟩
    let last : Snapshot := { pending with step := some 0xFFFFFFFFFFFFFFFF }
    let stepped := Session.alone.itinerary true ⟨⟨"ab", 0⟩, .step 7⟩ {} [.ok pending, .ok last] []
    let streamed : List Occurrence :=
      [.visit true ⟨⟨"ab", 0⟩, .automatic⟩ {}, .happening (.move (.push 0 (.snapshot pending))),
        .happening (.move (.push 0 (.snapshot pending))), .happening .look,
        .happening (.move .cancel), .happening .look]
    let s := Session.alone.course stepped
    s.viewer = ⟨true, some 0xFFFFFFFFFFFFFFFF⟩ ∧ s.ending = some .ok ∧
      Session.alone.operations (stepped ++ streamed) = 4 ∧
      (Session.alone.course (stepped ++ streamed)).coordinator.delivered = 2 ∧
      Session.alone.course? (stepped ++ streamed) =
        some (Session.alone.course (stepped ++ streamed)) :=
  ⟨by decide, by decide, by decide, by decide,
    ((step_arithmetic_never_wraps _).1 (by decide) (by decide)).1⟩

end SpendTrace.View
