import SpendTrace.Proofs.Trace.Asking
import SpendTrace.Proofs.View.Looks
import SpendTrace.Proofs.View.Walks

/-!
# Sessions on a walk

A session on a link to a step has its tasks, the source that answers it, and the viewer, and each
of them may come to act at any time. Whatever the order, the session goes the way that the answers
of the source settle: it prints each snapshot before it asks for the next step, and it ends where
the way ends.

* `Session.play`: a session under a schedule.
* `OnWalk`: where a session is on its way, and what is still due.
* `OnWalk.beat`: what one event of a schedule does; `OnWalk.play`: what a schedule does.
* `walk_to_the_end_makes_progress` is the main statement.
-/

namespace SpendTrace.View

open Script (Snapshot)
open Service (Failure)
open Trace (Answer Coordinator Navigation Ready Request Stage)

/-! ## Schedules -/

/-- What may happen next in a session: its tasks run until they wait, the source answers, or the
viewer looks. -/
inductive Beat where
  | settle
  | answer
  | look
  deriving DecidableEq

/-- What it takes to see the answers to so many requests, one after the other. -/
def turns (n : Nat) : List Beat :=
  (List.replicate n [.settle, .answer, .settle, .look]).flatten

theorem turns_succ (n : Nat) : turns (n + 1) = [.settle, .answer, .settle, .look] ++ turns n := by
  simp [turns, List.replicate_succ]

/-- What is left of the events that are due, in this order, behind one event. -/
def advance : List Beat → Beat → List Beat
  | [], _ => []
  | d :: due, b => if b = d then due else d :: due

/-- Nothing is due any more when all that was due has happened, whatever came in between. -/
theorem foldl_advance_of_sublist {due bs : List Beat} (h : due.Sublist bs) :
    bs.foldl advance due = [] := by
  induction bs generalizing due with
  | nil => simpa using h
  | cons b bs ih =>
    rw [List.foldl_cons]
    cases due with
    | nil => exact ih (List.nil_sublist bs)
    | cons d due =>
      by_cases hb : b = d
      · subst hb
        simpa [advance] using ih (List.cons_sublist_cons.1 h)
      · rw [advance, if_neg hb]
        rcases List.sublist_cons_iff.1 h with hrest | ⟨due', heq, -⟩
        · exact ih hrest
        · exact absurd (List.cons.inj heq).1.symm hb

/-- What is due until the answer to a request has been seen. -/
def due : Stage → List Beat
  | .asked => [.settle, .answer, .settle, .look]
  | .begun => [.answer, .settle, .look]
  | .answered => [.settle, .look]
  | .shown => [.look]

theorem advance_settle (stage : Stage) (later : List Beat) :
    advance (due stage ++ later) .settle = due stage.settled ++ later := by
  cases stage <;> rfl

namespace Session

/-- The source answers the request that has reached it last, if that still waits. -/
def serve (s : Session) (source : Target → UInt64 → Answer) : Session :=
  match s.coordinator.begunRequests.getLast? with
  | some r => if r.task.isWaiting then s.answerLatest (source r.target r.step) else s
  | none => s

/-- What becomes of a session with one event. -/
def beat (source : Target → UInt64 → Answer) (s : Session) : Beat → Session
  | .settle => { s with coordinator := s.coordinator.settle }
  | .answer => s.serve source
  | .look => s.look

/-- What becomes of a session under a schedule. -/
def play (source : Target → UInt64 → Answer) (s : Session) (bs : List Beat) : Session :=
  bs.foldl (beat source) s

end Session

/-! ## What a viewer does with an answer -/

section

variable {v : Viewer} {k : UInt64} {s : Snapshot}

/-- The step behind a snapshot, unless it has a verdict or there is none. -/
theorem nextStep_ofAnswer (target : Target) (k : UInt64) (s : Snapshot) :
    (Ready.ofAnswer target k s).navigation.bind Navigation.nextStep =
      if s.isTerminal = false ∧ (s.step.getD k).toNat + 1 < UInt64.size then
        some (s.step.getD k + 1)
      else none := by
  cases houtcome : s.outcome with
  | result verified =>
    simp [Ready.ofAnswer, Ready.navigation, Navigation.nextStep, Snapshot.isTerminal, houtcome,
      Script.Outcome.isTerminal]
  | pending =>
    by_cases hlt : (s.step.getD k).toNat + 1 < UInt64.size <;>
      simp [Ready.ofAnswer, Ready.navigation, Ready.linkTo, Navigation.nextStep,
        Link.requestedStep, Snapshot.isTerminal, Script.Outcome.isTerminal, houtcome, hlt]

/-- A snapshot of a step that was not printed last is printed. -/
theorem news_ofAnswer (target : Target) (h : ∀ step ∈ v.printed, step < shownStep (k, s)) :
    v.news (.ofAnswer target k s) = [.report (.ofAnswer target k s)] := by
  have hnew : v.printed ≠ some (Ready.ofAnswer target k s).step := by
    intro hsame
    exact UInt64.lt_irrefl _ (h _ hsame)
  rw [Viewer.news, if_neg hnew, if_neg]
  simp [Ready.ofAnswer]

theorem look_at_last (target : Target) (h : ∀ step ∈ v.printed, step < shownStep (k, s))
    (hlast : v.toEnd = false ∨ s.isTerminal = true ∨ (s.step.getD k).toNat + 1 = UInt64.size) :
    v.look (.ofAnswer target k (.ok s)) =
      ⟨pieces target [(k, s)] none, { v with printed := some (shownStep (k, s)) }, .stop⟩ := by
  have hstop : v.toEnd = false ∨
      (Ready.ofAnswer target k s).navigation.bind Navigation.nextStep = none := by
    rw [nextStep_ofAnswer]
    rcases hlast with htoEnd | hterminal | hfull
    · exact .inl htoEnd
    · exact .inr (by simp [hterminal])
    · exact .inr (by simp [hfull])
  refine (Viewer.lookAtReady_of_stop rfl hstop).trans ?_
  rw [news_ofAnswer target h]
  rfl

theorem look_at_onward {next : UInt64} (target : Target)
    (h : ∀ step ∈ v.printed, step < shownStep (k, s)) (htoEnd : v.toEnd = true)
    (hpending : s.isTerminal = false) (hnext : next.toNat = (s.step.getD k).toNat + 1) :
    v.look (.ofAnswer target k (.ok s)) =
      ⟨[.report (.ofAnswer target k s)], { v with printed := some (shownStep (k, s)) },
        .request next⟩ := by
  have hlt : (s.step.getD k).toNat + 1 < UInt64.size := hnext ▸ next.toNat_lt_size
  have hstep : s.step.getD k + 1 = next := by
    rw [← UInt64.toNat_inj, hnext, toNat_add_one hlt]
  have honward : (Ready.ofAnswer target k s).navigation.bind Navigation.nextStep = some next := by
    rw [nextStep_ofAnswer, if_pos ⟨hpending, hlt⟩, hstep]
  refine (Viewer.lookAtReady_of_onward rfl htoEnd honward).trans ?_
  rw [news_ofAnswer target h]
  rfl

end

/-! ## Where a session is -/

section

variable (source : Target → UInt64 → Answer) (toEnd : Bool) (target : Target)
  (old : List (Target × UInt64)) (shown : List (UInt64 × Snapshot))
  (failure : Option (UInt64 × Failure))

/-- The session has asked for the step `k`, and `rest` is what lies before it of its way. The source
was asked `old` things before the session was opened. -/
structure Going (s : Session) (earlier : List Request) (done : List UInt64) (k : UInt64)
    (stage : Stage) (rest : List (UInt64 × Snapshot)) : Prop where
  asking : s.coordinator.Asking earlier target k (source target k) stage
  asked_eq : Trace.askedBy earlier = old ++ done.map (target, ·)
  steps_eq : done ++ requests rest failure = requests shown failure
  printed_eq : s.printed ++ pieces target rest failure = pieces target shown failure
  ending_eq : s.ending = none
  toEnd_eq : s.viewer.toEnd = toEnd
  walk : Walk (source target) toEnd k rest failure
  fresh : ∀ step ∈ s.viewer.printed, ∀ p ∈ rest, step < shownStep p
  sorted : (rest.map shownStep).Pairwise (· < ·)

/-- The session has come to the end of its way. -/
structure Over (s : Session) (earlier : List Request) (k : UInt64) : Prop where
  asking : s.coordinator.Asking earlier target k (source target k) .shown
  asked_eq : s.coordinator.asked = old ++ (requests shown failure).map (target, ·)
  printed_eq : s.printed = pieces target shown failure
  ending_eq : s.ending = some (ending target failure)

/-- Where a session is, and what is due until it ends. -/
inductive OnWalk : Session → List Beat → Prop
  | going {s : Session} {earlier : List Request} {done : List UInt64} {k : UInt64} {stage : Stage}
      {rest : List (UInt64 × Snapshot)}
      (h : Going source toEnd target old shown failure s earlier done k stage rest) :
    OnWalk s (due stage ++ turns ((requests rest failure).length - 1))
  | ended {s : Session} {earlier : List Request} {k : UInt64}
      (h : Over source target old shown failure s earlier k) : OnWalk s []

end

variable {source : Target → UInt64 → Answer} {toEnd : Bool} {target : Target}
  {old : List (Target × UInt64)} {shown : List (UInt64 × Snapshot)}
  {failure : Option (UInt64 × Failure)} {s : Session} {earlier : List Request}
  {done : List UInt64} {k : UInt64} {stage : Stage} {rest : List (UInt64 × Snapshot)}

theorem serve_of_asking {a : Answer} (h : s.coordinator.Asking earlier target k a stage)
    (hstage : stage ≠ .begun) : s.serve source = s := by
  unfold Session.serve
  split
  · next r hr => rw [h.isWaiting_eq_false hstage hr]; rfl
  · rfl

theorem serve_of_begun {a : Answer} (h : s.coordinator.Asking earlier target k a .begun) :
    s.serve source = s.answerLatest (source target k) := by
  simp [Session.serve, h.begunRequests_eq (by decide), Stage.request, Task.isWaiting]

namespace Going

/-- With another coordinator, that has come further with the same request. -/
theorem withCoordinator
    (h : Going source toEnd target old shown failure s earlier done k stage rest)
    {c : Coordinator} {stage' : Stage}
    (hc : c.Asking earlier target k (source target k) stage') :
    Going source toEnd target old shown failure { s with coordinator := c } earlier done k stage'
      rest :=
  { h with asking := hc }

/-- A look before the answer is on display. -/
theorem look_of_loading
    (h : Going source toEnd target old shown failure s earlier done k stage rest)
    (hstage : stage ≠ .shown) : s.look = s := by
  refine Session.look_of_nothing h.ending_eq ?_
  rw [h.asking.watched_eq]
  cases stage with
  | shown => exact absurd rfl hstage
  | asked | begun | answered => rfl

/-- The request reaches the source, and there is nothing new to look at. -/
theorem proceed (h : Going source toEnd target old shown failure s earlier done k .asked rest) :
    Going source toEnd target old shown failure s.proceed earlier done k .begun rest := by
  have hbegun := h.withCoordinator h.asking.settle
  rw [Session.proceed, hbegun.look_of_loading (by decide)]
  exact hbegun

/-- The look at an answer ends the session, or the next step is asked for. -/
theorem look_of_shown
    (h : Going source toEnd target old shown failure s earlier done k .shown rest) :
    (requests rest failure = [k] ∧ Over source target old shown failure s.look earlier k) ∨
      ∃ next rest', requests rest failure = k :: requests rest' failure ∧
        Going source toEnd target old shown failure s.look s.coordinator.requests (done ++ [k])
          next .asked rest' := by
  have hasked : s.coordinator.asked = old ++ (done ++ [k]).map (target, ·) := by
    simp [h.asking.asked_eq, Stage.hasBegun, h.asked_eq]
  have hwatched : s.coordinator.watched = .ofAnswer target k (source target k) :=
    h.asking.watched_eq
  have hsteps := h.steps_eq
  have hprinted := h.printed_eq
  cases h.walk with
  | @failed _ f hk =>
    rw [hk] at hwatched
    rw [Session.look_of_fail h.ending_eq (by rw [hwatched]; rfl)]
    refine .inl ⟨rfl, h.asking, ?_, ?_, rfl⟩
    · rw [hasked, ← hsteps]
      rfl
    · simpa [pieces] using hprinted
  | @last _ t hk hlast =>
    rw [hk] at hwatched
    have hlook := look_at_last target (fun step hstep => h.fresh step hstep _ (by simp))
      (h.toEnd_eq ▸ hlast)
    rw [← hwatched] at hlook
    rw [Session.look_of_stop h.ending_eq hlook]
    refine .inl ⟨rfl, h.asking, ?_, hprinted, rfl⟩
    rw [hasked, ← hsteps]
    rfl
  | @onward _ next t rest _ hk htoEnd hpending hnext hwalk =>
    rw [hk] at hwatched
    have hlook := look_at_onward target
      (fun step hstep => h.fresh step hstep _ List.mem_cons_self) (h.toEnd_eq.trans htoEnd)
      hpending hnext
    rw [← hwatched] at hlook
    obtain ⟨d, hstep, hasking⟩ := h.asking.asking_requestStep next (source target next)
    rw [Session.look_of_request h.ending_eq hlook hstep]
    have hsorted := List.pairwise_cons.1 h.sorted
    refine .inr ⟨next, rest, rfl, hasking, hasked, ?_, ?_, h.ending_eq, h.toEnd_eq, hwalk, ?_,
      hsorted.2⟩
    · rw [← hsteps]
      simp [requests]
    · rw [← hprinted, hwalk.pieces_cons]
      simp
    · rintro step ⟨⟩ p hp
      exact hsorted.1 _ (List.mem_map_of_mem hp)

/-- What the source was asked for so far. -/
theorem exists_asked_eq
    (h : Going source toEnd target old shown failure s earlier done k stage rest) :
    ∃ n, s.coordinator.asked = old ++ ((requests shown failure).take n).map (target, ·) := by
  obtain ⟨later, hlater⟩ := h.walk.requests_eq
  refine ⟨done.length + if stage.hasBegun then 1 else 0, ?_⟩
  rw [h.asking.asked_eq, h.asked_eq, ← h.steps_eq, hlater, List.take_length_add_append]
  cases stage.hasBegun <;> simp

/-- What is due behind a request is a turn for each that is still to come. -/
theorem turns_eq (h : Going source toEnd target old shown failure s earlier done k stage rest) :
    turns (requests rest failure).length =
      due .asked ++ turns ((requests rest failure).length - 1) := by
  obtain ⟨later, hlater⟩ := h.walk.requests_eq
  rw [hlater]
  exact turns_succ later.length

end Going

/-- Nothing is left for the tasks to do. -/
theorem Over.settle (h : Over source target old shown failure s earlier k) :
    Over source target old shown failure { s with coordinator := s.coordinator.settle } earlier k :=
  { h with
    asking := h.asking.settle
    asked_eq := (h.asking.settle.asked_eq.trans h.asking.asked_eq.symm).trans h.asked_eq }

theorem Over.proceed (h : Over source target old shown failure s earlier k) :
    Over source target old shown failure s.proceed earlier k := by
  rw [Session.proceed, Session.look_of_ended h.settle.ending_eq]
  exact h.settle

/-- What one event of a schedule does to a session on its way: it happens as it is due, or it
changes nothing. -/
theorem OnWalk.beat {ds : List Beat} (h : OnWalk source toEnd target old shown failure s ds)
    (b : Beat) :
    OnWalk source toEnd target old shown failure (s.beat source b) (advance ds b) := by
  cases h with
  | @going earlier done k stage rest hgoing =>
    cases b with
    | settle =>
      rw [advance_settle]
      exact .going (hgoing.withCoordinator hgoing.asking.settle)
    | answer =>
      show OnWalk source toEnd target old shown failure (s.serve source) _
      cases stage with
      | begun =>
        rw [serve_of_begun hgoing.asking]
        exact .going (hgoing.withCoordinator hgoing.asking.answer)
      | asked | answered | shown =>
        rw [serve_of_asking hgoing.asking (by decide)]
        exact .going hgoing
    | look =>
      show OnWalk source toEnd target old shown failure s.look _
      cases stage with
      | shown =>
        rcases hgoing.look_of_shown with ⟨hlast, hover⟩ | ⟨next, rest', hmore, hnext⟩
        · rw [hlast]
          exact .ended hover
        · have hturns : advance (due .shown ++ turns ((requests rest failure).length - 1)) .look =
              turns (requests rest' failure).length := by rw [hmore]; rfl
          rw [hturns, hnext.turns_eq]
          exact .going hnext
      | asked | begun | answered =>
        rw [hgoing.look_of_loading (by decide)]
        exact .going hgoing
  | @ended earlier k hover =>
    cases b with
    | settle => exact .ended hover.settle
    | answer =>
      show OnWalk source toEnd target old shown failure (s.serve source) _
      rw [serve_of_asking hover.asking (by decide)]
      exact .ended hover
    | look =>
      show OnWalk source toEnd target old shown failure s.look _
      rw [Session.look_of_ended hover.ending_eq]
      exact .ended hover

/-- What a schedule does to a session on its way. -/
theorem OnWalk.play {ds : List Beat} (h : OnWalk source toEnd target old shown failure s ds)
    (bs : List Beat) :
    OnWalk source toEnd target old shown failure (s.play source bs) (bs.foldl advance ds) := by
  induction bs generalizing s ds with
  | nil => exact h
  | cons b bs ih => exact ih (h.beat b)

/-- As long as a session goes on, something is due. -/
theorem OnWalk.going_or_over {ds : List Beat}
    (h : OnWalk source toEnd target old shown failure s ds) :
    (ds ≠ [] ∧ ∃ earlier done k stage rest,
      Going source toEnd target old shown failure s earlier done k stage rest) ∨
    ∃ earlier k, Over source target old shown failure s earlier k := by
  cases h with
  | @going earlier done k stage rest h =>
    refine .inl ⟨?_, earlier, done, k, stage, rest, h⟩
    cases stage <;> simp [due]
  | @ended earlier k h => exact .inr ⟨earlier, k, h⟩

/-- A session that has opened a link to a step has all of its way before it. -/
theorem exists_going_opened {c : Coordinator} (hc : c.AtRest)
    (hwalk : Walk (source target) toEnd k shown failure)
    (hsorted : (shown.map shownStep).Pairwise (· < ·)) :
    ∃ earlier, Going source toEnd target c.asked shown failure (.opened c toEnd ⟨target, .step k⟩)
      earlier [] k .asked shown := by
  obtain ⟨hasked, earlier, hasking⟩ := hc.asking_follow target k (source target k)
  have hearlier : Trace.askedBy earlier = c.asked ++ [].map (target, ·) := by
    simpa [Stage.hasBegun, hasked] using hasking.asked_eq.symm
  exact ⟨earlier, hasking, hearlier, rfl, rfl, rfl, rfl, hwalk, by simp [Session.opened], hsorted⟩

/-! ### The schedule of a run -/

/-- A session that is given the answers of the source one by one comes to the end of its way. -/
theorem Going.exists_over_answerAll {steps : List UInt64} (hsteps : requests rest failure = steps)
    (h : Going source toEnd target old shown failure s earlier done k .begun rest) :
    ∃ earlier k, Over source target old shown failure
      (s.answerAll (steps.map (source target))) earlier k := by
  induction steps generalizing s earlier done k rest with
  | nil =>
    obtain ⟨later, hlater⟩ := h.walk.requests_eq
    simp [hlater] at hsteps
  | cons step later ih =>
    obtain rfl : k = step := by
      obtain ⟨later', hlater⟩ := h.walk.requests_eq
      exact (List.cons.inj (hlater.symm.trans hsteps)).1
    have hasking : s.isAsking = true := by
      simp [Session.isAsking, h.ending_eq, h.asking.begunRequests_eq (by decide), Stage.request,
        Task.isWaiting]
    have hshown := (h.withCoordinator h.asking.answer).withCoordinator h.asking.answer.settle
    rw [List.map_cons, Session.answerAll, if_pos hasking]
    rcases hshown.look_of_shown with ⟨hlast, hover⟩ | ⟨next, rest', hmore, hnext⟩
    · obtain rfl : later = [] := by simpa [hlast] using hsteps.symm
      have hover' : Over source target old shown failure (s.receive (source target k)) earlier k :=
        hover.proceed
      have hsilent : (s.receive (source target k)).isAsking = false := by
        simp [Session.isAsking, hover'.ending_eq]
      rw [List.map_nil, Session.answerAll, hsilent]
      exact ⟨earlier, k, hover'⟩
    · exact ih (List.cons.inj (hmore.symm.trans hsteps)).2 hnext.proceed

/-- The session that the program runs, with the answers of a source to the steps on the way. -/
theorem exists_over_run {c : Coordinator} (hc : c.AtRest)
    (hwalk : Walk (source target) toEnd k shown failure)
    (hsorted : (shown.map shownStep).Pairwise (· < ·)) (entries : List Entry) :
    ∃ earlier k', Over source target c.asked shown failure
      (Session.run { coordinator := c, viewer := { toEnd } } ⟨target, .step k⟩
        ((requests shown failure).map (source target)) entries) earlier k' := by
  obtain ⟨earlier, hopened⟩ := exists_going_opened hc hwalk hsorted
  have hbegun : Going source toEnd target c.asked shown failure
      (Session.openLink { coordinator := c, viewer := { toEnd } } ⟨target, .step k⟩) earlier [] k
      .begun shown := by
    show Going _ _ _ _ _ _ (Session.opened c toEnd ⟨target, .step k⟩).look.proceed _ _ _ _ _
    rw [hopened.look_of_loading (by decide)]
    exact hopened.proceed
  exact hbegun.exists_over_answerAll rfl

/-! ## What a session does -/

/-- The session on a link to a step, under a schedule. -/
def Session.scheduled (c : Coordinator) (source : Target → UInt64 → Answer) (toEnd : Bool)
    (target : Target) (k : UInt64) (bs : List Beat) : Session :=
  (Session.opened c toEnd ⟨target, .step k⟩).play source bs

/-- A session has ended, and this is all that was asked for and printed since it was opened with a
coordinator. The text is that with or without colours. -/
structure Session.HasDone (s : Session) (c : Coordinator) (target : Target) (steps : List UInt64)
    (output : List Piece) (written : Bool → String) (final : Ending) : Prop where
  ending : s.ending = some final
  printed : s.printed = output
  text : ∀ color, printedText color s.printed = written color
  asked : s.coordinator.asked = c.asked ++ steps.map (target, ·)

/-- What the session on a link to a step does: it asks for these steps and prints this, both in
order and nothing else, and it ends like this.

* `asked`, `printed`, `text`: so far it may have come under a schedule.
* `ended`: when it has ended, it has done everything.
* `ends`: it has ended once everything has had its turn for each of the requests.
* `run`: so has the session that the program runs, with the answers of the source. -/
structure Performs (c : Coordinator) (source : Target → UInt64 → Answer) (toEnd : Bool)
    (target : Target) (k : UInt64) (steps : List UInt64) (output : List Piece)
    (written : Bool → String) (final : Ending) : Prop where
  asked : ∀ bs, ∃ n, (Session.scheduled c source toEnd target k bs).coordinator.asked =
    c.asked ++ (steps.take n).map (target, ·)
  printed : ∀ bs, (Session.scheduled c source toEnd target k bs).printed <+: output
  text : ∀ bs color, ∃ more,
    printedText color (Session.scheduled c source toEnd target k bs).printed ++ more = written color
  ended : ∀ bs, (Session.scheduled c source toEnd target k bs).ending.isSome = true →
    (Session.scheduled c source toEnd target k bs).HasDone c target steps output written final
  ends : ∀ bs, (turns steps.length).Sublist bs →
    (Session.scheduled c source toEnd target k bs).HasDone c target steps output written final
  run : ∀ entries, (Session.run { coordinator := c, viewer := { toEnd } } ⟨target, .step k⟩
    (steps.map (source target)) entries).HasDone c target steps output written final

theorem Over.hasDone {c : Coordinator}
    (h : Over source target c.asked shown failure s earlier k) :
    s.HasDone c target (requests shown failure) (pieces target shown failure)
      (writtenText · target shown failure) (ending target failure) where
  ending := h.ending_eq
  printed := h.printed_eq
  text color := by rw [h.printed_eq, printedText_pieces]
  asked := h.asked_eq

/-- A session does what its way says. -/
theorem performs_of_walk {c : Coordinator} (hc : c.AtRest)
    (hwalk : Walk (source target) toEnd k shown failure)
    (hsorted : (shown.map shownStep).Pairwise (· < ·)) :
    Performs c source toEnd target k (requests shown failure) (pieces target shown failure)
      (writtenText · target shown failure) (ending target failure) := by
  obtain ⟨earlier, hopened⟩ := exists_going_opened hc hwalk hsorted
  have hplay (bs : List Beat) := ((OnWalk.going hopened).play bs).going_or_over
  have hprinted (bs : List Beat) : (Session.scheduled c source toEnd target k bs).printed <+:
      pieces target shown failure := by
    rcases hplay bs with ⟨-, _, _, _, _, _, h⟩ | ⟨_, _, h⟩
    · exact ⟨_, h.printed_eq⟩
    · exact h.printed_eq ▸ List.prefix_rfl
  refine ⟨fun bs => ?_, hprinted, fun bs color => ?_, fun bs he => ?_, fun bs hturns => ?_,
    fun entries => ?_⟩
  · rcases hplay bs with ⟨-, _, _, _, _, _, h⟩ | ⟨_, _, h⟩
    · exact h.exists_asked_eq
    · refine ⟨(requests shown failure).length, ?_⟩
      rw [List.take_length]
      exact h.asked_eq
  · obtain ⟨more, hmore⟩ := hprinted bs
    refine ⟨printedText color more, ?_⟩
    rw [← printedText_append, hmore, printedText_pieces]
  · rcases hplay bs with ⟨-, _, _, _, _, _, h⟩ | ⟨_, _, h⟩
    · simp [Session.scheduled, h.ending_eq] at he
    · exact h.hasDone
  · rcases hplay bs with ⟨hdue, -⟩ | ⟨_, _, h⟩
    · rw [hopened.turns_eq] at hturns
      exact absurd (foldl_advance_of_sublist hturns) hdue
    · exact h.hasDone
  · obtain ⟨_, _, h⟩ := exists_over_run hc hwalk hsorted entries
    exact h.hasDone

/-- **The walk to the verdict makes progress, prints each step once, and stops.** A coordinator that
has nothing under way opens a link to a step, and the viewer is to go on to the verdict. If the
source never answers with a snapshot of an earlier step than it was asked for, then it is asked for
more and more steps, the first of them the one of the link, and every snapshot that it answers with
is printed, once and in the order of the steps: the text is made up of their reports. The session
ends well, with the links of the last snapshot, when that has a verdict or is of the last step there
can be, and it ends with the failure of the first request that fails. If all requests from a step
`n` on are answered with a verdict there, exactly the steps up to `n` are asked for. If the viewer
is not to go on, there is one request, for one snapshot and its links. All this holds of every
schedule, and the session does end under all that let everything have its turn. -/
theorem walk_to_the_end_makes_progress (c : Coordinator) (hc : c.AtRest)
    (source : Target → UInt64 → Answer) (target : Target) (first : UInt64) :
    ((∀ k s n, source target k = .ok s → s.step = some n → k ≤ n) →
      ∃ shown failure, Walk (source target) true first shown failure ∧
        (requests shown failure).Pairwise (· < ·) ∧ (shown.map shownStep).Pairwise (· < ·) ∧
        Performs c source true target first (requests shown failure)
          (pieces target shown failure) (writtenText · target shown failure)
          (ending target failure)) ∧
    (∀ n, VerdictAt (source target) n →
      ∃ shown, Walk (source target) true first shown none ∧
        (requests shown none).map UInt64.toNat =
          List.range' first.toNat (n.toNat - first.toNat + 1) ∧
        Performs c source true target first (requests shown none) (pieces target shown none)
          (writtenText · target shown none) .ok) ∧
    (∀ s, source target first = .ok s →
      let r := Ready.ofAnswer target first s
      Performs c source false target first [first]
        (.report r :: r.navigation.toList.map .navigation)
        (fun color => report color r ++ (r.navigation.map navigationText).getD "") .ok) ∧
    (∀ f, source target first = .error f →
      Performs c source false target first [first] [] (fun _ => "")
        (ending target (some (first, f)))) := by
  refine ⟨fun hsource => ?_, fun n hverdict => ?_, fun s hs => ?_, fun f hf => ?_⟩
  · obtain ⟨shown, failure, hwalk⟩ := exists_walk hsource first
    have hup : ∀ p ∈ shown, p.1 ≤ shownStep p := by
      intro p hp
      cases hstep : p.2.step with
      | none => simp [shownStep, hstep]
      | some n => simpa [shownStep, hstep] using hsource p.1 p.2 n (hwalk.answered p hp) hstep
    obtain ⟨hrequests, hsorted⟩ := hwalk.pairwise_lt hup
    exact ⟨shown, failure, hwalk, hrequests, hsorted, performs_of_walk hc hwalk hsorted⟩
  · obtain ⟨shown, hwalk, hrequests, hsorted, -⟩ := exists_walk_of_verdictAt hverdict first
    exact ⟨shown, hwalk, hrequests, performs_of_walk hc hwalk hsorted⟩
  · have hperforms := performs_of_walk hc (.last hs (.inl rfl)) (by simp)
    simp only [writtenText_singleton] at hperforms
    exact hperforms
  · exact performs_of_walk hc (.failed hf) (by simp)

/-- The verdict is at the second step. Another source has pending snapshots of all steps but the
third, which it does not find. -/
theorem walk_to_a_verdict_makes_progress :
    let pending : Snapshot := ⟨.locking, .pending, none, [], [], [], none, none, none, [], []⟩
    let verdict : Snapshot := { pending with outcome := .result true, step := some 2 }
    let source : Target → UInt64 → Answer := fun _ k => .ok (if k < 2 then pending else verdict)
    let other : Target → UInt64 → Answer := fun _ k =>
      if k = 3 then .error .notFound else .ok pending
    (Session.scheduled {} source true ⟨"a", 0⟩ 0 (turns 3)).ending = some .ok ∧
    ∃ shown failure, Walk (other ⟨"a", 0⟩) true 1 shown failure ∧
      Performs {} other true ⟨"a", 0⟩ 1 (requests shown failure) (pieces ⟨"a", 0⟩ shown failure)
        (writtenText · ⟨"a", 0⟩ shown failure) (ending ⟨"a", 0⟩ failure) := by
  intro pending verdict source other
  have hverdict : VerdictAt (source ⟨"a", 0⟩) 2 := by
    refine ⟨fun k hk => ⟨pending, by simp [source, hk], rfl, rfl⟩, fun k hk => ?_⟩
    have hnot : ¬k < 2 := UInt64.not_lt.2 hk
    exact ⟨verdict, by simp [source, hnot], rfl, rfl⟩
  have hother : ∀ k s n, other ⟨"a", 0⟩ k = .ok s → s.step = some n → k ≤ n := by
    intro k s n hk hs
    simp only [other] at hk
    split at hk
    · cases hk
    · obtain rfl := Except.ok.inj hk
      cases hs
  constructor
  · obtain ⟨-, hwalks, -⟩ :=
      walk_to_the_end_makes_progress {} Coordinator.atRest_new source ⟨"a", 0⟩ 0
    obtain ⟨shown, -, hrequests, hperforms⟩ := hwalks 2 hverdict
    have hlength : (requests shown none).length = 3 := by
      simpa using congrArg List.length hrequests
    exact (hperforms.ends (turns 3) (hlength ▸ List.Sublist.refl _)).ending
  · obtain ⟨hwalks, -⟩ :=
      walk_to_the_end_makes_progress {} Coordinator.atRest_new other ⟨"a", 0⟩ 1
    obtain ⟨shown, failure, hwalk, -, -, hperforms⟩ := hwalks hother
    exact ⟨shown, failure, hwalk, hperforms⟩

end SpendTrace.View
