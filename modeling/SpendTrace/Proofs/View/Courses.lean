import SpendTrace.Proofs.Trace.InRange
import SpendTrace.Proofs.View.Happenings

/-!
# The course of a coordinator

A coordinator may serve one viewer after another, and callers that look at nothing. Its course is
all that occurs to it, in any order, the operations of the viewers included. What the program does
on a link is the end of such a course, whatever its coordinator was about before.

* `Occurrence`: what may occur to a coordinator and its viewer.
* `Session.operations`: the operations of a course, counted as they are made.
* `Session.itinerary`: what occurs while the program runs on a link.
-/

namespace SpendTrace.View

open Trace (Answer Coordinator Opening calls)

/-! ## Occurrences -/

/-- What may occur to a coordinator and its viewer. A call that may open a stream comes with what
happens while that is opened. -/
inductive Occurrence where
  /-- A new viewer opens a link, and the one before is gone. -/
  | visit (toEnd : Bool) (link : Link) (opening : Opening)
  | start (target : Target) (mode : Mode) (step : UInt64) (opening : Opening)
  | follow (link : Link) (opening : Opening)
  /-- A request is answered, by its number among those that have reached the interpreter. -/
  | answer (number : Nat) (a : Answer)
  | happening (h : Happening)

namespace Session

/-- A new coordinator that nobody looks at. -/
def alone : Session :=
  { viewer := { toEnd := false }, ending := some .ok }

/-- The coordinator when its source is about to open a stream in the given way. -/
def opening (s : Session) (o : Opening) : Coordinator :=
  { s.coordinator with openings := [o] }

def occur (s : Session) : Occurrence → Session
  | .visit toEnd link o => opened (s.opening o) toEnd link
  | .start target mode step o => { s with coordinator := (s.opening o).start target mode step }
  | .follow link o => { s with coordinator := (s.opening o).follow link }
  | .answer number a => { s with coordinator := (s.coordinator.answer number a).1 }
  | .happening h => s.happen h

/-- What becomes of a session in a course. -/
def course (s : Session) (os : List Occurrence) : Session :=
  os.foldl occur s

theorem course_append (s : Session) (os os' : List Occurrence) :
    s.course (os ++ os') = (s.course os).course os' := by
  simp [course, List.foldl_append]

/-! ## Operations -/

/-- Whether a look would ask for another step. -/
def asksOn (s : Session) : Bool :=
  match s.ending, (s.viewer.look s.coordinator.watched).move with
  | none, .request _ => true
  | _, _ => false

/-- The operations that an occurrence makes. A look makes one if it asks for another step. -/
def operationsAt (s : Session) : Occurrence → Nat
  | .visit _ _ o => 1 + o.calls
  | .start _ _ _ o => 1 + o.calls
  | .follow _ o => 1 + o.calls
  | .happening .look => if s.asksOn then 1 else 0
  | .happening (.move m) => calls [m]
  | .answer _ _ | .happening .settle | .happening (.finish _) => 0

/-- The operations of a course. -/
def operations (s : Session) : List Occurrence → Nat
  | [] => 0
  | o :: os => s.operationsAt o + (s.occur o).operations os

/-! ## Deliveries -/

variable {s : Session}

/-- A look leaves the coordinator alone, unless it asks for another step. -/
theorem coordinator_look (s : Session) : s.look.coordinator = s.coordinator ∨
    ∃ step, s.look.coordinator = (s.coordinator.requestStep step).1 := by
  unfold look
  cases s.ending with
  | some e => exact .inl rfl
  | none =>
    dsimp only
    cases (s.viewer.look s.coordinator.watched).move with
    | wait | stop | fail => exact .inl rfl
    | request step =>
      refine .inr ⟨step, ?_⟩
      dsimp only
      obtain ⟨d, e | _⟩ := s.coordinator.requestStep step <;> rfl

theorem delivered_le_happen (s : Session) (h : Happening) :
    s.coordinator.delivered ≤ (s.happen h).coordinator.delivered := by
  cases h with
  | look =>
    show s.coordinator.delivered ≤ s.look.coordinator.delivered
    rcases s.coordinator_look with hsame | ⟨step, hstep⟩
    · exact Nat.le_of_eq (by rw [hsame])
    · exact Nat.le_of_eq (by rw [hstep, Coordinator.delivered_requestStep])
  | settle => exact s.coordinator.delivered_le_settle
  | finish i => exact Nat.le_of_eq (s.coordinator.delivered_finishProducer i).symm
  | move m => exact s.coordinator.delivered_le_move m

/-- What was delivered stays delivered. -/
theorem delivered_le_occur (s : Session) (o : Occurrence) :
    s.coordinator.delivered ≤ (s.occur o).coordinator.delivered := by
  cases o with
  | visit toEnd link o => exact (s.opening o).delivered_le_follow link
  | start target mode step o => exact (s.opening o).delivered_le_start target mode step
  | follow link o => exact (s.opening o).delivered_le_follow link
  | answer number a => exact Nat.le_of_eq (s.coordinator.delivered_answer number a).symm
  | happening h => exact s.delivered_le_happen h

theorem delivered_le_course (s : Session) (os : List Occurrence) :
    s.coordinator.delivered ≤ (s.course os).coordinator.delivered := by
  induction os generalizing s with
  | nil => exact Nat.le_refl _
  | cons o os ih => exact Nat.le_trans (s.delivered_le_occur o) (ih _)

/-! ## The program's own runs -/

theorem undergo_eq_course (s : Session) (hs : List Happening) :
    s.undergo hs = s.course (hs.map .happening) := by
  rw [undergo, course, List.foldl_map]
  rfl

/-- What occurs when the latest request is answered: everything runs until the next one waits for
its answer. -/
def reception (s : Session) (a : Answer) : List Occurrence :=
  [.answer (s.coordinator.begunRequests.length - 1) a,
    .happening .settle, .happening .look, .happening .settle, .happening .look]

theorem receive_eq_course (s : Session) (a : Answer) : s.receive a = s.course (s.reception a) := rfl

/-- What occurs while requests are answered, as long as there are any. -/
def receptions (s : Session) : List Answer → List Occurrence
  | [] => if s.isAsking then s.reception (.error .notFound) else []
  | a :: as => if s.isAsking then s.reception a ++ (s.receive a).receptions as else []

theorem answerAll_eq_course (s : Session) (answers : List Answer) :
    s.answerAll answers = s.course (s.receptions answers) := by
  induction answers generalizing s with
  | nil =>
    unfold answerAll receptions
    split
    · exact s.receive_eq_course _
    · rfl
  | cons a answers ih =>
    unfold answerAll receptions
    split
    · rw [course_append, ← receive_eq_course, ih]
    · rfl

/-- What occurs while the program runs on a link: it goes with the answers or with the producer. -/
def itinerary (s : Session) (toEnd : Bool) (link : Link) (o : Opening) (answers : List Answer)
    (entries : List Entry) : List Occurrence :=
  let visit : List Occurrence :=
    [.visit toEnd link o, .happening .look, .happening .settle, .happening .look]
  visit ++
    match link.mode with
    | .stepped => (s.course visit).receptions answers
    | .streamed => ((s.course visit).schedule entries).map .happening

theorem run_eq_course (s : Session) (toEnd : Bool) (link : Link) (o : Opening)
    (answers : List Answer) (entries : List Entry) :
    run { coordinator := s.opening o, viewer := { toEnd } } link answers entries =
      s.course (s.itinerary toEnd link o answers entries) := by
  let visit : List Occurrence :=
    [.visit toEnd link o, .happening .look, .happening .settle, .happening .look]
  have hopen : openLink { coordinator := s.opening o, viewer := { toEnd } } link =
      s.course visit := rfl
  unfold run itinerary
  rw [hopen, course_append]
  cases link.mode with
  | stepped => exact (s.course visit).answerAll_eq_course answers
  | streamed => exact ((s.course visit).stream_eq entries).trans (undergo_eq_course _ _)

end Session

end SpendTrace.View
