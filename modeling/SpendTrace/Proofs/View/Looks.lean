import SpendTrace.View.Session

/-!
# Looks

What one look does to a session, by the move that the viewer makes, and which move that is when a
snapshot is on display.
-/

namespace SpendTrace.View

open Trace (Coordinator Navigation Ready)

namespace Viewer

variable {v : Viewer} {r : Ready}

/-! ## A stepped trace -/

/-- A viewer that is not to go on, or cannot, prints the links of what it sees, and stops. -/
theorem lookAtReady_of_stop (hmode : r.mode = .stepped)
    (hstop : v.toEnd = false ∨ r.navigation.bind Navigation.nextStep = none) :
    v.lookAtReady r = ⟨v.news r ++ r.navigation.toList.map .navigation,
      { v with printed := some r.step }, .stop⟩ := by
  unfold lookAtReady
  rcases hstop with htoEnd | hnone
  · simp only [hmode, htoEnd]
    cases r.navigation.bind Navigation.nextStep <;> rfl
  · simp only [hmode, hnone]

theorem lookAtReady_of_onward {next : UInt64} (hmode : r.mode = .stepped)
    (htoEnd : v.toEnd = true) (hnext : r.navigation.bind Navigation.nextStep = some next) :
    v.lookAtReady r = ⟨v.news r, { v with printed := some r.step }, .request next⟩ := by
  simp only [lookAtReady, hmode, htoEnd, hnext]

/-! ## A streamed trace -/

theorem lookAtReady_of_live (hmode : r.mode = .streamed) (hlive : r.stream = some .live) :
    v.lookAtReady r = ⟨v.news r, { v with printed := some r.step }, .wait⟩ := by
  simp [lookAtReady, hmode, hlive]

theorem lookAtReady_of_closed (hmode : r.mode = .streamed) (hclosed : r.stream ≠ some .live) :
    v.lookAtReady r = ⟨v.news r, { v with printed := some r.step }, .stop⟩ := by
  simp [lookAtReady, hmode, hclosed]

end Viewer

namespace Session

/-- A session that has just opened a link. -/
def opened (c : Coordinator) (toEnd : Bool) (l : Link) : Session :=
  { coordinator := c.follow l, viewer := { toEnd } }

variable {s : Session} {ps : List Piece} {v : Viewer}

theorem look_of_ended {e : Ending} (h : s.ending = some e) : s.look = s := by
  simp only [look, h]

theorem look_of_wait (h : s.ending = none)
    (hlook : s.viewer.look s.coordinator.watched = ⟨ps, v, .wait⟩) :
    s.look = { s with viewer := v, printed := s.printed ++ ps } := by
  simp only [look, h, hlook]

/-- There is nothing to see yet. -/
theorem look_of_nothing (h : s.ending = none)
    (hlook : s.viewer.look s.coordinator.watched = ⟨[], s.viewer, .wait⟩) : s.look = s := by
  rw [look_of_wait h hlook, List.append_nil]

theorem look_of_stop (h : s.ending = none)
    (hlook : s.viewer.look s.coordinator.watched = ⟨ps, v, .stop⟩) :
    s.look = { s with viewer := v, printed := s.printed ++ ps, ending := some .ok } := by
  simp only [look, h, hlook]

theorem look_of_fail {target : Target} {error : Trace.Error} (h : s.ending = none)
    (hlook : s.viewer.look s.coordinator.watched = ⟨[], s.viewer, .fail target error⟩) :
    s.look = { s with
      ending := some (.failed ["tracing " ++ target.display ++ " failed", error.message]) } := by
  simp only [look, h, hlook, List.append_nil]

theorem look_of_request {step : UInt64} {d : Coordinator} (h : s.ending = none)
    (hlook : s.viewer.look s.coordinator.watched = ⟨ps, v, .request step⟩)
    (hstep : s.coordinator.requestStep step = (d, .ok ())) :
    s.look = { s with coordinator := d, viewer := v, printed := s.printed ++ ps } := by
  simp only [look, h, hlook, hstep]

end Session

end SpendTrace.View
