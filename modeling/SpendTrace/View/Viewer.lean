import SpendTrace.Trace.Coordinator
import SpendTrace.View.Report

/-!
# Viewers

A viewer looks at the state of a trace whenever that has changed, and prints what is new. It may
miss states in between; of a streamed trace it then says how many snapshots it has not printed.

* `Viewer.look`: what a viewer prints at one look, and what it does next.
-/

namespace SpendTrace.View

open Trace (Ready Navigation State)

/-! ## What is printed -/

inductive Piece where
  /-- So many snapshots were missed. -/
  | skipped (count : UInt64)
  | report (trace : Ready)
  | navigation (links : Navigation)
  deriving DecidableEq

def Piece.text (color : Bool) : Piece → String
  | skipped count =>
    "... " ++ String.ofList (Text.digits count.toNat) ++ " snapshot(s) skipped\n"
  | report r => View.report color r
  | navigation n => navigationText n

/-- What is printed, all in all. -/
def printedText (color : Bool) (pieces : List Piece) : String :=
  String.join (pieces.map (Piece.text color))

theorem printedText_cons (color : Bool) (p : Piece) (ps : List Piece) :
    printedText color (p :: ps) = p.text color ++ printedText color ps := by
  simp [printedText]

theorem printedText_append (color : Bool) (ps qs : List Piece) :
    printedText color (ps ++ qs) = printedText color ps ++ printedText color qs := by
  simp [printedText]

theorem printedText_concat (color : Bool) (ps : List Piece) (p : Piece) :
    printedText color (ps ++ [p]) = printedText color ps ++ p.text color := by
  simp [printedText]

/-! ## Viewers -/

structure Viewer where
  /-- Whether to go on to the verdict. -/
  toEnd : Bool
  /-- The step of the snapshot printed last. -/
  printed : Option UInt64 := none
  deriving DecidableEq, Repr

/-- What a viewer does after a look. -/
inductive Move where
  | wait
  | request (step : UInt64)
  | stop
  | fail (target : Target) (error : Trace.Error)
  deriving DecidableEq, Repr

structure Look where
  pieces : List Piece
  viewer : Viewer
  move : Move
  deriving DecidableEq

namespace Viewer

/-- The step that comes next in a stream. -/
def expected (v : Viewer) : UInt64 :=
  match v.printed with
  | some p => p + 1
  | none => 0

/-- What is printed of a snapshot: nothing, if the one printed last was of the same step. -/
def news (v : Viewer) (r : Ready) : List Piece :=
  if v.printed = some r.step then []
  else if r.mode = .streamed ∧ v.expected < r.step then
    [.skipped (r.step - v.expected), .report r]
  else [.report r]

/-- A look at a snapshot. A stepped trace goes on to the next step or ends with its links; a
streamed one ends when its stream does. -/
def lookAtReady (v : Viewer) (r : Ready) : Look :=
  let viewer := { v with printed := some r.step }
  match r.mode with
  | .stepped =>
    match r.navigation.bind Navigation.nextStep, v.toEnd with
    | some next, true => ⟨v.news r, viewer, .request next⟩
    | _, _ => ⟨v.news r ++ r.navigation.toList.map .navigation, viewer, .stop⟩
  | .streamed => ⟨v.news r, viewer, if r.stream = some .live then .wait else .stop⟩

def look (v : Viewer) : State → Look
  | .idle => ⟨[], v, .wait⟩
  | .loading _ _ _ => ⟨[], v, .wait⟩
  | .failed target _ error => ⟨[], v, .fail target error⟩
  | .ready r => v.lookAtReady r

end Viewer

end SpendTrace.View
