import SpendTrace.Script.Display
import SpendTrace.Text.Style
import SpendTrace.Trace.Navigation

/-!
# Reports

What is printed of a snapshot: its headline, then one line for each stack and script that is to be
shown, each element in the colour of its category. Where there is nothing to show stands a dash.
-/

namespace SpendTrace.View

open Script (Element Shown Outcome)
open Text (Span Style)
open Trace (Ready Navigation)

/-! ## Styles -/

/-- The colour of a category. -/
def categoryStyle : Opcode.Category → Style
  | .values => [33]
  | .stackOps => [36]
  | .cryptoOps => [35]
  | .constantOps => [34]
  | .bitwiseLogicOps => [32]
  | .arithmeticOps => [92]
  | .flowControlOps => [31]
  | .locktimeOps => [94]
  | .pseudoOps => [90]
  | .reservedOps => [91]
  | .spliceOps => [96]

/-- Headlines are bold, verdicts green or red. -/
def headlineStyle : Outcome → Style
  | .pending => [1]
  | .result true => [1, 32]
  | .result false => [1, 31]

/-! ## Parts of a report -/

def elementSpan (e : Shown) : Span :=
  ⟨e.category.map categoryStyle, e.label.toList⟩

/-- The elements of a list on one line. -/
def elementSpans (elements : List Element) : List Span :=
  match Script.presentable elements with
  | [] => [.plain "-"]
  | shown => (shown.map elementSpan).intersperse (.plain " ")

/-- A line with a name, which takes sixteen columns, and the elements of a list. -/
def fieldLine (name : String) (elements : List Element) : List Span :=
  ⟨none, "  ".toList ++ Text.padEnd 16 ' ' (name ++ ":").toList⟩ :: elementSpans elements

def headlineSpan (r : Ready) : Span :=
  ⟨some (headlineStyle r.snapshot.outcome), r.headline.toList⟩

/-- The stacks and scripts of a snapshot that a report shows, under their names. -/
def fields (r : Ready) : List (String × List Element) :=
  let s := r.snapshot
  [("main stack", s.main), ("alt stack", s.alt), ("remaining", s.remaining)] ++
    (s.redeem.map fun l => ("p2sh script", l)).toList ++
    (s.witness.map fun l => ("witness script", l)).toList ++
    (s.witnessStack.map fun l => ("witness stack", l)).toList

/-- The line that says that the stream behind a snapshot was cancelled. -/
def cancelledLine : List Span := [.plain "  (stream cancelled)"]

/-! ## Reports -/

/-- The lines of a report. -/
def reportLines (r : Ready) : List (List Span) :=
  [headlineSpan r] :: (fields r).map (fun (name, elements) => fieldLine name elements) ++
    (if r.stream = some .cancelled then [cancelledLine] else [])

/-- The report of a snapshot, every line ended. -/
def report (color : Bool) (r : Ready) : String :=
  Text.spansText color ((reportLines r).flatMap fun line => line ++ [.plain "\n"])

/-- The links to the neighbours of a snapshot. -/
def navigationText (n : Navigation) : String :=
  (match n.previous with
    | some l => "previous: " ++ l.text ++ "\n"
    | none => "") ++
  (match n.next with
    | some l => "next:     " ++ l.text ++ "\n"
    | none => "")

end SpendTrace.View
