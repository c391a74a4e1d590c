import SpendTrace.Script.Element

/-!
# Elements as they are shown

Lists of elements made ready for display: markers that only announce pushed data are left out, and
the empty constant is shown as the number zero.
-/

namespace SpendTrace.Script

/-- An element as it is shown. -/
structure Shown where
  label : String
  kind : String
  category : Option Opcode.Category
  deriving DecidableEq, Repr

/-- The kind of the markers that announce pushed data. -/
def pushDataMarker : String := "OP_PUSHDATA"

namespace Element

def isPushDataMarker (e : Element) : Bool :=
  e.kind == pushDataMarker

/-- Whether the element is a constant without any bytes. -/
def isEmptyConstant (e : Element) : Bool :=
  e.kind == Opcode.scriptConstant && e.value == some (.text "0x")

/-- An element other than a marker, as it is shown. -/
def shown (e : Element) : Shown :=
  if e.isEmptyConstant then ⟨"0", Opcode.scriptNum, Opcode.classify Opcode.scriptNum⟩
  else ⟨e.label, e.kind, e.category⟩

end Element

/-- A list of elements as it is shown. -/
def presentable (elements : List Element) : List Shown :=
  (elements.filter fun e => !e.isPushDataMarker).map Element.shown

end SpendTrace.Script
