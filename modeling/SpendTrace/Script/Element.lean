import SpendTrace.Json.Number
import SpendTrace.Opcode.Index

/-!
# Script elements

The elements of scripts and stacks: opcodes, and literals that carry a value. An opcode is its
mnemonic; a literal is one of the two literal markers with a boolean, a number or a text.
-/

namespace SpendTrace.Script

/-- What a literal carries. -/
inductive ElementValue where
  | boolean (value : Bool)
  | number (value : Json.Number)
  | text (value : String)
  deriving DecidableEq

/-- The value as it is shown. -/
def ElementValue.label : ElementValue → String
  | .boolean true => "true"
  | .boolean false => "false"
  | .number n => String.ofList n.text
  | .text s => s

structure Element where
  kind : String
  value : Option ElementValue
  deriving DecidableEq

/-- A literal marker for which there is no value. -/
structure MissingValue where
  kind : String
  deriving DecidableEq, Repr

def MissingValue.message (m : MissingValue) : String :=
  "literal element '" ++ m.kind ++ "' has no value"

namespace Element

/-! ## Making elements -/

/-- An element without a value. -/
def opcode (mnemonic : String) : Element := ⟨mnemonic, none⟩

/-- A pushed byte string, given as text. -/
def constant (text : String) : Element := ⟨Opcode.scriptConstant, some (.text text)⟩

/-- A pushed number. -/
def number (i : Int) (h : Json.InWord i) : Element :=
  ⟨Opcode.scriptNum, some (.number (.integer i h))⟩

/-- An element of a kind: a literal needs a value, an opcode drops it. -/
def ofParts (kind : String) (value : Option ElementValue) : Except MissingValue Element :=
  if Opcode.isLiteralMarker kind then
    match value with
    | some v => .ok ⟨kind, some v⟩
    | none => .error ⟨kind⟩
  else .ok ⟨kind, none⟩

/-! ## Looking at elements -/

/-- Whether the element is of a literal kind. -/
def isLiteral (e : Element) : Bool :=
  Opcode.isLiteralMarker e.kind

def category (e : Element) : Option Opcode.Category :=
  Opcode.classify e.kind

/-- The text shown for the element: its value if it has one, else its kind. -/
def label (e : Element) : String :=
  match e.value with
  | some v => v.label
  | none => e.kind

/-! ## Well-formed elements -/

/-- A value is there exactly if the kind asks for one. -/
def WellFormed (e : Element) : Prop :=
  e.value.isSome = e.isLiteral

instance (e : Element) : Decidable e.WellFormed := by
  unfold WellFormed
  infer_instance

theorem wellFormed_of_ofParts {kind : String} {value : Option ElementValue} {e : Element}
    (h : ofParts kind value = .ok e) : e.WellFormed := by
  unfold ofParts at h
  split at h
  · next hk =>
    cases value with
    | none => simp at h
    | some v =>
      cases h
      simp [WellFormed, isLiteral, hk]
  · next hk =>
    cases h
    simpa [WellFormed, isLiteral] using hk

end Element

end SpendTrace.Script
