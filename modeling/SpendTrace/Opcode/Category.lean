import SpendTrace.Json.Read
import SpendTrace.Json.Value

/-!
# Opcode categories

The groups into which the elements of a script are sorted for display, in the order in which tables
list them. In a document a category is written as its name.

* `ofName?_name`: a category is known by its name.
-/

namespace SpendTrace.Opcode

inductive Category where
  /-- Values that the script pushes. -/
  | values
  | stackOps
  | cryptoOps
  | constantOps
  | bitwiseLogicOps
  | arithmeticOps
  | flowControlOps
  | locktimeOps
  /-- Placeholders of script templates. -/
  | pseudoOps
  | reservedOps
  | spliceOps
  deriving DecidableEq, Repr

namespace Category

/-- Every category, in table order. -/
def all : List Category :=
  [values, stackOps, cryptoOps, constantOps, bitwiseLogicOps, arithmeticOps, flowControlOps,
    locktimeOps, pseudoOps, reservedOps, spliceOps]

def name : Category → String
  | values => "Values"
  | stackOps => "StackOps"
  | cryptoOps => "CryptoOps"
  | constantOps => "ConstantOps"
  | bitwiseLogicOps => "BitwiseLogicOps"
  | arithmeticOps => "ArithmeticOps"
  | flowControlOps => "FlowControlOps"
  | locktimeOps => "LocktimeOps"
  | pseudoOps => "PseudoOps"
  | reservedOps => "ReservedOps"
  | spliceOps => "SpliceOps"

/-- The categories under their names. -/
def named : List (String × Category) :=
  all.map fun c => (c.name, c)

def ofName? (name : String) : Option Category :=
  named.lookup name

/-- The place of a category in table order. -/
def position (c : Category) : Nat :=
  all.idxOf c

/-- The categories that come after `c` in table order. -/
def after (c : Category) : List Category :=
  all.drop (c.position + 1)

theorem ofName?_name (c : Category) : ofName? c.name = some c := by
  cases c <;> decide

/-! ## Documents -/

def read (depth : Nat) (t : Json.Tree) : Except Json.Error Category :=
  Json.readVariant named depth t

/-- The category that a text writes. -/
def ofJson (s : String) : Except Json.Error Category :=
  Json.readText read s

def document (c : Category) : Json.Value :=
  .string c.name

end Category

end SpendTrace.Opcode
