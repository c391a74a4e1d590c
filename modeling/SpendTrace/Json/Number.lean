import SpendTrace.Decimal.Shortest
import SpendTrace.Text.Numeral

/-!
# JSON numbers

A number without fraction and exponent is an integer if it fits a signed or an unsigned 64-bit word;
any other number is a double. Minus zero is a double too.

* `Number.text`: the one written form of a number.
* `Numeral.value?`: the number that a numeral writes, if it is not beyond the doubles.
-/

namespace SpendTrace.Json

/-- The integers that are kept exactly. -/
def InWord (i : Int) : Prop :=
  -0x8000000000000000 ≤ i ∧ i < 0x10000000000000000

instance (i : Int) : Decidable (InWord i) := by
  unfold InWord
  infer_instance

inductive Number where
  | integer (value : Int) (inWord : InWord value)
  | double (value : Decimal.Binary64)
  deriving DecidableEq

namespace Number

theorem inWord_toNat (n : UInt64) : InWord n.toNat := by
  have := n.toNat_lt
  constructor <;> omega

/-- A word as a number. -/
def ofUInt64 (n : UInt64) : Number :=
  .integer n.toNat (inWord_toNat n)

def ofUInt32 (n : UInt32) : Number :=
  ofUInt64 n.toUInt64

/-- Whether the number is one of the integers. -/
def isInteger : Number → Bool
  | .integer _ _ => true
  | .double _ => false

/-- The written form. -/
def text : Number → List Char
  | .integer i _ => Text.integer i
  | .double x => x.text

end Number

/-! ## Numerals -/

/-- The parts of a numeral: its digits before and after the point, and its exponent. -/
structure Numeral where
  negative : Bool
  whole : List Char
  fraction : Option (List Char)
  exponent : Option Int

namespace Numeral

/-- The digits read so far as one 64-bit significand, and the power of ten that goes with it. -/
structure Significand where
  value : Nat
  exponent : Int

/-- The significand with one more digit, if that still fits a word. -/
def Significand.push? (s : Significand) (d : Char) : Option Nat :=
  let v := s.value * 10 + (d.toNat - '0'.toNat)
  if v < UInt64.size then some v else none

/-- The digits before the point: those from the first that does not fit on only scale. -/
def readWhole : List Char → Significand → Significand
  | [], s => s
  | d :: ds, s =>
    match s.push? d with
    | some v => readWhole ds { s with value := v }
    | none => { s with exponent := s.exponent + (ds.length + 1) }

/-- The digits after the point: those from the first that does not fit on are dropped. -/
def readFraction : List Char → Significand → Significand
  | [], s => s
  | d :: ds, s =>
    match s.push? d with
    | some v => readFraction ds ⟨v, s.exponent - 1⟩
    | none => s

/-- The numeral as a double. -/
def double? (n : Numeral) : Option Number :=
  let s := readFraction (n.fraction.getD []) (readWhole n.whole ⟨0, 0⟩)
  (Decimal.Binary64.ofDecimal? s.value (s.exponent + n.exponent.getD 0)).map fun x =>
    .double (x.withSign n.negative)

/-- The number that a numeral writes. -/
def value? (n : Numeral) : Option Number :=
  if n.fraction.isNone && n.exponent.isNone then
    let magnitude := Nat.ofDigitChars 10 n.whole 0
    let i : Int := if n.negative then -magnitude else magnitude
    if h : InWord i ∧ (n.negative → magnitude ≠ 0) then some (.integer i h.1) else n.double?
  else n.double?

end Numeral

end SpendTrace.Json
