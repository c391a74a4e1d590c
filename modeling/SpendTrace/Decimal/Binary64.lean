/-!
# Binary floating point, exactly

Finite binary64 numbers as a sign, a significand and a power of two, with the two operations that
reading a decimal numeral needs. Each operation computes the exact quotient of natural numbers and
rounds it once, to nearest, a tie to the even significand. Nothing here depends on the machine's
own floating point.

`Binary64.ofDecimal?` rounds twice: the significand to a double first, then its product or quotient
with a power of ten. The result may therefore differ in the last place from the double nearest to
the numeral; that is the rule of the documents read here.
-/

namespace SpendTrace.Decimal

/-! ## Quotients of natural numbers -/

/-- A nonnegative rational number; the denominator is positive in all that is built here. -/
structure Ratio where
  num : Nat
  den : Nat

namespace Ratio

/-- `n · base ^ e`. -/
def scaled (n base : Nat) (e : Int) : Ratio :=
  ⟨n * Nat.pow base e.toNat, Nat.pow base (-e).toNat⟩

def mul (a b : Ratio) : Ratio := ⟨a.num * b.num, a.den * b.den⟩

def div (a b : Ratio) : Ratio := ⟨a.num * b.den, a.den * b.num⟩

def ble (a b : Ratio) : Bool := a.num * b.den ≤ b.num * a.den

def blt (a b : Ratio) : Bool := a.num * b.den < b.num * a.den

/-- The nearest natural number, a tie going to the even one. -/
def round (a : Ratio) : Nat :=
  let q := a.num / a.den
  let twice := 2 * (a.num % a.den)
  if twice < a.den then q
  else if a.den < twice then q + 1
  else if q % 2 = 0 then q else q + 1

/-- The exponent of the largest power of two that is not above the (positive) number. -/
def log2 (a : Ratio) : Int :=
  let guess : Int := (Nat.log2 a.num : Int) - Nat.log2 a.den
  if (scaled 1 2 guess).ble a then guess else guess - 1

end Ratio

/-! ## Doubles -/

/-- The finite number `± mantissa · 2 ^ exponent`. As built here it is canonical: the mantissa is
below `2 ^ 53`, and at least `2 ^ 52` unless the exponent is the least one, `-1074`. -/
structure Binary64 where
  negative : Bool
  mantissa : Nat
  exponent : Int
  deriving DecidableEq, Repr

namespace Binary64

/-- The least exponent of a double. -/
def leastExponent : Int := -1074

/-- The greatest exponent of a finite double. -/
def greatestExponent : Int := 971

/-- The least mantissa, `2 ^ 52`, of a double above the least exponent. -/
def leastNormal : Nat := 0x10000000000000

def zero : Binary64 := ⟨false, 0, leastExponent⟩

/-- The nonnegative double nearest to a rational number; none if that is beyond the finite ones. -/
def ofRatio? (a : Ratio) : Option Binary64 :=
  if a.num = 0 then some zero
  else
    let e := max (a.log2 - 52) leastExponent
    let m := (a.div (Ratio.scaled 1 2 e)).round
    let (m, e) := if m = 2 * leastNormal then (leastNormal, e + 1) else (m, e)
    if greatestExponent < e then none else some ⟨false, m, e⟩

/-- The magnitude. -/
def toRatio (x : Binary64) : Ratio :=
  Ratio.scaled x.mantissa 2 x.exponent

def isZero (x : Binary64) : Bool := x.mantissa == 0

/-- The double nearest to a natural number, which is far below the greatest double. -/
def ofNat (n : Nat) : Binary64 :=
  (ofRatio? ⟨n, 1⟩).getD zero

/-- The double nearest to a power of ten up to the 308th. -/
def pow10 (k : Nat) : Binary64 :=
  ofNat (Nat.pow 10 k)

def mul? (x y : Binary64) : Option Binary64 :=
  ofRatio? (x.toRatio.mul y.toRatio)

/-- A quotient by a number that is at least one, so that it stays finite. -/
def div (x y : Binary64) : Binary64 :=
  (ofRatio? (x.toRatio.div y.toRatio)).getD zero

/-- Division by `10 ^ k`, in steps of at most `10 ^ 308`; it stops when nothing is left. -/
def unscale (x : Binary64) (k : Nat) : Binary64 :=
  if k ≤ 308 then x.div (pow10 k)
  else if x.isZero then x
  else unscale (x.div (pow10 308)) (k - 308)
termination_by k

/-- The nonnegative double that `significand · 10 ^ exponent` is read as; none if it is too large.
-/
def ofDecimal? (significand : Nat) (exponent : Int) : Option Binary64 :=
  let f := ofNat significand
  if exponent < 0 then some (f.unscale exponent.natAbs)
  else if exponent ≤ 308 then f.mul? (pow10 exponent.toNat)
  else if f.isZero then some f
  else none

/-- The number with its sign turned to minus if `negative` holds. -/
def withSign (negative : Bool) (x : Binary64) : Binary64 :=
  { x with negative }

end Binary64

end SpendTrace.Decimal
