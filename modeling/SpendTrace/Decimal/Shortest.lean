import SpendTrace.Decimal.Binary64
import SpendTrace.Text.Numeral

/-!
# Shortest decimals

The decimal text of a double: the fewest digits that lie in the interval of the numbers rounding to
it, and of those the digits nearest to it. A double's interval includes its ends exactly if its
mantissa is even, as a tie is rounded to the even side.
-/

namespace SpendTrace.Decimal

/-- The decimal `digits · 10 ^ scale`. -/
structure Approx where
  digits : Nat
  scale : Int

namespace Approx

def toRatio (d : Approx) : Ratio :=
  Ratio.scaled d.digits 10 d.scale

end Approx

namespace Binary64

/-- A quarter of the distance between the numbers next to `x` at its own exponent: the number `k` of
these quarters at `4 · mantissa + k` measures the interval around `x`. -/
def quarters (x : Binary64) (k : Nat) : Ratio :=
  Ratio.scaled k 2 (x.exponent - 2)

/-- Whether the decimal rounds to the (nonzero) magnitude of `x`. -/
def covers (x : Binary64) (d : Approx) : Bool :=
  let below := if x.mantissa = leastNormal ∧ leastExponent < x.exponent then 1 else 2
  let least := x.quarters (4 * x.mantissa - below)
  let most := x.quarters (4 * x.mantissa + 2)
  if x.mantissa % 2 = 0 then least.ble d.toRatio && d.toRatio.ble most
  else least.blt d.toRatio && d.toRatio.blt most

/-- The exponent of the largest power of ten that is not above the (nonzero) magnitude. -/
def log10 (x : Binary64) : Int :=
  let r := x.toRatio
  if r.den ≤ r.num then (Text.digits (r.num / r.den)).length - 1
  else -(Text.digits ((r.den + r.num - 1) / r.num - 1)).length

/-- The decimal with `n` digits that is nearest to the magnitude and rounds to it, if there is any:
it is one of the two neighbours on the grid of that many digits. -/
def withDigits? (x : Binary64) (n : Nat) : Option Approx :=
  let scale := x.log10 - n + 1
  let place := x.toRatio.div (Ratio.scaled 1 10 scale)
  let low : Approx := ⟨place.num / place.den, scale⟩
  let high : Approx := ⟨place.num / place.den + 1, scale⟩
  let nearest := if place.round = low.digits then low else high
  let other := if place.round = low.digits then high else low
  if x.covers nearest then some nearest
  else if x.covers other then some other
  else none

/-- The shortest decimal that rounds to the magnitude; seventeen digits are always enough. -/
def shortest (x : Binary64) : Approx :=
  ((List.range 17).findSome? fun n => x.withDigits? (n + 1)).getD ⟨0, 0⟩

/-! ## Text -/

/-- The digits without the zeros at their end, or one zero. -/
def significant (digits : List Char) : List Char :=
  match digits.reverse.dropWhile (· == '0') with
  | [] => ['0']
  | ds => ds.reverse

/-- A number with one digit before the point and an exponent is written without the exponent if
that lies here. -/
def isPositional (exponent : Int) : Bool :=
  -5 ≤ exponent && exponent < 16

/-- The digits `d₁d₂…` as `d₁.d₂… · 10 ^ exponent`, written positionally with at least one digit
after the point. -/
def positional (ds : List Char) (exponent : Int) : List Char :=
  if exponent < 0 then
    ['0', '.'] ++ List.replicate (exponent.natAbs - 1) '0' ++ ds
  else
    let whole := exponent.toNat + 1
    let front := ds.take whole ++ List.replicate (whole - ds.length) '0'
    let back := ds.drop whole
    front ++ '.' :: (if back.isEmpty then ['0'] else back)

/-- The same number with its exponent, whose sign is always written. -/
def scientific (ds : List Char) (exponent : Int) : List Char :=
  let mark := if exponent < 0 then ['e', '-'] else ['e', '+']
  let power := Text.digits exponent.natAbs
  match ds with
  | [] => []
  | [d] => d :: mark ++ power
  | d :: rest => d :: '.' :: rest ++ mark ++ power

/-- The text of a double. -/
def text (x : Binary64) : List Char :=
  let sign := if x.negative then ['-'] else []
  if x.isZero then sign ++ ['0', '.', '0']
  else
    let d := x.shortest
    let all := Text.digits d.digits
    let exponent := d.scale + all.length - 1
    let ds := significant all
    sign ++ if isPositional exponent then positional ds exponent else scientific ds exponent

end Binary64

end SpendTrace.Decimal
