/-!
# Decimal numerals

Natural numbers written in decimal digits, and the two readers of them: plain digits, and digits
with an optional sign in front. Neither reader accepts an empty text or any character but digits.

* `natural?_digits`: a written number reads back, and so it does as a word (`uint32?_digits`,
  `uint64?_digits`).
* `digits_injective`: different numbers are written differently.
-/

namespace SpendTrace.Text

/-- The decimal digits of a number, without leading zeros. -/
def digits (n : Nat) : List Char :=
  Nat.toDigits 10 n

/-- The number that a nonempty text of decimal digits writes. -/
def natural? (s : List Char) : Option Nat :=
  if !s.isEmpty && s.all Char.isDigit then some (Nat.ofDigitChars 10 s 0) else none

/-- A natural number, perhaps with a plus sign in front. -/
def unsigned? : List Char → Option Nat
  | '+' :: s => natural? s
  | s => natural? s

/-- An integer, perhaps with a sign in front. -/
def signed? : List Char → Option Int
  | '+' :: s => (natural? s).map Int.ofNat
  | '-' :: s => (natural? s).map fun n => -Int.ofNat n
  | s => (natural? s).map Int.ofNat

/-- A numeral of a number of 32 bits. -/
def uint32? (s : List Char) : Option UInt32 :=
  (unsigned? s).bind fun n => if n < UInt32.size then some (UInt32.ofNat n) else none

/-- A numeral of a number of 64 bits. -/
def uint64? (s : List Char) : Option UInt64 :=
  (unsigned? s).bind fun n => if n < UInt64.size then some (UInt64.ofNat n) else none

/-- The decimal text of an integer. -/
def integer (i : Int) : List Char :=
  if i < 0 then '-' :: digits i.natAbs else digits i.natAbs

theorem digits_ne_nil (n : Nat) : digits n ≠ [] := by
  simp [digits, Nat.toDigits_ne_nil]

theorem isDigit_of_mem_digits {n : Nat} {c : Char} (h : c ∈ digits n) : c.isDigit = true :=
  Nat.isDigit_of_mem_toDigits (by decide) (by decide) h

theorem not_mem_digits {c : Char} (h : c.isDigit = false) (n : Nat) : c ∉ digits n := by
  intro hc
  rw [isDigit_of_mem_digits hc] at h
  cases h

theorem natural?_digits (n : Nat) : natural? (digits n) = some n := by
  have hall : (digits n).all Char.isDigit = true :=
    List.all_eq_true.2 fun _ h => isDigit_of_mem_digits h
  have hne : (digits n).isEmpty = false := by simp [digits_ne_nil]
  simp only [natural?, hall, hne]
  simp [digits]

theorem digits_injective {m n : Nat} (h : digits m = digits n) : m = n := by
  have hread := natural?_digits m
  rw [h, natural?_digits] at hread
  exact (Option.some.inj hread).symm

theorem unsigned?_digits (n : Nat) : unsigned? (digits n) = some n := by
  unfold unsigned?
  split
  · next s h =>
    have hplus : '+' ∈ digits n := h ▸ List.mem_cons_self
    exact absurd (isDigit_of_mem_digits hplus) (by decide)
  · exact natural?_digits n

theorem signed?_digits (n : Nat) : signed? (digits n) = some (n : Int) := by
  unfold signed?
  split
  · next s h =>
    have hplus : '+' ∈ digits n := h ▸ List.mem_cons_self
    exact absurd (isDigit_of_mem_digits hplus) (by decide)
  · next s h =>
    have hminus : '-' ∈ digits n := h ▸ List.mem_cons_self
    exact absurd (isDigit_of_mem_digits hminus) (by decide)
  · rw [natural?_digits]
    rfl

theorem uint32?_digits (n : UInt32) : uint32? (digits n.toNat) = some n := by
  simp [uint32?, unsigned?_digits, n.toNat_lt_size]

theorem uint64?_digits (n : UInt64) : uint64? (digits n.toNat) = some n := by
  simp [uint64?, unsigned?_digits, n.toNat_lt_size]

end SpendTrace.Text
