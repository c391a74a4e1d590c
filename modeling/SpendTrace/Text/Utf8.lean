/-!
# Reading bytes as text

UTF-8 read without failing: every maximal ill-formed run of bytes becomes one replacement
character. A run is the longest start of a sequence that could still have been completed, or a
single byte that starts none.
-/

namespace SpendTrace.Text

/-- The character shown for bytes that are no text. -/
def replacement : Char := '\uFFFD'

/-- What a first byte announces: the bits it gives, how many bytes follow it, and the range that the
first of them must lie in. -/
structure Lead where
  bits : Nat
  more : Nat
  least : Nat
  most : Nat

/-- The multi-byte sequences that a byte can start. -/
def lead? (b : Nat) : Option Lead :=
  if 0xC2 ≤ b ∧ b ≤ 0xDF then some ⟨b - 0xC0, 1, 0x80, 0xBF⟩
  else if b = 0xE0 then some ⟨0, 2, 0xA0, 0xBF⟩
  else if b = 0xED then some ⟨0xD, 2, 0x80, 0x9F⟩
  else if 0xE1 ≤ b ∧ b ≤ 0xEF then some ⟨b - 0xE0, 2, 0x80, 0xBF⟩
  else if b = 0xF0 then some ⟨0, 3, 0x90, 0xBF⟩
  else if 0xF1 ≤ b ∧ b ≤ 0xF3 then some ⟨b - 0xF0, 3, 0x80, 0xBF⟩
  else if b = 0xF4 then some ⟨4, 3, 0x80, 0x8F⟩
  else none

/-- Reads bytes inside a sequence that still lacks some, or between sequences when none is open. -/
def ofUtf8From : Option Lead → List UInt8 → List Char
  | none, [] => []
  | some _, [] => [replacement]
  | open?, b :: rest =>
    let n := b.toNat
    let fresh : Option Lead → List Char := fun started =>
      if n < 0x80 then Char.ofNat n :: ofUtf8From none rest
      else
        match started with
        | some l => ofUtf8From (some l) rest
        | none => replacement :: ofUtf8From none rest
    match open? with
    | none => fresh (lead? n)
    | some l =>
      if l.least ≤ n ∧ n ≤ l.most then
        let bits := l.bits * 64 + (n - 0x80)
        if l.more ≤ 1 then Char.ofNat bits :: ofUtf8From none rest
        else ofUtf8From (some ⟨bits, l.more - 1, 0x80, 0xBF⟩) rest
      else replacement :: fresh (lead? n)

/-- The text of a list of bytes. -/
def ofUtf8 (bytes : List UInt8) : String :=
  String.ofList (ofUtf8From none bytes)

end SpendTrace.Text
