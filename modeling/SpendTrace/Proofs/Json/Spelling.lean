import SpendTrace.Proofs.Json.Lexing

/-!
# Spellings of strings and numerals

How a string and a number may be written, said without a scanner, and what the scanner makes of
every such spelling.

The parts of a string always spell something that can be skipped. They write a text only if each
surrogate among their units has its other half.

* `StringText`, `StringText.Writes`: strings between their quotes, and what they write.
* `NumeralText`: numerals, and whether their number is in range.
* `tokens_string`, `tokens_numeral`: the token of every spelling.
* `reading_of_writes`, `reading_of_chars_integer`: what is read from it.
-/

namespace SpendTrace.Json

/-! ## Strings -/

/-- A hexadecimal digit in either case. -/
structure HexDigit where
  value : Fin 16
  upper : Bool

def HexDigit.char (h : HexDigit) : Char :=
  if h.upper then (Nat.digitChar h.value).toUpper else Nat.digitChar h.value

/-- Four hexadecimal digits, which write a unit of UTF-16. -/
structure HexUnit where
  first : HexDigit
  second : HexDigit
  third : HexDigit
  fourth : HexDigit

namespace HexUnit

def value (u : HexUnit) : Nat :=
  ((u.first.value * 16 + u.second.value) * 16 + u.third.value) * 16 + u.fourth.value

def chars (u : HexUnit) : List Char :=
  [u.first.char, u.second.char, u.third.char, u.fourth.char]

end HexUnit

/-- The characters that may follow a backslash on their own, and what they then stand for. -/
def shortEscapes : List (Char × Char) :=
  [('"', '"'), ('\\', '\\'), ('/', '/'), ('b', '\x08'), ('f', '\x0c'), ('n', '\n'), ('r', '\r'),
    ('t', '\t')]

/-- What a string may be made of. -/
inductive StringPart where
  | plain (c : Char) (h : c ≠ '"' ∧ c ≠ '\\' ∧ 0x20 ≤ c.toNat)
  | short (e : Char × Char) (h : e ∈ shortEscapes)
  | unit (u : HexUnit)

def StringPart.chars : StringPart → List Char
  | plain c _ => [c]
  | short e _ => ['\\', e.1]
  | unit u => '\\' :: 'u' :: u.chars

/-- What stands between the quotes of a string. -/
structure StringText where
  parts : List StringPart

/-- The characters that the parts of a string write. A character beyond the 16-bit ones is itself
or a pair of surrogates. -/
inductive Writes : List StringPart → List Char → Prop where
  | nil : Writes [] []
  | plain {c h ps cs} : Writes ps cs → Writes (.plain c h :: ps) (c :: cs)
  | short {e h ps cs} : Writes ps cs → Writes (.short e h :: ps) (e.2 :: cs)
  | unit {u c ps cs} (h : u.value = c.toNat) : Writes ps cs → Writes (.unit u :: ps) (c :: cs)
  | pair {u v c ps cs} (hbeyond : 0x10000 ≤ c.toNat)
      (hhigh : u.value = 0xD800 + (c.toNat - 0x10000) / 0x400)
      (hlow : v.value = 0xDC00 + (c.toNat - 0x10000) % 0x400) :
      Writes ps cs → Writes (.unit u :: .unit v :: ps) (c :: cs)

namespace StringText

/-- The string in its quotes. -/
def chars (s : StringText) : List Char :=
  '"' :: (s.parts.flatMap StringPart.chars ++ ['"'])

def Writes (s : StringText) (text : String) : Prop :=
  Json.Writes s.parts text.toList

end StringText

/-! ### Scanning strings -/

theorem hexDigit?_char (h : HexDigit) : hexDigit? h.char = some h.value := by
  obtain ⟨value, upper⟩ := h
  revert value upper
  decide

theorem hexUnit?_chars (u : HexUnit) :
    hexUnit? u.first.char u.second.char u.third.char u.fourth.char = some u.value := by
  simp only [hexUnit?, hexDigit?_char]
  rfl

/-- A string of which one more part has been read. -/
def Partial.add (p : Partial) : StringPart → Partial
  | .plain c _ => p.push c
  | .short e _ => p.push e.2
  | .unit u => p.pushUnit u.value

theorem scanString_short (p : Partial) (s : List Char) :
    ∀ e ∈ shortEscapes, scanString p ('\\' :: e.1 :: s) = scanString (p.push e.2) s := by
  simp only [shortEscapes, List.forall_mem_cons]
  exact ⟨rfl, rfl, rfl, rfl, rfl, rfl, rfl, rfl, List.forall_mem_nil _⟩

theorem scanString_part (p : Partial) (part : StringPart) (s : List Char) :
    scanString p (part.chars ++ s) = scanString (p.add part) s := by
  cases part with
  | plain c h =>
    obtain ⟨hquote, hback, hcontrol⟩ := h
    exact scanString_plain p s hquote hback (Nat.not_lt.2 hcontrol)
  | short e h => exact scanString_short p s e h
  | unit u =>
    simp only [StringPart.chars, HexUnit.chars, List.cons_append, List.nil_append]
    rw [scanString, hexUnit?_chars]
    rfl

theorem scanString_parts (p : Partial) (parts : List StringPart) (rest : List Char) :
    scanString p (parts.flatMap StringPart.chars ++ '"' :: rest) =
      ((parts.foldl Partial.add p).close, rest) := by
  induction parts generalizing p with
  | nil =>
    rw [List.flatMap_nil, List.nil_append, scanString]
    rfl
  | cons part parts ih =>
    rw [List.flatMap_cons, List.append_assoc, scanString_part, ih]
    rfl

namespace StringText

/-- What comes of reading the string. -/
def reading (s : StringText) : Reading String :=
  (s.parts.foldl Partial.add .start).close

theorem skip_reading (s : StringText) : s.reading.skip = .ok () := by
  unfold reading Partial.close
  split <;> rfl

end StringText

theorem tokens_string (s : StringText) : Lexes s.chars (.string s.reading) := by
  refine lexes_of_scanToken rfl fun rest => ?_
  have hscan := scanString_parts .start s.parts rest
  show (scanString .start (s.parts.flatMap StringPart.chars ++ ['"'] ++ rest)).map
    Token.string id = _
  rw [List.append_assoc, List.singleton_append, hscan]
  rfl

/-! ### Reading strings -/

theorem toNat_lt (c : Char) : c.toNat < 0x110000 := by
  obtain h | ⟨-, h⟩ := c.valid
  · exact Nat.lt_trans h (by decide)
  · exact h

/-- Two surrogates are one character. -/
theorem pushUnit_pair (before : List Char) {c : Char} {high low : Nat}
    (hbeyond : 0x10000 ≤ c.toNat) (hhigh : high = 0xD800 + (c.toNat - 0x10000) / 0x400)
    (hlow : low = 0xDC00 + (c.toNat - 0x10000) % 0x400) :
    ((Partial.reached before).pushUnit high).pushUnit low = .reached (c :: before) := by
  have hlt := toNat_lt c
  have hwaits : (Partial.reached before).pushUnit high = ⟨.ok before, some high⟩ := by
    have hnotLow : ¬(0xDC00 ≤ high ∧ high ≤ 0xDFFF) := by omega
    have hisHigh : 0xD800 ≤ high ∧ high ≤ 0xDBFF := by omega
    simp [Partial.pushUnit, Partial.reached, hnotLow, hisHigh]
  have hisLow : 0xDC00 ≤ low ∧ low ≤ 0xDFFF := by omega
  have hchar : 0x10000 + (high - 0xD800) * 0x400 + (low - 0xDC00) = c.toNat := by omega
  rw [hwaits]
  simp [Partial.pushUnit, Partial.reached, hisLow, hchar, Char.ofNat_toNat, Except.map]

theorem foldl_add_of_writes {parts : List StringPart} {cs : List Char} (h : Writes parts cs)
    (before : List Char) :
    parts.foldl Partial.add (.reached before) = .reached (cs.reverse ++ before) := by
  induction h generalizing before with
  | nil => rfl
  | plain _ ih | short _ ih =>
    rw [List.foldl_cons, List.reverse_cons, List.append_assoc]
    exact ih _
  | unit hvalue _ ih =>
    rw [List.foldl_cons, List.reverse_cons, List.append_assoc, Partial.add, hvalue,
      pushUnit_toNat]
    exact ih _
  | pair hbeyond hhigh hlow _ ih =>
    rw [List.foldl_cons, List.foldl_cons, List.reverse_cons, List.append_assoc, Partial.add,
      Partial.add, pushUnit_pair before hbeyond hhigh hlow]
    exact ih _

theorem reading_of_writes {s : StringText} {text : String} (h : s.Writes text) :
    s.reading = .exact text := by
  have hfold := foldl_add_of_writes h []
  rw [List.append_nil] at hfold
  show ((s.parts.foldl Partial.add (.reached [])).close) = _
  rw [hfold]
  show Reading.exact (String.ofList text.toList.reverse.reverse) = _
  rw [List.reverse_reverse, String.ofList_toList]

/-! ## Numerals -/

/-- Decimal digits, at least one. -/
structure Digits where
  chars : List Char
  ne_nil : chars ≠ []
  isDigit : ∀ c ∈ chars, c.isDigit = true

inductive Sign where
  | plus
  | minus

def Sign.char : Sign → Char
  | plus => '+'
  | minus => '-'

structure ExponentText where
  upper : Bool
  sign : Option Sign
  digits : Digits

namespace ExponentText

def chars (e : ExponentText) : List Char :=
  (if e.upper then 'E' else 'e') :: (e.sign.toList.map Sign.char ++ e.digits.chars)

def value (e : ExponentText) : Int :=
  let n : Int := Nat.ofDigitChars 10 e.digits.chars 0
  match e.sign with
  | some .minus => -n
  | _ => n

end ExponentText

/-- A numeral. A zero in front of the point stands alone. -/
structure NumeralText where
  negative : Bool
  whole : Digits
  alone : whole.chars.head? = some '0' → whole.chars = ['0']
  fraction : Option Digits
  exponent : Option ExponentText

namespace NumeralText

def fractionChars : Option Digits → List Char
  | none => []
  | some ds => '.' :: ds.chars

def exponentChars : Option ExponentText → List Char
  | none => []
  | some e => e.chars

/-- The numeral behind its sign. -/
def unsignedChars (n : NumeralText) : List Char :=
  n.whole.chars ++ (fractionChars n.fraction ++ exponentChars n.exponent)

def chars (n : NumeralText) : List Char :=
  if n.negative then '-' :: n.unsignedChars else n.unsignedChars

/-- The parts of the numeral. -/
def numeral (n : NumeralText) : Numeral :=
  ⟨n.negative, n.whole.chars, n.fraction.map Digits.chars, n.exponent.map ExponentText.value⟩

/-- The number is one of those that can be represented. -/
def InRange (n : NumeralText) : Prop :=
  n.numeral.value?.isSome

end NumeralText

/-! ### Scanning numerals -/

theorem scanDigits_chars (ds : Digits) {rest : List Char}
    (h : ∀ c ∈ rest.head?, c.isDigit = false) :
    scanDigits (ds.chars ++ rest) = .ok (ds.chars, rest) :=
  scanDigits_append ds.ne_nil ds.isDigit h

theorem Digits.exists_cons (ds : Digits) :
    ∃ c cs, ds.chars = c :: cs ∧ c.isDigit = true := by
  obtain ⟨c, cs, hchars⟩ := List.exists_cons_of_ne_nil ds.ne_nil
  exact ⟨c, cs, hchars, ds.isDigit c (hchars ▸ List.mem_cons_self)⟩

theorem exponentSign_chars (sign : Option Sign) (ds : Digits) (rest : List Char) :
    exponentSign (sign.toList.map Sign.char ++ ds.chars ++ rest) =
      (match sign with
        | some .minus => true
        | _ => false, ds.chars ++ rest) := by
  cases sign with
  | some sign => cases sign <;> rfl
  | none =>
    obtain ⟨c, cs, hchars, hc⟩ := ds.exists_cons
    rw [hchars]
    show exponentSign (c :: (cs ++ rest)) = _
    unfold exponentSign
    split
    · next heq =>
      obtain ⟨rfl, -⟩ := List.cons.inj heq
      cases hc
    · next heq =>
      obtain ⟨rfl, -⟩ := List.cons.inj heq
      cases hc
    · rfl

theorem scanExponent_chars (e : Option ExponentText) {rest : List Char} (h : EndsNumeral rest) :
    scanExponent (NumeralText.exponentChars e ++ rest) = .ok (e.map ExponentText.value, rest) := by
  cases e with
  | none => exact scanExponent_none h
  | some e =>
    have hmark : (if e.upper then 'E' else 'e') = 'e' ∨ (if e.upper then 'E' else 'e') = 'E' := by
      cases e.upper
      · exact .inl rfl
      · exact .inr rfl
    have hdigits := scanDigits_chars e.digits fun c hc => (h c hc).1
    simp only [NumeralText.exponentChars, ExponentText.chars, List.cons_append, scanExponent]
    rw [if_pos hmark, exponentSign_chars]
    simp only [hdigits, bind, Except.bind, Option.map_some, ExponentText.value]
    cases e.sign with
    | none => rfl
    | some sign => cases sign <;> rfl

/-- Behind the digits of a numeral stands no digit, and no point but that of a fraction. -/
theorem head?_exponentChars (e : Option ExponentText) {rest : List Char} (h : EndsNumeral rest) :
    ∀ c ∈ (NumeralText.exponentChars e ++ rest).head?, c.isDigit = false ∧ c ≠ '.' := by
  intro c hc
  cases e with
  | none => exact ⟨(h c hc).1, (h c hc).2.1⟩
  | some e =>
    cases hc
    cases e.upper
    · exact ⟨rfl, by decide⟩
    · exact ⟨rfl, by decide⟩

theorem scanFraction_chars (f : Option Digits) {rest : List Char}
    (h : ∀ c ∈ rest.head?, c.isDigit = false ∧ c ≠ '.') :
    scanFraction (NumeralText.fractionChars f ++ rest) = .ok (f.map Digits.chars, rest) := by
  cases f with
  | none => exact scanFraction_none fun hhead => (h '.' hhead).2 rfl
  | some ds =>
    have hdigits := scanDigits_chars ds fun c hc => (h c hc).1
    simp only [NumeralText.fractionChars, List.cons_append, scanFraction, hdigits, bind,
      Except.bind, Option.map_some]

theorem scanUnsigned_chars (n : NumeralText) {rest : List Char} (h : EndsNumeral rest) :
    scanUnsigned n.negative (n.unsignedChars ++ rest) = .ok (n.numeral, rest) := by
  have hexponent := head?_exponentChars n.exponent h
  have hfraction : ∀ c ∈ (NumeralText.fractionChars n.fraction ++
      (NumeralText.exponentChars n.exponent ++ rest)).head?, c.isDigit = false := by
    intro c hc
    cases hf : n.fraction with
    | none =>
      rw [hf] at hc
      exact (hexponent c hc).1
    | some ds =>
      rw [hf] at hc
      cases hc
      rfl
  have hwhole := scanWhole_append n.whole.ne_nil n.whole.isDigit n.alone hfraction
  unfold scanUnsigned NumeralText.unsignedChars
  rw [List.append_assoc, List.append_assoc, hwhole]
  simp only [bind, Except.bind, scanFraction_chars n.fraction hexponent,
    scanExponent_chars n.exponent h]
  rfl

namespace NumeralText

/-- What comes of reading the numeral. -/
def reading (n : NumeralText) : Reading Number :=
  match n.numeral.value? with
  | some v => .exact v
  | none => .spelled (.error (.malformed .numberOutOfRange))

theorem skip_reading (n : NumeralText) : n.reading.skip = .ok () := by
  unfold reading
  split <;> rfl

theorem InRange.exists_reading {n : NumeralText} (h : n.InRange) : ∃ v, n.reading = .exact v := by
  obtain ⟨v, hv⟩ := Option.isSome_iff_exists.1 h
  exact ⟨v, by rw [reading, hv]⟩

end NumeralText

theorem scanNumber_chars (n : NumeralText) {rest : List Char} (h : EndsNumeral rest) :
    scanNumber n.negative (n.unsignedChars ++ rest) = (n.reading, rest) := by
  cases hv : n.numeral.value? <;>
    simp only [scanNumber, scanUnsigned_chars n h, NumeralText.reading, hv]

theorem tokens_numeral (n : NumeralText) {rest : List Char} (h : EndsNumeral rest) :
    tokens (n.chars ++ rest) = .number n.reading :: tokens rest := by
  have hscan := scanNumber_chars n h
  unfold NumeralText.chars
  split
  · next hnegative =>
    rw [hnegative] at hscan
    have htoken : scanToken '-' (n.unsignedChars ++ rest) =
        (scanNumber true (n.unsignedChars ++ rest)).map .number id := rfl
    rw [List.cons_append, tokens_cons rfl, htoken, hscan]
    rfl
  · next hpositive =>
    rw [Bool.eq_false_iff.2 hpositive] at hscan
    obtain ⟨c, cs, hchars, hc⟩ := n.whole.exists_cons
    have hcons : n.unsignedChars ++ rest =
        c :: (cs ++ (NumeralText.fractionChars n.fraction ++
          NumeralText.exponentChars n.exponent) ++ rest) := by
      rw [NumeralText.unsignedChars, hchars, List.cons_append, List.cons_append]
    rw [hcons] at hscan ⊢
    rw [tokens_cons (isSpace_of_isDigit hc), scanToken_of_isDigit hc, hscan]
    rfl

/-! ### Reading numerals -/

/-- An integer can be spelled in one way only, and is read from it. -/
theorem reading_of_chars_integer {n : NumeralText} {i : Int} (hi : InWord i)
    (h : n.chars = Text.integer i) : n.reading = .exact (.integer i hi) := by
  have hnumeral := tokens_numeral n endsNumeral_nil
  rw [h, tokens_integer hi endsNumeral_nil] at hnumeral
  obtain ⟨htoken, -⟩ := List.cons.inj hnumeral
  exact (Token.number.inj htoken).symm

end SpendTrace.Json
