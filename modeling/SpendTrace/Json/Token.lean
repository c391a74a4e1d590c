import SpendTrace.Json.Error
import SpendTrace.Json.Number

/-!
# Tokens of a JSON text

A text is a list of tokens with white space between them. A token may be read, which yields its
value, or skipped, which only checks its spelling; skipping admits a numeral too large for a
double and a lone surrogate in a string, for which there is no value. So a token carries the
outcome of both.

The list of tokens ends with the first one that cannot even be skipped: whoever meets that token
stops there, and nothing behind it matters.
-/

namespace SpendTrace.Json

/-- What comes of reading a token, and what comes of skipping it. -/
structure Reading (α : Type) where
  read : Except Error α
  skip : Except Error Unit
  deriving Repr

instance {α : Type} [DecidableEq α] : DecidableEq (Except Error α)
  | .ok a, .ok b => if h : a = b then isTrue (h ▸ rfl) else isFalse fun e => h (Except.ok.inj e)
  | .error a, .error b =>
    if h : a = b then isTrue (h ▸ rfl) else isFalse fun e => h (Except.error.inj e)
  | .ok _, .error _ => isFalse nofun
  | .error _, .ok _ => isFalse nofun

deriving instance DecidableEq for Reading

namespace Reading

variable {α : Type}

/-- A token that has the value `a`. -/
def exact (a : α) : Reading α := ⟨.ok a, .ok ()⟩

/-- A token that is well spelled; what reading it yields is another matter. -/
def spelled (read : Except Error α) : Reading α := ⟨read, .ok ()⟩

/-- A token at which the text goes wrong. -/
def broken (read skip : Error) : Reading α := ⟨.error read, .error skip⟩

end Reading

inductive Token where
  | openBracket
  | closeBracket
  | openBrace
  | closeBrace
  | comma
  | colon
  | null
  | boolean (value : Bool)
  | misspelled (error : Error)
  | number (value : Reading Number)
  | string (value : Reading String)
  | stray
  deriving DecidableEq

/-- White space between tokens. -/
def isSpace (c : Char) : Bool :=
  c == ' ' || c == '\t' || c == '\n' || c == '\r'

/-! ## Words -/

/-- The text behind the given word, or why it is not spelled so. -/
def spell : (word : List Char) → List Char → Except Error (List Char)
  | [], s => .ok s
  | _ :: _, [] => .error (.ended .value)
  | w :: ws, c :: s => if c = w then spell ws s else .error (.malformed .expectedWord)

/-! ## Strings

A string is read from behind its opening quote. The characters read so far are kept latest first,
together with a high surrogate that still waits for its low one. -/

/-- A string that is being read. -/
structure Partial where
  text : Except Error (List Char)
  high : Option Nat

namespace Partial

def start : Partial := ⟨.ok [], none⟩

/-- A character that stands for itself, or a short escape. -/
def push (p : Partial) (c : Char) : Partial :=
  match p.high with
  | some _ => ⟨p.text.bind fun _ => .error (.malformed .unfinishedSurrogate), none⟩
  | none => ⟨p.text.map (c :: ·), none⟩

/-- An escape that writes a UTF-16 unit. -/
def pushUnit (p : Partial) (n : Nat) : Partial :=
  let isLow : Bool := 0xDC00 ≤ n && n ≤ 0xDFFF
  let lone : Partial := ⟨p.text.bind fun _ => .error (.malformed .loneSurrogate), none⟩
  match p.high with
  | some h =>
    if isLow then
      ⟨p.text.map (Char.ofNat (0x10000 + (h - 0xD800) * 0x400 + (n - 0xDC00)) :: ·), none⟩
    else lone
  | none =>
    if isLow then lone
    else if 0xD800 ≤ n && n ≤ 0xDBFF then { p with high := some n }
    else ⟨p.text.map (Char.ofNat n :: ·), none⟩

/-- The string at its closing quote. -/
def close (p : Partial) : Reading String :=
  match p.high with
  | some _ => .spelled (p.text.bind fun _ => .error (.malformed .unfinishedSurrogate))
  | none => .spelled (p.text.map fun cs => String.ofList cs.reverse)

/-- The string where the text goes wrong for `e`. A waiting high surrogate is the earlier fault,
unless the fault is in the very escape that should have completed it. -/
def fail (p : Partial) (e : Error) (inUnit : Bool) : Reading String :=
  match p.text with
  | .error earlier => .broken earlier e
  | .ok _ =>
    match p.high, e with
    | none, _ => .broken e e
    | some _, .ended _ => .broken e e
    | some _, _ => .broken (if inUnit then e else .malformed .unfinishedSurrogate) e

end Partial

/-- The value of a hexadecimal digit. -/
def hexDigit? (c : Char) : Option Nat :=
  if '0' ≤ c ∧ c ≤ '9' then some (c.toNat - '0'.toNat)
  else if 'a' ≤ c ∧ c ≤ 'f' then some (c.toNat - 'a'.toNat + 10)
  else if 'A' ≤ c ∧ c ≤ 'F' then some (c.toNat - 'A'.toNat + 10)
  else none

/-- The UTF-16 unit that four hexadecimal digits write. -/
def hexUnit? (a b c d : Char) : Option Nat := do
  let a ← hexDigit? a
  let b ← hexDigit? b
  let c ← hexDigit? c
  let d ← hexDigit? d
  some (((a * 16 + b) * 16 + c) * 16 + d)

/-- The character that a backslash and `c` write. -/
def shortEscape? (c : Char) : Option Char :=
  if c = '"' ∨ c = '\\' ∨ c = '/' then some c
  else if c = 'b' then some '\x08'
  else if c = 'f' then some '\x0c'
  else if c = 'n' then some '\n'
  else if c = 'r' then some '\r'
  else if c = 't' then some '\t'
  else none

/-- Fewer than four characters after `\u`: the text ended if fewer than four bytes are left, else
one of the bytes is no hexadecimal digit. -/
def shortUnit (rest : List Char) : Error :=
  if (String.ofList rest).utf8ByteSize < 4 then .ended .string else .malformed .invalidEscape

/-- Reads a string from behind its opening quote; the rest is what follows its closing quote. -/
def scanString (p : Partial) : List Char → Reading String × List Char
  | [] => (p.fail (.ended .string) false, [])
  | '"' :: s => (p.close, s)
  | ['\\'] => (p.fail (.ended .string) false, [])
  | '\\' :: 'u' :: a :: b :: c :: d :: s =>
    match hexUnit? a b c d with
    | some n => scanString (p.pushUnit n) s
    | none => (p.fail (.malformed .invalidEscape) true, [])
  | '\\' :: 'u' :: s => (p.fail (shortUnit s) true, [])
  | '\\' :: c :: s =>
    match shortEscape? c with
    | some e => scanString (p.push e) s
    | none => (p.fail (.malformed .invalidEscape) false, [])
  | c :: s =>
    if c.toNat < 0x20 then (p.fail (.malformed .controlCharacter) false, [])
    else scanString (p.push c) s

/-! ## Numerals -/

/-- A digit is missing: a reader says that the text ended, if it did. -/
def missingDigit (s : List Char) : Reading Number :=
  .broken (if s.isEmpty then .ended .value else .malformed .invalidNumber)
    (.malformed .invalidNumber)

/-- A nonempty run of digits and what follows it. -/
def scanDigits (s : List Char) : Except (Reading Number) (List Char × List Char) :=
  if (s.takeWhile Char.isDigit).isEmpty then .error (missingDigit s)
  else .ok (s.takeWhile Char.isDigit, s.dropWhile Char.isDigit)

/-- The digits in front of the point: a zero stands alone. -/
def scanWhole (s : List Char) : Except (Reading Number) (List Char × List Char) := do
  let (ds, rest) ← scanDigits s
  match ds with
  | '0' :: _ :: _ => .error (.broken (.malformed .invalidNumber) (.malformed .invalidNumber))
  | _ => .ok (ds, rest)

/-- A point and digits, if a point stands here. -/
def scanFraction : List Char → Except (Reading Number) (Option (List Char) × List Char)
  | '.' :: s => do
    let (ds, rest) ← scanDigits s
    .ok (some ds, rest)
  | s => .ok (none, s)

/-- The sign in front of an exponent's digits, and the digits. -/
def exponentSign : List Char → Bool × List Char
  | '+' :: s => (false, s)
  | '-' :: s => (true, s)
  | s => (false, s)

/-- An exponent, if one stands here. -/
def scanExponent : List Char → Except (Reading Number) (Option Int × List Char)
  | [] => .ok (none, [])
  | c :: s =>
    if c = 'e' ∨ c = 'E' then do
      let (negative, s) := exponentSign s
      let (ds, rest) ← scanDigits s
      let n : Int := Nat.ofDigitChars 10 ds 0
      .ok (some (if negative then -n else n), rest)
    else .ok (none, c :: s)

/-- The parts of a numeral behind its sign. -/
def scanUnsigned (negative : Bool) (s : List Char) :
    Except (Reading Number) (Numeral × List Char) := do
  let (whole, s) ← scanWhole s
  let (fraction, s) ← scanFraction s
  let (exponent, s) ← scanExponent s
  .ok (⟨negative, whole, fraction, exponent⟩, s)

/-- Reads a numeral; a numeral without value is beyond the doubles. -/
def scanNumber (negative : Bool) (s : List Char) : Reading Number × List Char :=
  match scanUnsigned negative s with
  | .error r => (r, [])
  | .ok (n, rest) =>
    match n.value? with
    | some v => (.exact v, rest)
    | none => (.spelled (.error (.malformed .numberOutOfRange)), rest)

/-! ## Texts -/

/-- The first token of a text that starts with `c`, and what follows it; nothing follows a token at
which the text goes wrong. -/
def scanToken (c : Char) (s : List Char) : Token × List Char :=
  let word (rest : List Char) (t : Token) : Token × List Char :=
    match spell rest s with
    | .ok s' => (t, s')
    | .error e => (.misspelled e, [])
  match c with
  | '[' => (.openBracket, s)
  | ']' => (.closeBracket, s)
  | '{' => (.openBrace, s)
  | '}' => (.closeBrace, s)
  | ',' => (.comma, s)
  | ':' => (.colon, s)
  | 'n' => word ['u', 'l', 'l'] .null
  | 't' => word ['r', 'u', 'e'] (.boolean true)
  | 'f' => word ['a', 'l', 's', 'e'] (.boolean false)
  | '"' => ((scanString .start s).map .string id)
  | '-' => ((scanNumber true s).map .number id)
  | c =>
    if c.isDigit then ((scanNumber false (c :: s)).map .number id)
    else (.stray, [])

/-! ### What follows a token is shorter than the text -/

theorem spell_length {word s rest : List Char} (h : spell word s = .ok rest) :
    rest.length ≤ s.length := by
  fun_induction spell word s with
  | case1 s => simp_all
  | case2 => simp at h
  | case3 w ws s ih => exact Nat.le_succ_of_le (ih h)
  | case4 => simp at h

theorem scanString_length (p : Partial) (s : List Char) :
    (scanString p s).2.length ≤ s.length := by
  fun_induction scanString p s <;> simp_all <;> omega

theorem scanDigits_length {s ds rest : List Char} (h : scanDigits s = .ok (ds, rest)) :
    rest.length < s.length := by
  unfold scanDigits at h
  split at h
  · simp at h
  · next hne =>
    obtain ⟨rfl, rfl⟩ := Prod.mk.inj (Except.ok.inj h)
    have hlen := congrArg List.length (List.takeWhile_append_dropWhile (p := Char.isDigit) (l := s))
    have hpos : 0 < (s.takeWhile Char.isDigit).length := by
      simpa [List.length_pos_iff] using hne
    simp only [List.length_append] at hlen
    omega

theorem scanWhole_length {s ds rest : List Char} (h : scanWhole s = .ok (ds, rest)) :
    rest.length < s.length := by
  unfold scanWhole at h
  cases hd : scanDigits s with
  | error e => simp [hd, bind, Except.bind] at h
  | ok r =>
    obtain ⟨ds', rest'⟩ := r
    simp only [hd, bind, Except.bind] at h
    split at h
    · simp at h
    · obtain ⟨rfl, rfl⟩ := Prod.mk.inj (Except.ok.inj h)
      exact scanDigits_length hd

theorem scanFraction_length {s rest : List Char} {f : Option (List Char)}
    (h : scanFraction s = .ok (f, rest)) : rest.length ≤ s.length := by
  unfold scanFraction at h
  split at h
  · next s =>
    cases hd : scanDigits s with
    | error e => simp [hd, bind, Except.bind] at h
    | ok r =>
      obtain ⟨ds, rest'⟩ := r
      simp only [hd, bind, Except.bind] at h
      obtain ⟨_, rfl⟩ := Prod.mk.inj (Except.ok.inj h)
      have := scanDigits_length hd
      simp only [List.length_cons]
      omega
  · obtain ⟨_, rfl⟩ := Prod.mk.inj (Except.ok.inj h)
    exact Nat.le_refl _

theorem exponentSign_length (s : List Char) : (exponentSign s).2.length ≤ s.length := by
  unfold exponentSign
  split <;> simp

theorem scanExponent_length {s rest : List Char} {e : Option Int}
    (h : scanExponent s = .ok (e, rest)) : rest.length ≤ s.length := by
  unfold scanExponent at h
  split at h
  · obtain ⟨_, rfl⟩ := Prod.mk.inj (Except.ok.inj h)
    exact Nat.le_refl _
  · next c s =>
    split at h
    · have hs := exponentSign_length s
      cases hd : scanDigits (exponentSign s).2 with
      | error e => simp [hd, bind, Except.bind] at h
      | ok r =>
        obtain ⟨ds, rest'⟩ := r
        simp only [hd, bind, Except.bind] at h
        obtain ⟨_, rfl⟩ := Prod.mk.inj (Except.ok.inj h)
        have := scanDigits_length hd
        simp only [List.length_cons]
        omega
    · obtain ⟨_, rfl⟩ := Prod.mk.inj (Except.ok.inj h)
      exact Nat.le_refl _

theorem scanUnsigned_length {negative : Bool} {s rest : List Char} {n : Numeral}
    (h : scanUnsigned negative s = .ok (n, rest)) : rest.length < s.length := by
  unfold scanUnsigned at h
  cases hw : scanWhole s with
  | error e => simp [hw, bind, Except.bind] at h
  | ok w =>
    cases hf : scanFraction w.2 with
    | error e => simp [hw, hf, bind, Except.bind] at h
    | ok f =>
      cases he : scanExponent f.2 with
      | error e => simp [hw, hf, he, bind, Except.bind] at h
      | ok e =>
        simp only [hw, hf, he, bind, Except.bind] at h
        obtain ⟨_, rfl⟩ := Prod.mk.inj (Except.ok.inj h)
        have h1 := scanWhole_length hw
        have h2 := scanFraction_length hf
        have h3 := scanExponent_length he
        omega

/-- A numeral takes at least one character, if there is any. -/
theorem scanNumber_length (negative : Bool) (c : Char) (s : List Char) :
    (scanNumber negative (c :: s)).2.length ≤ s.length := by
  unfold scanNumber
  split
  · simp
  · next n rest h =>
    have := scanUnsigned_length h
    simp only [List.length_cons] at this
    split <;> simp only <;> omega

theorem scanToken_length (c : Char) (s : List Char) :
    (scanToken c s).2.length ≤ s.length := by
  have word : ∀ (w : List Char) (t : Token),
      (match spell w s with
        | .ok s' => (t, s')
        | .error e => (Token.misspelled e, [])).2.length ≤ s.length := by
    intro w t
    split
    · next h => exact spell_length h
    · simp
  unfold scanToken
  split
  · exact Nat.le_refl _
  · exact Nat.le_refl _
  · exact Nat.le_refl _
  · exact Nat.le_refl _
  · exact Nat.le_refl _
  · exact Nat.le_refl _
  · exact word _ _
  · exact word _ _
  · exact word _ _
  · exact scanString_length _ _
  · cases s with
    | nil => simp [scanNumber, scanUnsigned, scanWhole, scanDigits, bind, Except.bind]
    | cons d s => exact Nat.le_succ_of_le (scanNumber_length _ _ _)
  · split
    · exact scanNumber_length _ _ _
    · simp

/-- The tokens of a text. -/
def tokens : List Char → List Token
  | [] => []
  | c :: s =>
    if isSpace c then tokens s
    else (scanToken c s).1 :: tokens (scanToken c s).2
termination_by s => s.length
decreasing_by
  · simp
  · exact Nat.lt_succ_of_le (scanToken_length c s)

end SpendTrace.Json
