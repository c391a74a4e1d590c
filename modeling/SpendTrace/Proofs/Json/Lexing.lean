import SpendTrace.Json.Token
import SpendTrace.Json.Value

/-!
# What lexes to a token

A piece of text lexes to a token if the tokens of any text that starts with it are that token and
those of the rest. Only a numeral needs to know what follows: it would swallow a digit.

* `Lexes`: punctuation, words and strings are tokens whatever follows them.
* `tokens_integer`: an integer is a token where no numeral could go on (`EndsNumeral`).
-/

namespace SpendTrace.Json

/-- A piece of text that is the token `t`. -/
def Lexes (piece : List Char) (t : Token) : Prop :=
  ∀ rest, tokens (piece ++ rest) = t :: tokens rest

/-- A text that does not go on with a numeral in front of it. -/
def EndsNumeral (s : List Char) : Prop :=
  ∀ c ∈ s.head?, c.isDigit = false ∧ c ≠ '.' ∧ c ≠ 'e' ∧ c ≠ 'E'

theorem endsNumeral_nil : EndsNumeral [] := by
  intro c hc
  cases hc

theorem endsNumeral_cons {c : Char} (s : List Char)
    (h : c.isDigit = false ∧ c ≠ '.' ∧ c ≠ 'e' ∧ c ≠ 'E') : EndsNumeral (c :: s) := by
  intro d hd
  cases hd
  exact h

theorem tokens_cons {c : Char} (h : isSpace c = false) (s : List Char) :
    tokens (c :: s) = (scanToken c s).1 :: tokens (scanToken c s).2 := by
  rw [tokens, h]
  simp

/-- A piece is a token if one scan says so. -/
theorem lexes_of_scanToken {c : Char} {piece : List Char} {t : Token} (hc : isSpace c = false)
    (h : ∀ rest, scanToken c (piece ++ rest) = (t, rest)) : Lexes (c :: piece) t := by
  intro rest
  rw [List.cons_append, tokens_cons hc, h rest]

theorem Lexes.cons {c : Char} {t : Token} (h : Lexes [c] t) (rest : List Char) :
    tokens (c :: rest) = t :: tokens rest :=
  h rest

/-! ## Punctuation and words -/

theorem lexes_openBracket : Lexes ['['] .openBracket :=
  lexes_of_scanToken rfl fun _ => rfl

theorem lexes_closeBracket : Lexes [']'] .closeBracket :=
  lexes_of_scanToken rfl fun _ => rfl

theorem lexes_openBrace : Lexes ['{'] .openBrace :=
  lexes_of_scanToken rfl fun _ => rfl

theorem lexes_closeBrace : Lexes ['}'] .closeBrace :=
  lexes_of_scanToken rfl fun _ => rfl

theorem lexes_comma : Lexes [','] .comma :=
  lexes_of_scanToken rfl fun _ => rfl

theorem lexes_colon : Lexes [':'] .colon :=
  lexes_of_scanToken rfl fun _ => rfl

theorem lexes_null : Lexes ['n', 'u', 'l', 'l'] .null :=
  lexes_of_scanToken rfl fun _ => rfl

theorem lexes_true : Lexes ['t', 'r', 'u', 'e'] (.boolean true) :=
  lexes_of_scanToken rfl fun _ => rfl

theorem lexes_false : Lexes ['f', 'a', 'l', 's', 'e'] (.boolean false) :=
  lexes_of_scanToken rfl fun _ => rfl

/-! ## Strings -/

/-- A string of which these characters have been read, latest first. -/
def Partial.reached (before : List Char) : Partial := ⟨.ok before, none⟩

/-- The two digits of a control character spell it. -/
theorem hexUnit?_control : ∀ n < 0x20,
    hexUnit? '0' '0' (Nat.digitChar (n / 16)) (Nat.digitChar (n % 16)) = some n := by
  decide

/-- No character is a surrogate. -/
theorem toNat_not_surrogate (c : Char) : c.toNat < 0xD800 ∨ 0xDFFF < c.toNat :=
  c.valid.imp_right And.left

theorem pushUnit_toNat (before : List Char) (c : Char) :
    (Partial.reached before).pushUnit c.toNat = .reached (c :: before) := by
  have hvalid := toNat_not_surrogate c
  have hlow : ¬(0xDC00 ≤ c.toNat ∧ c.toNat ≤ 0xDFFF) := by omega
  have hhigh : ¬(0xD800 ≤ c.toNat ∧ c.toNat ≤ 0xDBFF) := by omega
  simp [Partial.pushUnit, Partial.reached, hlow, hhigh, Char.ofNat_toNat, Except.map]

/-- A character that needs no escape. -/
theorem scanString_plain (p : Partial) (s : List Char) {c : Char} (hquote : c ≠ '"')
    (hback : c ≠ '\\') (hcontrol : ¬c.toNat < 0x20) :
    scanString p (c :: s) = scanString (p.push c) s := by
  rw [scanString]
  · rw [if_neg hcontrol]
  all_goals simp_all

/-- Reading a written character gives the character. -/
theorem scanString_escapedChar (before : List Char) (c : Char) (s : List Char) :
    scanString (.reached before) (escapedChar c ++ s) = scanString (.reached (c :: before)) s := by
  -- One case for each way in which a character is written.
  unfold escapedChar
  split
  · next hc => rw [hc]; rfl
  split
  · next hc => rw [hc]; rfl
  split
  · next hc => rw [hc]; rfl
  split
  · next hc => rw [hc]; rfl
  split
  · next hc => rw [hc]; rfl
  split
  · next hc => rw [hc]; rfl
  split
  · next hc => rw [hc]; rfl
  split
  · next hcontrol =>
    have hunit := hexUnit?_control c.toNat hcontrol
    simp only [List.cons_append, List.nil_append]
    rw [scanString, hunit]
    exact congrArg (scanString · s) (pushUnit_toNat before c)
  · next hquote hback _ _ _ _ _ hcontrol =>
    exact scanString_plain (.reached before) s hquote hback hcontrol

/-- A written string is read back up to its closing quote. -/
theorem scanString_flatMap (before cs rest : List Char) :
    scanString (.reached before) (cs.flatMap escapedChar ++ '"' :: rest) =
      (.exact (String.ofList (before.reverse ++ cs)), rest) := by
  induction cs generalizing before with
  | nil =>
    rw [List.flatMap_nil, List.nil_append, scanString, List.append_nil]
    rfl
  | cons c cs ih =>
    rw [List.flatMap_cons, List.append_assoc, scanString_escapedChar, ih, List.reverse_cons,
      List.append_assoc, List.singleton_append]

theorem lexes_stringText (s : String) : Lexes (stringText s) (.string (.exact s)) := by
  refine lexes_of_scanToken rfl fun rest => ?_
  have hscan := scanString_flatMap [] s.toList rest
  rw [List.reverse_nil, List.nil_append, String.ofList_toList] at hscan
  have hpiece : (s.toList.flatMap escapedChar ++ ['"']) ++ rest =
      s.toList.flatMap escapedChar ++ '"' :: rest := by
    rw [List.append_assoc, List.singleton_append]
  show ((scanString (.reached []) ((s.toList.flatMap escapedChar ++ ['"']) ++ rest)).map
    Token.string id) = _
  rw [hpiece, hscan]
  rfl

/-! ## Integers -/

theorem digitChar_eq_zero : ∀ n < 10, Nat.digitChar n = '0' → n = 0 := by
  decide

/-- Only zero is written with a zero in front. -/
theorem eq_zero_of_head?_digits (n : Nat) (h : (Text.digits n).head? = some '0') : n = 0 := by
  induction n using Nat.strongRecOn with
  | ind n ih =>
    by_cases hn : n < 10
    · rw [Text.digits, Nat.toDigits_of_lt_base hn, List.head?_singleton, Option.some.injEq] at h
      exact digitChar_eq_zero n hn h
    · -- The digits of `n / 10` stand in front, so they begin with the same zero.
      have hlt : n / 10 < n := Nat.div_lt_self (by omega) (by decide)
      have hpos : n / 10 ≠ 0 := by omega
      obtain ⟨c, ds, hds⟩ := List.exists_cons_of_ne_nil (Text.digits_ne_nil (n / 10))
      rw [Text.digits, Nat.toDigits_of_base_le (by decide) (Nat.le_of_not_lt hn)] at h
      refine absurd (ih (n / 10) hlt ?_) hpos
      rw [← Text.digits, hds] at h
      rw [hds]
      exact h

/-- A run of digits ends where something else stands. -/
theorem scanDigits_append {ds rest : List Char} (hne : ds ≠ [])
    (hall : ∀ c ∈ ds, c.isDigit = true) (h : ∀ c ∈ rest.head?, c.isDigit = false) :
    scanDigits (ds ++ rest) = .ok (ds, rest) := by
  have hnone : rest.takeWhile Char.isDigit = [] ∧ rest.dropWhile Char.isDigit = rest := by
    cases rest with
    | nil => exact ⟨rfl, rfl⟩
    | cons c s => simp [h c rfl]
  have htake : (ds ++ rest).takeWhile Char.isDigit = ds := by
    rw [List.takeWhile_append_of_pos hall, hnone.1, List.append_nil]
  have hdrop : (ds ++ rest).dropWhile Char.isDigit = rest := by
    rw [List.dropWhile_append_of_pos hall, hnone.2]
  rw [scanDigits, htake, hdrop]
  simp [hne]

/-- The digits in front of the point: a zero in front must stand alone. -/
theorem scanWhole_append {ds rest : List Char} (hne : ds ≠ [])
    (hall : ∀ c ∈ ds, c.isDigit = true) (hzero : ds.head? = some '0' → ds = ['0'])
    (h : ∀ c ∈ rest.head?, c.isDigit = false) : scanWhole (ds ++ rest) = .ok (ds, rest) := by
  unfold scanWhole
  rw [scanDigits_append hne hall h]
  simp only [bind, Except.bind]
  split
  · cases hzero rfl
  · rfl

theorem scanFraction_none {s : List Char} (h : s.head? ≠ some '.') :
    scanFraction s = .ok (none, s) := by
  unfold scanFraction
  split
  · exact absurd rfl h
  · rfl

theorem scanExponent_none {s : List Char} (h : EndsNumeral s) :
    scanExponent s = .ok (none, s) := by
  cases s with
  | nil => rfl
  | cons c s =>
    obtain ⟨-, -, he, hE⟩ := h c rfl
    simp [scanExponent, he, hE]

theorem scanUnsigned_digits (negative : Bool) (n : Nat) {rest : List Char} (h : EndsNumeral rest) :
    scanUnsigned negative (Text.digits n ++ rest) =
      .ok (⟨negative, Text.digits n, none, none⟩, rest) := by
  have hzero : (Text.digits n).head? = some '0' → Text.digits n = ['0'] := by
    intro hhead
    rw [eq_zero_of_head?_digits n hhead]
    rfl
  have hwhole : scanWhole (Text.digits n ++ rest) = .ok (Text.digits n, rest) :=
    scanWhole_append (Text.digits_ne_nil n) (fun _ => Text.isDigit_of_mem_digits) hzero
      fun c hc => (h c hc).1
  have hfraction : scanFraction rest = .ok (none, rest) :=
    scanFraction_none fun hhead => (h '.' hhead).2.1 rfl
  unfold scanUnsigned
  rw [hwhole]
  simp only [bind, Except.bind, hfraction, scanExponent_none h]

/-- The digits of an integer with its sign, as a numeral. -/
theorem value?_digits (negative : Bool) (n : Nat) {i : Int} (hi : InWord i)
    (hsign : i = if negative then -(n : Int) else n) (hzero : negative = true → n ≠ 0) :
    Numeral.value? ⟨negative, Text.digits n, none, none⟩ = some (.integer i hi) := by
  have hn : Nat.ofDigitChars 10 (Text.digits n) 0 = n := Nat.ofDigitChars_ten_toDigits
  subst hsign
  simp only [Numeral.value?, hn]
  exact dif_pos ⟨hi, hzero⟩

theorem scanNumber_digits (negative : Bool) (n : Nat) {i : Int} (hi : InWord i)
    (hsign : i = if negative then -(n : Int) else n) (hzero : negative = true → n ≠ 0)
    {rest : List Char} (h : EndsNumeral rest) :
    scanNumber negative (Text.digits n ++ rest) = (.exact (.integer i hi), rest) := by
  rw [scanNumber, scanUnsigned_digits negative n h]
  simp only [value?_digits negative n hi hsign hzero]

theorem isSpace_of_isDigit {c : Char} (h : c.isDigit = true) : isSpace c = false := by
  unfold isSpace
  simp only [Bool.or_eq_false_iff, beq_eq_false_iff_ne]
  refine ⟨⟨⟨?_, ?_⟩, ?_⟩, ?_⟩
  all_goals
    rintro rfl
    cases h

/-- A digit starts a numeral. -/
theorem scanToken_of_isDigit {c : Char} (h : c.isDigit = true) (s : List Char) :
    scanToken c s = (scanNumber false (c :: s)).map .number id := by
  unfold scanToken
  split
  case h_12 => rw [if_pos h]
  all_goals cases h

theorem tokens_integer {i : Int} (hi : InWord i) {rest : List Char} (h : EndsNumeral rest) :
    tokens (Text.integer i ++ rest) = .number (.exact (.integer i hi)) :: tokens rest := by
  unfold Text.integer
  split
  · next hneg =>
    have hsign : i = -(i.natAbs : Int) := by omega
    have hscan := scanNumber_digits true i.natAbs hi hsign (by omega) h
    have htoken : scanToken '-' (Text.digits i.natAbs ++ rest) =
        (scanNumber true (Text.digits i.natAbs ++ rest)).map .number id := rfl
    rw [List.cons_append, tokens_cons rfl, htoken, hscan]
    rfl
  · next hpos =>
    have hsign : i = (i.natAbs : Int) := by omega
    have hscan := scanNumber_digits false i.natAbs hi hsign nofun h
    obtain ⟨c, ds, hds⟩ := List.exists_cons_of_ne_nil (Text.digits_ne_nil i.natAbs)
    have hc : c.isDigit = true := Text.isDigit_of_mem_digits (hds ▸ List.mem_cons_self)
    rw [hds, List.cons_append] at hscan ⊢
    rw [tokens_cons (isSpace_of_isDigit hc), scanToken_of_isDigit hc, hscan]
    rfl

end SpendTrace.Json
