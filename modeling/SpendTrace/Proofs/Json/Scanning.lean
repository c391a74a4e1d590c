import SpendTrace.Proofs.Json.Form

/-!
# What the scanner lets pass

The scanner lets no more pass than the spellings: where it finds a token that can be skipped, a
piece of the text spells that token.

* `Lexeme`: the pieces that spell a token.
* `scanString_spelled`, `scanNumber_spelled`: strings and numerals.
* `taken_scanToken`: what is taken off a text is a lexeme of its token, or the text stops there.
-/

namespace SpendTrace.Json

/-! ## Strings -/

theorem Partial.skip_fail (p : Partial) (e : Error) (inUnit : Bool) :
    (p.fail e inUnit).skip = .error e := by
  unfold Partial.fail
  split
  · rfl
  · split <;> rfl

theorem Partial.skip_fail_ne_ok {p : Partial} {e : Error} {inUnit : Bool} {s : List Char} :
    (p.fail e inUnit, s).1.skip ≠ .ok () := by
  rw [Partial.skip_fail]
  nofun

theorem toNat_digitChar : ∀ n < 10, (Nat.digitChar n).toNat = n + 48 := by
  decide

theorem toNat_digitChar_lower : ∀ n < 6, (Nat.digitChar (n + 10)).toNat = n + 97 := by
  decide

theorem toNat_digitChar_upper : ∀ n < 6, (Nat.digitChar (n + 10)).toUpper.toNat = n + 65 := by
  decide

/-- Every character that is taken for a hexadecimal digit is one. -/
theorem exists_hexDigit {c : Char} {n : Nat} (h : hexDigit? c = some n) :
    ∃ digit : HexDigit, digit.char = c ∧ digit.value.val = n := by
  unfold hexDigit? at h
  split at h
  · next hdigit =>
    have hlow : 48 ≤ c.toNat := hdigit.1
    have hhigh : c.toNat ≤ 57 := hdigit.2
    have hchar := toNat_digitChar (c.toNat - 48) (by omega)
    obtain rfl : c.toNat - 48 = n := Option.some.inj h
    exact ⟨⟨⟨_, by omega⟩, false⟩, Char.toNat_inj.1 (hchar.trans (by omega)), rfl⟩
  · split at h
    · next hlower =>
      have hlow : 97 ≤ c.toNat := hlower.1
      have hhigh : c.toNat ≤ 102 := hlower.2
      have hchar := toNat_digitChar_lower (c.toNat - 97) (by omega)
      obtain rfl : c.toNat - 97 + 10 = n := Option.some.inj h
      exact ⟨⟨⟨c.toNat - 97 + 10, by omega⟩, false⟩, Char.toNat_inj.1 (hchar.trans (by omega)), rfl⟩
    · split at h
      · next hupper =>
        have hlow : 65 ≤ c.toNat := hupper.1
        have hhigh : c.toNat ≤ 70 := hupper.2
        have hchar := toNat_digitChar_upper (c.toNat - 65) (by omega)
        obtain rfl : c.toNat - 65 + 10 = n := Option.some.inj h
        exact ⟨⟨⟨_, by omega⟩, true⟩, Char.toNat_inj.1 (hchar.trans (by omega)), rfl⟩
      · cases h

theorem exists_hexUnit {a b c d : Char} {n : Nat} (h : hexUnit? a b c d = some n) :
    ∃ unit : HexUnit, unit.chars = [a, b, c, d] ∧ unit.value = n := by
  simp only [hexUnit?, Option.bind_eq_bind, Option.bind_eq_some_iff] at h
  obtain ⟨i, hi, j, hj, k, hk, l, hl, hn⟩ := h
  obtain ⟨first, rfl, rfl⟩ := exists_hexDigit hi
  obtain ⟨second, rfl, rfl⟩ := exists_hexDigit hj
  obtain ⟨third, rfl, rfl⟩ := exists_hexDigit hk
  obtain ⟨fourth, rfl, rfl⟩ := exists_hexDigit hl
  exact ⟨⟨first, second, third, fourth⟩, rfl, Option.some.inj hn⟩

theorem mem_shortEscapes {c e : Char} (h : shortEscape? c = some e) : (c, e) ∈ shortEscapes := by
  unfold shortEscape? at h
  split at h
  · next hself =>
    obtain rfl := Option.some.inj h
    rcases hself with rfl | rfl | rfl <;> decide
  -- The letters one by one.
  repeat' split at h
  all_goals first
    | cases h; done
    | obtain rfl := Option.some.inj h
      subst_vars
      decide

/-- A string that can be skipped was spelled. -/
theorem scanString_spelled (p : Partial) (s : List Char)
    (h : (scanString p s).1.skip = .ok ()) :
    ∃ parts : List StringPart, s = parts.flatMap StringPart.chars ++ '"' :: (scanString p s).2 ∧
      (scanString p s).1 = (parts.foldl Partial.add p).close := by
  fun_induction scanString p s with
  | case1 | case3 | case5 | case6 | case8 | case9 => exact absurd h Partial.skip_fail_ne_ok
  | case2 p s => exact ⟨[], rfl, rfl⟩
  | case4 p a b c d s n hn ih =>
    obtain ⟨unit, hchars, rfl⟩ := exists_hexUnit hn
    obtain ⟨parts, hs, hclose⟩ := ih h
    refine ⟨.unit unit :: parts, ?_, hclose⟩
    rw [List.flatMap_cons, StringPart.chars, hchars, List.append_assoc, ← hs]
    rfl
  | case7 p c s _ _ e he ih =>
    obtain ⟨parts, hs, hclose⟩ := ih h
    refine ⟨.short (c, e) (mem_shortEscapes he) :: parts, ?_, hclose⟩
    rw [List.flatMap_cons, List.append_assoc, ← hs]
    rfl
  | case10 p c s hquote hend _ _ hescape hcontrol ih =>
    have hback : c ≠ '\\' := by
      intro hc
      cases s with
      | nil => exact hend hc rfl
      | cons d s => exact hescape d s hc rfl
    obtain ⟨parts, hs, hclose⟩ := ih h
    refine ⟨.plain c ⟨hquote, hback, Nat.le_of_not_lt hcontrol⟩ :: parts, ?_, hclose⟩
    rw [List.flatMap_cons, List.append_assoc, ← hs]
    rfl

/-! ## Numerals -/

/-- Where the scan fails, nothing can be skipped; else what was scanned and what follows it are
related. -/
def Scans {α : Type} (x : Except (Reading Number) (α × List Char))
    (Spelled : α → List Char → Prop) : Prop :=
  match x with
  | .error r => ∃ e, r.skip = .error e
  | .ok (a, rest) => Spelled a rest

theorem Scans.bind {α β : Type} {x : Except (Reading Number) (α × List Char)}
    {f : α × List Char → Except (Reading Number) (β × List Char)} {P : α → List Char → Prop}
    {Q : β → List Char → Prop} (hx : Scans x P)
    (hf : ∀ a rest, P a rest → Scans (f (a, rest)) Q) : Scans (x >>= f) Q := by
  cases x with
  | error r => exact hx
  | ok scanned => exact hf scanned.1 scanned.2 hx

theorem scanDigits_spelled (s : List Char) :
    Scans (scanDigits s) fun ds rest => ∃ digits : Digits, digits.chars = ds ∧ s = ds ++ rest := by
  unfold scanDigits
  split
  · exact ⟨_, rfl⟩
  · next hne =>
    have hne : s.takeWhile Char.isDigit ≠ [] := fun hnil => hne (List.isEmpty_iff.2 hnil)
    refine ⟨⟨_, hne, List.all_eq_true.1 List.all_takeWhile⟩, rfl, ?_⟩
    exact List.takeWhile_append_dropWhile.symm

theorem scanWhole_spelled (s : List Char) :
    Scans (scanWhole s) fun ds rest => ∃ digits : Digits, digits.chars = ds ∧
      (ds.head? = some '0' → ds = ['0']) ∧ s = ds ++ rest := by
  refine (scanDigits_spelled s).bind ?_
  rintro ds rest ⟨digits, hdigits, hs⟩
  dsimp only
  split
  · exact ⟨_, rfl⟩
  · next hzero =>
    refine ⟨digits, hdigits, fun hhead => ?_, hs⟩
    obtain ⟨cs, rfl⟩ := List.head?_eq_some_iff.1 hhead
    cases cs with
    | nil => rfl
    | cons c cs => exact absurd rfl (hzero c cs)

theorem scanFraction_spelled (s : List Char) :
    Scans (scanFraction s) fun o rest => ∃ fraction : Option Digits,
      fraction.map Digits.chars = o ∧ s = NumeralText.fractionChars fraction ++ rest := by
  unfold scanFraction
  split
  · next s =>
    refine (scanDigits_spelled s).bind ?_
    rintro ds rest ⟨digits, rfl, rfl⟩
    exact ⟨some digits, rfl, rfl⟩
  · exact ⟨none, rfl, rfl⟩

/-- Whether a sign makes a number negative. -/
def Sign.isMinus : Option Sign → Bool
  | some .minus => true
  | _ => false

theorem exponentSign_spelled (s : List Char) :
    ∃ sign : Option Sign, s = sign.toList.map Sign.char ++ (exponentSign s).2 ∧
      (exponentSign s).1 = Sign.isMinus sign := by
  unfold exponentSign
  split
  · exact ⟨some .plus, rfl, rfl⟩
  · exact ⟨some .minus, rfl, rfl⟩
  · exact ⟨none, rfl, rfl⟩

theorem ExponentText.value_eq (e : ExponentText) :
    e.value = if Sign.isMinus e.sign then -(Nat.ofDigitChars 10 e.digits.chars 0 : Int)
      else Nat.ofDigitChars 10 e.digits.chars 0 := by
  unfold ExponentText.value
  rcases e.sign with _ | _ | _ <;> rfl

theorem scanExponent_spelled (s : List Char) :
    Scans (scanExponent s) fun o rest => ∃ exponent : Option ExponentText,
      exponent.map ExponentText.value = o ∧ s = NumeralText.exponentChars exponent ++ rest := by
  unfold scanExponent
  split
  · exact ⟨none, rfl, rfl⟩
  · next c s =>
    split
    · next hmark =>
      obtain ⟨sign, hsign, hminus⟩ := exponentSign_spelled s
      refine (scanDigits_spelled (exponentSign s).2).bind ?_
      rintro ds rest ⟨digits, rfl, hs⟩
      refine ⟨some ⟨decide (c = 'E'), sign, digits⟩, ?_, ?_⟩
      · rw [Option.map_some, ExponentText.value_eq, ← hminus]
        rfl
      · have hupper : (if decide (c = 'E') = true then 'E' else 'e') = c := by
          rcases hmark with rfl | rfl <;> rfl
        simp only [NumeralText.exponentChars, ExponentText.chars, hupper, List.cons_append,
          List.append_assoc]
        rw [← hs, ← hsign]
    · exact ⟨none, rfl, rfl⟩

theorem scanUnsigned_spelled (negative : Bool) (s : List Char) :
    Scans (scanUnsigned negative s) fun parts rest => ∃ n : NumeralText,
      n.negative = negative ∧ n.numeral = parts ∧ s = n.unsignedChars ++ rest := by
  refine (scanWhole_spelled s).bind ?_
  rintro _ s₁ ⟨whole, rfl, halone, rfl⟩
  refine (scanFraction_spelled s₁).bind ?_
  rintro _ s₂ ⟨fraction, rfl, rfl⟩
  refine (scanExponent_spelled s₂).bind ?_
  rintro _ s₃ ⟨exponent, rfl, rfl⟩
  refine ⟨⟨negative, whole, halone, fraction, exponent⟩, rfl, rfl, ?_⟩
  rw [NumeralText.unsignedChars, List.append_assoc, List.append_assoc]

/-- A numeral that can be skipped was spelled. -/
theorem scanNumber_spelled (negative : Bool) (s : List Char)
    (h : (scanNumber negative s).1.skip = .ok ()) :
    ∃ n : NumeralText, n.negative = negative ∧ s = n.unsignedChars ++ (scanNumber negative s).2 ∧
      (scanNumber negative s).1 = n.reading := by
  have hscans := scanUnsigned_spelled negative s
  unfold scanNumber at h ⊢
  cases hscan : scanUnsigned negative s with
  | error r =>
    rw [hscan] at hscans
    obtain ⟨e, he⟩ := hscans
    simp only [hscan, he] at h
    cases h
  | ok scanned =>
    obtain ⟨parts, rest⟩ := scanned
    rw [hscan] at hscans
    obtain ⟨n, hnegative, rfl, hs⟩ := hscans
    refine ⟨n, hnegative, ?_⟩
    dsimp only
    unfold NumeralText.reading
    cases n.numeral.value? with
    | none => exact ⟨hs, rfl⟩
    | some v => exact ⟨hs, rfl⟩

/-! ## Tokens -/

/-- The piece spells a token that can be skipped. -/
inductive Lexeme : List Char → Token → Prop where
  | openBracket : Lexeme ['['] .openBracket
  | closeBracket : Lexeme [']'] .closeBracket
  | openBrace : Lexeme ['{'] .openBrace
  | closeBrace : Lexeme ['}'] .closeBrace
  | comma : Lexeme [','] .comma
  | colon : Lexeme [':'] .colon
  | null : Lexeme ['n', 'u', 'l', 'l'] .null
  | true : Lexeme ['t', 'r', 'u', 'e'] (.boolean true)
  | false : Lexeme ['f', 'a', 'l', 's', 'e'] (.boolean false)
  | number (n : NumeralText) : Lexeme n.chars (.number n.reading)
  | string (s : StringText) : Lexeme s.chars (.string s.reading)

/-- The token ends whatever text it stands in. -/
inductive Token.Stops : Token → Prop where
  | misspelled (e : Error) : Stops (.misspelled e)
  | number {n : Reading Number} (h : n.skip ≠ .ok ()) : Stops (.number n)
  | string {s : Reading String} (h : s.skip ≠ .ok ()) : Stops (.string s)
  | stray : Stops .stray

theorem spell_spelled {word s rest : List Char} (h : spell word s = .ok rest) :
    s = word ++ rest := by
  fun_induction spell word s with
  | case1 s => exact Except.ok.inj h
  | case2 => cases h
  | case3 w ws s ih => rw [List.cons_append, ← ih h]
  | case4 => cases h

/-- What was taken off the text stops it, or was spelled there. -/
def Taken (s : List Char) (scanned : Token × List Char) : Prop :=
  scanned.1.Stops ∨ ∃ piece, Lexeme piece scanned.1 ∧ s = piece ++ scanned.2

theorem taken_word {c : Char} {word : List Char} {t : Token} (h : Lexeme (c :: word) t)
    (s : List Char) : Taken (c :: s) (match spell word s with
      | .ok s' => (t, s')
      | .error e => (.misspelled e, [])) := by
  cases hspell : spell word s with
  | error e => exact .inl (.misspelled e)
  | ok rest => exact .inr ⟨_, h, congrArg _ (spell_spelled hspell)⟩

theorem taken_string (s : List Char) :
    Taken ('"' :: s) ((scanString .start s).map .string id) := by
  by_cases hskip : (scanString .start s).1.skip = .ok ()
  · obtain ⟨parts, hs, hclose⟩ := scanString_spelled .start s hskip
    refine .inr ⟨StringText.chars ⟨parts⟩, ?_, ?_⟩
    · show Lexeme _ (.string (scanString .start s).1)
      rw [hclose]
      exact .string ⟨parts⟩
    · rw [StringText.chars, List.cons_append, List.append_assoc]
      exact congrArg _ hs
  · exact .inl (.string hskip)

theorem taken_number (negative : Bool) (s : List Char) :
    Taken (if negative then '-' :: s else s) ((scanNumber negative s).map .number id) := by
  by_cases hskip : (scanNumber negative s).1.skip = .ok ()
  · obtain ⟨n, rfl, hs, hreading⟩ := scanNumber_spelled negative s hskip
    refine .inr ⟨n.chars, ?_, ?_⟩
    · show Lexeme _ (.number (scanNumber n.negative s).1)
      rw [hreading]
      exact .number n
    · rw [NumeralText.chars]
      by_cases hnegative : n.negative = true
      · rw [if_pos hnegative, if_pos hnegative]
        exact congrArg _ hs
      · rw [if_neg hnegative, if_neg hnegative]
        exact hs
  · exact .inl (.number hskip)

/-- The first token of a text stops it, or was spelled there. -/
theorem taken_scanToken (c : Char) (s : List Char) : Taken (c :: s) (scanToken c s) := by
  unfold scanToken
  split
  · exact .inr ⟨_, .openBracket, rfl⟩
  · exact .inr ⟨_, .closeBracket, rfl⟩
  · exact .inr ⟨_, .openBrace, rfl⟩
  · exact .inr ⟨_, .closeBrace, rfl⟩
  · exact .inr ⟨_, .comma, rfl⟩
  · exact .inr ⟨_, .colon, rfl⟩
  · exact taken_word .null s
  · exact taken_word .true s
  · exact taken_word .false s
  · exact taken_string s
  · exact taken_number true s
  · dsimp only
    split
    · exact taken_number false _
    · exact .inl .stray

end SpendTrace.Json
