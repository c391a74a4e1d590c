import SpendTrace.Proofs.Json.BreakingOff
import SpendTrace.Proofs.Json.Written

/-!
# Beginnings of a written value

A written value that is cut anywhere spells what is left of its tree. The cut may go through a word,
an escape or a numeral, or between any two tokens; whatever containers are open then are broken off
there.

* `tokens_of_beginning_of_stringText`, `tokens_of_beginning_of_integer`: what is left of a token.
* `Value.CutsShort`: wherever the value stands, a beginning of it is what is left of its tree.
* `parse_of_beginning`: what a beginning spells.
-/

namespace SpendTrace.Json

/-- A beginning of two texts in a row ends inside the first, or has all of it. -/
theorem prefix_append_cases {α : Type} {p s t : List α} (h : p <+: s ++ t) :
    (p <+: s ∧ p ≠ s) ∨ ∃ r, p = s ++ r ∧ r <+: t := by
  obtain ⟨q, hq⟩ := h
  obtain ⟨as, hs, -⟩ | ⟨r, hp, ht⟩ := List.append_eq_append_iff.1 hq
  · by_cases hps : p = s
    · exact .inr ⟨[], by rw [hps, List.append_nil], List.nil_prefix⟩
    · exact .inl ⟨⟨as, hs.symm⟩, hps⟩
  · exact .inr ⟨r, hp, ⟨q, ht.symm⟩⟩

/-- Anything but white space is a token. -/
theorem tokens_ne_nil {s : List Char} (h : ∃ c ∈ s, isSpace c = false) : tokens s ≠ [] := by
  obtain ⟨c, hc, hspace⟩ := h
  induction s with
  | nil => cases hc
  | cons d s ih =>
    cases hd : isSpace d with
    | false =>
      rw [tokens_cons hd]
      nofun
    | true =>
      rw [tokens, if_pos hd]
      obtain rfl | hc := List.mem_cons.1 hc
      · cases hd.symm.trans hspace
      · exact ih hc

/-! ## Words -/

theorem spell_of_beginning {word p : List Char} (hp : p <+: word) (hne : p ≠ word) :
    spell word p = .error (.ended .value) := by
  induction word generalizing p with
  | nil => exact absurd (List.prefix_nil.1 hp) hne
  | cons w word ih =>
    obtain rfl | ⟨r, rfl, hr⟩ := List.prefix_cons_iff.1 hp
    · rfl
    · rw [spell, if_pos rfl]
      exact ih hr fun h => hne (congrArg _ h)

theorem tokens_of_beginning_of_word {c : Char} {word p : List Char} (hc : isSpace c = false)
    (hscan : ∀ s e, spell word s = .error e → scanToken c s = (.misspelled e, []))
    (hp : p <+: c :: word) (hne : p ≠ c :: word) (hnil : p ≠ []) :
    tokens p = [.misspelled (.ended .value)] := by
  obtain rfl | ⟨r, rfl, hr⟩ := List.prefix_cons_iff.1 hp
  · exact absurd rfl hnil
  · have hspell := spell_of_beginning hr fun h => hne (congrArg _ h)
    rw [tokens_cons hc, hscan r _ hspell, tokens]

/-! ## Strings -/

/-- A string that ends before its closing quote. -/
def openString : Reading String :=
  .broken (.ended .string) (.ended .string)

/-- The ways in which a character is written: after a backslash, as a unit, or as it is. -/
theorem escapedChar_cases (c : Char) : (∃ x, escapedChar c = ['\\', x]) ∨
    (c.toNat < 0x20 ∧ escapedChar c =
      ['\\', 'u', '0', '0', Nat.digitChar (c.toNat / 16), Nat.digitChar (c.toNat % 16)]) ∨
    escapedChar c = [c] := by
  unfold escapedChar
  repeat' split
  all_goals simp_all

/-- Of the four digits of a control character, up to three are left. -/
theorem shortUnit_control : ∀ n < 0x20, shortUnit [] = .ended .string ∧
    shortUnit ['0'] = .ended .string ∧ shortUnit ['0', '0'] = .ended .string ∧
    shortUnit ['0', '0', Nat.digitChar (n / 16)] = .ended .string := by
  decide

/-- A text that ends inside of a written character. -/
theorem scanString_of_beginning_of_escapedChar (before : List Char) {c : Char} {p : List Char}
    (hp : p <+: escapedChar c) (hne : p ≠ escapedChar c) :
    scanString (.reached before) p = (openString, []) := by
  obtain ⟨x, hc⟩ | ⟨hcontrol, hc⟩ | hc := escapedChar_cases c
  · rw [hc] at hp hne
    simp only [List.prefix_cons_iff, List.prefix_nil] at hp
    obtain rfl | ⟨_, rfl, rfl | ⟨_, rfl, rfl⟩⟩ := hp
    · rfl
    · rfl
    · exact absurd rfl hne
  · rw [hc] at hp hne
    simp only [List.prefix_cons_iff, List.prefix_nil] at hp
    have hunit {s rest : List Char} (h : shortUnit s = .ended .string) :
        ((Partial.reached before).fail (shortUnit s) true, rest) = (openString, rest) := by
      rw [h]
      rfl
    obtain ⟨h₀, h₁, h₂, h₃⟩ := shortUnit_control c.toNat hcontrol
    obtain rfl | ⟨_, rfl, rfl | ⟨_, rfl, rfl | ⟨_, rfl, rfl | ⟨_, rfl, rfl | ⟨_, rfl, rfl |
      ⟨_, rfl, rfl⟩⟩⟩⟩⟩⟩ := hp
    · rfl
    · rfl
    · exact hunit h₀
    · exact hunit h₁
    · exact hunit h₂
    · exact hunit h₃
    · exact absurd rfl hne
  · rw [hc] at hp hne
    simp only [List.prefix_cons_iff, List.prefix_nil] at hp
    obtain rfl | ⟨_, rfl, rfl⟩ := hp
    · rfl
    · exact absurd rfl hne

theorem scanString_of_beginning {cs before p : List Char} (hp : p <+: cs.flatMap escapedChar) :
    scanString (.reached before) p = (openString, []) := by
  induction cs generalizing before p with
  | nil =>
    rw [List.prefix_nil.1 hp]
    rfl
  | cons c cs ih =>
    obtain ⟨hp, hne⟩ | ⟨r, rfl, hr⟩ := prefix_append_cases hp
    · exact scanString_of_beginning_of_escapedChar before hp hne
    · rw [scanString_escapedChar]
      exact ih hr

/-- What is left of a string, if not nothing. -/
theorem tokens_of_beginning_of_stringText {s : String} {p : List Char} (hp : p <+: stringText s)
    (hne : p ≠ stringText s) (hnil : p ≠ []) : tokens p = [.string openString] := by
  obtain rfl | ⟨r, rfl, hr⟩ := List.prefix_cons_iff.1 hp
  · exact absurd rfl hnil
  · obtain rfl | hr := List.prefix_concat_iff.1 hr
    · exact absurd rfl hne
    · have hscan : scanToken '"' r = (.string openString, []) :=
        congrArg (Prod.map Token.string id) (scanString_of_beginning hr)
      rw [tokens_cons rfl, hscan, tokens]

/-! ## Integers -/

/-- What is left of a number's digits are the digits of a number no greater. -/
theorem exists_digits_of_beginning {n : Nat} {p : List Char} (hp : p <+: Text.digits n)
    (hnil : p ≠ []) : ∃ m ≤ n, p = Text.digits m ∧ (m = 0 → n = 0) := by
  induction n using Nat.strongRecOn with
  | ind n ih =>
    by_cases hn : n < 10
    · rw [Text.digits, Nat.toDigits_of_lt_base hn] at hp
      obtain rfl | ⟨r, rfl, hr⟩ := List.prefix_cons_iff.1 hp
      · exact absurd rfl hnil
      · rw [List.prefix_nil.1 hr]
        exact ⟨n, Nat.le_refl n, by rw [Text.digits, Nat.toDigits_of_lt_base hn], id⟩
    · have hdigits : Text.digits n = Text.digits (n / 10) ++ [Nat.digitChar (n % 10)] :=
        Nat.toDigits_of_base_le (by decide) (Nat.le_of_not_lt hn)
      rw [hdigits] at hp
      obtain rfl | hp := List.prefix_concat_iff.1 hp
      · exact ⟨n, Nat.le_refl n, hdigits.symm, id⟩
      · obtain ⟨m, hm, hpm, hzero⟩ := ih (n / 10) (by omega) hp
        exact ⟨m, by omega, hpm, fun h => by have := hzero h; omega⟩

/-- The sign of a number without its digits. -/
def openNumber : Reading Number :=
  .broken (.ended .value) (.malformed .invalidNumber)

theorem tokens_sign : tokens ['-'] = [.number openNumber] := by
  have hscan : scanToken '-' [] = (.number openNumber, []) := rfl
  rw [tokens_cons rfl, hscan, tokens]

/-- What is left of an integer, if not nothing: its sign, or an integer no further from zero. -/
theorem tokens_of_beginning_of_integer {i : Int} (hi : InWord i) {p : List Char}
    (hp : p <+: Text.integer i) (hnil : p ≠ []) : tokens p = [.number openNumber] ∨
      ∃ j, ∃ hj : InWord j, (0 ≤ i → 0 ≤ j ∧ j ≤ i) ∧
        tokens p = [.number (.exact (.integer j hj))] := by
  have htokens {j : Int} (hj : InWord j) :
      tokens (Text.integer j) = [.number (.exact (.integer j hj))] := by
    have h := tokens_integer hj endsNumeral_nil
    rwa [List.append_nil, tokens] at h
  unfold InWord at hi
  unfold Text.integer at hp
  split at hp
  · next hneg =>
    obtain rfl | ⟨r, rfl, hr⟩ := List.prefix_cons_iff.1 hp
    · exact absurd rfl hnil
    · by_cases hsign : r = []
      · rw [hsign]
        exact .inl tokens_sign
      · obtain ⟨m, hm, rfl, hzero⟩ := exists_digits_of_beginning hr hsign
        have hj : InWord (-(m : Int)) := by unfold InWord; omega
        have htext : Text.integer (-(m : Int)) = '-' :: Text.digits m := by
          rw [Text.integer, if_pos (by omega), Int.natAbs_neg, Int.natAbs_natCast]
        rw [← htext, htokens hj]
        exact .inr ⟨_, hj, by omega, rfl⟩
  · next hpos =>
    obtain ⟨m, hm, rfl, -⟩ := exists_digits_of_beginning hp hnil
    have hj : InWord (m : Int) := by unfold InWord; omega
    have htext : Text.integer (m : Int) = Text.digits m := by
      rw [Text.integer, if_neg (by omega), Int.natAbs_natCast]
    rw [← htext, htokens hj]
    exact .inr ⟨_, hj, by omega, rfl⟩

/-! ## Values -/

open Cursor (breakOff deliver)

/-- What was read is what is left of the tree, in containers that are broken off too. -/
def CutShort (t : Tree) (around : List Frame) (parsed : Parsed) : Prop :=
  ∃ whole t' stop, Cut whole t t' ∧ (whole = true → stop.Ends) ∧
    parsed = ⟨breakOff t' stop around, false⟩

/-- A text that ends behind a value has its containers broken off there. -/
theorem exists_finish_deliver (t : Tree) (around : List Frame) :
    ∃ stop, stop.Ends ∧ (deliver t around).finish = breakOff t stop around := by
  cases around with
  | nil => exact ⟨.same (.ended .value), ⟨_, rfl⟩, rfl⟩
  | cons frame around =>
    cases frame with
    | item before => exact ⟨.same (.ended .list), ⟨_, rfl⟩, rfl⟩
    | member before key => exact ⟨.same (.ended .object), ⟨_, rfl⟩, rfl⟩

theorem cutShort_nil (t : Tree) (around : List Frame) :
    CutShort t around (readTokens (.value around) (tokens [])) := by
  rw [tokens, readTokens_nil]
  exact ⟨false, _, _, .broken .missing, by simp, rfl⟩

namespace Value

/-- Wherever the value stands, a beginning of it is what is left of its tree. -/
def CutsShort (v : Value) : Prop :=
  ∀ p, p <+: v.text → p ≠ v.text → ∀ around,
    CutShort v.tree around (readTokens (.value around) (tokens p))

/-- A leaf of which nothing is left but a token at which the text goes wrong. -/
theorem cutsShort_of_broken {v : Value} {token : Token} {t : Tree} {stop : Stop}
    (ht : Broken v.tree t)
    (hstep : ∀ around, (Cursor.value around).step token = .broken (breakOff t stop around))
    (htokens : ∀ p, p <+: v.text → p ≠ v.text → p ≠ [] → tokens p = [token]) : v.CutsShort := by
  intro p hp hne around
  by_cases hnil : p = []
  · rw [hnil]
    exact cutShort_nil _ _
  · rw [htokens p hp hne hnil]
    refine ⟨false, t, stop, .broken ht, nofun, ?_⟩
    show readTokens ((Cursor.value around).step token) [] = _
    rw [hstep, readTokens_nil]
    rfl

theorem cutsShort_word {v : Value} {c : Char} {word : List Char} (hv : v.text = c :: word)
    (hc : isSpace c = false)
    (hscan : ∀ s e, spell word s = .error e → scanToken c s = (.misspelled e, []))
    (ht : Broken v.tree (.misspelled (.ended .value))) : v.CutsShort := by
  have hstep (around : List Frame) :
      (Cursor.value around).step (.misspelled (.ended .value)) = .broken (breakOff
        (.misspelled (.ended .value)) (.same (.ended .value)) around) := rfl
  refine cutsShort_of_broken ht hstep fun p hp hne hnil => ?_
  rw [hv] at hp hne
  exact tokens_of_beginning_of_word hc hscan hp hne hnil

theorem cutsShort_integer {i : Int} (hi : InWord i) : (number (.integer i hi)).CutsShort := by
  intro p hp hne around
  by_cases hnil : p = []
  · rw [hnil]
    exact cutShort_nil _ _
  · obtain htokens | ⟨j, hj, hle, htokens⟩ := tokens_of_beginning_of_integer hi hp hnil
    · rw [htokens]
      exact ⟨false, _, _, .broken (.number ⟨_, rfl⟩), nofun, rfl⟩
    · rw [htokens]
      obtain ⟨stop, hstop, hfinish⟩ :=
        exists_finish_deliver (.number (.exact (.integer j hj))) around
      refine ⟨true, .number (.exact (.integer j hj)), stop, .integer hle, fun _ => hstop, ?_⟩
      rw [← hfinish]
      exact readTokens_nil _

/-! ### Arrays -/

theorem scanToken_ne_closeBracket {c : Char} (hc : c ≠ ']') (s : List Char) :
    (scanToken c s).1 ≠ .closeBracket := by
  unfold scanToken
  split
  case h_2 => exact absurd rfl hc
  case h_7 | h_8 | h_9 => dsimp only; split <;> simp
  case h_12 => split <;> simp
  all_goals simp

theorem Integral.exists_text_eq_cons {v : Value} (h : v.Integral) :
    ∃ c s, v.text = c :: s ∧ isSpace c = false ∧ c ≠ ']' := by
  cases h with
  | null => exact ⟨_, _, rfl, by decide, by decide⟩
  | boolean b => cases b <;> exact ⟨_, _, rfl, by decide, by decide⟩
  | number i hi =>
    show ∃ c s, Text.integer i = c :: s ∧ isSpace c = false ∧ c ≠ ']'
    unfold Text.integer
    split
    · exact ⟨_, _, rfl, by decide, by decide⟩
    · obtain ⟨c, ds, hds⟩ := List.exists_cons_of_ne_nil (Text.digits_ne_nil i.natAbs)
      have hc : c.isDigit = true := Text.isDigit_of_mem_digits (hds ▸ List.mem_cons_self)
      refine ⟨c, ds, hds, isSpace_of_isDigit hc, ?_⟩
      rintro rfl
      cases hc
  | string s => exact ⟨_, _, rfl, by decide, by decide⟩
  | array items => exact ⟨_, _, rfl, by decide, by decide⟩
  | object members => exact ⟨_, _, rfl, by decide, by decide⟩

/-- A comma and what follows it end a numeral, and so does the end of the text. -/
theorem endsNumeral_of_prefix_comma {r s : List Char} (h : r <+: ',' :: s) : EndsNumeral r := by
  obtain rfl | ⟨r, rfl, -⟩ := List.prefix_cons_iff.1 h
  · exact endsNumeral_nil
  · exact endsNumeral_cons r (by decide)

/-- A value and what follows it, where a value is due. -/
theorem Integral.readTokens {v : Value} (h : v.Integral) (around : List Frame) {r : List Char}
    (hr : EndsNumeral r) : Json.readTokens (.value around) (tokens (v.text ++ r)) =
      Json.readTokens (deliver v.tree around) (tokens r) := by
  rw [h.spelled r hr, readTokens_tokens h.whole]

/-- An item of an array, with nothing but a comma that may stand behind it. -/
theorem Integral.readTokens_item {v : Value} (h : v.Integral) (before : List Tree)
    (around : List Frame) {r s : List Char} (hr : r <+: ',' :: s) :
    Json.readTokens (.value (.item before :: around)) (tokens (v.text ++ r)) =
      Json.readTokens (.afterItem (v.tree :: before) around) (tokens r) :=
  h.readTokens _ (endsNumeral_of_prefix_comma hr)

/-- The value of a member, with nothing but a comma that may stand behind it. -/
theorem Integral.readTokens_member {v : Value} (h : v.Integral) (key : Reading String)
    (before : List (Reading String × Tree)) (around : List Frame) {r s : List Char}
    (hr : r <+: ',' :: s) :
    Json.readTokens (.value (.member before key :: around)) (tokens (v.text ++ r)) =
      Json.readTokens (.afterMember ((key, v.tree) :: before) around) (tokens r) :=
  h.readTokens _ (endsNumeral_of_prefix_comma hr)

/-- What was read is what is left of the items of an array, behind those before. -/
def ItemsCutShort (items before : List Tree) (around : List Frame) (parsed : Parsed) : Prop :=
  ∃ items' stop, CutItems stop items items' ∧
    parsed = ⟨breakOff (.array (before.reverse ++ items') (some stop)) stop around, false⟩

theorem itemsCutShort_last {t : Tree} {before : List Tree} {around : List Frame} {parsed : Parsed}
    (h : CutShort t (.item before :: around) parsed) (items : List Tree) :
    ItemsCutShort (t :: items) before around parsed := by
  obtain ⟨whole, t', stop, hcut, hstop, rfl⟩ := h
  refine ⟨[t'], stop, .last hcut hstop, ?_⟩
  rw [breakOff, List.reverse_cons]

theorem ItemsCutShort.cons {t : Tree} {items before : List Tree} {around : List Frame}
    {parsed : Parsed} (h : ItemsCutShort items (t :: before) around parsed) :
    ItemsCutShort (t :: items) before around parsed := by
  obtain ⟨items', stop, hcut, rfl⟩ := h
  refine ⟨t :: items', stop, .cons hcut, ?_⟩
  rw [List.reverse_cons, List.append_assoc, List.singleton_append]

/-- The text ends where the first item may begin, or behind an item. -/
theorem itemsCutShort_ended (items : List Tree) {before : List Tree} {around : List Frame}
    {c : Cursor} (hc : c = .openArray around ∧ before = [] ∨ c = .afterItem before around) :
    ItemsCutShort items before around (readTokens c (tokens [])) := by
  refine ⟨[], .same (.ended .list), .ended ⟨_, rfl⟩, ?_⟩
  rw [tokens, readTokens_nil, List.append_nil]
  obtain ⟨rfl, rfl⟩ | rfl := hc <;> rfl

theorem itemsCutShort_of_beginning {v : Value} {vs : List Value}
    (hint : ∀ w ∈ v :: vs, w.Integral) (h : ∀ w ∈ v :: vs, w.CutsShort) {p : List Char}
    (hp : p <+: itemsText (v :: vs)) (before : List Tree) (around : List Frame) :
    ItemsCutShort (itemsTrees (v :: vs)) before around
      (readTokens (.value (.item before :: around)) (tokens p)) := by
  induction vs generalizing v before p with
  | nil =>
    have hpv : p <+: v.text ++ [] := by rwa [List.append_nil]
    obtain ⟨hp, hne⟩ | ⟨r, rfl, hr⟩ := prefix_append_cases hpv
    · exact itemsCutShort_last (h v List.mem_cons_self p hp hne _) _
    · have hv := hint v List.mem_cons_self
      rw [List.prefix_nil.1 hr, hv.readTokens_item (s := []) before around List.nil_prefix]
      exact (itemsCutShort_ended _ (.inr rfl)).cons
  | cons w vs ih =>
    obtain ⟨hp, hne⟩ | ⟨r, rfl, hr⟩ := prefix_append_cases hp
    · exact itemsCutShort_last (h v List.mem_cons_self p hp hne _) _
    · rw [(hint v List.mem_cons_self).readTokens_item before around hr]
      obtain rfl | ⟨r', rfl, hr'⟩ := List.prefix_cons_iff.1 hr
      · exact (itemsCutShort_ended _ (.inr rfl)).cons
      · rw [lexes_comma.cons]
        exact (ih (List.forall_mem_cons.1 hint).2 (List.forall_mem_cons.1 h).2 hr' _).cons

/-- The first token of an item does not close the array. -/
theorem readTokens_openArray_of_beginning {v : Value} (hv : v.Integral) (vs : List Value)
    {p : List Char} (hp : p <+: itemsText (v :: vs)) (hnil : p ≠ []) (around : List Frame) :
    Json.readTokens (.openArray around) (tokens p) =
      Json.readTokens (.value (.item [] :: around)) (tokens p) := by
  obtain ⟨c, s, hv, hspace, hc⟩ := hv.exists_text_eq_cons
  have htext : ∃ s, itemsText (v :: vs) = c :: s := by
    cases vs with
    | nil => exact ⟨s, hv⟩
    | cons w vs => exact ⟨_, by rw [itemsText, hv, List.cons_append]⟩
  obtain ⟨s, htext⟩ := htext
  rw [htext] at hp
  obtain rfl | ⟨r, rfl, -⟩ := List.prefix_cons_iff.1 hp
  · exact absurd rfl hnil
  · rw [tokens_cons hspace]
    exact readTokens_openArray (scanToken_ne_closeBracket hc r) around _

theorem cutsShort_array {items : List Value} (hint : ∀ v ∈ items, v.Integral)
    (h : ∀ v ∈ items, v.CutsShort) : (array items).CutsShort := by
  intro p hp hne around
  obtain rfl | ⟨r, rfl, hr⟩ := List.prefix_cons_iff.1 hp
  · exact cutShort_nil _ _
  obtain rfl | hr := List.prefix_concat_iff.1 hr
  · exact absurd rfl hne
  rw [lexes_openBracket.cons]
  have hitems : ItemsCutShort (itemsTrees items) [] around
      (Json.readTokens (.openArray around) (tokens r)) := by
    by_cases hnil : r = []
    · rw [hnil]
      exact itemsCutShort_ended _ (.inl ⟨rfl, rfl⟩)
    · cases items with
      | nil => exact absurd (List.prefix_nil.1 hr) hnil
      | cons v vs =>
        rw [readTokens_openArray_of_beginning (hint v List.mem_cons_self) vs hr hnil]
        exact itemsCutShort_of_beginning hint h hr [] around
  obtain ⟨items', stop, hcut, hread⟩ := hitems
  exact ⟨false, _, stop, .array hcut, nofun, hread⟩

/-! ### Objects -/

/-- What was read is what is left of the members of an object, behind those before. -/
def MembersCutShort (members before : List (Reading String × Tree)) (around : List Frame)
    (parsed : Parsed) : Prop :=
  ∃ members' stop outer, CutMembers stop members members' ∧
    parsed = ⟨breakOff (.object (before.reverse ++ members') (some stop)) outer around, false⟩

section

variable {key : Reading String} {t : Tree} {members before : List (Reading String × Tree)}
  {around : List Frame} {parsed : Parsed}

theorem membersCutShort_last (h : CutShort t (.member before key :: around) parsed)
    (members : List (Reading String × Tree)) :
    MembersCutShort ((key, t) :: members) before around parsed := by
  obtain ⟨whole, t', stop, hcut, hstop, rfl⟩ := h
  refine ⟨[(key, t')], stop, stop, .last hcut hstop, ?_⟩
  rw [breakOff, List.reverse_cons]

theorem MembersCutShort.cons (h : MembersCutShort members ((key, t) :: before) around parsed) :
    MembersCutShort ((key, t) :: members) before around parsed := by
  obtain ⟨members', stop, outer, hcut, rfl⟩ := h
  refine ⟨(key, t) :: members', stop, outer, .cons hcut, ?_⟩
  rw [List.reverse_cons, List.append_assoc, List.singleton_append]

/-- The text ends where a member may begin, or behind a member. -/
theorem membersCutShort_ended (members : List (Reading String × Tree)) {c : Cursor}
    (hc : c = .openObject around ∧ before = [] ∨ c = .nextKey before around ∨
      c = .afterMember before around) :
    MembersCutShort members before around (readTokens c (tokens [])) := by
  rw [tokens, readTokens_nil]
  obtain ⟨rfl, rfl⟩ | rfl | rfl := hc
  · exact ⟨[], .same (.ended .object), _, .ended ⟨_, rfl⟩, rfl⟩
  · exact ⟨[], ⟨.ended .value, .ended .object⟩, _, .ended ⟨_, rfl⟩, by rw [List.append_nil]; rfl⟩
  · exact ⟨[], .same (.ended .object), _, .ended ⟨_, rfl⟩, by rw [List.append_nil]; rfl⟩

/-- The text ends inside a key. -/
theorem membersCutShort_key (m : Reading String × Tree)
    (members before : List (Reading String × Tree)) (around : List Frame) :
    MembersCutShort (m :: members) before around
      (readTokens (.nextKey before around) [.string openString]) := by
  refine ⟨[(openString, .missing (.ended .string) (.ended .string))], .same (.ended .string),
    .same (.ended .string), .key ⟨_, rfl⟩, ?_⟩
  show readTokens (.broken _) [] = _
  rw [readTokens_broken, breakOff, List.reverse_cons]

/-- The text ends behind a key. -/
theorem cutShort_colon (t : Tree) (before : List (Reading String × Tree)) (key : Reading String)
    (around : List Frame) : CutShort t (.member before key :: around)
      (readTokens (.colon before key around) (tokens [])) := by
  rw [tokens, readTokens_nil]
  exact ⟨false, _, _, .broken .missing, by simp, rfl⟩

end

/-- A member is left, if nothing is known of its value but what is left of it. -/
theorem membersCutShort_of_key {k : String} {t : Tree}
    {members before : List (Reading String × Tree)} {around : List Frame} {rest : List Char}
    (hvalue : ∀ r, r <+: rest → MembersCutShort ((.exact k, t) :: members) before around
      (readTokens (.value (.member before (.exact k) :: around)) (tokens r)))
    {p : List Char} (hp : p <+: stringText k ++ ':' :: rest) :
    MembersCutShort ((.exact k, t) :: members) before around
      (readTokens (.nextKey before around) (tokens p)) := by
  obtain ⟨hp, hne⟩ | ⟨r, rfl, hr⟩ := prefix_append_cases hp
  · by_cases hnil : p = []
    · rw [hnil]
      exact membersCutShort_ended _ (.inr (.inl rfl))
    · rw [tokens_of_beginning_of_stringText hp hne hnil]
      exact membersCutShort_key _ _ _ _
  · rw [lexes_stringText]
    show MembersCutShort _ before around (readTokens (.colon before (.exact k) around) (tokens r))
    obtain rfl | ⟨r', rfl, hr'⟩ := List.prefix_cons_iff.1 hr
    · exact membersCutShort_last (cutShort_colon _ _ _ _) _
    · rw [lexes_colon.cons]
      exact hvalue r' hr'

theorem membersCutShort_of_beginning {m : String × Value} {ms : List (String × Value)}
    (hint : ∀ n ∈ m :: ms, n.2.Integral) (h : ∀ n ∈ m :: ms, n.2.CutsShort) {p : List Char}
    (hp : p <+: membersText (m :: ms)) (before : List (Reading String × Tree))
    (around : List Frame) :
    MembersCutShort (membersTrees (m :: ms)) before around
      (readTokens (.nextKey before around) (tokens p)) := by
  obtain ⟨k, v⟩ := m
  induction ms generalizing k v before p with
  | nil =>
    refine membersCutShort_of_key (fun r hr => ?_) hp
    have hrv : r <+: v.text ++ [] := by rwa [List.append_nil]
    obtain ⟨hr, hne⟩ | ⟨r', rfl, hr'⟩ := prefix_append_cases hrv
    · exact membersCutShort_last (h (k, v) List.mem_cons_self r hr hne _) _
    · have hv : v.Integral := hint (k, v) List.mem_cons_self
      rw [List.prefix_nil.1 hr', hv.readTokens_member (s := []) _ before around List.nil_prefix]
      exact (membersCutShort_ended _ (.inr (.inr rfl))).cons
  | cons n ms ih =>
    refine membersCutShort_of_key (fun r hr => ?_) hp
    obtain ⟨hr, hne⟩ | ⟨r', rfl, hr'⟩ := prefix_append_cases hr
    · exact membersCutShort_last (h (k, v) List.mem_cons_self r hr hne _) _
    · have hv : v.Integral := hint (k, v) List.mem_cons_self
      rw [hv.readTokens_member _ before around hr']
      obtain rfl | ⟨r'', rfl, hr''⟩ := List.prefix_cons_iff.1 hr'
      · exact (membersCutShort_ended _ (.inr (.inr rfl))).cons
      · rw [lexes_comma.cons]
        exact (ih _ n.1 n.2 (List.forall_mem_cons.1 hint).2 (List.forall_mem_cons.1 h).2 hr'').cons

/-- The first token of a member does not close the object. -/
theorem readTokens_openObject_of_beginning {m : String × Value} {ms : List (String × Value)}
    {p : List Char} (hp : p <+: membersText (m :: ms)) (hnil : p ≠ []) (around : List Frame) :
    Json.readTokens (.openObject around) (tokens p) =
      Json.readTokens (.nextKey [] around) (tokens p) := by
  have htext : ∃ s, membersText (m :: ms) = '"' :: s := by
    cases ms <;> exact ⟨_, rfl⟩
  obtain ⟨s, htext⟩ := htext
  rw [htext] at hp
  obtain rfl | ⟨r, rfl, -⟩ := List.prefix_cons_iff.1 hp
  · exact absurd rfl hnil
  · rw [tokens_cons rfl]
    rfl

theorem cutsShort_object {members : List (String × Value)} (hint : ∀ m ∈ members, m.2.Integral)
    (h : ∀ m ∈ members, m.2.CutsShort) : (object members).CutsShort := by
  intro p hp hne around
  obtain rfl | ⟨r, rfl, hr⟩ := List.prefix_cons_iff.1 hp
  · exact cutShort_nil _ _
  obtain rfl | hr := List.prefix_concat_iff.1 hr
  · exact absurd rfl hne
  rw [lexes_openBrace.cons]
  have hmembers : MembersCutShort (membersTrees members) [] around
      (Json.readTokens (.openObject around) (tokens r)) := by
    by_cases hnil : r = []
    · rw [hnil]
      exact membersCutShort_ended _ (.inl ⟨rfl, rfl⟩)
    · cases members with
      | nil => exact absurd (List.prefix_nil.1 hr) hnil
      | cons m ms =>
        rw [readTokens_openObject_of_beginning hr hnil]
        exact membersCutShort_of_beginning hint h hr [] around
  obtain ⟨members', stop, outer, hcut, hread⟩ := hmembers
  exact ⟨false, _, outer, .object hcut, nofun, hread⟩

theorem Integral.cutsShort {v : Value} (h : v.Integral) : v.CutsShort := by
  induction h with
  | null =>
    exact cutsShort_word rfl rfl (fun s e h => by simp [scanToken, h]) .null
  | boolean b =>
    cases b with
    | true => exact cutsShort_word rfl rfl (fun s e h => by simp [scanToken, h]) .boolean
    | false => exact cutsShort_word rfl rfl (fun s e h => by simp [scanToken, h]) .boolean
  | number i hi => exact cutsShort_integer hi
  | string s =>
    have hstep (around : List Frame) : (Cursor.value around).step (.string openString) =
        .broken (breakOff (.string openString) (.same (.ended .string)) around) := rfl
    exact cutsShort_of_broken (.string ⟨_, rfl⟩) hstep fun p hp hne hnil =>
      tokens_of_beginning_of_stringText hp hne hnil
  | array items h ih => exact cutsShort_array h ih
  | object members h ih => exact cutsShort_object h ih

/-- A beginning of a container spells what is left of its tree. -/
theorem parse_of_beginning {v : Value} (h : v.Integral) {p : List Char} (hp : p <+: v.text)
    (hne : p ≠ v.text) : ∃ whole t, Cut whole v.tree t ∧ parse p = ⟨t, false⟩ := by
  obtain ⟨whole, t, stop, hcut, -, hread⟩ := h.cutsShort p hp hne []
  exact ⟨whole, t, hcut, hread⟩

end Value

end SpendTrace.Json
