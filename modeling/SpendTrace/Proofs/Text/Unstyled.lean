import SpendTrace.Text.Numeral
import SpendTrace.Text.Style

/-!
# Taking the styles out of a text

A style sequence is `ESC [`, numbers with `;` between them, and `m`. Without its style sequences a
styled text is the text of its spans, as long as these hold no escape character of their own.

* `unstyled`: a text without its style sequences.
* `unstyled_spans`: what is left of styled spans.
-/

namespace SpendTrace.Text

/-! ## Style sequences -/

/-- The characters between `ESC [` and `m`. -/
def isParameter (c : Char) : Bool :=
  c.isDigit || c == ';'

/-- The text behind the style sequence that it begins with, if it begins with one. -/
def behindSequence? : List Char → Option (List Char)
  | '\x1b' :: '[' :: s =>
    match s.dropWhile isParameter with
    | 'm' :: rest => some rest
    | _ => none
  | _ => none

theorem behindSequence?_of_dropWhile {s rest : List Char}
    (h : s.dropWhile isParameter = 'm' :: rest) :
    behindSequence? ('\x1b' :: '[' :: s) = some rest := by
  simp only [behindSequence?, h]

theorem length_behindSequence? {s rest : List Char} (h : behindSequence? s = some rest) :
    rest.length < s.length := by
  unfold behindSequence? at h
  split at h
  · next s =>
    split at h
    · next rest' hs =>
      obtain rfl := Option.some.inj h
      have hle := (s.dropWhile_suffix isParameter).length_le
      rw [hs, List.length_cons] at hle
      simp only [List.length_cons]
      omega
    · cases h
  · cases h

/-- The text without its style sequences. -/
def unstyled (s : List Char) : List Char :=
  match _h : behindSequence? s with
  | some rest => unstyled rest
  | none =>
    match s with
    | [] => []
    | c :: s => c :: unstyled s
termination_by s.length
decreasing_by
  · exact length_behindSequence? _h
  · simp

/-! ## What is left -/

theorem unstyled_nil : unstyled [] = [] := by
  rw [unstyled]
  rfl

theorem unstyled_cons {c : Char} (hc : c ≠ '\x1b') (s : List Char) :
    unstyled (c :: s) = c :: unstyled s := by
  have hnone : behindSequence? (c :: s) = none := by
    unfold behindSequence?
    split
    · next h => exact absurd (List.cons.inj h).1 hc
    · rfl
  rw [unstyled]
  split
  · next h => cases hnone.symm.trans h
  · rfl

theorem unstyled_append {s : List Char} (hs : '\x1b' ∉ s) (t : List Char) :
    unstyled (s ++ t) = s ++ unstyled t := by
  induction s with
  | nil => rfl
  | cons c s ih =>
    obtain ⟨hc, hs⟩ := not_or.1 (mt List.mem_cons.2 hs)
    rw [List.cons_append, unstyled_cons (Ne.symm hc), ih hs, List.cons_append]

theorem isParameter_of_mem_join {ps : List (List Char)} (h : ∀ p ∈ ps, ∀ c ∈ p, c.isDigit = true) :
    ∀ c ∈ join [';'] ps, isParameter c = true := by
  fun_induction join [';'] ps with
  | case1 => simp
  | case2 p =>
    intro c hc
    simp [isParameter, h p List.mem_cons_self c hc]
  | case3 p q ps ih =>
    intro c hc
    rw [List.append_assoc] at hc
    rcases List.mem_append.1 hc with hp | hrest
    · simp [isParameter, h p List.mem_cons_self c hp]
    · rcases List.mem_cons.1 hrest with rfl | hrest
      · rfl
      · exact ih (fun p hp => h p (List.mem_cons_of_mem _ hp)) c hrest

/-- A style sequence leaves nothing. -/
theorem unstyled_styleSequence (style : Style) (s : List Char) :
    unstyled (styleSequence style ++ s) = unstyled s := by
  have hdigits : ∀ p ∈ style.map (Nat.toDigits 10), ∀ c ∈ p, c.isDigit = true := by
    intro p hp c hc
    obtain ⟨n, -, rfl⟩ := List.mem_map.1 hp
    exact isDigit_of_mem_digits hc
  have hparameters := isParameter_of_mem_join hdigits
  have hdrop : (join [';'] (style.map (Nat.toDigits 10)) ++ ['m'] ++ s).dropWhile isParameter =
      'm' :: s := by
    rw [List.append_assoc, List.dropWhile_append_of_pos hparameters]
    rfl
  have hbehind : behindSequence? (styleSequence style ++ s) = some s :=
    behindSequence?_of_dropWhile hdrop
  rw [unstyled]
  split
  · next rest h => rw [Option.some.inj (h.symm.trans hbehind)]
  · next h => cases h.symm.trans hbehind

/-- The reset is a style sequence as well. -/
theorem unstyled_resetSequence (s : List Char) : unstyled (resetSequence ++ s) = unstyled s :=
  unstyled_styleSequence [0] s

/-! ## Spans -/

theorem toList_spansText (color : Bool) (spans : List Span) :
    (spansText color spans).toList = spans.flatMap (Span.chars color) :=
  String.toList_ofList

namespace Span

theorem chars_false (span : Span) : span.chars false = span.text := by
  unfold chars
  split <;> rfl

/-- What is left of a span is its text. -/
theorem unstyled_chars {span : Span} (h : '\x1b' ∉ span.text) (color : Bool) (s : List Char) :
    unstyled (span.chars color ++ s) = span.text ++ unstyled s := by
  unfold chars
  split
  · split
    · rw [afterResets_eq_self _ h, List.append_assoc, List.append_assoc, unstyled_styleSequence,
        unstyled_append h, unstyled_resetSequence]
    · exact unstyled_append h s
  · exact unstyled_append h s

end Span

theorem unstyled_spans {spans : List Span} (h : ∀ span ∈ spans, '\x1b' ∉ span.text)
    (color : Bool) : unstyled (spans.flatMap (Span.chars color)) = spans.flatMap Span.text := by
  induction spans with
  | nil => exact unstyled_nil
  | cons span spans ih =>
    rw [List.flatMap_cons, List.flatMap_cons, Span.unstyled_chars (h span List.mem_cons_self),
      ih fun s hs => h s (List.mem_cons_of_mem span hs)]

end SpendTrace.Text
