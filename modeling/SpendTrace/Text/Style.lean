import SpendTrace.Text.Cut

/-!
# Styled text

Spans of text that a terminal shows in a style. With colours a span is its style sequence, its
text and the reset sequence; a reset inside the text is followed by the style again, so that the
rest of the text keeps it. Without colours a span is its text alone.

* `afterResets_eq_self`: a text without an escape character needs no such care.
-/

namespace SpendTrace.Text

/-- The parameters of a style sequence. -/
abbrev Style := List Nat

structure Span where
  style : Option Style
  text : List Char
  deriving DecidableEq, Repr

/-- The sequence that starts a style. -/
def styleSequence (style : Style) : List Char :=
  ['\x1b', '['] ++ join [';'] (style.map fun n => Nat.toDigits 10 n) ++ ['m']

/-- The sequence that ends every style. -/
def resetSequence : List Char := ['\x1b', '[', '0', 'm']

/-- A text with `extra` behind every occurrence of the reset sequence. -/
def afterResets (extra : List Char) : List Char → List Char
  | '\x1b' :: '[' :: '0' :: 'm' :: rest => resetSequence ++ extra ++ afterResets extra rest
  | c :: rest => c :: afterResets extra rest
  | [] => []

theorem afterResets_eq_self (extra : List Char) {s : List Char} (h : '\x1b' ∉ s) :
    afterResets extra s = s := by
  fun_induction afterResets extra s with
  | case1 rest => simp at h
  | case2 c rest _ ih => simp_all
  | case3 => rfl

namespace Span

/-- A span that is shown as it is. -/
def plain (s : String) : Span := ⟨none, s.toList⟩

/-- A span as it is written for a terminal, with colours or without. -/
def chars (color : Bool) (span : Span) : List Char :=
  match span.style with
  | some style =>
    if color then
      styleSequence style ++ afterResets (styleSequence style) span.text ++ resetSequence
    else span.text
  | none => span.text

end Span

/-- Spans next to each other. -/
def spansText (color : Bool) (spans : List Span) : String :=
  String.ofList (spans.flatMap (Span.chars color))

end SpendTrace.Text
