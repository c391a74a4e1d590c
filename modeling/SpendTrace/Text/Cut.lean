/-!
# Cutting texts

Finding a separator in a text for the first time, splitting at every occurrence of a character, and
stripping a character from the ends. All cuts are at the earliest place where they can be made.

* `cut?_eq_some`: the two parts and the separator between them make up the text.
* `join_pieces`: the pieces of a text, joined again, are the text.
-/

namespace SpendTrace.Text

/-! ## One cut -/

/-- The text before and after the first occurrence of `sep`, if it occurs. -/
def cut? (sep : List Char) : List Char → Option (List Char × List Char)
  | [] => if sep.isEmpty then some ([], []) else none
  | c :: cs =>
    if sep.isPrefixOf (c :: cs) then some ([], (c :: cs).drop sep.length)
    else (cut? sep cs).map fun (before, after) => (c :: before, after)

theorem eq_append_drop_of_isPrefixOf {sep s : List Char} (h : sep.isPrefixOf s = true) :
    s = sep ++ s.drop sep.length := by
  obtain ⟨t, rfl⟩ := List.isPrefixOf_iff_prefix.1 h
  simp

/-- A cut loses nothing. -/
theorem cut?_eq_some {sep s before after : List Char} (h : cut? sep s = some (before, after)) :
    s = before ++ sep ++ after := by
  induction s generalizing before with
  | nil =>
    simp only [cut?] at h
    split at h <;> simp_all
  | cons c cs ih =>
    simp only [cut?] at h
    split at h
    · next hp =>
      obtain ⟨rfl, rfl⟩ := Prod.mk.inj (Option.some.inj h)
      exact eq_append_drop_of_isPrefixOf hp
    · obtain ⟨⟨b, a⟩, hb, hc⟩ := Option.map_eq_some_iff.1 h
      obtain ⟨rfl, rfl⟩ := Prod.mk.inj hc
      simp [ih hb]

/-- The text up to the first `c`, or all of it. -/
def upTo (c : Char) (s : List Char) : List Char :=
  s.takeWhile (· != c)

/-! ## All pieces -/

/-- The pieces between the occurrences of `sep`; a text without any is one piece. -/
def pieces (sep : Char) : List Char → List (List Char)
  | [] => [[]]
  | c :: cs =>
    if c = sep then [] :: pieces sep cs
    else
      match pieces sep cs with
      | [] => [[c]]
      | p :: ps => (c :: p) :: ps

/-- Texts with `sep` between each two. -/
def join (sep : List Char) : List (List Char) → List Char
  | [] => []
  | [p] => p
  | p :: q :: ps => p ++ sep ++ join sep (q :: ps)

theorem pieces_ne_nil (sep : Char) (s : List Char) : pieces sep s ≠ [] := by
  cases s with
  | nil => simp [pieces]
  | cons c cs =>
    simp only [pieces]
    split
    · simp
    · split <;> simp

theorem join_pieces (sep : Char) (s : List Char) : join [sep] (pieces sep s) = s := by
  induction s with
  | nil => rfl
  | cons c cs ih =>
    simp only [pieces]
    split
    · next h =>
      cases hp : pieces sep cs with
      | nil => exact absurd hp (pieces_ne_nil sep cs)
      | cons p ps =>
        rw [hp] at ih
        simp [join, ih, h]
    · cases hp : pieces sep cs with
      | nil => exact absurd hp (pieces_ne_nil sep cs)
      | cons p ps =>
        rw [hp] at ih
        cases ps with
        | nil => simpa [join] using ih
        | cons q qs => simpa [join] using ih

/-! ## Ends -/

/-- The text without the `c`s at its end. -/
def stripEnd (c : Char) (s : List Char) : List Char :=
  (s.reverse.dropWhile (· == c)).reverse

/-- The text without the `c`s at either end. -/
def strip (c : Char) (s : List Char) : List Char :=
  stripEnd c (s.dropWhile (· == c))

/-- The text with `fill` added at its end until it has `width` characters. -/
def padEnd (width : Nat) (fill : Char) (s : List Char) : List Char :=
  s ++ List.replicate (width - s.length) fill

end SpendTrace.Text
