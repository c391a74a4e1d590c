import SpendTrace.Text.Blank
import SpendTrace.Text.Cut

/-!
# Where a text is cut

A text is cut at the first occurrence of a separator. So the part in front of a separator is known
as soon as that part does not contain the separator, and no occurrence can lie half in it and half
behind it.

* `cut?_eq_none_iff`, `cut?_eq_some_iff`: where the first cut is, if there is one.
* `append_cons_inj`: where the last one is.
* `stripEnd_append`, `strip_around`: what stripping takes from the ends of a text.
* `pieces_append`, `mem_pieces`: all pieces of a text.
* `trim_around`, `isBlank_of_mem_head?_trim`: what trimming takes from the ends, and what it leaves.
-/

namespace SpendTrace.Text

/-! ## Occurrences -/

/-- No end of the separator is also a beginning of it, so two occurrences never overlap. -/
def Unbordered (sep : List Char) : Prop :=
  ∀ k < sep.length, 0 < k → ¬sep.drop k <+: sep

instance (sep : List Char) : Decidable (Unbordered sep) :=
  Nat.decidableBallLT sep.length fun k _ => 0 < k → ¬sep.drop k <+: sep

theorem not_infix_of_not_mem {c : Char} {sep s : List Char} (h : c ∉ s) : ¬c :: sep <:+: s :=
  fun hin => h (hin.subset List.mem_cons_self)

/-- An occurrence that begins with `c` begins behind all that is free of `c`. -/
theorem infix_of_infix_append {c : Char} {sep a b : List Char} (ha : c ∉ a)
    (h : c :: sep <:+: a ++ b) : c :: sep <:+: b := by
  obtain ⟨u, v, huv⟩ := h
  rw [List.append_assoc] at huv
  obtain ⟨m, rfl, hb⟩ | ⟨m, rfl, hb⟩ := List.append_eq_append_iff.1 huv
  · cases m with
    | nil => exact ⟨[], v, by simpa using hb⟩
    | cons d m =>
      obtain ⟨rfl, -⟩ := List.cons.inj hb
      simp at ha
  · exact ⟨m, v, by rw [hb, List.append_assoc]⟩

/-! ## One cut -/

theorem cut?_eq_none_iff {sep : List Char} (hsep : sep ≠ []) (s : List Char) :
    cut? sep s = none ↔ ¬sep <:+: s := by
  induction s with
  | nil => simp [cut?, hsep]
  | cons c cs ih =>
    rw [cut?, List.infix_cons_iff]
    by_cases hp : sep <+: c :: cs
    · simp [hp]
    · simp [hp, ih]

/-- The first occurrence is the one behind a text that does not contain the separator. -/
theorem cut?_append {sep before : List Char} (hsep : Unbordered sep) (h : ¬sep <:+: before)
    (after : List Char) : cut? sep (before ++ (sep ++ after)) = some (before, after) := by
  induction before with
  | nil =>
    cases hs : sep with
    | nil => exact absurd (hs ▸ List.nil_infix) h
    | cons c cs => simp [cut?]
  | cons c cs ih =>
    have hcs : ¬sep <:+: cs := fun hin => h (List.infix_cons hin)
    have hp : ¬sep <+: c :: cs ++ (sep ++ after) := by
      intro hp
      obtain hin | hout := List.prefix_or_prefix_of_prefix hp (List.prefix_append (c :: cs) _)
      · exact h hin.isInfix
      · -- The occurrence would go on into the separator, and so overlap with it.
        obtain ⟨t, rfl⟩ := hout
        rw [List.prefix_append_right_inj] at hp
        have ht : t <+: c :: cs ++ t :=
          List.prefix_of_prefix_length_le hp (List.prefix_append _ _) (by simp; omega)
        cases t with
        | nil => simp at h
        | cons d t =>
          refine hsep (c :: cs).length (by simp) (by simp) ?_
          rw [List.drop_left]
          exact ht
    rw [List.cons_append, cut?]
    rw [List.cons_append] at hp
    rw [if_neg (by simpa using hp), ih hcs]
    rfl

/-- A text is cut at the first place where the character stands. -/
theorem cut?_singleton_append {c : Char} {before : List Char} (h : c ∉ before)
    (after : List Char) : cut? [c] (before ++ c :: after) = some (before, after) := by
  have hsep : Unbordered [c] := by
    intro k hk hpos
    rw [List.length_singleton] at hk
    omega
  exact cut?_append hsep (not_infix_of_not_mem h) after

/-- What stands in front of the first occurrence does not hold the separator. -/
theorem not_infix_of_cut? {sep s before after : List Char} (hsep : sep ≠ [])
    (h : cut? sep s = some (before, after)) : ¬sep <:+: before := by
  induction s generalizing before with
  | nil => simp [cut?, hsep] at h
  | cons c cs ih =>
    rw [cut?] at h
    split at h
    · obtain ⟨rfl, -⟩ := Prod.mk.inj (Option.some.inj h)
      simpa using hsep
    · next hp =>
      obtain ⟨⟨b, a⟩, hb, hc⟩ := Option.map_eq_some_iff.1 h
      obtain ⟨rfl, rfl⟩ := Prod.mk.inj hc
      rw [List.infix_cons_iff, not_or]
      refine ⟨fun hpre => hp ?_, ih hb⟩
      have hcs : cs = b ++ (sep ++ a) := by rw [cut?_eq_some hb, List.append_assoc]
      rw [List.isPrefixOf_iff_prefix, hcs]
      exact hpre.trans (List.prefix_append (c :: b) _)

theorem cut?_eq_some_iff {sep s before after : List Char} (hne : sep ≠ [])
    (hsep : Unbordered sep) :
    cut? sep s = some (before, after) ↔ s = before ++ (sep ++ after) ∧ ¬sep <:+: before := by
  constructor
  · intro h
    exact ⟨by rw [cut?_eq_some h, List.append_assoc], not_infix_of_cut? hne h⟩
  · rintro ⟨rfl, hbefore⟩
    exact cut?_append hsep hbefore after

/-- The parts of a text on both sides of the last `c`. -/
theorem append_cons_inj {c : Char} {s s' t t' : List Char} (h : c ∉ t) (h' : c ∉ t')
    (heq : s ++ c :: t = s' ++ c :: t') : s = s' ∧ t = t' := by
  have hrev := congrArg List.reverse heq
  simp only [List.reverse_append, List.reverse_cons, List.append_assoc,
    List.singleton_append] at hrev
  have hcut := cut?_singleton_append (mt List.mem_reverse.1 h) s.reverse
  rw [hrev, cut?_singleton_append (mt List.mem_reverse.1 h')] at hcut
  obtain ⟨ht, hs⟩ := Prod.mk.inj (Option.some.inj hcut)
  exact ⟨(List.reverse_inj.1 hs).symm, (List.reverse_inj.1 ht).symm⟩

/-! ## Stripping -/

theorem stripEnd_append_cons {c d : Char} (h : d ≠ c) (s t : List Char) :
    stripEnd c (s ++ d :: t) = s ++ d :: stripEnd c t := by
  simp only [stripEnd, List.reverse_append, List.reverse_cons, List.append_assoc,
    List.singleton_append, List.dropWhile_append]
  split
  · next hall => simp [List.isEmpty_iff.1 hall, h]
  · simp

theorem stripEnd_append {c : Char} {t : List Char} (h : ∀ d ∈ t, d = c) (s : List Char) :
    stripEnd c (s ++ t) = stripEnd c s := by
  have hrev : ∀ d ∈ t.reverse, (d == c) = true := by simpa using h
  rw [stripEnd, List.reverse_append, List.dropWhile_append_of_pos hrev, ← stripEnd]

theorem stripEnd_prefix_self (c : Char) (s : List Char) : stripEnd c s <+: s := by
  have h : s.reverse.dropWhile (· == c) <:+ s.reverse := List.dropWhile_suffix _
  rw [← List.reverse_prefix, List.reverse_reverse] at h
  exact h

theorem strip_around {c : Char} {t₁ t₂ : List Char} (h₁ : ∀ d ∈ t₁, d = c)
    (h₂ : ∀ d ∈ t₂, d = c) (s : List Char) : strip c (t₁ ++ (s ++ t₂)) = strip c s := by
  have hstart : ∀ d ∈ t₁, (d == c) = true := by simpa using h₁
  rw [strip, strip, List.dropWhile_append_of_pos hstart, List.dropWhile_append]
  split
  · next hall =>
    -- All of the text is stripped, so what is left is stripped from its end.
    rw [List.isEmpty_iff.1 hall]
    exact stripEnd_append (fun d hd => h₂ d ((List.dropWhile_sublist _).mem hd)) []
  · exact stripEnd_append h₂ _

/-! ## All pieces -/

theorem pieces_of_not_mem {sep : Char} {s : List Char} (h : sep ∉ s) : pieces sep s = [s] := by
  induction s with
  | nil => rfl
  | cons c cs ih =>
    obtain ⟨hc, hcs⟩ := not_or.1 (mt List.mem_cons.2 h)
    rw [pieces, if_neg (Ne.symm hc), ih hcs]

theorem pieces_append {sep : Char} {s : List Char} (h : sep ∉ s) (t : List Char) :
    pieces sep (s ++ sep :: t) = s :: pieces sep t := by
  induction s with
  | nil => rw [List.nil_append, pieces, if_pos rfl]
  | cons c cs ih =>
    obtain ⟨hc, hcs⟩ := not_or.1 (mt List.mem_cons.2 h)
    rw [List.cons_append, pieces, if_neg (Ne.symm hc), ih hcs]

/-- A piece does not contain the separator, and nothing that is not in the text. -/
theorem mem_pieces {sep : Char} {s p : List Char} (hp : p ∈ pieces sep s) :
    ∀ c ∈ p, c ≠ sep ∧ c ∈ s := by
  induction s generalizing p with
  | nil =>
    rw [pieces, List.mem_singleton] at hp
    rw [hp]
    exact List.forall_mem_nil _
  | cons d ds ih =>
    have hrest : ∀ q ∈ pieces sep ds, ∀ c ∈ q, c ≠ sep ∧ c ∈ d :: ds :=
      fun q hq c hc => ⟨(ih hq c hc).1, List.mem_cons_of_mem d (ih hq c hc).2⟩
    rw [pieces] at hp
    split at hp
    · obtain rfl | hp := List.mem_cons.1 hp
      · exact List.forall_mem_nil _
      · exact hrest p hp
    · next hd =>
      have hfirst : d ≠ sep ∧ d ∈ d :: ds := ⟨hd, List.mem_cons_self⟩
      split at hp
      · rw [List.mem_singleton] at hp
        rw [hp]
        exact List.forall_mem_singleton.2 hfirst
      · next q qs hqs =>
        rw [hqs] at hrest
        obtain rfl | hp := List.mem_cons.1 hp
        · exact List.forall_mem_cons.2 ⟨hfirst, hrest q List.mem_cons_self⟩
        · exact hrest p (List.mem_cons_of_mem q hp)

/-! ## Trimming -/

/-- A text that starts and ends with a character that is not blank. -/
def Solid (s : List Char) : Prop :=
  (∃ c ∈ s.head?, isBlank c = false) ∧ ∃ c ∈ s.getLast?, isBlank c = false

theorem trimStart_append {s : List Char} (h : ∃ c ∈ s.head?, isBlank c = false)
    (before : List Char) : trimStart (before ++ s) = trimStart before ++ s := by
  obtain ⟨c, hc, hblank⟩ := h
  obtain ⟨t, rfl⟩ := List.head?_eq_some_iff.1 hc
  induction before with
  | nil => exact trimStart_cons t hblank
  | cons d ds ih =>
    by_cases hd : isBlank d = true
    · simpa [trimStart, hd] using ih
    · simp [trimStart, hd]

theorem trimEnd_eq_reverse (s : List Char) : trimEnd s = (trimStart s.reverse).reverse := rfl

theorem trimEnd_append {s : List Char} (h : ∃ c ∈ s.getLast?, isBlank c = false)
    (after : List Char) : trimEnd (s ++ after) = s ++ trimEnd after := by
  have hhead : ∃ c ∈ s.reverse.head?, isBlank c = false := by
    rw [List.head?_reverse]
    exact h
  rw [trimEnd_eq_reverse, List.reverse_append, trimStart_append hhead, List.reverse_append,
    List.reverse_reverse, trimEnd_eq_reverse]

theorem trimStart_suffix_self (s : List Char) : trimStart s <:+ s :=
  List.dropWhile_suffix isBlank

theorem trimEnd_prefix_self (s : List Char) : trimEnd s <+: s := by
  have h := trimStart_suffix_self s.reverse
  rw [← List.reverse_prefix, List.reverse_reverse] at h
  exact h

/-- What is left of a text begins with a character that is not blank. -/
theorem isBlank_of_mem_head?_trim {c : Char} {s : List Char} (h : c ∈ (trim s).head?) :
    isBlank c = false := by
  obtain ⟨t, ht⟩ := List.head?_eq_some_iff.1 h
  obtain ⟨u, hu⟩ := trimEnd_prefix_self (trimStart s)
  have hhead := List.head?_dropWhile_not isBlank s
  rw [show s.dropWhile isBlank = c :: (t ++ u) by rw [← trimStart, ← hu, ← trim, ht]; rfl] at hhead
  simpa using hhead

/-- Blanks at the ends are lost, and those of what stands around a solid core. -/
theorem trim_around {core w₁ w₂ : List Char} (hcore : Solid core)
    (h₁ : ∀ c ∈ w₁, isBlank c = true) (h₂ : ∀ c ∈ w₂, isBlank c = true)
    (before after : List Char) :
    trim (w₁ ++ (before ++ (core ++ (after ++ w₂)))) =
      trimStart before ++ (core ++ trimEnd after) := by
  have hstart : trimStart (w₁ ++ (before ++ (core ++ (after ++ w₂)))) =
      trimStart before ++ (core ++ (after ++ w₂)) := by
    rw [trimStart, List.dropWhile_append_of_pos h₁, ← trimStart]
    refine trimStart_append ?_ before
    obtain ⟨c, hc, hblank⟩ := hcore.1
    exact ⟨c, by rw [List.head?_append, Option.mem_def.1 hc]; rfl, hblank⟩
  have hend : trimEnd (after ++ w₂) = trimEnd after := by
    have h₂' : ∀ c ∈ w₂.reverse, isBlank c = true := fun c hc => h₂ c (List.mem_reverse.1 hc)
    rw [trimEnd, List.reverse_append, List.dropWhile_append_of_pos h₂', ← trimEnd]
  have hlast : ∃ c ∈ (trimStart before ++ core).getLast?, isBlank c = false := by
    obtain ⟨c, hc, hblank⟩ := hcore.2
    exact ⟨c, by rw [List.getLast?_append, Option.mem_def.1 hc]; rfl, hblank⟩
  rw [trim, hstart, ← List.append_assoc, trimEnd_append hlast, hend, List.append_assoc]

theorem Solid.trim_eq_self {s : List Char} (h : Solid s) : trim s = s := by
  have htrim := trim_around h (List.forall_mem_nil _) (List.forall_mem_nil _) [] []
  simpa [trimStart, trimEnd] using htrim

end SpendTrace.Text
