import SpendTrace.Proofs.Json.Scanning

/-!
# Every text that spells a closed tree has a form

A text is read token by token, and as long as it has not gone wrong, what has been read of it are
the pieces of forms, in containers that are still open. So when the outermost container is closed
and the text ends, the text is that of a form.

* `Opened`, `Reached`: the pieces that lead to a place.
* `Reached.step`, `Reached.off_of_stops`: one more token leads on, or the text has gone wrong.
* `exists_form_of_parse` is the main result.
-/

namespace SpendTrace.Json

open Cursor (breakOff deliver startValue startMember)

namespace Form

/-- The pieces of items with a comma behind each. -/
def itemsBefore (fs : List Form) : List (List Char) :=
  fs.flatMap fun f => f.pieces ++ [[',']]

/-- The pieces of members with a comma behind each. -/
def membersBefore (ms : List (StringText × Form)) : List (List Char) :=
  ms.flatMap fun m => m.1.chars :: [':'] :: (m.2.pieces ++ [[',']])

theorem itemsPieces_append (fs : List Form) (f : Form) :
    itemsPieces (fs ++ [f]) = itemsBefore fs ++ f.pieces := by
  induction fs with
  | nil => rfl
  | cons g fs ih =>
    rw [itemsBefore, List.flatMap_cons, ← itemsBefore, List.append_assoc, List.append_assoc, ← ih]
    cases fs <;> rfl

theorem membersPieces_append (ms : List (StringText × Form)) (key : StringText) (f : Form) :
    membersPieces (ms ++ [(key, f)]) = membersBefore ms ++ key.chars :: [':'] :: f.pieces := by
  induction ms with
  | nil => rfl
  | cons m ms ih =>
    rw [membersBefore, List.flatMap_cons, ← membersBefore]
    simp only [List.cons_append, List.append_assoc, List.nil_append]
    rw [← ih]
    cases ms <;> rfl

theorem itemsBefore_append (fs : List Form) (f : Form) :
    itemsBefore (fs ++ [f]) = itemsPieces (fs ++ [f]) ++ [[',']] := by
  rw [itemsPieces_append, itemsBefore, List.flatMap_append, List.flatMap_singleton, itemsBefore,
    List.append_assoc]

theorem membersBefore_append (ms : List (StringText × Form)) (key : StringText) (f : Form) :
    membersBefore (ms ++ [(key, f)]) = membersPieces (ms ++ [(key, f)]) ++ [[',']] := by
  rw [membersPieces_append, membersBefore, List.flatMap_append, List.flatMap_singleton,
    membersBefore, List.append_assoc]
  rfl

end Form

/-! ## Places that are reached -/

/-- The pieces open these containers and fill them with forms. -/
inductive Opened : List Frame → List (List Char) → Prop where
  | nil : Opened [] []
  | item {around : List Frame} {ps : List (List Char)} (fs : List Form) (h : Opened around ps) :
    Opened (.item (fs.map Form.tree).reverse :: around) (ps ++ ['['] :: Form.itemsBefore fs)
  | member {around : List Frame} {ps : List (List Char)} (ms : List (StringText × Form))
      (key : StringText) (h : Opened around ps) :
    Opened (.member (Form.membersTrees ms).reverse key.reading :: around)
      (ps ++ ['{'] :: (Form.membersBefore ms ++ [key.chars, [':']]))

/-- The pieces lead to this place. -/
inductive Reached : Cursor → List (List Char) → Prop where
  | value {around : List Frame} {ps : List (List Char)} (h : Opened around ps) :
    Reached (.value around) ps
  | openArray {around : List Frame} {ps : List (List Char)} (h : Opened around ps) :
    Reached (.openArray around) (ps ++ [['[']])
  | afterItem {around : List Frame} {ps : List (List Char)} (fs : List Form) (f : Form)
      (h : Opened around ps) :
    Reached (.afterItem ((fs ++ [f]).map Form.tree).reverse around)
      (ps ++ ['['] :: Form.itemsPieces (fs ++ [f]))
  | openObject {around : List Frame} {ps : List (List Char)} (h : Opened around ps) :
    Reached (.openObject around) (ps ++ [['{']])
  | afterMember {around : List Frame} {ps : List (List Char)} (ms : List (StringText × Form))
      (key : StringText) (f : Form) (h : Opened around ps) :
    Reached (.afterMember (Form.membersTrees (ms ++ [(key, f)])).reverse around)
      (ps ++ ['{'] :: Form.membersPieces (ms ++ [(key, f)]))
  | nextKey {around : List Frame} {ps : List (List Char)} (ms : List (StringText × Form))
      (h : Opened around ps) :
    Reached (.nextKey (Form.membersTrees ms).reverse around)
      (ps ++ ['{'] :: Form.membersBefore ms)
  | colon {around : List Frame} {ps : List (List Char)} (ms : List (StringText × Form))
      (key : StringText) (h : Opened around ps) :
    Reached (.colon (Form.membersTrees ms).reverse key.reading around)
      (ps ++ ['{'] :: (Form.membersBefore ms ++ [key.chars]))
  | complete (f : Form) : Reached (.complete f.tree) f.pieces

/-- An array or an object that is not broken off. -/
def Tree.Closed : Tree → Prop
  | .array _ none => True
  | .object _ none => True
  | _ => False

/-- The text has gone wrong, and its tree is not closed. -/
def Cursor.Off (c : Cursor) : Prop :=
  ∃ t, c = .broken t ∧ ¬t.Closed

theorem not_closed_breakOff {v : Tree} (hv : ¬v.Closed) (stop : Stop) (around : List Frame) :
    ¬(breakOff v stop around).Closed := by
  induction around generalizing v with
  | nil => exact hv
  | cons frame around ih =>
    cases frame with
    | item before => exact ih (v := .array _ (some stop)) id
    | member before key => exact ih (v := .object _ (some stop)) id

theorem off_breakOff {v : Tree} (hv : ¬v.Closed) (stop : Stop) (around : List Frame) :
    Cursor.Off (.broken (breakOff v stop around)) :=
  ⟨_, rfl, not_closed_breakOff hv stop around⟩

section

variable {around : List Frame} {ps : List (List Char)} {piece : List Char} {token : Token}
  {c : Cursor}

theorem reached_deliver (f : Form) (h : Opened around ps) :
    Reached (deliver f.tree around) (ps ++ f.pieces) := by
  cases h with
  | nil => exact .complete f
  | item fs h =>
    have hitem := Reached.afterItem fs f h
    rw [Form.itemsPieces_append, List.map_append, List.reverse_append] at hitem
    rw [List.append_assoc]
    exact hitem
  | member ms key h =>
    have hmember := Reached.afterMember ms key f h
    rw [Form.membersPieces_append, Form.membersTrees_eq_map, List.map_append,
      List.reverse_append] at hmember
    rw [List.append_assoc, List.cons_append, List.append_assoc, Form.membersTrees_eq_map]
    exact hmember

/-! ## One token -/

/-- A token where a value is due. -/
theorem Opened.startValue (h : Opened around ps) (hpiece : Lexeme piece token) :
    (startValue around token).Off ∨ Reached (startValue around token) (ps ++ [piece]) := by
  cases hpiece with
  | openBracket => exact .inr (.openArray h)
  | openBrace => exact .inr (.openObject h)
  | null => exact .inr (reached_deliver .null h)
  | true => exact .inr (reached_deliver (.boolean true) h)
  | false => exact .inr (reached_deliver (.boolean false) h)
  | number n =>
    rw [Cursor.startValue, Cursor.scalar_of_skip n.skip_reading]
    exact .inr (reached_deliver (.number n) h)
  | string s =>
    rw [Cursor.startValue, Cursor.scalar_of_skip s.skip_reading]
    exact .inr (reached_deliver (.string s) h)
  | closeBracket =>
    rw [Cursor.startValue.eq_def]
    dsimp only
    split <;> exact .inl (off_breakOff id _ _)
  | closeBrace | comma | colon => exact .inl (off_breakOff id _ _)

/-- A token where a key is due. -/
theorem Opened.startMember (h : Opened around ps) (ms : List (StringText × Form))
    (hpiece : Lexeme piece token) :
    (startMember (Form.membersTrees ms).reverse around token).Off ∨
      Reached (startMember (Form.membersTrees ms).reverse around token)
        (ps ++ ['{'] :: (Form.membersBefore ms ++ [piece])) := by
  cases hpiece with
  | string s =>
    rw [Cursor.startMember_of_skip s.skip_reading]
    exact .inr (.colon ms s h)
  | _ => exact .inl (off_breakOff id _ _)

/-- One more piece leads on, or the text has gone wrong. -/
theorem Reached.step (h : Reached c ps) (hc : ∀ t, c ≠ .complete t)
    (hpiece : Lexeme piece token) :
    (c.step token).Off ∨ Reached (c.step token) (ps ++ [piece]) := by
  cases h with
  | value h => exact h.startValue hpiece
  | openArray h =>
    by_cases hclose : token = .closeBracket
    · subst hclose
      cases hpiece
      rw [List.append_assoc]
      exact .inr (reached_deliver (.array []) h)
    · rw [Cursor.step_openArray hclose]
      exact (Opened.item [] h).startValue hpiece
  | afterItem fs f h =>
    rw [List.append_assoc]
    cases hpiece with
    | comma =>
      have hitem := Opened.item (fs ++ [f]) h
      rw [Form.itemsBefore_append] at hitem
      exact .inr (.value hitem)
    | closeBracket =>
      have harray := reached_deliver (.array (fs ++ [f])) h
      rw [Form.tree, Form.itemsTrees_eq_map] at harray
      rw [Cursor.step, List.reverse_reverse]
      exact .inr harray
    | _ => exact .inl (off_breakOff id _ _)
  | openObject h =>
    by_cases hclose : token = .closeBrace
    · subst hclose
      cases hpiece
      rw [List.append_assoc]
      exact .inr (reached_deliver (.object []) h)
    · rw [Cursor.step_openObject hclose, List.append_assoc]
      exact h.startMember [] hpiece
  | afterMember ms key f h =>
    rw [List.append_assoc]
    cases hpiece with
    | comma =>
      have hkey := Reached.nextKey (ms ++ [(key, f)]) h
      rw [Form.membersBefore_append] at hkey
      exact .inr hkey
    | closeBrace =>
      have hobject := reached_deliver (.object (ms ++ [(key, f)])) h
      rw [Cursor.step, List.reverse_reverse]
      exact .inr hobject
    | _ => exact .inl (off_breakOff id _ _)
  | nextKey ms h =>
    rw [List.append_assoc]
    exact h.startMember ms hpiece
  | colon ms key h =>
    rw [List.append_assoc, List.cons_append, List.append_assoc]
    cases hpiece with
    | colon => exact .inr (.value (.member ms key h))
    | _ => exact .inl (off_breakOff id _ _)
  | complete f => exact absurd rfl (hc _)

theorem off_startValue (h : token.Stops) (around : List Frame) :
    (startValue around token).Off := by
  cases h with
  | misspelled e => exact off_breakOff id _ _
  | stray => exact off_breakOff id _ _
  | number hskip | string hskip =>
    rw [Cursor.startValue, Cursor.scalar]
    split
    · next hok => exact absurd hok hskip
    · exact off_breakOff id _ _

theorem off_startMember (h : token.Stops) (before : List (Reading String × Tree))
    (around : List Frame) : (startMember before around token).Off := by
  cases h with
  | string hskip =>
    rw [Cursor.startMember]
    split
    · next hok => exact absurd hok hskip
    · exact off_breakOff id _ _
  | misspelled e | stray | number hskip => exact off_breakOff id _ _

/-- At a token that stops it the text goes wrong. -/
theorem Reached.off_of_stops (h : Reached c ps) (hc : ∀ t, c ≠ .complete t)
    (htoken : token.Stops) : (c.step token).Off := by
  cases h with
  | value h => exact off_startValue htoken _
  | openArray h =>
    rw [Cursor.step_openArray (by rintro rfl; cases htoken)]
    exact off_startValue htoken _
  | openObject h =>
    rw [Cursor.step_openObject (by rintro rfl; cases htoken)]
    exact off_startMember htoken _ _
  | nextKey ms h => exact off_startMember htoken _ _
  | afterItem | afterMember | colon => cases htoken <;> exact off_breakOff id _ _
  | complete f => exact absurd rfl (hc _)

/-! ## All tokens -/

theorem not_closed_finish (h : Reached c ps) (hc : ∀ t, c ≠ .complete t) : ¬c.finish.Closed := by
  cases h with
  | complete f => exact absurd rfl (hc _)
  | _ => exact not_closed_breakOff id _ _

theorem readTokens_cons (hc : ∀ t, c ≠ .complete t) (ts : List Token) :
    readTokens c (token :: ts) = readTokens (c.step token) ts := by
  cases c with
  | complete t => exact absurd rfl (hc t)
  | _ => rfl

/-- A text that has gone wrong has no closed tree. -/
theorem Cursor.Off.readTokens_ne (h : c.Off) {t : Tree} (ht : t.Closed) (ts : List Token) :
    readTokens c ts ≠ ⟨t, false⟩ := by
  obtain ⟨u, rfl, hu⟩ := h
  rw [readTokens_broken]
  intro heq
  obtain rfl : u = t := congrArg Parsed.tree heq
  exact hu ht

theorem Spaced.space_cons {a : Char} (ha : isSpace a = true) {pieces : List (List Char)}
    {s : List Char} (h : Spaced pieces s) : Spaced pieces (a :: s) := by
  cases h with
  | nil hw => exact .nil (List.forall_mem_cons.2 ⟨ha, hw⟩)
  | @cons w _ _ _ hw hs => exact .cons (w := a :: w) (List.forall_mem_cons.2 ⟨ha, hw⟩) hs

/-- From a place that is reached on, the rest of the text completes the pieces of a form. -/
theorem Reached.exists_form {s : List Char} (h : Reached c ps) {t : Tree} (ht : t.Closed)
    (hread : readTokens c (tokens s) = ⟨t, false⟩) :
    ∃ (f : Form) (qs : List (List Char)), Spaced qs s ∧ f.pieces = ps ++ qs := by
  induction s using tokens.induct generalizing c ps with
  | case1 =>
    rw [tokens, readTokens_nil] at hread
    obtain rfl : c.finish = t := congrArg Parsed.tree hread
    by_cases hc : ∃ u, c = .complete u
    · obtain ⟨u, rfl⟩ := hc
      cases h with
      | complete f => exact ⟨f, [], .nil (List.forall_mem_nil _), (List.append_nil _).symm⟩
    · exact absurd ht (not_closed_finish h (not_exists.1 hc))
  | case2 a s ha ih =>
    rw [tokens, if_pos ha] at hread
    obtain ⟨f, qs, hqs, hpieces⟩ := ih h hread
    exact ⟨f, qs, hqs.space_cons ha, hpieces⟩
  | case3 a s ha ih =>
    rw [tokens, if_neg ha] at hread
    by_cases hc : ∃ u, c = .complete u
    · obtain ⟨u, rfl⟩ := hc
      cases congrArg Parsed.trailing hread
    · have hc := not_exists.1 hc
      rw [readTokens_cons hc] at hread
      obtain hstops | ⟨piece, hpiece, hs⟩ := taken_scanToken a s
      · exact absurd hread ((h.off_of_stops hc hstops).readTokens_ne ht _)
      · obtain hoff | hnext := h.step hc hpiece
        · exact absurd hread (hoff.readTokens_ne ht _)
        · obtain ⟨f, qs, hqs, hpieces⟩ := ih hnext hread
          refine ⟨f, piece :: qs, ?_, by rw [hpieces, List.append_assoc]; rfl⟩
          rw [hs]
          exact .cons (w := []) (List.forall_mem_nil _) hqs

end

/-- A text that spells a closed tree, and nothing behind it, is the text of a form. -/
theorem exists_form_of_parse {text : String} {t : Tree} (ht : t.Closed)
    (h : parse text.toList = ⟨t, false⟩) : ∃ f : Form, f.IsText text := by
  obtain ⟨f, qs, hqs, hpieces⟩ := (Reached.value .nil).exists_form ht h
  refine ⟨f, ?_⟩
  rw [Form.IsText, hpieces]
  exact hqs

end SpendTrace.Json
