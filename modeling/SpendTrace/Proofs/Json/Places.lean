import SpendTrace.Proofs.Json.Replacing
import SpendTrace.Proofs.Json.Whole

/-!
# Places in a text

Where a value is due in a text, the containers around it are open, and what they hold so far is
known. Nothing that follows can change that: the tree of the text has these containers, each with
what it held at that place, then what stands there, and then something more.

* `Held`: a tree has a value at a place.
* `Cursor.Promises.of_step`: what one more token leaves of the promises made so far.
* `Cursor.Due.held`: whatever the rest of the text is, its tree has what stands at the place.
* `Held.fieldReplaced`: two texts that agree up to a place and differ in what stands there.
-/

namespace SpendTrace.Json

/-- The tree has the value at the place that is within these containers, innermost first, each of
which begins with what the frame holds. -/
def Held : List Frame → Tree → Tree → Prop
  | [], v, t => t = v
  | .item before :: around, v, t =>
    ∃ after ending, Held around (.array (before.reverse ++ v :: after) ending) t
  | .member before key :: around, v, t =>
    ∃ after ending, Held around (.object (before.reverse ++ (key, v) :: after) ending) t

namespace Cursor

/-- The place that is reached with more tokens. -/
def run (c : Cursor) (ts : List Token) : Cursor :=
  ts.foldl step c

/-- A value is due within these containers. -/
inductive Due : Cursor → List Frame → Prop where
  | value (around : List Frame) : Due (.value around) around
  | first (around : List Frame) : Due (.openArray around) (.item [] :: around)

/-- What is certain of the tree of a text when so much of it has been read. -/
def Promises : Cursor → Tree → Prop
  | value around, t => ∃ v, Held around v t
  | openArray around, t => ∃ v, Held around v t
  | afterItem before around, t =>
    ∃ after ending, Held around (.array (before.reverse ++ after) ending) t
  | openObject around, t => ∃ v, Held around v t
  | afterMember before around, t =>
    ∃ after ending, Held around (.object (before.reverse ++ after) ending) t
  | nextKey before around, t =>
    ∃ after ending, Held around (.object (before.reverse ++ after) ending) t
  | colon before _ around, t =>
    ∃ after ending, Held around (.object (before.reverse ++ after) ending) t
  | complete u, t => t = u
  | broken u, t => t = u

variable {around : List Frame} {before : List Tree} {members : List (Reading String × Tree)}
  {key : Reading String} {t u v : Tree}

/-! ## One token -/

/-- A value that has been read is held. -/
theorem held_of_deliver (h : (deliver v around).Promises t) : Held around v t := by
  cases around with
  | nil => exact h
  | cons frame around =>
    cases frame with
    | item before =>
      obtain ⟨after, ending, h⟩ := h
      exact ⟨after, ending, by simpa using h⟩
    | member before key =>
      obtain ⟨after, ending, h⟩ := h
      exact ⟨after, ending, by simpa using h⟩

/-- A value at which the text goes wrong is held. -/
theorem held_breakOff (v : Tree) (stop : Stop) (around : List Frame) :
    Held around v (breakOff v stop around) := by
  induction around generalizing v with
  | nil => rfl
  | cons frame around ih =>
    cases frame with
    | item before => exact ⟨[], some stop, by simpa [breakOff] using ih _⟩
    | member before key => exact ⟨[], some stop, by simpa [breakOff] using ih _⟩

theorem held_of_broken {stop : Stop} (h : (broken (breakOff v stop around)).Promises t) :
    Held around v t := by
  obtain rfl := h
  exact held_breakOff v stop around

theorem held_broken_array (before : List Tree) (stop stop' : Stop) (around : List Frame) :
    ∃ after ending, Held around (.array (before.reverse ++ after) ending)
      (breakOff (.array before.reverse (some stop)) stop' around) := by
  refine ⟨[], some stop, ?_⟩
  rw [List.append_nil]
  exact held_breakOff _ stop' around

theorem held_broken_object (members : List (Reading String × Tree)) (stop stop' : Stop)
    (around : List Frame) :
    ∃ after ending, Held around (.object (members.reverse ++ after) ending)
      (breakOff (.object members.reverse (some stop)) stop' around) := by
  refine ⟨[], some stop, ?_⟩
  rw [List.append_nil]
  exact held_breakOff _ stop' around

theorem held_of_scalar {α : Type} {r : Reading α} (h : (scalar r v around).Promises t) :
    Held around v t := by
  unfold scalar at h
  split at h
  · exact held_of_deliver h
  · exact held_of_broken h

/-- Whatever is found where a value is due, the tree has a value there. -/
theorem exists_held_of_startValue {token : Token} (h : (startValue around token).Promises t) :
    ∃ v, Held around v t := by
  cases token with
  | openBracket | openBrace => exact h
  | null | boolean => exact ⟨_, held_of_deliver h⟩
  | number | string => exact ⟨_, held_of_scalar h⟩
  | closeBracket =>
    simp only [startValue] at h
    split at h <;> exact ⟨_, held_of_broken h⟩
  | misspelled | closeBrace | comma | colon | stray => exact ⟨_, held_of_broken h⟩

/-- The same of an object in which a member is due. -/
theorem exists_held_of_startMember {token : Token}
    (h : (startMember members around token).Promises t) :
    ∃ after ending, Held around (.object (members.reverse ++ after) ending) t := by
  cases token with
  | string key =>
    simp only [startMember] at h
    split at h
    · exact h
    · obtain ⟨after, ending, h⟩ := held_of_broken h
      exact ⟨_, ending, h⟩
  | _ =>
    obtain rfl := h
    exact held_broken_object members _ _ around

/-- One more token breaks no promise. -/
theorem Promises.of_step {c : Cursor} {token : Token} (h : (c.step token).Promises t) :
    c.Promises t := by
  cases c with
  | value around => exact exists_held_of_startValue h
  | openArray around =>
    by_cases hclose : token = .closeBracket
    · subst hclose
      exact ⟨_, held_of_deliver h⟩
    · rw [step_openArray hclose] at h
      obtain ⟨v, after, ending, h⟩ := exists_held_of_startValue h
      exact ⟨_, h⟩
  | afterItem before around =>
    cases token with
    | comma =>
      obtain ⟨v, after, ending, h⟩ := h
      exact ⟨v :: after, ending, h⟩
    | closeBracket => exact ⟨[], none, by simpa using held_of_deliver h⟩
    | _ =>
      obtain rfl := h
      exact held_broken_array before _ _ around
  | openObject around =>
    by_cases hclose : token = .closeBrace
    · subst hclose
      exact ⟨_, held_of_deliver h⟩
    · rw [step_openObject hclose] at h
      obtain ⟨after, ending, h⟩ := exists_held_of_startMember h
      exact ⟨_, h⟩
  | afterMember before around =>
    cases token with
    | comma => exact h
    | closeBrace => exact ⟨[], none, by simpa using held_of_deliver h⟩
    | _ =>
      obtain rfl := h
      exact held_broken_object before _ _ around
  | nextKey before around => exact exists_held_of_startMember h
  | colon before key around =>
    cases token with
    | colon =>
      obtain ⟨v, after, ending, h⟩ := h
      exact ⟨(key, v) :: after, ending, h⟩
    | _ =>
      obtain ⟨after, ending, h⟩ := held_of_broken h
      exact ⟨_, ending, h⟩
  | complete u => exact h
  | broken u => exact h

/-- The end of the text breaks no promise either. -/
theorem promises_finish (c : Cursor) : c.Promises c.finish := by
  cases c with
  | value around => exact ⟨_, held_breakOff _ _ around⟩
  | openArray around => exact ⟨_, held_breakOff _ _ around⟩
  | afterItem before around => exact held_broken_array before _ _ around
  | openObject around => exact ⟨_, held_breakOff _ _ around⟩
  | afterMember before around => exact held_broken_object before _ _ around
  | nextKey before around => exact held_broken_object before _ _ around
  | colon before key around =>
    obtain ⟨after, ending, h⟩ := held_breakOff _ _ (.member before key :: around)
    exact ⟨_, ending, h⟩
  | complete u => rfl
  | broken u => rfl

/-! ## All tokens -/

theorem promises_readTokens (c : Cursor) (ts : List Token) : c.Promises (readTokens c ts).tree := by
  induction ts generalizing c with
  | nil => cases c <;> exact promises_finish _
  | cons token ts ih =>
    cases c with
    | complete u => rfl
    | value | openArray | afterItem | openObject | afterMember | nextKey | colon | broken =>
      exact (ih _).of_step

theorem tree_readTokens_append (c : Cursor) (ts us : List Token) :
    (readTokens c (ts ++ us)).tree = (readTokens (c.run ts) us).tree := by
  induction ts generalizing c with
  | nil => rfl
  | cons token ts ih =>
    cases c with
    | complete u =>
      -- More tokens change only what is said of the text behind its tree.
      rw [run, List.foldl_cons, ← run, step, ← ih]
      cases ts <;> cases us <;> rfl
    | value | openArray | afterItem | openObject | afterMember | nextKey | colon | broken =>
      exact ih _

/-- Where a value is due and the list is not closed instead, there is one. -/
theorem Due.exists_held {c : Cursor} (h : c.Due around) {first : Token}
    (hfirst : first ≠ .closeBracket) (rest : List Token) :
    ∃ v, Held around v (readTokens c (first :: rest)).tree := by
  cases h with
  | value => exact promises_readTokens (.value around) _
  | first outer =>
    rw [readTokens_openArray hfirst]
    exact promises_readTokens (.value (.item [] :: outer)) _

/-- The value that stands where one is due is held, whatever follows it. -/
theorem Due.held {c : Cursor} (h : c.Due around) (hv : v.Whole) (ts : List Token) :
    Held around v (readTokens c (v.tokens ++ ts)).tree := by
  have hread : readTokens c (v.tokens ++ ts) = readTokens (deliver v around) ts := by
    cases h with
    | value => exact readTokens_tokens hv _ ts
    | first outer =>
      obtain ⟨token, rest, htokens, hne⟩ := Tree.exists_tokens_eq_cons hv
      rw [← readTokens_tokens hv, htokens]
      exact readTokens_openArray hne outer _
  rw [hread]
  exact held_of_deliver (promises_readTokens _ ts)

end Cursor

/-! ## Texts -/

/-- The place behind the tokens, where a value stands in the text, within these containers. -/
structure IsPlace (s : List Char) (before : List Token) (around : List Frame) : Prop where
  due : ((Cursor.value []).run before).Due around
  stands : ∃ first rest, tokens s = before ++ first :: rest ∧ first ≠ .closeBracket

variable {around : List Frame} {before : List Token} {s s' : List Char}

theorem IsPlace.exists_held (h : IsPlace s before around) : ∃ u, Held around u (parse s).tree := by
  obtain ⟨first, rest, hs, hfirst⟩ := h.stands
  rw [parse, hs, Cursor.tree_readTokens_append]
  exact h.due.exists_held hfirst rest

/-- A text that agrees with another up to a place, and then has the value there. -/
theorem IsPlace.held (h : IsPlace s before around) {v : Tree} (hv : v.Whole) {after : List Token}
    (hs' : tokens s' = before ++ (v.tokens ++ after)) : Held around v (parse s').tree := by
  rw [parse, hs', Cursor.tree_readTokens_append]
  exact h.due.held hv after

/-! ## Parts that are replaced -/

/-- The frame of the field with this name, which is the entry with this number in an array. -/
def Frame.IsField (name : String) (index : Nat) : Frame → Prop
  | item before => before.length = index
  | member _ key => key.read = .ok name

section

variable {R : Tree → Tree → Prop} {u u' t t' : Tree}

theorem Held.itemReplaced {before : List Tree} (hR : R u u')
    (h : Held (.item before :: around) u t) (h' : Held (.item before :: around) u' t') :
    ∃ v v', ItemReplaced R v v' ∧ Held around v t ∧ Held around v' t' := by
  obtain ⟨after, ending, h⟩ := h
  obtain ⟨after', ending', h'⟩ := h'
  exact ⟨_, _, .item hR, h, h'⟩

theorem Held.fieldReplaced {frame : Frame} {name : String} {index : Nat}
    (hframe : frame.IsField name index) (hR : R u u') (h : Held (frame :: around) u t)
    (h' : Held (frame :: around) u' t') :
    ∃ v v', FieldReplaced name index R v v' ∧ Held around v t ∧ Held around v' t' := by
  cases frame with
  | item before =>
    obtain ⟨after, ending, h⟩ := h
    obtain ⟨after', ending', h'⟩ := h'
    exact ⟨_, _, .entry (before.length_reverse.trans hframe) hR, h, h'⟩
  | member before key =>
    obtain ⟨after, ending, h⟩ := h
    obtain ⟨after', ending', h'⟩ := h'
    exact ⟨_, _, .member hframe hR, h, h'⟩

end

end SpendTrace.Json
