import SpendTrace.Json.Read
import SpendTrace.Proofs.Json.Lexing
import SpendTrace.Proofs.Json.Whole

/-!
# Reading what was written

A value with no numbers but integers reads back: its written form has the tokens of a whole tree,
in which every number and every string is known exactly.

* `Value.tree` is that tree.
* `parse_text`: it is what the written form spells.
* `readText_toText`: a reader of texts gets that tree to read.
-/

namespace SpendTrace.Json

namespace Value

mutual

/-- The tree that a value is written as. -/
def tree : Value → Tree
  | null => .null
  | boolean b => .boolean b
  | number n => .number (.exact n)
  | string s => .string (.exact s)
  | array items => .array (itemsTrees items) none
  | object members => .object (membersTrees members) none

def itemsTrees : List Value → List Tree
  | [] => []
  | v :: vs => v.tree :: itemsTrees vs

def membersTrees : List (String × Value) → List (Reading String × Tree)
  | [] => []
  | (k, v) :: ms => (.exact k, v.tree) :: membersTrees ms

end

@[simp] theorem itemsTrees_eq_map (vs : List Value) : itemsTrees vs = vs.map tree := by
  induction vs with
  | nil => rfl
  | cons v vs ih => rw [itemsTrees, ih, List.map_cons]

@[simp] theorem membersTrees_eq_map (ms : List (String × Value)) :
    membersTrees ms = ms.map fun m => (.exact m.1, m.2.tree) := by
  induction ms with
  | nil => rfl
  | cons m ms ih => rw [membersTrees, ih, List.map_cons]

/-- A value all of whose numbers are integers. -/
inductive Integral : Value → Prop where
  | null : Integral null
  | boolean (b : Bool) : Integral (boolean b)
  | number (i : Int) (h : InWord i) : Integral (number (.integer i h))
  | string (s : String) : Integral (string s)
  | array (items : List Value) (h : ∀ v ∈ items, Integral v) : Integral (array items)
  | object (members : List (String × Value)) (h : ∀ m ∈ members, Integral m.2) :
    Integral (object members)

/-- The written form has the tokens of the tree. -/
def Spelled (v : Value) : Prop :=
  ∀ rest, EndsNumeral rest → tokens (v.text ++ rest) = v.tree.tokens ++ tokens rest

theorem spelled_of_lexes {v : Value} {t : Token} (h : Lexes v.text t) (ht : v.tree.tokens = [t]) :
    v.Spelled := by
  intro rest _
  rw [h rest, ht, List.singleton_append]

/-! ## Containers -/

theorem tokens_itemsText {v : Value} {vs : List Value} (h : ∀ w ∈ v :: vs, w.Spelled)
    {rest : List Char} (hrest : EndsNumeral rest) :
    tokens (itemsText (v :: vs) ++ rest) =
      Tree.itemsTokens (itemsTrees (v :: vs)) ++ tokens rest := by
  induction vs generalizing v with
  | nil => exact h v List.mem_cons_self rest hrest
  | cons w vs ih =>
    rw [itemsText, List.append_assoc, List.cons_append,
      h v List.mem_cons_self _ (endsNumeral_cons _ (by decide)), lexes_comma.cons,
      ih (List.forall_mem_cons.1 h).2]
    simp only [itemsTrees, Tree.itemsTokens, List.append_assoc, List.cons_append]

theorem tokens_membersText {m : String × Value} {ms : List (String × Value)}
    (h : ∀ n ∈ m :: ms, n.2.Spelled) {rest : List Char} (hrest : EndsNumeral rest) :
    tokens (membersText (m :: ms) ++ rest) =
      Tree.membersTokens (membersTrees (m :: ms)) ++ tokens rest := by
  obtain ⟨k, v⟩ := m
  induction ms generalizing k v with
  | nil =>
    rw [membersText, List.append_assoc, lexes_stringText, List.cons_append, lexes_colon.cons,
      h (k, v) List.mem_cons_self rest hrest]
    rfl
  | cons n ms ih =>
    rw [membersText, List.append_assoc, lexes_stringText, List.cons_append, lexes_colon.cons,
      List.append_assoc, List.cons_append,
      h (k, v) List.mem_cons_self _ (endsNumeral_cons _ (by decide)), lexes_comma.cons,
      ih n.1 n.2 (List.forall_mem_cons.1 h).2]
    simp only [membersTrees, Tree.membersTokens, List.append_assoc, List.cons_append]

/-- An object ends with its brace, whatever follows. -/
theorem tokens_object {members : List (String × Value)} (h : ∀ m ∈ members, m.2.Spelled)
    (rest : List Char) :
    tokens ((object members).text ++ rest) = (object members).tree.tokens ++ tokens rest := by
  cases members with
  | nil => exact (lexes_openBrace.cons _).trans (congrArg _ (lexes_closeBrace.cons rest))
  | cons m ms =>
    simp only [text, tree, Tree.tokens, List.cons_append, List.append_assoc, List.nil_append]
    rw [lexes_openBrace.cons, tokens_membersText h (endsNumeral_cons rest (by decide)),
      lexes_closeBrace.cons]

theorem Integral.spelled {v : Value} (h : v.Integral) : v.Spelled := by
  induction h with
  | null => exact spelled_of_lexes lexes_null rfl
  | boolean b =>
    cases b with
    | true => exact spelled_of_lexes lexes_true rfl
    | false => exact spelled_of_lexes lexes_false rfl
  | number i hi => exact fun rest hrest => tokens_integer hi hrest
  | string s => exact spelled_of_lexes (lexes_stringText s) rfl
  | array items _ ih =>
    intro rest _
    cases items with
    | nil => exact (lexes_openBracket.cons _).trans (congrArg _ (lexes_closeBracket.cons rest))
    | cons v vs =>
      simp only [text, tree, Tree.tokens, List.cons_append, List.append_assoc, List.nil_append]
      rw [lexes_openBracket.cons, tokens_itemsText ih (endsNumeral_cons rest (by decide)),
        lexes_closeBracket.cons]
  | object members _ ih => exact fun rest _ => tokens_object ih rest

/-! ## Whole texts -/

theorem Integral.whole {v : Value} (h : v.Integral) : v.tree.Whole := by
  induction h with
  | null | boolean b | number i hi | string s => rfl
  | array items _ ih =>
    rw [tree, itemsTrees_eq_map, Tree.whole_array]
    refine ⟨fun t ht => ?_, rfl⟩
    obtain ⟨v, hv, rfl⟩ := List.mem_map.1 ht
    exact ih v hv
  | object members _ ih =>
    rw [tree, membersTrees_eq_map, Tree.whole_object]
    refine ⟨fun n hn => ?_, rfl⟩
    obtain ⟨m, hm, rfl⟩ := List.mem_map.1 hn
    exact ⟨rfl, ih m hm⟩

/-- The written form spells the tree. -/
theorem parse_text {v : Value} (h : v.Integral) : parse v.text = ⟨v.tree, false⟩ := by
  have hspelled := h.spelled [] endsNumeral_nil
  rw [List.append_nil, Json.tokens, List.append_nil] at hspelled
  exact parse_of_tokens h.whole hspelled

/-- What is written as a text is read as its tree. -/
theorem readText_toText {α : Type} {v : Value} (h : v.Integral)
    (read : Nat → Tree → Except Error α) : readText read v.toText = read maxDepth v.tree := by
  rw [readText, toText, String.toList_ofList, parse_text h]
  cases read maxDepth v.tree <;> rfl

/-- What follows an object is not looked at, but for whether there is a token. -/
theorem parse_object_append {members : List (String × Value)} (h : (object members).Integral)
    (rest : List Char) : parse ((object members).text ++ rest) =
      ⟨(object members).tree, !(Json.tokens rest).isEmpty⟩ := by
  have hwhole := h.whole
  cases h with
  | object _ h =>
    rw [parse, tokens_object (fun m hm => (h m hm).spelled), readTokens_tokens hwhole]
    cases Json.tokens rest <;> rfl

end Value

end SpendTrace.Json
