import SpendTrace.Json.Tree
import SpendTrace.Proofs.Except

/-!
# Whole trees

A tree is whole if nothing in it is broken off. Its tokens in order are all that has to be known of
a text that spells it: wherever these tokens stand, the tree is what is read.

* `Tree.Whole` and `Tree.tokens`.
* `readTokens_tokens` reads a whole tree off its tokens.
-/

namespace SpendTrace.Json

namespace Tree

/-- What holds of a tree whenever it holds of its parts holds of every tree. -/
@[elab_as_elim]
theorem induct {P : Tree → Prop} (null : P .null) (boolean : ∀ b, P (.boolean b))
    (number : ∀ n, P (.number n)) (string : ∀ s, P (.string s))
    (misspelled : ∀ e, P (.misspelled e)) (missing : ∀ read skip, P (.missing read skip))
    (array : ∀ items ending, (∀ t ∈ items, P t) → P (.array items ending))
    (object : ∀ members ending, (∀ m ∈ members, P m.2) → P (.object members ending))
    (t : Tree) : P t :=
  @Tree.rec P (fun ts => ∀ t ∈ ts, P t) (fun ms => ∀ m ∈ ms, P m.2) (fun m => P m.2) null boolean
    number string misspelled missing array object
    (List.forall_mem_nil _) (fun _ _ ht hts => List.forall_mem_cons.2 ⟨ht, hts⟩)
    (List.forall_mem_nil _) (fun _ _ hm hms => List.forall_mem_cons.2 ⟨hm, hms⟩) (fun _ _ h => h) t

/-- A tree that can be skipped from end to end. -/
def Whole (t : Tree) : Prop :=
  t.skip = .ok ()

/-! ## The tokens of a tree -/

mutual

/-- The tokens that spell a tree, if it is whole. -/
def tokens : Tree → List Token
  | null => [.null]
  | boolean b => [.boolean b]
  | number n => [.number n]
  | string s => [.string s]
  | misspelled e => [.misspelled e]
  | missing _ _ => []
  | array items _ => .openBracket :: (itemsTokens items ++ [.closeBracket])
  | object members _ => .openBrace :: (membersTokens members ++ [.closeBrace])

/-- The items of an array, separated by commas. -/
def itemsTokens : List Tree → List Token
  | [] => []
  | [t] => t.tokens
  | t :: u :: ts => t.tokens ++ .comma :: itemsTokens (u :: ts)

/-- The members of an object, separated by commas. -/
def membersTokens : List (Reading String × Tree) → List Token
  | [] => []
  | [(key, t)] => .string key :: .colon :: t.tokens
  | (key, t) :: m :: ms => .string key :: .colon :: (t.tokens ++ .comma :: membersTokens (m :: ms))

end

/-! ## The parts of a whole tree -/

theorem skipItems_eq_ok {ts : List Tree} : skipItems ts = .ok () ↔ ∀ t ∈ ts, t.Whole := by
  induction ts with
  | nil => simp [skipItems]
  | cons t ts ih => rw [skipItems, Except.check_bind_eq_ok, ih, List.forall_mem_cons, Whole]

theorem skipMembers_eq_ok {ms : List (Reading String × Tree)} :
    skipMembers ms = .ok () ↔ ∀ m ∈ ms, m.1.skip = .ok () ∧ m.2.Whole := by
  induction ms with
  | nil => simp [skipMembers]
  | cons m ms ih =>
    rw [skipMembers, Except.check_bind_eq_ok, Except.check_bind_eq_ok, ih, List.forall_mem_cons,
      Whole, and_assoc]

theorem skipEnding_eq_ok {ending : Option Stop} : skipEnding ending = .ok () ↔ ending = none := by
  cases ending with
  | none => simp [skipEnding]
  | some stop => simp [skipEnding]

theorem whole_array {items : List Tree} {ending : Option Stop} :
    (array items ending).Whole ↔ (∀ t ∈ items, t.Whole) ∧ ending = none := by
  rw [Whole, skip, Except.check_bind_eq_ok, skipItems_eq_ok, skipEnding_eq_ok]

theorem whole_object {members : List (Reading String × Tree)} {ending : Option Stop} :
    (object members ending).Whole ↔
      (∀ m ∈ members, m.1.skip = .ok () ∧ m.2.Whole) ∧ ending = none := by
  rw [Whole, skip, Except.check_bind_eq_ok, skipMembers_eq_ok, skipEnding_eq_ok]

/-- A whole tree starts with a token that does not close a list. -/
theorem exists_tokens_eq_cons {t : Tree} (h : t.Whole) :
    ∃ first rest, t.tokens = first :: rest ∧ first ≠ .closeBracket := by
  cases t with
  | missing => cases h
  | null | boolean | number | string | misspelled | array | object =>
    simp [tokens]

theorem exists_itemsTokens_eq_cons {t : Tree} (h : t.Whole) (items : List Tree) :
    ∃ first rest, itemsTokens (t :: items) = first :: rest ∧ first ≠ .closeBracket := by
  obtain ⟨first, rest, hfirst, hne⟩ := exists_tokens_eq_cons h
  cases items with
  | nil => exact ⟨first, rest, hfirst, hne⟩
  | cons u items => exact ⟨first, _, by rw [itemsTokens, hfirst, List.cons_append], hne⟩

end Tree

/-! ## Reading a tree off its tokens -/

namespace Cursor

theorem scalar_of_skip {α : Type} {r : Reading α} (h : r.skip = .ok ()) (t : Tree)
    (around : List Frame) : scalar r t around = deliver t around := by
  rw [scalar, h]

theorem startMember_of_skip {key : Reading String} (h : key.skip = .ok ())
    (before : List (Reading String × Tree)) (around : List Frame) :
    startMember before around (.string key) = colon before key around := by
  rw [startMember, h]

end Cursor

open Cursor (deliver)

theorem readTokens_nil (c : Cursor) : readTokens c [] = ⟨c.finish, false⟩ := by
  cases c <;> rfl

theorem readTokens_broken (t : Tree) (ts : List Token) :
    readTokens (.broken t) ts = ⟨t, false⟩ := by
  induction ts with
  | nil => rfl
  | cons _ ts ih => exact ih

theorem readTokens_openArray {first : Token} (h : first ≠ .closeBracket) (around : List Frame)
    (ts : List Token) : readTokens (.openArray around) (first :: ts) =
      readTokens (.value (.item [] :: around)) (first :: ts) := by
  show readTokens ((Cursor.openArray around).step first) ts = _
  rw [Cursor.step_openArray h]
  rfl

/-- A key and a colon make way for a value. -/
theorem readTokens_key {key : Reading String} (h : key.skip = .ok ())
    (before : List (Reading String × Tree)) (around : List Frame) (ts : List Token) :
    readTokens (.nextKey before around) (.string key :: .colon :: ts) =
      readTokens (.value (.member before key :: around)) ts := by
  show readTokens (Cursor.startMember before around (.string key)) (.colon :: ts) = _
  rw [Cursor.startMember_of_skip h]
  rfl

/-- The tree stands for its tokens where a value is due. -/
def Tree.ReadOff (t : Tree) : Prop :=
  ∀ (around : List Frame) (ts : List Token),
    readTokens (.value around) (t.tokens ++ ts) = readTokens (deliver t around) ts

theorem readTokens_itemsTokens {t : Tree} {items : List Tree}
    (h : ∀ u ∈ t :: items, u.ReadOff) (before : List Tree) (around : List Frame)
    (ts : List Token) :
    readTokens (.value (.item before :: around))
        (Tree.itemsTokens (t :: items) ++ .closeBracket :: ts) =
      readTokens (deliver (.array (before.reverse ++ t :: items) none) around) ts := by
  induction items generalizing t before with
  | nil =>
    rw [Tree.itemsTokens, h t List.mem_cons_self]
    show readTokens (deliver (.array (t :: before).reverse none) around) ts = _
    rw [List.reverse_cons]
  | cons u items ih =>
    have hrest := ih (List.forall_mem_cons.1 h).2 (t :: before)
    rw [List.reverse_cons, List.append_assoc, List.singleton_append] at hrest
    rw [Tree.itemsTokens, List.append_assoc, h t List.mem_cons_self]
    exact hrest

theorem readTokens_membersTokens {m : Reading String × Tree}
    {members : List (Reading String × Tree)}
    (h : ∀ n ∈ m :: members, n.1.skip = .ok () ∧ n.2.ReadOff)
    (before : List (Reading String × Tree)) (around : List Frame) (ts : List Token) :
    readTokens (.nextKey before around)
        (Tree.membersTokens (m :: members) ++ .closeBrace :: ts) =
      readTokens (deliver (.object (before.reverse ++ m :: members) none) around) ts := by
  obtain ⟨key, t⟩ := m
  obtain ⟨hkey, ht⟩ := h (key, t) List.mem_cons_self
  induction members generalizing key t before with
  | nil =>
    rw [Tree.membersTokens, List.cons_append, List.cons_append, readTokens_key hkey, ht]
    show readTokens (deliver (.object ((key, t) :: before).reverse none) around) ts = _
    rw [List.reverse_cons]
  | cons n members ih =>
    obtain ⟨key', t'⟩ := n
    obtain ⟨hkey', ht'⟩ := (List.forall_mem_cons.1 h).2 (key', t') List.mem_cons_self
    have hrest := ih ((key, t) :: before) key' t' (List.forall_mem_cons.1 h).2 hkey' ht'
    rw [List.reverse_cons, List.append_assoc, List.singleton_append] at hrest
    rw [Tree.membersTokens, List.cons_append, List.cons_append, readTokens_key hkey,
      List.append_assoc, ht]
    exact hrest

/-- A whole tree is read off its tokens, wherever it stands. -/
theorem readTokens_tokens {t : Tree} (h : t.Whole) : t.ReadOff := by
  induction t using Tree.induct with
  | null => exact fun _ _ => rfl
  | boolean b => exact fun _ _ => rfl
  | number n =>
    intro around ts
    rw [← Cursor.scalar_of_skip (r := n) h]
    rfl
  | string s =>
    intro around ts
    rw [← Cursor.scalar_of_skip (r := s) h]
    rfl
  | misspelled e => cases h
  | missing read skip => cases h
  | array items ending ih =>
    obtain ⟨hitems, rfl⟩ := Tree.whole_array.1 h
    intro around ts
    cases items with
    | nil => rfl
    | cons t items =>
      -- The first item stands where the list might still be closed.
      have hoff : ∀ u ∈ t :: items, u.ReadOff := fun u hu => ih u hu (hitems u hu)
      have hread := readTokens_itemsTokens hoff [] around ts
      rw [List.reverse_nil, List.nil_append] at hread
      have hwhole := hitems t List.mem_cons_self
      obtain ⟨first, rest, hfirst, hne⟩ := Tree.exists_itemsTokens_eq_cons hwhole items
      rw [← hread, Tree.tokens, hfirst]
      simp only [List.cons_append, List.append_assoc]
      exact readTokens_openArray hne around _
  | object members ending ih =>
    obtain ⟨hmembers, rfl⟩ := Tree.whole_object.1 h
    intro around ts
    cases members with
    | nil => rfl
    | cons m members =>
      have hoff : ∀ n ∈ m :: members, n.1.skip = .ok () ∧ n.2.ReadOff :=
        fun n hn => ⟨(hmembers n hn).1, ih n hn (hmembers n hn).2⟩
      have hread := readTokens_membersTokens hoff [] around ts
      rw [List.reverse_nil, List.nil_append] at hread
      rw [← hread, Tree.tokens, List.cons_append, List.append_assoc]
      obtain ⟨key, t⟩ := m
      cases members <;> rfl

/-- A text whose tokens spell a whole tree is that tree. -/
theorem parse_of_tokens {t : Tree} (h : t.Whole) {s : List Char} (hs : tokens s = t.tokens) :
    parse s = ⟨t, false⟩ := by
  have hread := readTokens_tokens h [] []
  rw [List.append_nil] at hread
  rw [parse, hs, hread]
  rfl

end SpendTrace.Json
