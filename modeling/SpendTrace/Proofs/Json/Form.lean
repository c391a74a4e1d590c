import SpendTrace.Proofs.Json.Spelling
import SpendTrace.Proofs.Json.Whole

/-!
# Forms of JSON texts

A form is a JSON text as it stands, but for the white space between its tokens: the numerals and
strings as they are spelled, the members of an object in their order, under one name as often as
they like. Every form can be skipped. It can be read if its numbers are in range, its strings write
a text and it is not nested too deep.

* `Form`, `Form.IsText`: forms, and their texts.
* `parse_of_isText`: what any text of a form spells.
* `Form.Readable`, `Form.Readable.check_tree`: forms in which every part has a value.
-/

namespace SpendTrace.Json

inductive Form where
  | null
  | boolean (value : Bool)
  | number (numeral : NumeralText)
  | string (text : StringText)
  | array (items : List Form)
  | object (members : List (StringText × Form))

namespace Form

/-- What holds of a form whenever it holds of its parts holds of every form. -/
@[elab_as_elim]
theorem induct {P : Form → Prop} (null : P .null) (boolean : ∀ b, P (.boolean b))
    (number : ∀ n, P (.number n)) (string : ∀ s, P (.string s))
    (array : ∀ items, (∀ f ∈ items, P f) → P (.array items))
    (object : ∀ members, (∀ m ∈ members, P m.2) → P (.object members)) (f : Form) : P f :=
  @Form.rec P (fun fs => ∀ f ∈ fs, P f) (fun ms => ∀ m ∈ ms, P m.2) (fun m => P m.2) null boolean
    number string array object
    (List.forall_mem_nil _) (fun _ _ hf hfs => List.forall_mem_cons.2 ⟨hf, hfs⟩)
    (List.forall_mem_nil _) (fun _ _ hm hms => List.forall_mem_cons.2 ⟨hm, hms⟩) (fun _ _ h => h) f

/-! ## Texts of a form -/

mutual

/-- The pieces of a form's text between which white space may stand. -/
def pieces : Form → List (List Char)
  | null => [['n', 'u', 'l', 'l']]
  | boolean true => [['t', 'r', 'u', 'e']]
  | boolean false => [['f', 'a', 'l', 's', 'e']]
  | number n => [n.chars]
  | string s => [s.chars]
  | array items => ['['] :: (itemsPieces items ++ [[']']])
  | object members => ['{'] :: (membersPieces members ++ [['}']])

def itemsPieces : List Form → List (List Char)
  | [] => []
  | [f] => f.pieces
  | f :: g :: fs => f.pieces ++ [','] :: itemsPieces (g :: fs)

def membersPieces : List (StringText × Form) → List (List Char)
  | [] => []
  | [(key, f)] => key.chars :: [':'] :: f.pieces
  | (key, f) :: m :: ms => key.chars :: [':'] :: (f.pieces ++ [','] :: membersPieces (m :: ms))

end

end Form

/-- The pieces in their order, with any white space in front, in between and behind. -/
inductive Spaced : List (List Char) → List Char → Prop where
  | nil {w} (hw : ∀ c ∈ w, isSpace c = true) : Spaced [] w
  | cons {w piece pieces s} (hw : ∀ c ∈ w, isSpace c = true) (hs : Spaced pieces s) :
    Spaced (piece :: pieces) (w ++ (piece ++ s))

/-- Takes the pieces off a text, each with the white space in front of it. -/
def isSpaced : List (List Char) → List Char → Bool
  | [], s => s.all isSpace
  | piece :: pieces, s =>
    let s := s.dropWhile isSpace
    piece.isPrefixOf s && isSpaced pieces (s.drop piece.length)

theorem spaced_of_isSpaced {pieces : List (List Char)} {s : List Char}
    (h : isSpaced pieces s = true) : Spaced pieces s := by
  induction pieces generalizing s with
  | nil => exact .nil (List.all_eq_true.1 h)
  | cons piece pieces ih =>
    obtain ⟨hpiece, hrest⟩ := (Bool.and_eq_true _ _).mp h
    obtain ⟨t, ht⟩ := List.isPrefixOf_iff_prefix.1 hpiece
    rw [← ht, List.drop_left] at hrest
    rw [← List.takeWhile_append_dropWhile (p := isSpace) (l := s), ← ht]
    exact .cons (List.all_eq_true.1 List.all_takeWhile) (ih hrest)

/-- The text is the form with white space between its pieces. -/
def Form.IsText (f : Form) (text : String) : Prop :=
  Spaced f.pieces text.toList

/-! ## The tree of a form -/

namespace Form

mutual

/-- What every text of the form spells. -/
def tree : Form → Tree
  | null => .null
  | boolean b => .boolean b
  | number n => .number n.reading
  | string s => .string s.reading
  | array items => .array (itemsTrees items) none
  | object members => .object (membersTrees members) none

def itemsTrees : List Form → List Tree
  | [] => []
  | f :: fs => f.tree :: itemsTrees fs

def membersTrees : List (StringText × Form) → List (Reading String × Tree)
  | [] => []
  | (key, f) :: ms => (key.reading, f.tree) :: membersTrees ms

end

@[simp] theorem itemsTrees_eq_map (fs : List Form) : itemsTrees fs = fs.map tree := by
  induction fs with
  | nil => rfl
  | cons f fs ih => rw [itemsTrees, ih, List.map_cons]

@[simp] theorem membersTrees_eq_map (ms : List (StringText × Form)) :
    membersTrees ms = ms.map fun m => (m.1.reading, m.2.tree) := by
  induction ms with
  | nil => rfl
  | cons m ms ih => rw [membersTrees, ih, List.map_cons]

theorem whole_tree (f : Form) : f.tree.Whole := by
  induction f using Form.induct with
  | null => rfl
  | boolean b => rfl
  | number n => exact n.skip_reading
  | string s => exact s.skip_reading
  | array items ih =>
    rw [tree, itemsTrees_eq_map, Tree.whole_array]
    exact ⟨List.forall_mem_map.2 ih, rfl⟩
  | object members ih =>
    rw [tree, membersTrees_eq_map, Tree.whole_object]
    exact ⟨List.forall_mem_map.2 fun m hm => ⟨m.1.skip_reading, ih m hm⟩, rfl⟩

end Form

/-! ## The tokens of a spaced text -/

theorem tokens_space {w : List Char} (hw : ∀ c ∈ w, isSpace c = true) (s : List Char) :
    tokens (w ++ s) = tokens s := by
  induction w with
  | nil => rfl
  | cons c w ih =>
    obtain ⟨hc, hw⟩ := List.forall_mem_cons.1 hw
    rw [List.cons_append, tokens, if_pos hc, ih hw]

/-- No numeral in front of these pieces goes on with them. -/
def Stops (pieces : List (List Char)) : Prop :=
  ∀ s, Spaced pieces s → EndsNumeral s

/-- The pieces are these tokens wherever they stand, if nothing behind them continues a numeral. -/
def Lexed (pieces : List (List Char)) (ts : List Token) : Prop :=
  ∀ more, Stops more → ∀ s, Spaced (pieces ++ more) s →
    ∃ rest, Spaced more rest ∧ tokens s = ts ++ tokens rest

theorem endsNumeral_space {w s : List Char} (hw : ∀ c ∈ w, isSpace c = true)
    (hs : EndsNumeral s) : EndsNumeral (w ++ s) := by
  cases w with
  | nil => exact hs
  | cons c w =>
    refine endsNumeral_cons _ ?_
    have hc := hw c List.mem_cons_self
    simp only [isSpace, Bool.or_eq_true, beq_iff_eq] at hc
    obtain ((rfl | rfl) | rfl) | rfl := hc
    all_goals decide

theorem stops_nil : Stops [] := by
  rintro w ⟨hw⟩
  have hspace := endsNumeral_space hw endsNumeral_nil
  rwa [List.append_nil] at hspace

theorem stops_cons {c : Char} {piece : List Char}
    (h : c.isDigit = false ∧ c ≠ '.' ∧ c ≠ 'e' ∧ c ≠ 'E') (pieces : List (List Char)) :
    Stops ((c :: piece) :: pieces) := by
  intro s hs
  cases hs with
  | cons hw hs => exact endsNumeral_space hw (endsNumeral_cons _ h)

theorem lexed_nil : Lexed [] [] :=
  fun _ _ s hs => ⟨s, hs, rfl⟩

/-- A piece that is a token whatever follows it. -/
theorem Lexed.cons {piece : List Char} {t : Token} (hpiece : Lexes piece t)
    {pieces : List (List Char)} {ts : List Token} (h : Lexed pieces ts) :
    Lexed (piece :: pieces) (t :: ts) := by
  intro more hmore s hs
  cases hs with
  | cons hw hs =>
    obtain ⟨rest, hrest, htokens⟩ := h more hmore _ hs
    exact ⟨rest, hrest, by rw [tokens_space hw, hpiece, htokens, List.cons_append]⟩

theorem Lexed.append {ps qs : List (List Char)} {ts us : List Token} (h : Lexed ps ts)
    (hstops : ∀ more, Stops (qs ++ more)) (h' : Lexed qs us) : Lexed (ps ++ qs) (ts ++ us) := by
  intro more hmore s hs
  rw [List.append_assoc] at hs
  obtain ⟨s', hs', htokens⟩ := h _ (hstops more) s hs
  obtain ⟨rest, hrest, htokens'⟩ := h' more hmore s' hs'
  exact ⟨rest, hrest, by rw [htokens, htokens', List.append_assoc]⟩

theorem lexed_numeral (n : NumeralText) : Lexed [n.chars] [.number n.reading] := by
  intro more hmore s hs
  cases hs with
  | cons hw hs => exact ⟨_, hs, by rw [tokens_space hw, tokens_numeral n (hmore _ hs)]; rfl⟩

/-- The pieces of the form are the tokens of its tree. -/
def Form.Spelled (f : Form) : Prop :=
  Lexed f.pieces f.tree.tokens

theorem lexed_itemsPieces {f : Form} {fs : List Form} (h : ∀ g ∈ f :: fs, g.Spelled) :
    Lexed (Form.itemsPieces (f :: fs)) (Tree.itemsTokens (Form.itemsTrees (f :: fs))) := by
  induction fs generalizing f with
  | nil => exact h f List.mem_cons_self
  | cons g fs ih =>
    obtain ⟨hf, hfs⟩ := List.forall_mem_cons.1 h
    exact hf.append (fun _ => stops_cons (by decide) _) (.cons lexes_comma (ih hfs))

theorem lexed_membersPieces {m : StringText × Form} {ms : List (StringText × Form)}
    (h : ∀ n ∈ m :: ms, n.2.Spelled) :
    Lexed (Form.membersPieces (m :: ms)) (Tree.membersTokens (Form.membersTrees (m :: ms))) := by
  obtain ⟨key, f⟩ := m
  induction ms generalizing key f with
  | nil => exact .cons (tokens_string key) (.cons lexes_colon (h _ List.mem_cons_self))
  | cons n ms ih =>
    obtain ⟨hf, hms⟩ := List.forall_mem_cons.1 h
    exact .cons (tokens_string key) (.cons lexes_colon
      (hf.append (fun _ => stops_cons (by decide) _) (.cons lexes_comma (ih n.1 n.2 hms))))

theorem Form.spelled (f : Form) : f.Spelled := by
  induction f using Form.induct with
  | null => exact .cons lexes_null lexed_nil
  | boolean b =>
    cases b with
    | true => exact .cons lexes_true lexed_nil
    | false => exact .cons lexes_false lexed_nil
  | number n => exact lexed_numeral n
  | string s => exact .cons (tokens_string s) lexed_nil
  | array items ih =>
    have hclose : Lexed [[']']] [.closeBracket] := .cons lexes_closeBracket lexed_nil
    cases items with
    | nil => exact .cons lexes_openBracket hclose
    | cons f fs =>
      exact .cons lexes_openBracket
        ((lexed_itemsPieces ih).append (fun _ => stops_cons (by decide) _) hclose)
  | object members ih =>
    have hclose : Lexed [['}']] [.closeBrace] := .cons lexes_closeBrace lexed_nil
    cases members with
    | nil => exact .cons lexes_openBrace hclose
    | cons m ms =>
      exact .cons lexes_openBrace
        ((lexed_membersPieces ih).append (fun _ => stops_cons (by decide) _) hclose)

/-- The tokens of any text of a form are those of its tree. -/
theorem tokens_of_isText {f : Form} {text : String} (h : f.IsText text) :
    tokens text.toList = f.tree.tokens := by
  have hpieces : Spaced (f.pieces ++ []) text.toList := by
    rw [List.append_nil]
    exact h
  obtain ⟨rest, hrest, htokens⟩ := f.spelled [] stops_nil _ hpieces
  obtain ⟨hw⟩ := hrest
  have hnone := tokens_space hw []
  rw [List.append_nil] at hnone
  rw [htokens, hnone, tokens, List.append_nil]

/-- Every text of a form spells its tree. -/
theorem parse_of_isText {f : Form} {text : String} (h : f.IsText text) :
    parse text.toList = ⟨f.tree, false⟩ :=
  parse_of_tokens f.whole_tree (tokens_of_isText h)

/-! ## Forms that can be read -/

/-- Every number in the form is in range, every string writes a text, and at most so many containers
lie inside each other. -/
inductive Form.Readable : Nat → Form → Prop where
  | null {depth} : Readable depth .null
  | boolean {depth b} : Readable depth (.boolean b)
  | number {depth n} (h : n.InRange) : Readable depth (.number n)
  | string {depth} {s : StringText} {text} (h : s.Writes text) : Readable depth (.string s)
  | array {depth items} (h : ∀ f ∈ items, Readable depth f) : Readable (depth + 1) (.array items)
  | object {depth} {members : List (StringText × Form)}
      (hkeys : ∀ m ∈ members, ∃ name, m.1.Writes name)
      (h : ∀ m ∈ members, Readable depth m.2) : Readable (depth + 1) (.object members)

theorem checkItems_eq_ok {depth : Nat} {ts : List Tree} (h : ∀ t ∈ ts, t.check depth = .ok ()) :
    Tree.checkItems depth ts = .ok () := by
  induction ts with
  | nil => rfl
  | cons t ts ih =>
    obtain ⟨ht, hts⟩ := List.forall_mem_cons.1 h
    rw [Tree.checkItems, ht]
    exact ih hts

theorem checkMembers_eq_ok {depth : Nat} {ms : List (Reading String × Tree)}
    (hkeys : ∀ m ∈ ms, ∃ name, m.1.read = .ok name) (h : ∀ m ∈ ms, m.2.check depth = .ok ()) :
    Tree.checkMembers depth ms = .ok () := by
  induction ms with
  | nil => rfl
  | cons m ms ih =>
    obtain ⟨⟨name, hname⟩, hkeys⟩ := List.forall_mem_cons.1 hkeys
    obtain ⟨hm, hms⟩ := List.forall_mem_cons.1 h
    rw [Tree.checkMembers, hname, Except.ok_bind, hm]
    exact ih hkeys hms

theorem Form.Readable.check_tree {depth : Nat} {f : Form} (h : f.Readable depth) :
    f.tree.check depth = .ok () := by
  induction h with
  | null | boolean => rfl
  | number h =>
    obtain ⟨v, hv⟩ := h.exists_reading
    rw [tree, hv]
    rfl
  | string h =>
    rw [tree, reading_of_writes h]
    rfl
  | array _ ih =>
    rw [tree, itemsTrees_eq_map, Tree.check, Tree.enter,
      checkItems_eq_ok (List.forall_mem_map.2 ih)]
    rfl
  | @object depth members hkeys _ ih =>
    have hnames : ∀ m ∈ members, ∃ name, m.1.reading.read = .ok name := by
      intro m hm
      obtain ⟨name, hname⟩ := hkeys m hm
      exact ⟨name, by rw [reading_of_writes hname]; rfl⟩
    rw [tree, membersTrees_eq_map, Tree.check, Tree.enter,
      checkMembers_eq_ok (List.forall_mem_map.2 hnames) (List.forall_mem_map.2 ih)]
    rfl

end SpendTrace.Json
