import SpendTrace.Json.Tree

/-!
# Where the numbers of a tree come from

A tree holds no number but those among the tokens of its text, whether it is whole or broken off.

* `Tree.AllNumbers P`: every number in a tree satisfies `P`.
* `allNumbers_parse`: if every number among the tokens does, so does every number in the tree.
-/

namespace SpendTrace.Json

/-- Every number in the tree satisfies `P`. -/
inductive Tree.AllNumbers (P : Reading Number → Prop) : Tree → Prop where
  | null : AllNumbers P .null
  | boolean (b : Bool) : AllNumbers P (.boolean b)
  | number (n : Reading Number) (h : P n) : AllNumbers P (.number n)
  | string (s : Reading String) : AllNumbers P (.string s)
  | misspelled (e : Error) : AllNumbers P (.misspelled e)
  | missing (read skip : Error) : AllNumbers P (.missing read skip)
  | array (items : List Tree) (ending : Option Stop) (h : ∀ t ∈ items, AllNumbers P t) :
    AllNumbers P (.array items ending)
  | object (members : List (Reading String × Tree)) (ending : Option Stop)
    (h : ∀ m ∈ members, AllNumbers P m.2) : AllNumbers P (.object members ending)

variable {P : Reading Number → Prop}

/-! ## The parts that have been read -/

/-- What an open container holds so far. -/
def Frame.parts : Frame → List Tree
  | item before => before
  | member before _ => before.map Prod.snd

/-- What all open containers hold so far. -/
def framesParts (around : List Frame) : List Tree :=
  around.flatMap Frame.parts

/-- What has been read up to a place. -/
def Cursor.parts : Cursor → List Tree
  | value around => framesParts around
  | openArray around => framesParts around
  | afterItem before around => before ++ framesParts around
  | openObject around => framesParts around
  | afterMember before around => before.map Prod.snd ++ framesParts around
  | nextKey before around => before.map Prod.snd ++ framesParts around
  | colon before _ around => before.map Prod.snd ++ framesParts around
  | complete t => [t]
  | broken t => [t]

/-- Every number that has been read so far satisfies `P`. -/
def Cursor.AllNumbers (P : Reading Number → Prop) (c : Cursor) : Prop :=
  ∀ t ∈ c.parts, t.AllNumbers P

/-- Every number in what the open containers hold satisfies `P`. -/
def FramesAllNumbers (P : Reading Number → Prop) (around : List Frame) : Prop :=
  ∀ t ∈ framesParts around, t.AllNumbers P

/-- A token that is no number, or a number that satisfies `P`. -/
def Token.AllNumbers (P : Reading Number → Prop) (t : Token) : Prop :=
  ∀ n, t = .number n → P n

/-! ## Closing containers -/

theorem allNumbers_array {before : List Tree} (h : ∀ t ∈ before, t.AllNumbers P)
    (ending : Option Stop) : (Tree.array before.reverse ending).AllNumbers P :=
  .array _ _ fun t ht => h t (List.mem_reverse.1 ht)

theorem allNumbers_object {before : List (Reading String × Tree)}
    (h : ∀ t ∈ before.map Prod.snd, t.AllNumbers P) (ending : Option Stop) :
    (Tree.object before.reverse ending).AllNumbers P :=
  .object _ _ fun m hm => h m.2 (List.mem_map_of_mem (List.mem_reverse.1 hm))

theorem allNumbers_deliver {t : Tree} (ht : t.AllNumbers P) {around : List Frame}
    (h : FramesAllNumbers P around) : (Cursor.deliver t around).AllNumbers P := by
  cases around with
  | nil => exact List.forall_mem_singleton.2 ht
  | cons f around =>
    cases f with
    | item before => exact List.forall_mem_cons.2 ⟨ht, h⟩
    | member before key => exact List.forall_mem_cons.2 ⟨ht, h⟩

theorem allNumbers_breakOff {t : Tree} (ht : t.AllNumbers P) (stop : Stop) {around : List Frame}
    (h : FramesAllNumbers P around) : (Cursor.breakOff t stop around).AllNumbers P := by
  induction around generalizing t with
  | nil => exact ht
  | cons f around ih =>
    obtain ⟨hframe, hrest⟩ := List.forall_mem_append.1 h
    cases f with
    | item before =>
      exact ih (allNumbers_array (List.forall_mem_cons.2 ⟨ht, hframe⟩) _) hrest
    | member before key =>
      have hmembers : ∀ u ∈ ((key, t) :: before).map Prod.snd, u.AllNumbers P :=
        List.forall_mem_cons.2 ⟨ht, hframe⟩
      exact ih (allNumbers_object hmembers _) hrest

theorem allNumbers_broken {t : Tree} (ht : t.AllNumbers P) (stop : Stop) {around : List Frame}
    (h : FramesAllNumbers P around) :
    (Cursor.broken (Cursor.breakOff t stop around)).AllNumbers P :=
  List.forall_mem_singleton.2 (allNumbers_breakOff ht stop h)

/-! ## One more token -/

theorem allNumbers_scalar {α : Type} (r : Reading α) {t : Tree} (ht : t.AllNumbers P)
    {around : List Frame} (h : FramesAllNumbers P around) :
    (Cursor.scalar r t around).AllNumbers P := by
  unfold Cursor.scalar
  split
  · exact allNumbers_deliver ht h
  · exact allNumbers_broken ht _ h

theorem allNumbers_startValue {around : List Frame} (h : FramesAllNumbers P around) {t : Token}
    (ht : t.AllNumbers P) : (Cursor.startValue around t).AllNumbers P := by
  cases t with
  | openBracket | openBrace => exact h
  | null => exact allNumbers_deliver .null h
  | boolean b => exact allNumbers_deliver (.boolean b) h
  | number n => exact allNumbers_scalar n (.number n (ht n rfl)) h
  | string s => exact allNumbers_scalar s (.string s) h
  | misspelled e => exact allNumbers_broken (.misspelled e) _ h
  | closeBracket =>
    obtain _ | ⟨_ | _, _⟩ := around <;> exact allNumbers_broken (.missing _ _) _ h
  | closeBrace | comma | colon | stray => exact allNumbers_broken (.missing _ _) _ h

theorem allNumbers_startMember {before : List (Reading String × Tree)} {around : List Frame}
    (hbefore : ∀ t ∈ before.map Prod.snd, t.AllNumbers P) (h : FramesAllNumbers P around)
    (t : Token) : (Cursor.startMember before around t).AllNumbers P := by
  cases t with
  | string key =>
    have hall : FramesAllNumbers P (.member before key :: around) :=
      List.forall_mem_append.2 ⟨hbefore, h⟩
    rw [Cursor.startMember]
    split
    · exact hall
    · exact allNumbers_broken (.missing _ _) _ hall
  | _ => exact allNumbers_broken (allNumbers_object hbefore _) _ h

/-- A step adds no number but that of its token. -/
theorem Cursor.AllNumbers.step {c : Cursor} (h : c.AllNumbers P) {t : Token}
    (ht : t.AllNumbers P) : (c.step t).AllNumbers P := by
  cases c with
  | value around => exact allNumbers_startValue h ht
  | openArray around =>
    by_cases hclose : t = .closeBracket
    · rw [hclose]
      exact allNumbers_deliver (.array _ _ (List.forall_mem_nil _)) h
    · have hframes : FramesAllNumbers P (.item [] :: around) := h
      rw [Cursor.step_openArray hclose]
      exact allNumbers_startValue hframes ht
  | afterItem before around =>
    obtain ⟨hbefore, haround⟩ := List.forall_mem_append.1 h
    cases t with
    | comma => exact h
    | closeBracket => exact allNumbers_deliver (allNumbers_array hbefore _) haround
    | _ => exact allNumbers_broken (allNumbers_array hbefore _) _ haround
  | openObject around =>
    by_cases hclose : t = .closeBrace
    · rw [hclose]
      exact allNumbers_deliver (.object _ _ (List.forall_mem_nil _)) h
    · rw [Cursor.step_openObject hclose]
      exact allNumbers_startMember (List.forall_mem_nil _) h t
  | afterMember before around =>
    obtain ⟨hbefore, haround⟩ := List.forall_mem_append.1 h
    cases t with
    | comma => exact h
    | closeBrace => exact allNumbers_deliver (allNumbers_object hbefore _) haround
    | _ => exact allNumbers_broken (allNumbers_object hbefore _) _ haround
  | nextKey before around =>
    obtain ⟨hbefore, haround⟩ := List.forall_mem_append.1 h
    exact allNumbers_startMember hbefore haround t
  | colon before key around =>
    have hframes : FramesAllNumbers P (.member before key :: around) := h
    cases t with
    | colon => exact h
    | _ => exact allNumbers_broken (.missing _ _) _ hframes
  | complete t => exact h
  | broken t => exact h

/-! ## The end of the text -/

theorem Cursor.AllNumbers.finish {c : Cursor} (h : c.AllNumbers P) : c.finish.AllNumbers P := by
  cases c with
  | value around => exact allNumbers_breakOff (.missing _ _) _ h
  | openArray around => exact allNumbers_breakOff (.array _ _ (List.forall_mem_nil _)) _ h
  | afterItem before around =>
    obtain ⟨hbefore, haround⟩ := List.forall_mem_append.1 h
    exact allNumbers_breakOff (allNumbers_array hbefore _) _ haround
  | openObject around => exact allNumbers_breakOff (.object _ _ (List.forall_mem_nil _)) _ h
  | afterMember before around | nextKey before around =>
    obtain ⟨hbefore, haround⟩ := List.forall_mem_append.1 h
    exact allNumbers_breakOff (allNumbers_object hbefore _) _ haround
  | colon before key around =>
    have hframes : FramesAllNumbers P (.member before key :: around) := h
    exact allNumbers_breakOff (.missing _ _) _ hframes
  | complete t | broken t => exact List.forall_mem_singleton.1 h

theorem allNumbers_readTokens {c : Cursor} (h : c.AllNumbers P) {ts : List Token}
    (hts : ∀ t ∈ ts, t.AllNumbers P) : (readTokens c ts).tree.AllNumbers P := by
  fun_induction readTokens c ts with
  | case1 t ts => exact List.forall_mem_singleton.1 h
  | case2 c => exact h.finish
  | case3 c t ts _ ih =>
    exact ih (h.step (hts t List.mem_cons_self)) fun u hu => hts u (List.mem_cons_of_mem t hu)

/-- All that a text spells is among its tokens. -/
theorem allNumbers_parse {s : List Char} (h : ∀ n, .number n ∈ tokens s → P n) :
    (parse s).tree.AllNumbers P := by
  refine allNumbers_readTokens (c := .value []) (List.forall_mem_nil _) fun t ht n hn => h n ?_
  rwa [← hn]

/-! ## Texts without doubles -/

/-- Whether the token is anything but a double. -/
def Token.isIntegral : Token → Bool
  | .number n => n.read.toOption.all Number.isInteger
  | _ => true

/-- No number in the text is a double. -/
def WithoutDoubles (s : List Char) : Prop :=
  ∀ t ∈ tokens s, t.isIntegral = true

instance (s : List Char) : Decidable (WithoutDoubles s) :=
  inferInstanceAs (Decidable (∀ t ∈ tokens s, t.isIntegral = true))

theorem WithoutDoubles.isInteger {s : List Char} (h : WithoutDoubles s) {r : Reading Number}
    (hr : .number r ∈ tokens s) {n : Number} (hn : r.read = .ok n) : n.isInteger = true := by
  have hall := h _ hr
  rw [Token.isIntegral, hn] at hall
  exact hall

end SpendTrace.Json
