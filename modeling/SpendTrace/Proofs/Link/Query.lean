import Mathlib.Logic.Relation
import SpendTrace.Proofs.Link.Forms

/-!
# What a query means

Of a query two values count: the one that the last pair with the key `automatic` has, and the one
that the last pair with the key `step` has. The first decides whether the second is looked at. Pairs
with other keys, empty ones, and those that are repeated later mean nothing, and neither does the
order in which the two keys are given.

* `LastValue`: the value that the last pair with a key has.
* `Settings.foldl_assign`: what reading a query from front to back leaves set.
* `Asks`: what a query asks for, read off these values.
* `Change`: what may be done to the pairs of a query without changing what it asks for, and
  `Rearranged`: what comes of any number of such changes.
* `query_means_its_last_values` is the main statement.
-/

namespace SpendTrace.Text

/-- The text is a decimal numeral of the number, perhaps with a plus sign in front. -/
def Numeral (s : List Char) (n : Nat) : Prop :=
  ∃ ds : List Char, (s = ds ∨ s = '+' :: ds) ∧ ds ≠ [] ∧ (∀ c ∈ ds, c.isDigit = true) ∧
    Nat.ofDigitChars 10 ds 0 = n

theorem natural?_eq_some_iff {s : List Char} {n : Nat} : natural? s = some n ↔
    s ≠ [] ∧ (∀ c ∈ s, c.isDigit = true) ∧ Nat.ofDigitChars 10 s 0 = n := by
  simp [natural?, and_assoc]

theorem unsigned?_eq_some_iff {s : List Char} {n : Nat} :
    unsigned? s = some n ↔ Numeral s n := by
  unfold unsigned?
  split
  · next s =>
    rw [natural?_eq_some_iff]
    constructor
    · exact fun h => ⟨s, .inr rfl, h⟩
    · rintro ⟨ds, rfl | hs, h⟩
      · -- A plus sign is no digit.
        exact absurd (h.2.1 '+' List.mem_cons_self) (by decide)
      · obtain rfl := List.tail_eq_of_cons_eq hs
        exact h
  · next hplus =>
    rw [natural?_eq_some_iff]
    constructor
    · exact fun h => ⟨s, .inl rfl, h⟩
    · rintro ⟨ds, rfl | hs, h⟩
      · exact h
      · exact absurd hs (hplus ds)

theorem uint64?_eq_some_iff {s : List Char} {n : UInt64} :
    uint64? s = some n ↔ Numeral s n.toNat := by
  simp only [uint64?, Option.bind_eq_some_iff, unsigned?_eq_some_iff,
    Option.ite_none_right_eq_some, Option.some.injEq]
  constructor
  · rintro ⟨m, hm, hlt, rfl⟩
    rwa [UInt64.toNat_ofNat_of_lt' hlt]
  · intro h
    exact ⟨n.toNat, h, n.toNat_lt_size, UInt64.ofNat_toNat⟩

end SpendTrace.Text

namespace SpendTrace.Link

open Text

/-! ## Pairs -/

/-- The pair has the key and the value; without an equals sign it is all key, and the value is
empty. -/
def IsPair (pair : List Char) (key : String) (value : List Char) : Prop :=
  pair = key.toList ++ '=' :: value ∨ pair = key.toList ∧ value = []

def HasKey (pair : List Char) (key : String) : Prop :=
  ∃ value, IsPair pair key value

/-- The last pair with the key has the value. -/
def LastValue (key : String) (pairs : List (List Char)) (value : List Char) : Prop :=
  ∃ before pair after, pairs = before ++ pair :: after ∧ IsPair pair key value ∧
    ∀ p ∈ after, ¬HasKey p key

/-- The keys that count. -/
def keys : List String := ["automatic", "step"]

variable {key : String} {pair value : List Char} {ps qs : List (List Char)}

theorem keys_plain : ∀ key ∈ keys, '=' ∉ key.toList ∧ key.toList ≠ [] := by
  decide

theorem isPair_iff (hkey : '=' ∉ key.toList) :
    IsPair pair key value ↔ splitAtFirst '=' pair = (key.toList, value) := by
  unfold splitAtFirst
  constructor
  · rintro (rfl | ⟨rfl, rfl⟩)
    · rw [cut?_singleton_append hkey]
      rfl
    · rw [(cut?_eq_none_iff (List.cons_ne_nil _ _) _).2 (not_infix_of_not_mem hkey)]
      rfl
  · intro h
    cases hcut : cut? ['='] pair with
    | none =>
      rw [hcut] at h
      obtain ⟨rfl, rfl⟩ := Prod.mk.inj h
      exact .inr ⟨rfl, rfl⟩
    | some p =>
      obtain ⟨before, after⟩ := p
      rw [hcut] at h
      obtain ⟨rfl, rfl⟩ := Prod.mk.inj h
      exact .inl (by simpa using cut?_eq_some hcut)

/-! ## The last value -/

/-- The last value that a key has. -/
def lastValue? (key : String) (assigned : List (List Char × List Char)) : Option (List Char) :=
  ((assigned.filter (·.1 = key.toList)).getLast?).map Prod.snd

theorem lastValue?_append (key : String) (assigned more : List (List Char × List Char)) :
    lastValue? key (assigned ++ more) = (lastValue? key more).or (lastValue? key assigned) := by
  simp [lastValue?, List.getLast?_append, Option.map_or]

theorem lastValue?_cons (key : String) (p : List Char × List Char)
    (assigned : List (List Char × List Char)) :
    lastValue? key (p :: assigned) = (lastValue? key assigned).or (lastValue? key [p]) :=
  lastValue?_append key [p] assigned

theorem lastValue?_singleton (key : String) (p : List Char × List Char) :
    lastValue? key [p] = if p.1 = key.toList then some p.2 else none := by
  unfold lastValue?
  by_cases h : p.1 = key.toList
  · simp [h]
  · simp [h]

/-- The value of the last pair with the key. -/
def latest? (key : String) (ps : List (List Char)) : Option (List Char) :=
  lastValue? key ((ps.filter (!·.isEmpty)).map (splitAtFirst '='))

/-- What comes later counts. -/
theorem latest?_append (key : String) (ps qs : List (List Char)) :
    latest? key (ps ++ qs) = (latest? key qs).or (latest? key ps) := by
  unfold latest?
  rw [List.filter_append, List.map_append, lastValue?_append]

theorem latest?_cons (key : String) (pair : List Char) (ps : List (List Char)) :
    latest? key (pair :: ps) = (latest? key ps).or (latest? key [pair]) :=
  latest?_append key [pair] ps

theorem latest?_singleton (hkey : key ∈ keys) :
    latest? key [pair] = some value ↔ IsPair pair key value := by
  obtain ⟨hplain, hne⟩ := keys_plain key hkey
  cases pair with
  | nil =>
    have hnone : latest? key [[]] = none := rfl
    simp [hnone, IsPair, Ne.symm hne]
  | cons c cs =>
    rw [isPair_iff hplain]
    by_cases hfirst : (splitAtFirst '=' (c :: cs)).1 = key.toList
    · simp [latest?, lastValue?, hfirst, Prod.ext_iff]
    · simp [latest?, lastValue?, hfirst, Prod.ext_iff]

theorem latest?_singleton_eq_none (hkey : key ∈ keys) :
    latest? key [pair] = none ↔ ¬HasKey pair key := by
  rw [Option.eq_none_iff_forall_ne_some]
  simp [HasKey, latest?_singleton hkey]

theorem latest?_eq_none_iff (hkey : key ∈ keys) :
    latest? key ps = none ↔ ∀ p ∈ ps, ¬HasKey p key := by
  induction ps with
  | nil => simp [latest?, lastValue?]
  | cons p ps ih =>
    rw [latest?_cons, Option.or_eq_none_iff, ih, latest?_singleton_eq_none hkey,
      List.forall_mem_cons, and_comm]

theorem lastValue_cons :
    LastValue key (pair :: ps) value ↔
      LastValue key ps value ∨ (∀ p ∈ ps, ¬HasKey p key) ∧ IsPair pair key value := by
  constructor
  · rintro ⟨before, p, after, hps, hp, hafter⟩
    cases before with
    | nil =>
      obtain ⟨rfl, rfl⟩ := List.cons.inj hps
      exact .inr ⟨hafter, hp⟩
    | cons q before =>
      obtain ⟨rfl, rfl⟩ := List.cons.inj hps
      exact .inl ⟨before, p, after, rfl, hp, hafter⟩
  · rintro (⟨before, p, after, rfl, hp, hafter⟩ | ⟨hps, hpair⟩)
    · exact ⟨pair :: before, p, after, rfl, hp, hafter⟩
    · exact ⟨[], pair, ps, rfl, hpair, hps⟩

theorem latest?_eq_some_iff (hkey : key ∈ keys) :
    latest? key ps = some value ↔ LastValue key ps value := by
  induction ps with
  | nil => simp [latest?, lastValue?, LastValue]
  | cons p ps ih =>
    rw [latest?_cons, Option.or_eq_some_iff, ih, latest?_eq_none_iff hkey,
      latest?_singleton hkey, lastValue_cons]

/-! ## What is asked for -/

/-- The last pair with the key `automatic` switches the stream on. -/
def SwitchedOn (ps : List (List Char)) : Prop :=
  ∃ value, LastValue "automatic" ps value ∧ (value = "true".toList ∨ value = "1".toList)

/-- What the pairs of a query ask for. The step is looked at only if the stream is not switched on,
and is the first if there is none. -/
inductive Asks (ps : List (List Char)) : Except LinkError View → Prop where
  | automatic (hon : SwitchedOn ps) : Asks ps (.ok .automatic)
  | step {value : List Char} {n : UInt64} (hoff : ¬SwitchedOn ps)
    (hstep : LastValue "step" ps value) (hn : Numeral value n.toNat) : Asks ps (.ok (.step n))
  | first (hoff : ¬SwitchedOn ps) (hstep : ∀ p ∈ ps, ¬HasKey p "step") : Asks ps (.ok (.step 0))
  | invalid {value : List Char} (hoff : ¬SwitchedOn ps) (hstep : LastValue "step" ps value)
    (hn : ∀ n : UInt64, ¬Numeral value n.toNat) :
    Asks ps (.error (.invalidStep (String.ofList value)))

theorem switchedOn_iff (ps : List (List Char)) :
    SwitchedOn ps ↔ (latest? "automatic" ps).any isOn = true := by
  have hkey : "automatic" ∈ keys := by decide
  simp [SwitchedOn, ← latest?_eq_some_iff hkey, Option.any_eq_true, isOn]

/-- One pair replaces the value of its own key. -/
theorem Settings.assign_eq (s : Settings) (p : List Char × List Char) :
    s.assign p =
      { automatic := ((lastValue? "automatic" [p]).map isOn).getD s.automatic
        step := (lastValue? "step" [p]).or s.step } := by
  have hne : "automatic".toList ≠ "step".toList := by decide
  unfold assign
  rw [lastValue?_singleton, lastValue?_singleton]
  split
  · next hautomatic =>
    rw [if_neg (hautomatic ▸ hne)]
    rfl
  · split <;> rfl

/-- Pairs set the last value that each of the two keys has, and leave a key alone that has none. -/
theorem Settings.foldl_assign (s : Settings) (assigned : List (List Char × List Char)) :
    assigned.foldl assign s =
      { automatic := ((lastValue? "automatic" assigned).map isOn).getD s.automatic
        step := (lastValue? "step" assigned).or s.step } := by
  induction assigned generalizing s with
  | nil => rfl
  | cons p assigned ih =>
    rw [List.foldl_cons, ih, assign_eq, lastValue?_cons "automatic" p assigned,
      lastValue?_cons "step" p assigned, Option.or_assoc]
    -- A later value hides what the first pair has set.
    cases lastValue? "automatic" assigned <;> rfl

/-- What a query is read as depends on its last values only. -/
theorem ofQuery_eq (query : List Char) :
    View.ofQuery query =
      if (latest? "automatic" (pieces '&' query)).any isOn = true then .ok .automatic
      else
        match latest? "step" (pieces '&' query) with
        | none => .ok (.step 0)
        | some value =>
          match uint64? value with
          | some n => .ok (.step n)
          | none => .error (.invalidStep (String.ofList value)) := by
  have hlatest (key : String) :
      lastValue? key (pairs query) = latest? key (pieces '&' query) := rfl
  rw [View.ofQuery, Settings.foldl_assign, Option.or_none, hlatest, hlatest]
  cases latest? "automatic" (pieces '&' query) <;> rfl

/-- A query asks for what it is read as, and for nothing else. -/
theorem asks_iff (query : List Char) (x : Except LinkError View) :
    Asks (pieces '&' query) x ↔ View.ofQuery query = x := by
  have hkey : "step" ∈ keys := by decide
  rw [ofQuery_eq]
  constructor
  · intro h
    cases h with
    | automatic hon => rw [if_pos ((switchedOn_iff _).1 hon)]
    | step hoff hstep hn =>
      rw [if_neg (mt (switchedOn_iff _).2 hoff), (latest?_eq_some_iff hkey).2 hstep]
      simp only [uint64?_eq_some_iff.2 hn]
    | first hoff hstep =>
      rw [if_neg (mt (switchedOn_iff _).2 hoff), (latest?_eq_none_iff hkey).2 hstep]
    | @invalid value hoff hstep hn =>
      have hnone : uint64? value = none :=
        Option.eq_none_iff_forall_ne_some.2 fun n h => hn n (uint64?_eq_some_iff.1 h)
      rw [if_neg (mt (switchedOn_iff _).2 hoff), (latest?_eq_some_iff hkey).2 hstep]
      simp only [hnone]
  · rintro rfl
    split
    · next hon => exact .automatic ((switchedOn_iff _).2 hon)
    · next hoff =>
      have hoff := mt (switchedOn_iff _).1 hoff
      split
      · next hnone => exact .first hoff ((latest?_eq_none_iff hkey).1 hnone)
      · next value hsome =>
        have hstep := (latest?_eq_some_iff hkey).1 hsome
        split
        · next n hn => exact .step hoff hstep (uint64?_eq_some_iff.1 hn)
        · next hnone =>
          refine .invalid hoff hstep fun n hn => ?_
          rw [uint64?_eq_some_iff.2 hn] at hnone
          cases hnone

/-! ## What makes no difference -/

/-- One change to the pairs that does not matter. -/
inductive Change : List (List Char) → List (List Char) → Prop where
  /-- A pair without a key that counts is left out; the empty one is such a pair. -/
  | unknown {before after : List (List Char)} {pair : List Char}
    (hpair : ∀ key ∈ keys, ¬HasKey pair key) : Change (before ++ pair :: after) (before ++ after)
  /-- A pair is left out whose key is given again later. -/
  | repeated {before after : List (List Char)} {pair : List Char} {key : String}
    (hkey : key ∈ keys) (hpair : HasKey pair key) (hlater : ∃ p ∈ after, HasKey p key) :
    Change (before ++ pair :: after) (before ++ after)
  /-- Neighbours with different keys change places. -/
  | swapped {before after : List (List Char)} {p q : List Char}
    (hdiffer : ∀ key ∈ keys, ¬(HasKey p key ∧ HasKey q key)) :
    Change (before ++ p :: q :: after) (before ++ q :: p :: after)

/-- One list of pairs comes from the other by changes that do not matter, made or undone. -/
def Rearranged : List (List Char) → List (List Char) → Prop :=
  Relation.EqvGen Change

theorem HasKey.unique {key' : String} (hkey : key ∈ keys) (hkey' : key' ∈ keys)
    (h : HasKey pair key) (h' : HasKey pair key') : key = key' := by
  obtain ⟨_, h⟩ := h
  obtain ⟨_, h'⟩ := h'
  have hsplit := (isPair_iff (keys_plain key hkey).1).1 h
  rw [(isPair_iff (keys_plain key' hkey').1).1 h'] at hsplit
  exact String.toList_inj.1 (Prod.mk.inj hsplit).1.symm

theorem Change.latest?_eq (h : Change ps qs) (hkey : key ∈ keys) :
    latest? key ps = latest? key qs := by
  cases h with
  | @unknown before after pair hpair =>
    have hnone := (latest?_singleton_eq_none hkey).2 (hpair key hkey)
    rw [latest?_append, latest?_append, latest?_cons, hnone, Option.or_none]
  | @repeated before after pair key' hkey' hpair hlater =>
    rw [latest?_append, latest?_append, latest?_cons]
    by_cases hsame : key = key'
    · subst hsame
      obtain ⟨p, hp, hhas⟩ := hlater
      obtain ⟨value, hvalue⟩ := Option.ne_none_iff_exists'.1
        fun hnone => (latest?_eq_none_iff hkey).1 hnone p hp hhas
      rw [hvalue, Option.some_or]
    · have hnone : latest? key [pair] = none :=
        (latest?_singleton_eq_none hkey).2 fun h => hsame (h.unique hkey hkey' hpair)
      rw [hnone, Option.or_none]
  | @swapped before after p q hdiffer =>
    -- At most one of the two has a value, so it does not matter which is asked first.
    have hcomm (rest : Option (List Char)) :
        (latest? key [q]).or ((latest? key [p]).or rest) =
          (latest? key [p]).or ((latest? key [q]).or rest) := by
      by_cases hp : HasKey p key
      · have hq := (latest?_singleton_eq_none hkey).2 fun hq => hdiffer key hkey ⟨hp, hq⟩
        rw [hq, Option.none_or, Option.none_or]
      · rw [(latest?_singleton_eq_none hkey).2 hp, Option.none_or, Option.none_or]
    rw [latest?_append, latest?_append, latest?_cons key p (q :: after), latest?_cons key q after,
      latest?_cons key q (p :: after), latest?_cons key p after]
    simp only [Option.or_assoc, hcomm]

theorem Rearranged.latest?_eq (h : Rearranged ps qs) (hkey : key ∈ keys) :
    latest? key ps = latest? key qs := by
  induction h with
  | rel _ _ h => exact h.latest?_eq hkey
  | refl => rfl
  | symm _ _ _ ih => exact ih.symm
  | trans _ _ _ _ _ ih ih' => exact ih.trans ih'

theorem ofQuery_congr {query query' : List Char}
    (h : Rearranged (pieces '&' query) (pieces '&' query')) :
    View.ofQuery query = View.ofQuery query' := by
  have hautomatic := h.latest?_eq (by decide : "automatic" ∈ keys)
  have hstep := h.latest?_eq (by decide : "step" ∈ keys)
  rw [ofQuery_eq, ofQuery_eq, hautomatic, hstep]

/-! ## Main statement -/

/-- The text that asks for something of one input. -/
def asking (target : Target) (query : String) : String :=
  "#/transaction/" ++ target.transactionId ++ "/input/" ++
    String.ofList (digits target.inputIndex.toNat) ++ "/interpret?" ++ query

/-- What may stand behind the question mark. -/
def IsQuery (query : String) : Prop :=
  '#' ∉ query.toList ∧ ∀ c ∈ query.toList.getLast?, isBlank c = false

instance (query : String) : Decidable (IsQuery query) :=
  have : Decidable (∀ c ∈ query.toList.getLast?, isBlank c = false) :=
    Option.decidableForallMem _
  instDecidableAnd

theorem toList_asking (l : Link) (query : String) :
    (asking l.target query).toList = '#' :: '/' :: (l.pathTail ++ '?' :: query.toList) := by
  unfold asking pathTail
  simp

/-- Nothing is lost at the end of a text that ends with such a query. -/
theorem trimEnd_question {p query : List Char} (h : ∀ c ∈ query.getLast?, isBlank c = false) :
    trimEnd (p ++ '?' :: query) = p ++ '?' :: query := by
  obtain rfl | ⟨query, c, rfl⟩ := List.eq_nil_or_concat query
  · exact trimEnd_concat p rfl
  · have htrim := trimEnd_concat (p ++ '?' :: query) (h c (by simp))
    simpa using htrim

theorem parse_asking {l : Link} (h : l.WellFormed) {query : String} (hquery : IsQuery query) :
    parse (asking l.target query) =
      (View.ofQuery query.toList).map (Link.mk l.target) := by
  obtain ⟨hhash, hlast⟩ := hquery
  refine h.parse_of_path ?_
  have ht : '#' ∉ l.pathTail ++ '?' :: query.toList := by simp [h.hash_not_mem_pathTail, hhash]
  have hroute := route_hash (p := []) List.not_mem_nil (by rintro c ⟨⟩) ht
  rwa [List.nil_append, ← toList_asking, trimEnd_question hlast] at hroute

/-- **A query means its last `automatic` and its last `step`, and nothing else.** It asks for one
thing only, and that is what it is read as; and a query that comes from it by changes that do not
matter is read as the same. -/
theorem query_means_its_last_values (target : Target) (hid : target.transactionId ≠ "")
    (hplain : ∀ c ∈ target.transactionId.toList, c ≠ '/' ∧ c ≠ '?' ∧ c ≠ '#')
    (query : String) (hquery : IsQuery query) :
    (∃ x, parse (asking target query) = x.map (Link.mk target) ∧
      ∀ y, Asks (pieces '&' query.toList) y ↔ y = x) ∧
    ∀ query', IsQuery query' →
      Rearranged (pieces '&' query.toList) (pieces '&' query'.toList) →
      parse (asking target query') = parse (asking target query) := by
  have hl : (Link.mk target .automatic).WellFormed := ⟨hid, hplain⟩
  have hread := parse_asking hl hquery
  refine ⟨⟨View.ofQuery query.toList, hread, fun y => ?_⟩, fun query' hquery' h => ?_⟩
  · rw [asks_iff, eq_comm]
  · exact (parse_asking hl hquery').trans (ofQuery_congr h ▸ hread.symm)

/-- The stream is switched on, so it is of no matter that there is no such step, nor which of the
two comes first. -/
theorem switched_on_behind_an_invalid_step :
    let target : Target := ⟨"ab", 7⟩
    parse (asking target "step=x&&automatic=1") = .ok ⟨target, .automatic⟩ ∧
      parse (asking target "automatic=1&step=x") = .ok ⟨target, .automatic⟩ := by
  intro target
  have hl : (Link.mk target .automatic).WellFormed := by decide
  obtain ⟨⟨x, hread, hasks⟩, hsame⟩ := query_means_its_last_values target hl.1 hl.2
    "step=x&&automatic=1" (by decide)
  have hon : SwitchedOn ["step=x".toList, [], "automatic=1".toList] :=
    ⟨['1'], ⟨["step=x".toList, []], _, [], rfl, .inl rfl, List.forall_mem_nil _⟩, .inr rfl⟩
  have hx : .ok .automatic = x := (hasks _).1 (.automatic hon)
  have hempty : Change ["step=x".toList, [], "automatic=1".toList]
      ["step=x".toList, "automatic=1".toList] :=
    @Change.unknown ["step=x".toList] _ _ fun key hkey => (latest?_singleton_eq_none hkey).1 rfl
  have hswap : Change ["step=x".toList, "automatic=1".toList]
      ["automatic=1".toList, "step=x".toList] := by
    refine @Change.swapped [] _ _ _ fun key hkey h => ?_
    have hstep := h.1.unique hkey (by decide : "step" ∈ keys) ⟨['x'], .inl rfl⟩
    have hautomatic := h.2.unique hkey (by decide : "automatic" ∈ keys) ⟨['1'], .inl rfl⟩
    exact absurd (hstep.symm.trans hautomatic) (by decide)
  have hthis : parse (asking target "step=x&&automatic=1") = .ok ⟨target, .automatic⟩ := by
    rw [hread, ← hx]
    rfl
  exact ⟨hthis, (hsame "automatic=1&step=x" (by decide)
    (.trans _ _ _ (.rel _ _ hempty) (.rel _ _ hswap))).trans hthis⟩

end SpendTrace.Link
