import SpendTrace.Proofs.Json.Reading

/-!
# Trees that are broken off

A text that ends too early spells a tree that is broken off where the text ends. A reader that goes
through such a tree in order does not get further than that, and reports that the text ended, if it
has found no fault before. A numeral is the one exception: what is left of it may be a numeral too,
and it is the container around it that turns out to be broken off.

* `Cut`: what is left of a tree when its text ends inside.
* `StopsShort`: a reader that can read a tree, and says of whatever is left of it that it ended.
* `stopsShort_readList`, `foldMembers_ends`: what readers of the parts do, the reader of the whole
  does.
-/

namespace SpendTrace.Json

/-! ## The end of a text -/

/-- The computation fails because the text has ended. -/
def Ends {α : Type} (x : Except Error α) : Prop :=
  ∃ inside, x = .error (.ended inside)

section

variable {α β : Type} {x : Except Error α}

theorem ends_ended (inside : Ended) : Ends (.error (.ended inside) : Except Error α) :=
  ⟨inside, rfl⟩

theorem Ends.bind (h : Ends x) (f : α → Except Error β) : Ends (x >>= f) := by
  obtain ⟨inside, rfl⟩ := h
  exact ends_ended inside

theorem Ends.map (h : Ends x) (f : α → β) : Ends (x.map f) := by
  obtain ⟨inside, rfl⟩ := h
  exact ends_ended inside

end

/-- A container that is broken off because the text has ended. -/
def Stop.Ends (stop : Stop) : Prop :=
  ∃ inside, stop.read = .ended inside

/-! ## What is left of a tree -/

/-- The text ends before the tree or inside of it, and no value is left. -/
inductive Broken : Tree → Tree → Prop where
  | missing {t : Tree} {inside : Ended} {skip : Error} : Broken t (.missing (.ended inside) skip)
  | null {inside : Ended} : Broken .null (.misspelled (.ended inside))
  | boolean {b : Bool} {inside : Ended} : Broken (.boolean b) (.misspelled (.ended inside))
  | number {n n' : Reading Number} (h : Ends n'.read) : Broken (.number n) (.number n')
  | string {s s' : Reading String} (h : Ends s'.read) : Broken (.string s) (.string s')

mutual

/-- What is left of a tree when its text ends before or inside of it, and whether that is a whole
tree. Only of an integer a whole tree may be left: an integer that is no further from zero. -/
inductive Cut : Bool → Tree → Tree → Prop where
  | broken {t t' : Tree} (h : Broken t t') : Cut false t t'
  | integer {i j : Int} {hi : InWord i} {hj : InWord j} (h : 0 ≤ i → 0 ≤ j ∧ j ≤ i) :
    Cut true (.number (.exact (.integer i hi))) (.number (.exact (.integer j hj)))
  | array {items items' : List Tree} {stop : Stop} (h : CutItems stop items items') :
    Cut false (.array items none) (.array items' (some stop))
  | object {members members' : List (Reading String × Tree)} {stop : Stop}
      (h : CutMembers stop members members') :
    Cut false (.object members none) (.object members' (some stop))

/-- What is left of the items of an array. -/
inductive CutItems : Stop → List Tree → List Tree → Prop where
  | ended {stop : Stop} {items : List Tree} (h : stop.Ends) : CutItems stop items []
  | last {stop : Stop} {whole : Bool} {t t' : Tree} {items : List Tree} (h : Cut whole t t')
      (hstop : whole = true → stop.Ends) : CutItems stop (t :: items) [t']
  | cons {stop : Stop} {t : Tree} {items items' : List Tree} (h : CutItems stop items items') :
    CutItems stop (t :: items) (t :: items')

/-- What is left of the members of an object. -/
inductive CutMembers :
    Stop → List (Reading String × Tree) → List (Reading String × Tree) → Prop where
  | ended {stop : Stop} {members : List (Reading String × Tree)} (h : stop.Ends) :
    CutMembers stop members []
  | key {stop : Stop} {m m' : Reading String × Tree} {members : List (Reading String × Tree)}
      (h : Ends m'.1.read) : CutMembers stop (m :: members) [m']
  | last {stop : Stop} {whole : Bool} {key : Reading String} {t t' : Tree}
      {members : List (Reading String × Tree)} (h : Cut whole t t')
      (hstop : whole = true → stop.Ends) : CutMembers stop ((key, t) :: members) [(key, t')]
  | cons {stop : Stop} {m : Reading String × Tree}
      {members members' : List (Reading String × Tree)} (h : CutMembers stop members members') :
    CutMembers stop (m :: members) (m :: members')

end

theorem Cut.ne_null {whole : Bool} {t t' : Tree} (h : Cut whole t t') : t' ≠ .null := by
  cases h with
  | broken h => cases h <;> nofun
  | integer | array | object => nofun

/-! ## Readers -/

section

variable {α : Type} {read : Tree → Except Error α} {t : Tree}

/-- Of what is left of a tree that it can read, the reader says that the text ended, unless that is
a whole tree, which it reads too. -/
def StopsShort (read : Tree → Except Error α) (t : Tree) : Prop :=
  ∀ a, read t = .ok a → ∀ whole t', Cut whole t t' →
    Ends (read t') ∨ whole = true ∧ ∃ b, read t' = .ok b

theorem stopsShort_readStringAs (expected : String) (s : Reading String) :
    StopsShort (readStringAs expected) (.string s) := by
  intro a _ whole t' hcut
  cases hcut with
  | broken h =>
    cases h with
    | missing => exact .inl (ends_ended _)
    | string h => exact .inl h

theorem stopsShort_readBool (b : Bool) : StopsShort readBool (.boolean b) := by
  intro a _ whole t' hcut
  cases hcut with
  | broken h => cases h <;> exact .inl (ends_ended _)

theorem readNatural_ends {n : Reading Number} (h : Ends n.read) (bound : Nat) (expected : String) :
    Ends (readNatural bound expected (.number n)) :=
  h.bind _

/-- What is left of a natural number is a smaller one. -/
theorem stopsShort_readUInt64 {n : Number} : StopsShort readUInt64 (.number (.exact n)) := by
  intro a ha whole t' hcut
  cases hcut with
  | broken h =>
    cases h with
    | missing => exact .inl (ends_ended _)
    | number h => exact .inl ((readNatural_ends h _ _).map _)
  | @integer i j hi hj hle =>
    obtain ⟨k, hk, -⟩ := Except.map_eq_ok.1 ha
    simp only [readNatural, Reading.exact, Except.ok_bind] at hk
    split at hk
    · next hbound =>
      obtain ⟨hj0, hji⟩ := hle hbound.1
      refine .inr ⟨rfl, UInt64.ofNat j.toNat, ?_⟩
      simp only [readUInt64, readNatural, Reading.exact, Except.ok_bind]
      rw [if_pos ⟨hj0, Int.lt_of_le_of_lt hji hbound.2⟩]
      rfl
    · cases hk

theorem readOption_of_ne_null (read : Tree → Except Error α) (h : t ≠ .null) :
    readOption read t = (read t).map some := by
  unfold readOption
  split
  · exact absurd rfl h
  · rfl

theorem StopsShort.map {β : Type} (h : StopsShort read t) (f : α → β) :
    StopsShort (fun t => (read t).map f) t := by
  intro b hb whole t' hcut
  obtain ⟨a, ha, -⟩ := Except.map_eq_ok.1 hb
  obtain hends | ⟨hwhole, a', ha'⟩ := h a ha whole t' hcut
  · exact .inl (hends.map f)
  · exact .inr ⟨hwhole, f a', congrArg (Except.map f) ha'⟩

/-- What was read is put somewhere. -/
theorem StopsShort.put {β : Type} (h : StopsShort read t) (put : α → β) :
    StopsShort (fun t => read t >>= fun a => .ok (put a)) t := by
  have hmap : (fun t => read t >>= fun a => .ok (put a)) = fun t => (read t).map put :=
    funext fun t => by cases read t <;> rfl
  rw [hmap]
  exact h.map put

theorem StopsShort.option (h : StopsShort read t) (ht : t ≠ .null) :
    StopsShort (readOption read) t := by
  intro o ho whole t' hcut
  rw [readOption_of_ne_null read ht] at ho
  rw [readOption_of_ne_null read hcut.ne_null]
  exact h.map some o ho whole t' hcut

/-- A field that is filled was empty before. -/
theorem StopsShort.fill (h : StopsShort read t) (name : String) (field : Option α) :
    StopsShort (fun t => Json.fill name field (read t)) t := by
  cases field with
  | some b => nofun
  | none => exact h.map some

/-- Where no whole tree is left, nothing behind the reader is reached. -/
theorem StopsShort.bind {β : Type} (h : StopsShort read t) (ht : ∀ t', ¬Cut true t t')
    (f : α → Except Error β) : StopsShort (fun t => read t >>= f) t := by
  intro b hb whole t' hcut
  obtain ⟨a, ha, -⟩ := Except.bind_eq_ok.1 hb
  obtain hends | ⟨rfl, -⟩ := h a ha whole t' hcut
  · exact .inl (hends.bind f)
  · exact absurd hcut (ht t')

theorem stopsShort_readName {β : Type} (table : List (String × β)) (s : Reading String) :
    StopsShort (readName table) (.string s) :=
  (stopsShort_readStringAs _ s).bind nofun (lookup table)

/-! ## Arrays -/

/-- The items that are left are read up to the end of the text. -/
theorem mapM_ends {items items' : List Tree} {stop : Stop} (hcut : CutItems stop items items')
    (hread : ∀ t ∈ items, StopsShort read t) {as : List α} (has : items.mapM read = .ok as) :
    Ends (items'.mapM read) ∨ stop.Ends ∧ ∃ bs, items'.mapM read = .ok bs := by
  induction items generalizing items' as with
  | nil =>
    cases hcut with
    | ended h => exact .inr ⟨h, [], rfl⟩
  | cons t items ih =>
    obtain ⟨ht, hitems⟩ := List.forall_mem_cons.1 hread
    rw [List.mapM_cons] at has
    obtain ⟨a, ha, hrest⟩ := Except.bind_eq_ok.1 has
    obtain ⟨as', has', -⟩ := Except.bind_eq_ok.1 hrest
    cases hcut with
    | ended h => exact .inr ⟨h, [], rfl⟩
    | @last _ whole _ t' _ h hstop =>
      rw [List.mapM_cons]
      obtain hends | ⟨hwhole, b, hb⟩ := ht a ha whole t' h
      · exact .inl (hends.bind _)
      · exact .inr ⟨hstop hwhole, [b], by rw [hb]; rfl⟩
    | cons h =>
      rw [List.mapM_cons, ha]
      obtain hends | ⟨hstop, bs, hbs⟩ := ih h hitems has'
      · exact .inl (hends.bind _)
      · exact .inr ⟨hstop, a :: bs, by rw [hbs]; rfl⟩

theorem readEnding_ends {stop : Stop} (h : stop.Ends) : Ends (readEnding (some stop)) := by
  obtain ⟨inside, hinside⟩ := h
  exact ⟨inside, congrArg Except.error hinside⟩

theorem stopsShort_readList {readItem : Nat → Tree → Except Error α} {items : List Tree}
    (hread : ∀ d, ∀ t ∈ items, StopsShort (readItem d) t) (depth : Nat) :
    StopsShort (readList readItem depth) (.array items none) := by
  intro as has whole t' hcut
  obtain ⟨d, rfl, has⟩ := Tree.enter_eq_ok.1 has
  obtain ⟨bs, hbs, -⟩ := Except.bind_eq_ok.1 has
  cases hcut with
  | broken h =>
    cases h
    exact .inl (ends_ended _)
  | @array _ items' stop h =>
    refine .inl ?_
    show Ends (items'.mapM (readItem d) >>= fun xs => readEnding (some stop) >>= fun _ => .ok xs)
    obtain hends | ⟨hstop, cs, hcs⟩ := mapM_ends h (hread d) hbs
    · exact hends.bind _
    · rw [hcs]
      exact (readEnding_ends hstop).bind fun _ => .ok cs

/-! ## Objects -/

/-- The members that are left are read up to the end of the text. -/
theorem foldMembers_ends {σ : Type} {step : σ → String → Tree → Except Error σ}
    {members members' : List (Reading String × Tree)} {stop : Stop}
    (hcut : CutMembers stop members members')
    (hstep : ∀ m ∈ members, ∀ name, m.1.read = .ok name → ∀ d, StopsShort (step d name) m.2)
    {d d' : σ} (hd : foldMembers step d members none = .ok d') :
    Ends (foldMembers step d members' (some stop)) := by
  have hended {d : σ} (h : stop.Ends) : Ends (foldMembers step d [] (some stop)) :=
    (readEnding_ends h).bind fun _ => .ok d
  induction members generalizing members' d with
  | nil =>
    cases hcut with
    | ended h => exact hended h
  | cons m members ih =>
    obtain ⟨hm, hmembers⟩ := List.forall_mem_cons.1 hstep
    rw [foldMembers_cons_bind] at hd
    obtain ⟨name, hname, hd⟩ := Except.bind_eq_ok.1 hd
    obtain ⟨d₁, hd₁, hd⟩ := Except.bind_eq_ok.1 hd
    cases hcut with
    | ended h => exact hended h
    | key h =>
      rw [foldMembers_cons_bind]
      exact h.bind _
    | @last _ whole key t t' _ h hstop =>
      rw [foldMembers_cons_bind, hname]
      obtain hends | ⟨hwhole, d₂, hd₂⟩ := hm name hname d d₁ hd₁ whole t' h
      · exact hends.bind _
      · rw [Except.ok_bind, hd₂]
        exact hended (hstop hwhole)
    | cons h =>
      rw [foldMembers_cons_bind, hname, Except.ok_bind, hd₁]
      exact ih h hmembers hd

end

end SpendTrace.Json
