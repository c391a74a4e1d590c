import SpendTrace.Json.Read
import SpendTrace.Proofs.Except

/-!
# Readers, taken apart

A record that was read came from the members of an object, or from the entries of an array. So what
holds of a tree and of all its parts holds of whatever the fields were read from.

* `Tree.Hereditary`: a property that passes from a tree to its parts.
* `foldMembers_induct`: what every member preserves, a whole object preserves.
* `foldMembers_append`: an object is read member by member.
* `Entries.next_eq_ok` and its companions: what an entry of an array was read from.
-/

namespace SpendTrace.Json

/-- A property of trees that passes to the parts of a tree. -/
structure Tree.Hereditary (T : Tree → Prop) : Prop where
  item : ∀ {items ending}, T (.array items ending) → ∀ t ∈ items, T t
  member : ∀ {members ending}, T (.object members ending) → ∀ m ∈ members, T m.2

theorem Tree.enter_eq_ok {α : Type} {depth : Nat} {inside : Nat → Except Error α} {a : α} :
    enter depth inside = .ok a ↔ ∃ d, depth = d + 1 ∧ inside d = .ok a := by
  cases depth with
  | zero => simp [enter]
  | succ d => simp [enter]

section

variable {α : Type} {a : α} {T : Tree → Prop}

theorem readNatural_of_lt {bound n : Nat} (h : n < bound) (hn : InWord n) (expected : String) :
    readNatural bound expected (.number (.exact (.integer n hn))) = .ok n := by
  have hlt : (n : Int) < (bound : Int) := Int.ofNat_lt.2 h
  simp only [readNatural, Reading.exact, Except.ok_bind]
  rw [if_pos ⟨Int.natCast_nonneg n, hlt⟩, Int.toNat_natCast]

theorem readOption_eq_ok {read : Tree → Except Error α} {t : Tree} {o : Option α}
    (h : readOption read t = .ok o) : ∀ a ∈ o, read t = .ok a := by
  unfold readOption at h
  split at h
  · cases h
    nofun
  · obtain ⟨b, hb, rfl⟩ := Except.map_eq_ok.1 h
    rintro a ⟨⟩
    exact hb

theorem readList_eq_ok {read : Nat → Tree → Except Error α} {depth : Nat} {t : Tree} {as : List α}
    (h : readList read depth t = .ok as) :
    ∃ items ending, t = .array items ending ∧
      ∀ a ∈ as, ∃ d, ∃ u ∈ items, read d u = .ok a := by
  cases t with
  | array items ending =>
    obtain ⟨d, -, h⟩ := Tree.enter_eq_ok.1 h
    obtain ⟨bs, hbs, h⟩ := Except.bind_eq_ok.1 h
    obtain ⟨-, -, h⟩ := Except.bind_eq_ok.1 h
    cases h
    refine ⟨items, ending, rfl, fun a ha => ?_⟩
    exact ⟨d, Except.exists_of_mapM_eq_ok hbs a ha⟩
  | null | boolean | number | string | misspelled | missing | object => cases h

/-! ## Objects -/

theorem fill_eq_ok {name : String} {field filled : Option α} {value : Except Error α}
    (h : fill name field value = .ok filled) : ∃ a, value = .ok a ∧ filled = some a := by
  cases field with
  | some b => cases h
  | none =>
    obtain ⟨a, ha, rfl⟩ := Except.map_eq_ok.1 h
    exact ⟨a, ha, rfl⟩

theorem demand_eq_ok {name : String} {field : Option α} (h : demand name field = .ok a) :
    field = some a := by
  cases field with
  | some b =>
    cases h
    rfl
  | none => cases h

/-- What holds of a draft at first and is kept by every member holds of the draft in the end. -/
theorem foldMembers_induct {σ : Type} {step : σ → String → Tree → Except Error σ} {I : σ → Prop}
    (hstep : ∀ {d name t d'}, I d → T t → step d name t = .ok d' → I d')
    {d d' : σ} (hd : I d) {members : List (Reading String × Tree)} {ending : Option Stop}
    (hmembers : ∀ m ∈ members, T m.2) (h : foldMembers step d members ending = .ok d') : I d' := by
  rw [foldMembers, Except.bind_eq_ok] at h
  obtain ⟨d₁, hfold, hend⟩ := h
  obtain ⟨-, -, hend⟩ := Except.bind_eq_ok.1 hend
  cases hend
  induction members generalizing d with
  | nil =>
    cases hfold
    exact hd
  | cons m members ih =>
    rw [List.foldlM_cons] at hfold
    obtain ⟨d₂, hm, hrest⟩ := Except.bind_eq_ok.1 hfold
    obtain ⟨name, -, hm⟩ := Except.bind_eq_ok.1 hm
    obtain ⟨ht, hmembers⟩ := List.forall_mem_cons.1 hmembers
    exact ih (hstep hd ht hm) hmembers hrest

theorem readEnding_eq_ok {ending : Option Stop} {u : Unit} (h : readEnding ending = .ok u) :
    ending = none := by
  cases ending with
  | none => rfl
  | some stop => cases h

/-- An object that was read is closed. -/
theorem ending_of_foldMembers {σ : Type} {step : σ → String → Tree → Except Error σ} {d d' : σ}
    {members : List (Reading String × Tree)} {ending : Option Stop}
    (h : foldMembers step d members ending = .ok d') : ending = none := by
  obtain ⟨_, -, h⟩ := Except.bind_eq_ok.1 h
  obtain ⟨_, hend, -⟩ := Except.bind_eq_ok.1 h
  exact readEnding_eq_ok hend

theorem foldMembers_cons_bind {σ : Type} (step : σ → String → Tree → Except Error σ) (d : σ)
    (m : Reading String × Tree) (members : List (Reading String × Tree)) (ending : Option Stop) :
    foldMembers step d (m :: members) ending =
      m.1.read >>= fun name => step d name m.2 >>= fun d => foldMembers step d members ending := by
  simp only [foldMembers, List.foldlM_cons, bind_assoc]

theorem foldMembers_append {σ : Type} (step : σ → String → Tree → Except Error σ) (d : σ)
    (ms ns : List (Reading String × Tree)) : foldMembers step d (ms ++ ns) none =
      foldMembers step d ms none >>= fun d => foldMembers step d ns none := by
  unfold foldMembers
  rw [List.foldlM_append]
  simp only [readEnding, Except.ok_bind, bind_assoc]

/-! ## Arrays -/

namespace Entries

/-- Every entry that has not been read satisfies `T`. -/
def All (T : Tree → Prop) (es : Entries) : Prop :=
  ∀ t ∈ es.items, T t

theorem next?_eq_ok {es es' : Entries} {read : Tree → Except Error α} {o : Option α}
    (hall : es.All T) (h : es.next? read = .ok (o, es')) :
    (∀ a ∈ o, ∃ t, T t ∧ read t = .ok a) ∧ es'.All T := by
  unfold next? at h
  split at h
  · obtain ⟨-, -, h⟩ := Except.bind_eq_ok.1 h
    cases h
    exact ⟨nofun, hall⟩
  · next t ts hitems =>
    obtain ⟨b, hb, h⟩ := Except.bind_eq_ok.1 h
    cases h
    rw [All, hitems] at hall
    obtain ⟨ht, hts⟩ := List.forall_mem_cons.1 hall
    refine ⟨?_, hts⟩
    rintro a ⟨⟩
    exact ⟨t, ht, hb⟩

theorem next_eq_ok {es es' : Entries} {index : Nat} {record : String}
    {read : Tree → Except Error α} (hall : es.All T)
    (h : es.next index record read = .ok (a, es')) : (∃ t, T t ∧ read t = .ok a) ∧ es'.All T := by
  obtain ⟨⟨o, es₁⟩, hnext, h⟩ := Except.bind_eq_ok.1 h
  obtain ⟨hread, hrest⟩ := next?_eq_ok hall hnext
  cases o with
  | none => cases h
  | some b =>
    cases h
    exact ⟨hread _ rfl, hrest⟩

theorem nextOption_eq_ok {es es' : Entries} {read : Tree → Except Error α} {o : Option α}
    (hall : es.All T) (h : es.nextOption read = .ok (o, es')) :
    (∀ a ∈ o, ∃ t, T t ∧ read t = .ok a) ∧ es'.All T := by
  obtain ⟨⟨o₁, es₁⟩, hnext, h⟩ := Except.bind_eq_ok.1 h
  cases h
  obtain ⟨hread, hrest⟩ := next?_eq_ok hall hnext
  refine ⟨fun a ha => ?_, hrest⟩
  obtain ⟨o₂, rfl, rfl⟩ := Option.join_eq_some_iff.1 ha
  obtain ⟨t, ht, hb⟩ := hread (some a) rfl
  exact ⟨t, ht, readOption_eq_ok hb a rfl⟩

theorem next?_ending {es es' : Entries} {read : Tree → Except Error α} {o : Option α}
    (h : es.next? read = .ok (o, es')) : es'.ending = es.ending := by
  unfold next? at h
  split at h
  all_goals
    obtain ⟨_, -, h⟩ := Except.bind_eq_ok.1 h
    cases h
    rfl

theorem next_ending {es es' : Entries} {index : Nat} {record : String}
    {read : Tree → Except Error α} (h : es.next index record read = .ok (a, es')) :
    es'.ending = es.ending := by
  obtain ⟨⟨o, es₁⟩, hnext, h⟩ := Except.bind_eq_ok.1 h
  cases o with
  | none => cases h
  | some b =>
    cases h
    exact next?_ending hnext

theorem nextOption_ending {es es' : Entries} {read : Tree → Except Error α} {o : Option α}
    (h : es.nextOption read = .ok (o, es')) : es'.ending = es.ending := by
  obtain ⟨⟨o₁, es₁⟩, hnext, h⟩ := Except.bind_eq_ok.1 h
  cases h
  exact next?_ending hnext

/-- An array all of whose entries were read is closed. -/
theorem ending_of_finish {es : Entries} {u : Unit} (h : es.finish = .ok u) : es.ending = none := by
  unfold finish at h
  split at h
  · assumption
  · split at h <;> cases h
  · cases h
  · cases h

end Entries

/-! ## Texts -/

/-- What is read from a text is read from its tree. -/
theorem read_of_readText {read : Nat → Tree → Except Error α} {text : String} {a : α}
    (h : readText read text = .ok a) : read maxDepth (parse text.toList).tree = .ok a := by
  obtain ⟨b, hb, h⟩ := Except.bind_eq_ok.1 h
  split at h
  · cases h
  · cases h
    exact hb

end

end SpendTrace.Json
