import SpendTrace.Proofs.Json.Numbers
import SpendTrace.Proofs.Json.Reading
import SpendTrace.Proofs.Script.Written

/-!
# What holds of every element that was read

Each element of a snapshot that was read has been read from some part of the tree. So a property
that passes from a tree to its parts tells of all the elements, whichever way the snapshot, its
state and its lists are written.

* `Snapshot.forall_of_read`: what holds of an element read from a part holds of all elements.
* `Snapshot.wellFormed_of_ofJson`: every element that was read is well-formed.
* `Snapshot.integral_of_ofJson`: no double is read from a text without doubles.
-/

namespace SpendTrace.Script

open Json (Tree Error Reading)

section

variable {T : Tree → Prop} {Q : Element → Prop} (hT : Tree.Hereditary T)
  (hQ : ∀ {depth t e}, T t → Element.read depth t = .ok e → Q e)

include hT hQ

theorem Element.forall_of_readList {depth : Nat} {t : Tree} {es : List Element} (ht : T t)
    (h : Element.readList depth t = .ok es) : ∀ e ∈ es, Q e := by
  obtain ⟨items, ending, rfl, hitems⟩ := Json.readList_eq_ok h
  intro e he
  obtain ⟨d, u, hu, hread⟩ := hitems e he
  exact hQ (hT.item ht u hu) hread

theorem Element.forall_of_readList? {depth : Nat} {t : Tree} {es? : Option (List Element)}
    (ht : T t) (h : Json.readOption (Element.readList depth) t = .ok es?) :
    ∀ es ∈ es?, ∀ e ∈ es, Q e :=
  fun es hes => Element.forall_of_readList hT hQ ht (Json.readOption_eq_ok h es hes)

/-! ## States -/

omit hT hQ in
/-- All elements that have been read into a draft satisfy `Q`. -/
structure MachineState.Draft.All (Q : Element → Prop) (d : MachineState.Draft) : Prop where
  locking : ∀ es ∈ d.locking, ∀ e ∈ es, Q e
  unlocking : ∀ es ∈ d.unlocking, ∀ e ∈ es, Q e
  current : ∀ es ∈ d.current, ∀ e ∈ es, Q e
  redeem : ∀ es ∈ d.redeem.join, ∀ e ∈ es, Q e
  witness : ∀ es ∈ d.witness.join, ∀ e ∈ es, Q e
  witnessStack : ∀ es ∈ d.witnessStack.join, ∀ e ∈ es, Q e
  main : ∀ es ∈ d.main, ∀ e ∈ es, Q e
  alt : ∀ es ∈ d.alt, ∀ e ∈ es, Q e

namespace MachineState

theorem Draft.All.member {depth : Nat} {d d' : Draft} {name : String} {t : Tree} (hd : d.All Q)
    (ht : T t) (h : Draft.member depth d name t = .ok d') : d'.All Q := by
  have hlist : ∀ {name : String} {field filled : Option (List Element)},
      Json.fill name field (Element.readList depth t) = .ok filled →
      ∀ es ∈ filled, ∀ e ∈ es, Q e := by
    intro name field filled hfill
    obtain ⟨es, hes, rfl⟩ := Json.fill_eq_ok hfill
    rintro _ ⟨⟩
    exact Element.forall_of_readList hT hQ ht hes
  have hlist? : ∀ {name : String} {field filled : Option (Option (List Element))},
      Json.fill name field (Json.readOption (Element.readList depth) t) = .ok filled →
      ∀ es ∈ filled.join, ∀ e ∈ es, Q e := by
    intro name field filled hfill
    obtain ⟨es?, hes, rfl⟩ := Json.fill_eq_ok hfill
    exact Element.forall_of_readList? hT hQ ht hes
  unfold Draft.member at h
  split at h
  case h_10 =>
    obtain ⟨-, -, rfl⟩ := Except.map_eq_ok.1 h
    exact hd
  all_goals
    obtain ⟨x, hx, h⟩ := Except.bind_eq_ok.1 h
    cases h
  · exact { hd with locking := hlist hx }
  · exact { hd with unlocking := hlist hx }
  · exact { hd with current := hlist hx }
  · exact { hd with redeem := hlist? hx }
  · exact { hd with witness := hlist? hx }
  · exact { hd with witnessStack := hlist? hx }
  · exact { hd with main := hlist hx }
  · exact { hd with alt := hlist hx }
  · exact ⟨hd.locking, hd.unlocking, hd.current, hd.redeem, hd.witness, hd.witnessStack, hd.main,
      hd.alt⟩

omit hT hQ in
theorem forall_getD {list : Option (List Element)} (h : ∀ es ∈ list, ∀ e ∈ es, Q e) :
    ∀ e ∈ list.getD [], Q e := by
  cases list with
  | none => exact List.forall_mem_nil _
  | some es => exact h es rfl

omit hT hQ in
theorem Draft.All.state {d : Draft} (hd : d.All Q) {m : MachineState} (h : d.state = .ok m) :
    ∀ e ∈ m.elements, Q e := by
  obtain ⟨locking, hlocking, h⟩ := Except.bind_eq_ok.1 h
  obtain ⟨unlocking, hunlocking, h⟩ := Except.bind_eq_ok.1 h
  obtain ⟨current, hcurrent, h⟩ := Except.bind_eq_ok.1 h
  obtain ⟨main, hmain, h⟩ := Except.bind_eq_ok.1 h
  obtain ⟨alt, halt, h⟩ := Except.bind_eq_ok.1 h
  obtain ⟨stage, hstage, h⟩ := Except.bind_eq_ok.1 h
  cases h
  simp only [elements, List.forall_mem_append]
  refine ⟨⟨⟨⟨⟨⟨⟨?_, ?_⟩, ?_⟩, ?_⟩, ?_⟩, ?_⟩, ?_⟩, ?_⟩
  · exact hd.locking _ (Json.demand_eq_ok hlocking)
  · exact hd.unlocking _ (Json.demand_eq_ok hunlocking)
  · exact hd.current _ (Json.demand_eq_ok hcurrent)
  · exact forall_getD hd.redeem
  · exact forall_getD hd.witness
  · exact forall_getD hd.witnessStack
  · exact hd.main _ (Json.demand_eq_ok hmain)
  · exact hd.alt _ (Json.demand_eq_ok halt)

theorem forall_of_read {depth : Nat} {t : Tree} {m : MachineState} (ht : T t)
    (h : MachineState.read depth t = .ok m) : ∀ e ∈ m.elements, Q e := by
  cases t with
  | object members ending =>
    obtain ⟨depth, rfl, h⟩ := Tree.enter_eq_ok.1 h
    obtain ⟨d, hd, h⟩ := Except.bind_eq_ok.1 h
    have hall : d.All Q := by
      refine Json.foldMembers_induct (T := T) (I := Draft.All Q) (Draft.All.member hT hQ) ?_
        (hT.member ht) hd
      exact ⟨nofun, nofun, nofun, nofun, nofun, nofun, nofun, nofun⟩
    exact hall.state h
  | array items ending =>
    obtain ⟨depth, rfl, h⟩ := Tree.enter_eq_ok.1 h
    have hlist : ∀ {es : List Element}, (∃ t, T t ∧ Element.readList depth t = .ok es) →
        ∀ e ∈ es, Q e := by
      rintro es ⟨t, ht, hes⟩
      exact Element.forall_of_readList hT hQ ht hes
    have hlist? : ∀ {es? : Option (List Element)},
        (∀ es ∈ es?, ∃ t, T t ∧ Element.readList depth t = .ok es) → ∀ e ∈ es?.getD [], Q e :=
      fun hes => forall_getD fun es he => hlist (hes es he)
    -- The entries are taken one by one; what is left of them keeps the property.
    have hall : Json.Entries.All T ⟨items, ending⟩ := hT.item ht
    obtain ⟨⟨locking, es⟩, hnext, h⟩ := Except.bind_eq_ok.1 h
    obtain ⟨hlocking, hall⟩ := Json.Entries.next_eq_ok hall hnext
    obtain ⟨⟨unlocking, es⟩, hnext, h⟩ := Except.bind_eq_ok.1 h
    obtain ⟨hunlocking, hall⟩ := Json.Entries.next_eq_ok hall hnext
    obtain ⟨⟨current, es⟩, hnext, h⟩ := Except.bind_eq_ok.1 h
    obtain ⟨hcurrent, hall⟩ := Json.Entries.next_eq_ok hall hnext
    obtain ⟨⟨redeem, es⟩, hnext, h⟩ := Except.bind_eq_ok.1 h
    obtain ⟨hredeem, hall⟩ := Json.Entries.nextOption_eq_ok hall hnext
    obtain ⟨⟨witness, es⟩, hnext, h⟩ := Except.bind_eq_ok.1 h
    obtain ⟨hwitness, hall⟩ := Json.Entries.nextOption_eq_ok hall hnext
    obtain ⟨⟨witnessStack, es⟩, hnext, h⟩ := Except.bind_eq_ok.1 h
    obtain ⟨hwitnessStack, hall⟩ := Json.Entries.nextOption_eq_ok hall hnext
    obtain ⟨⟨main, es⟩, hnext, h⟩ := Except.bind_eq_ok.1 h
    obtain ⟨hmain, hall⟩ := Json.Entries.next_eq_ok hall hnext
    obtain ⟨⟨alt, es⟩, hnext, h⟩ := Except.bind_eq_ok.1 h
    obtain ⟨halt, -⟩ := Json.Entries.next_eq_ok hall hnext
    obtain ⟨⟨stage, es⟩, -, h⟩ := Except.bind_eq_ok.1 h
    obtain ⟨-, -, h⟩ := Except.bind_eq_ok.1 h
    cases h
    simp only [elements, List.forall_mem_append]
    exact ⟨⟨⟨⟨⟨⟨⟨hlist hlocking, hlist hunlocking⟩, hlist hcurrent⟩, hlist? hredeem⟩,
      hlist? hwitness⟩, hlist? hwitnessStack⟩, hlist hmain⟩, hlist halt⟩
  | null | boolean | number | string | misspelled | missing => cases h

end MachineState

/-! ## Snapshots -/

namespace Snapshot

theorem Draft.forall_of_member {depth : Nat} {d d' : Draft} {name : String} {t : Tree}
    (hd : ∀ m ∈ d.state, ∀ e ∈ m.elements, Q e) (ht : T t)
    (h : Draft.member depth d name t = .ok d') : ∀ m ∈ d'.state, ∀ e ∈ m.elements, Q e := by
  unfold Draft.member at h
  split at h
  case h_4 =>
    obtain ⟨-, -, rfl⟩ := Except.map_eq_ok.1 h
    exact hd
  all_goals
    obtain ⟨x, hx, h⟩ := Except.bind_eq_ok.1 h
    cases h
  · exact hd
  · obtain ⟨m, hm, rfl⟩ := Json.fill_eq_ok hx
    rintro _ ⟨⟩
    exact MachineState.forall_of_read hT hQ ht hm
  · exact hd

/-- What holds of every element read from a part of the tree holds of every element. -/
theorem forall_of_read {depth : Nat} {t : Tree} {s : Snapshot} (ht : T t)
    (h : Snapshot.read depth t = .ok s) : ∀ es ∈ s.lists, ∀ e ∈ es, Q e := by
  have hstate : ∀ {outcome m step}, (∀ e ∈ MachineState.elements m, Q e) →
      ∀ es ∈ (ofState outcome m step).lists, ∀ e ∈ es, Q e := by
    intro outcome m step hm es hes e he
    refine hm e ?_
    have hmem := List.mem_flatten.2 ⟨es, hes, he⟩
    rwa [← elements_state] at hmem
  cases t with
  | object members ending =>
    obtain ⟨depth, rfl, h⟩ := Tree.enter_eq_ok.1 h
    obtain ⟨d, hd, h⟩ := Except.bind_eq_ok.1 h
    have hall : ∀ m ∈ d.state, ∀ e ∈ m.elements, Q e :=
      Json.foldMembers_induct (T := T) (I := fun d => ∀ m ∈ d.state, ∀ e ∈ m.elements, Q e)
        (Draft.forall_of_member hT hQ) nofun (hT.member ht) hd
    obtain ⟨outcome, -, h⟩ := Except.bind_eq_ok.1 h
    obtain ⟨m, hm, h⟩ := Except.bind_eq_ok.1 h
    cases h
    exact hstate (hall m (Json.demand_eq_ok hm))
  | array items ending =>
    obtain ⟨depth, rfl, h⟩ := Tree.enter_eq_ok.1 h
    have hall : Json.Entries.All T ⟨items, ending⟩ := hT.item ht
    obtain ⟨⟨outcome, es⟩, hnext, h⟩ := Except.bind_eq_ok.1 h
    obtain ⟨-, hall⟩ := Json.Entries.next_eq_ok hall hnext
    obtain ⟨⟨m, es⟩, hnext, h⟩ := Except.bind_eq_ok.1 h
    obtain ⟨⟨t, ht, hm⟩, -⟩ := Json.Entries.next_eq_ok hall hnext
    obtain ⟨⟨step, es⟩, -, h⟩ := Except.bind_eq_ok.1 h
    obtain ⟨-, -, h⟩ := Except.bind_eq_ok.1 h
    cases h
    exact hstate (MachineState.forall_of_read hT hQ ht hm)
  | null | boolean | number | string | misspelled | missing => cases h

end Snapshot

end

/-! ## Texts -/

theorem Element.parts_of_read {depth : Nat} {t : Tree} {e : Element}
    (h : Element.read depth t = .ok e) :
    ∃ kind value, readParts depth t = .ok (kind, value) ∧ ofParts kind value = .ok e := by
  obtain ⟨⟨kind, value⟩, hparts, h⟩ := Except.bind_eq_ok.1 h
  refine ⟨kind, value, hparts, ?_⟩
  cases hmade : ofParts kind value with
  | ok e' =>
    simp only [hmade] at h
    cases h
    rfl
  | error m =>
    simp only [hmade] at h
    cases h

theorem Element.wellFormed_of_read {depth : Nat} {t : Tree} {e : Element}
    (h : Element.read depth t = .ok e) : e.WellFormed := by
  obtain ⟨kind, value, -, hmade⟩ := Element.parts_of_read h
  exact Element.wellFormed_of_ofParts hmade

theorem hereditary_allNumbers (P : Reading Json.Number → Prop) :
    Tree.Hereditary (Tree.AllNumbers P) where
  item h := by
    cases h with
    | array _ _ h => exact h
  member h := by
    cases h with
    | object _ _ h => exact h

/-! ### The value of an element -/

theorem Element.Draft.forall_of_member {T : Tree → Prop} {depth : Nat} {d d' : Draft}
    {name : String} {t : Tree}
    (hd : ∀ v ∈ d.value.join, ∃ u, T u ∧ ElementValue.read depth u = .ok v) (ht : T t)
    (h : Draft.member depth d name t = .ok d') :
    ∀ v ∈ d'.value.join, ∃ u, T u ∧ ElementValue.read depth u = .ok v := by
  unfold Draft.member at h
  split at h
  · obtain ⟨x, -, h⟩ := Except.bind_eq_ok.1 h
    cases h
    exact hd
  split at h
  · obtain ⟨x, hx, h⟩ := Except.bind_eq_ok.1 h
    cases h
    obtain ⟨o, ho, rfl⟩ := Json.fill_eq_ok hx
    exact fun v hv => ⟨t, ht, Json.readOption_eq_ok ho v hv⟩
  · obtain ⟨-, -, rfl⟩ := Except.map_eq_ok.1 h
    exact hd

/-- The value of an element has been read from a part of the tree. -/
theorem Element.exists_of_readParts {T : Tree → Prop} (hT : Tree.Hereditary T) {depth : Nat}
    {t : Tree} {kind : String} {value : Option ElementValue} (ht : T t)
    (h : readParts depth t = .ok (kind, value)) :
    ∀ v ∈ value, ∃ depth u, T u ∧ ElementValue.read depth u = .ok v := by
  cases t with
  | object members ending =>
    obtain ⟨depth, rfl, h⟩ := Tree.enter_eq_ok.1 h
    obtain ⟨d, hd, h⟩ := Except.bind_eq_ok.1 h
    obtain ⟨kind', -, h⟩ := Except.bind_eq_ok.1 h
    cases h
    let FromPart (d : Draft) : Prop :=
      ∀ v ∈ d.value.join, ∃ u, T u ∧ ElementValue.read depth u = .ok v
    have hempty : FromPart {} := by
      rintro _ ⟨⟩
    have hvalue : FromPart d :=
      Json.foldMembers_induct Draft.forall_of_member hempty (hT.member ht) hd
    exact fun v hv => ⟨depth, hvalue v hv⟩
  | array items ending =>
    obtain ⟨depth, rfl, h⟩ := Tree.enter_eq_ok.1 h
    have hall : Json.Entries.All T ⟨items, ending⟩ := hT.item ht
    obtain ⟨⟨kind', es⟩, hnext, h⟩ := Except.bind_eq_ok.1 h
    obtain ⟨-, hall⟩ := Json.Entries.next_eq_ok hall hnext
    obtain ⟨⟨value', es⟩, hnext, h⟩ := Except.bind_eq_ok.1 h
    obtain ⟨hvalue, -⟩ := Json.Entries.nextOption_eq_ok hall hnext
    obtain ⟨-, -, h⟩ := Except.bind_eq_ok.1 h
    cases h
    exact fun v hv => ⟨depth, hvalue v hv⟩
  | null | boolean | number | string | misspelled | missing => cases h

theorem Element.value_of_ofParts {kind : String} {value : Option ElementValue} {e : Element}
    (h : ofParts kind value = .ok e) : ∀ v ∈ e.value, v ∈ value := by
  unfold ofParts at h
  split at h
  · cases value with
    | none => cases h
    | some v =>
      cases h
      exact fun _ hv => hv
  · cases h
    rintro _ ⟨⟩

/-- A number that was read is one of the numbers of the tree. -/
theorem ElementValue.number_of_read {P : Reading Json.Number → Prop} {depth : Nat} {t : Tree}
    {n : Json.Number} (ht : t.AllNumbers P) (h : ElementValue.read depth t = .ok (.number n)) :
    ∃ r, P r ∧ r.read = .ok n := by
  obtain ⟨-, -, h⟩ := Except.bind_eq_ok.1 h
  cases ht with
  | number r hr =>
    refine ⟨r, hr, ?_⟩
    cases hread : r.read with
    | ok m =>
      simp only [ofTree?, hread] at h
      cases h
      rfl
    | error e =>
      simp only [ofTree?, hread] at h
      cases h
  | string s =>
    cases hread : s.read <;> simp only [ofTree?, hread] at h <;> cases h
  | null | boolean | misspelled | missing | array | object => cases h

theorem Element.number_of_read {P : Reading Json.Number → Prop} {depth : Nat} {t : Tree}
    {e : Element} (ht : t.AllNumbers P) (h : Element.read depth t = .ok e) {n : Json.Number}
    (hn : e.value = some (.number n)) : ∃ r, P r ∧ r.read = .ok n := by
  obtain ⟨kind, value, hparts, hmade⟩ := Element.parts_of_read h
  have hvalue := Element.value_of_ofParts hmade _ hn
  obtain ⟨depth, u, hu, hread⟩ :=
    Element.exists_of_readParts (hereditary_allNumbers P) ht hparts _ hvalue
  exact ElementValue.number_of_read hu hread

namespace Snapshot

theorem read_of_ofJson {text : String} {s : Snapshot} (h : ofJson text = .ok s) :
    Snapshot.read Json.maxDepth (Json.parse text.toList).tree = .ok s :=
  Json.read_of_readText h

/-- Every element that was read is well-formed. -/
theorem wellFormed_of_ofJson {text : String} {s : Snapshot} (h : ofJson text = .ok s) :
    ∀ es ∈ s.lists, ∀ e ∈ es, e.WellFormed :=
  forall_of_read (T := fun _ => True) ⟨fun _ _ _ => trivial, fun _ _ _ => trivial⟩
    (fun _ => Element.wellFormed_of_read) trivial (read_of_ofJson h)

/-- No double is read from a text without doubles. -/
theorem integral_of_ofJson {text : String} {s : Snapshot} (h : ofJson text = .ok s)
    (htext : Json.WithoutDoubles text.toList) : s.Integral := by
  have hnumbers := Json.allNumbers_parse (P := fun r => .number r ∈ Json.tokens text.toList)
    fun _ hn => hn
  refine forall_of_read (hereditary_allNumbers _) (fun ht he v hv => ?_) hnumbers (read_of_ofJson h)
  cases v with
  | boolean b => rfl
  | text s => rfl
  | number n =>
    obtain ⟨r, hr, hread⟩ := Element.number_of_read ht he hv
    exact htext.isInteger hr hread

end Snapshot

end SpendTrace.Script
