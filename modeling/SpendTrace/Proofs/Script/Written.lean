import SpendTrace.Script.Document.Snapshot
import SpendTrace.Proofs.Json.Reading
import SpendTrace.Proofs.Json.Written

/-!
# Reading written snapshots

The document of a snapshot is read back element by element, in the order of its lists. An opcode
loses its value, if it was given one, and the first literal without a value is refused. So the
well-formed snapshots are exactly those that come back unchanged.

* `made`: what comes of making elements again.
* `ofJson_toJson`: what comes of reading a written snapshot, in all cases.
-/

namespace SpendTrace.Script

open Json (Tree Value Error Reading)

/-! ## Elements, made again -/

namespace Element

/-- A literal without a value, which cannot be made. -/
def isBare (e : Element) : Bool :=
  e.isLiteral && e.value.isNone

/-- The element as it is made from its parts: an opcode loses its value. -/
def settled (e : Element) : Element :=
  if e.isLiteral then e else ⟨e.kind, none⟩

/-- What is said of a bare element. -/
def refusal (e : Element) : Error :=
  .mismatch (.refused (MissingValue.mk e.kind).message)

theorem wellFormed_iff {e : Element} : e.WellFormed ↔ e.isBare = false ∧ e.settled = e := by
  obtain ⟨kind, value⟩ := e
  cases hk : Opcode.isLiteralMarker kind <;> cases value <;>
    simp [WellFormed, isBare, settled, isLiteral, hk]

end Element

/-- What comes of making these elements again on the way to `a`: the first bare one is refused. -/
def made {α : Type} (es : List Element) (a : α) : Except Error α :=
  match es.find? Element.isBare with
  | some e => .error e.refusal
  | none => .ok a

theorem made_nil {α : Type} (a : α) : made [] a = .ok a := rfl

theorem made_bind {α β : Type} {es fs : List Element} {a : α} {b : β} {f : α → Except Error β}
    (h : f a = made fs b) : (made es a >>= f) = made (es ++ fs) b := by
  unfold made
  rw [List.find?_append]
  cases es.find? Element.isBare with
  | some e => rfl
  | none => exact h

theorem made_map {α β : Type} (es : List Element) (a : α) (f : α → β) :
    (made es a).map f = made es (f a) := by
  unfold made
  cases es.find? Element.isBare <;> rfl

theorem made_bind_of_ok {α β : Type} {es : List Element} {a : α} {b : β}
    {f : α → Except Error β} (h : f a = .ok b) : (made es a >>= f) = made es b := by
  have hbind : (made es a >>= f) = made (es ++ []) b := made_bind (h.trans (made_nil b).symm)
  rwa [List.append_nil] at hbind

theorem made_of_not_bare {α : Type} {es : List Element} (h : ∀ e ∈ es, e.isBare = false) (a : α) :
    made es a = .ok a := by
  have hnone : es.find? Element.isBare = none := List.find?_eq_none.2 fun e he => by simp [h e he]
  rw [made, hnone]

theorem made_of_bare {α : Type} {es : List Element} {e : Element} (he : e ∈ es)
    (hbare : e.isBare = true) (a : α) :
    ∃ first, es.find? Element.isBare = some first ∧ made es a = .error first.refusal := by
  obtain ⟨first, hfirst⟩ := Option.isSome_iff_exists.1 (List.find?_isSome.2 ⟨e, he, hbare⟩)
  exact ⟨first, hfirst, by rw [made, hfirst]⟩

/-! ## The document of an element -/

theorem ElementValue.read_document (depth : Nat) (v : ElementValue) :
    ElementValue.read depth v.document.tree = .ok v := by
  cases v <;> rfl

theorem Element.ofParts_eq_made (e : Element) :
    (match Element.ofParts e.kind e.value with
      | .ok e => Except.ok e
      | .error m => .error (.mismatch (.refused m.message))) = made [e] e.settled := by
  obtain ⟨kind, value⟩ := e
  cases hk : Opcode.isLiteralMarker kind <;> cases value <;>
    simp [made, ofParts, isBare, settled, isLiteral, refusal, hk]

theorem Element.readParts_document (depth : Nat) (e : Element) :
    Element.readParts (depth + 1) e.document.tree = .ok (e.kind, e.value) := by
  obtain ⟨kind, value⟩ := e
  cases value with
  | none => rfl
  | some v => cases v <;> rfl

theorem Element.read_document (depth : Nat) (e : Element) :
    Element.read (depth + 1) e.document.tree = made [e] e.settled := by
  rw [Element.read, Element.readParts_document, Except.ok_bind]
  exact e.ofParts_eq_made

theorem Element.mapM_read_document (depth : Nat) (es : List Element) :
    (es.map fun e => e.document.tree).mapM (Element.read (depth + 1)) =
      made es (es.map settled) := by
  induction es with
  | nil => rfl
  | cons e es ih =>
    rw [List.map_cons, List.mapM_cons, Element.read_document, ih]
    exact made_bind (made_bind_of_ok rfl)

theorem Element.readList_document (depth : Nat) (es : List Element) :
    Element.readList (depth + 2) (Element.listDocument es).tree = made es (es.map settled) := by
  have hread := Element.mapM_read_document depth es
  rw [Element.listDocument, Value.tree, Value.itemsTrees_eq_map, List.map_map]
  show ((es.map fun e => e.document.tree).mapM (Element.read (depth + 1)) >>= _) = _
  rw [hread]
  exact made_bind_of_ok rfl

theorem Element.readList?_document (depth : Nat) (es : List Element) :
    Json.readOption (Element.readList (depth + 2)) (Element.listDocument es).tree =
      made es (some (es.map settled)) := by
  show (Element.readList (depth + 2) (Element.listDocument es).tree).map some = _
  rw [Element.readList_document, made_map]

/-! ## Stages, outcomes and steps -/

theorem Stage.read_document (depth : Nat) (s : Stage) :
    Stage.read (depth + 1) s.document.tree = .ok s := by
  cases s <;> rfl

theorem Outcome.read_document (depth : Nat) (o : Outcome) :
    Outcome.read (depth + 2) o.document.tree = .ok o := by
  cases o <;> rfl

theorem readUInt64_document (n : UInt64) :
    Json.readUInt64 (Value.number (Json.Number.ofUInt64 n)).tree = .ok n := by
  have hread := Json.readNatural_of_lt n.toNat_lt_size (Json.Number.inWord_toNat n) "u64"
  exact (congrArg (Except.map UInt64.ofNat) hread).trans (congrArg Except.ok UInt64.ofNat_toNat)

/-! ## Records -/

/-- Reading these members makes the elements `es` and leads from one draft to the other. -/
def Makes {σ : Type} (step : σ → String → Tree → Except Error σ) (ms : List (String × Value))
    (es : List Element) (d d' : σ) : Prop :=
  Json.foldMembers step d (Value.membersTrees ms) none = made es d'

section

variable {σ : Type} {step : σ → String → Tree → Except Error σ} {d d' d'' : σ}
  {ms ns : List (String × Value)} {es fs : List Element}

theorem makes_nil : Makes step [] [] d d := rfl

theorem makes_member {name : String} {v : Value} (h : step d name v.tree = made es d') :
    Makes step [(name, v)] es d d' := by
  have hself : ∀ x : Except Error σ, (x >>= fun d => .ok d) = x := by
    intro x
    cases x <;> rfl
  show ((step d name v.tree >>= fun d => .ok d) >>= fun d => .ok d) = made es d'
  rw [hself, hself, h]

theorem Makes.append (h : Makes step ms es d d') (h' : Makes step ns fs d' d'') :
    Makes step (ms ++ ns) (es ++ fs) d d'' := by
  unfold Makes at h h' ⊢
  rw [Value.membersTrees_eq_map, List.map_append, ← Value.membersTrees_eq_map,
    ← Value.membersTrees_eq_map, Json.foldMembers_append, h]
  exact made_bind h'

/-- A field that is still empty is filled with what was read. -/
theorem fill_made {α : Type} {v : Except Error α} {a : α} (h : v = made es a) (name : String)
    (put : Option α → σ) :
    (Json.fill name none v >>= fun x => .ok (put x)) = made es (put (some a)) := by
  rw [Json.fill, h, made_map]
  exact made_bind_of_ok rfl

/-- A member that is there only if there is a list to write. -/
theorem makes_optional {name : String} (list : Option (List Element))
    (put : Option (Option (List Element)) → σ) (hnone : put none = d)
    (hsome : ∀ es, step d name (Element.listDocument es).tree =
      made es (put (some (some (es.map Element.settled))))) :
    Makes step (Value.optional name (list.map Element.listDocument)) (list.getD []) d
      (put ((list.map (List.map Element.settled)).map some)) := by
  cases list with
  | none =>
    rw [← hnone]
    exact makes_nil
  | some es => exact makes_member (hsome es)

end

/-! ## The document of a state -/

namespace MachineState

/-- The elements of a state in the order in which they are written. -/
def elements (m : MachineState) : List Element :=
  m.locking ++ m.unlocking ++ m.current ++ m.redeem.getD [] ++ m.witness.getD [] ++
    m.witnessStack.getD [] ++ m.main ++ m.alt

theorem forall_mem_elements {m : MachineState} {P : Element → Prop} :
    (∀ e ∈ m.elements, P e) ↔
      (∀ e ∈ m.locking, P e) ∧ (∀ e ∈ m.unlocking, P e) ∧ (∀ e ∈ m.current, P e) ∧
        (∀ e ∈ m.redeem.getD [], P e) ∧ (∀ e ∈ m.witness.getD [], P e) ∧
          (∀ e ∈ m.witnessStack.getD [], P e) ∧ (∀ e ∈ m.main, P e) ∧ ∀ e ∈ m.alt, P e := by
  simp only [elements, List.forall_mem_append, and_assoc]

/-- The state with all of its elements settled. -/
def settled (m : MachineState) : MachineState :=
  let list := List.map Element.settled
  { m with
    locking := list m.locking
    unlocking := list m.unlocking
    current := list m.current
    redeem := m.redeem.map list
    witness := m.witness.map list
    witnessStack := m.witnessStack.map list
    main := list m.main
    alt := list m.alt }

/-- The draft of a state of which everything has been read. -/
def draft (m : MachineState) : Draft :=
  ⟨some m.locking, some m.unlocking, some m.current, m.redeem.map some, m.witness.map some,
    m.witnessStack.map some, some m.main, some m.alt, some m.stage⟩

theorem draft_state (m : MachineState) : m.draft.state = .ok m := by
  obtain ⟨stage, locking, unlocking, current, redeem, witness, witnessStack, main, alt⟩ := m
  cases redeem <;> cases witness <;> cases witnessStack <;> rfl

theorem makes_document (depth : Nat) (m : MachineState) :
    ∃ members, m.document = .object members ∧
      Makes (Draft.member (depth + 2)) members m.elements {} m.settled.draft := by
  have hlist := Element.readList_document depth
  have hlist? := Element.readList?_document depth
  -- The drafts on the way, each with one more of the lists.
  let step := Draft.member (depth + 2)
  let list := Element.listDocument
  let full := m.settled
  let d₁ : Draft := { locking := some full.locking }
  let d₂ : Draft := { d₁ with unlocking := some full.unlocking }
  let d₃ : Draft := { d₂ with current := some full.current }
  let d₄ : Draft := { d₃ with redeem := full.redeem.map some }
  let d₅ : Draft := { d₄ with witness := full.witness.map some }
  let d₆ : Draft := { d₅ with witnessStack := full.witnessStack.map some }
  let d₇ : Draft := { d₆ with main := some full.main }
  let d₈ : Draft := { d₇ with alt := some full.alt }
  have h₁ : Makes step [("scriptPubKey", list m.locking)] m.locking {} d₁ :=
    makes_member (fill_made (hlist _) _ fun x => ({ locking := x } : Draft))
  have h₂ : Makes step [("scriptSig", list m.unlocking)] m.unlocking d₁ d₂ :=
    makes_member (fill_made (hlist _) _ fun x => ({ d₁ with unlocking := x } : Draft))
  have h₃ : Makes step [("currentScript", list m.current)] m.current d₂ d₃ :=
    makes_member (fill_made (hlist _) _ fun x => ({ d₂ with current := x } : Draft))
  have h₄ : Makes step (Value.optional "scriptP2sh" (m.redeem.map list)) (m.redeem.getD []) d₃ d₄ :=
    makes_optional m.redeem (fun x => { d₃ with redeem := x }) rfl fun es =>
      fill_made (hlist? es) _ fun x => ({ d₃ with redeem := x } : Draft)
  have h₅ : Makes step (Value.optional "scriptWitness" (m.witness.map list))
      (m.witness.getD []) d₄ d₅ :=
    makes_optional m.witness (fun x => { d₄ with witness := x }) rfl fun es =>
      fill_made (hlist? es) _ fun x => ({ d₄ with witness := x } : Draft)
  have h₆ : Makes step (Value.optional "scriptWitnessStack" (m.witnessStack.map list))
      (m.witnessStack.getD []) d₅ d₆ :=
    makes_optional m.witnessStack (fun x => { d₅ with witnessStack := x }) rfl fun es =>
      fill_made (hlist? es) _ fun x => ({ d₅ with witnessStack := x } : Draft)
  have h₇ : Makes step [("stack", list m.main)] m.main d₆ d₇ :=
    makes_member (fill_made (hlist _) _ fun x => ({ d₆ with main := x } : Draft))
  have h₈ : Makes step [("altStack", list m.alt)] m.alt d₇ d₈ :=
    makes_member (fill_made (hlist _) _ fun x => ({ d₇ with alt := x } : Draft))
  have h₉ : Makes step [("stage", m.stage.document)] [] d₈ full.draft :=
    makes_member (fill_made (m.stage.read_document _) _ fun x => ({ d₈ with stage := x } : Draft))
  refine ⟨_, rfl, ?_⟩
  have hall := (((((((h₁.append h₂).append h₃).append h₄).append h₅).append h₆).append h₇).append
    h₈).append h₉
  simp only [List.append_assoc, List.append_nil] at hall
  simp only [elements, List.append_assoc]
  exact hall

theorem read_document (depth : Nat) (m : MachineState) :
    MachineState.read (depth + 3) m.document.tree = made m.elements m.settled := by
  obtain ⟨members, hdoc, hmakes⟩ := makes_document depth m
  rw [hdoc, Value.tree]
  show (Json.foldMembers (Draft.member (depth + 2)) {} (Value.membersTrees members) none >>= _) = _
  rw [hmakes]
  exact made_bind_of_ok (draft_state m.settled)

end MachineState

/-! ## The document of a snapshot -/

namespace Snapshot

/-- The snapshot with all of its elements settled. -/
def settled (s : Snapshot) : Snapshot :=
  ofState s.outcome s.state.settled s.step

/-- The draft of a snapshot of which everything has been read. -/
def draft (s : Snapshot) : Draft :=
  ⟨some s.outcome, some s.state, s.step.map some⟩

theorem makes_document (depth : Nat) (s : Snapshot) :
    ∃ members, s.document = .object members ∧
      Makes (Draft.member (depth + 3)) members s.state.elements {} s.settled.draft := by
  let step := Draft.member (depth + 3)
  let d₁ : Draft := { outcome := some s.outcome }
  let d₂ : Draft := { d₁ with state := some s.state.settled }
  have h₁ : Makes step [("result", s.outcome.document)] [] {} d₁ :=
    makes_member (fill_made (Outcome.read_document _ _) _ fun x => ({ outcome := x } : Draft))
  have h₂ : Makes step [("state", s.state.document)] s.state.elements d₁ d₂ :=
    makes_member (fill_made (MachineState.read_document _ _) _ fun x =>
      ({ d₁ with state := x } : Draft))
  have h₃ : Makes step
      (Value.optional "step" (s.step.map fun n => .number (Json.Number.ofUInt64 n))) [] d₂
      s.settled.draft := by
    obtain ⟨stage, outcome, n, _⟩ := s
    cases n with
    | none => exact makes_nil
    | some n =>
      have hread := congrArg (Except.map some) (readUInt64_document n)
      exact makes_member (fill_made hread _ fun x => ({ d₂ with step := x } : Draft))
  refine ⟨_, rfl, ?_⟩
  have hall := (h₁.append h₂).append h₃
  rwa [List.append_nil] at hall

theorem read_document (depth : Nat) (s : Snapshot) :
    Snapshot.read (depth + 4) s.document.tree = made s.state.elements s.settled := by
  obtain ⟨members, hdoc, hmakes⟩ := makes_document depth s
  rw [hdoc, Value.tree]
  show (Json.foldMembers (Draft.member (depth + 3)) {} (Value.membersTrees members) none >>= _) = _
  rw [hmakes]
  have hstep : (s.step.map some).join = s.step := by
    cases s.step <;> rfl
  exact made_bind_of_ok
    (congrArg (fun step => Except.ok (ofState s.outcome s.state.settled step)) hstep)

end Snapshot

/-! ## Integral snapshots -/

/-- Whether the value is anything but a double. -/
def ElementValue.isIntegral : ElementValue → Bool
  | boolean _ => true
  | number n => n.isInteger
  | text _ => true

/-- The value of the element is no double. -/
def Element.Integral (e : Element) : Prop :=
  ∀ v ∈ e.value, v.isIntegral = true

/-- No value in the snapshot is a double. -/
def Snapshot.Integral (s : Snapshot) : Prop :=
  ∀ es ∈ s.lists, ∀ e ∈ es, e.Integral

instance (e : Element) : Decidable e.Integral :=
  inferInstanceAs (Decidable (∀ v ∈ e.value, v.isIntegral = true))

instance (s : Snapshot) : Decidable s.Integral :=
  inferInstanceAs (Decidable (∀ es ∈ s.lists, ∀ e ∈ es, e.Integral))

theorem integral_number {n : Json.Number} (h : n.isInteger = true) :
    (Value.number n).Integral := by
  cases n with
  | integer i hi => exact .number i hi
  | double x => cases h

theorem integral_optional {name : String} {value : Option Value}
    (h : ∀ v ∈ value, Value.Integral v) : ∀ m ∈ Value.optional name value, m.2.Integral := by
  cases value with
  | none => nofun
  | some v =>
    intro m hm
    rw [List.mem_singleton.1 hm]
    exact h v rfl

theorem Element.Integral.document {e : Element} (h : e.Integral) : e.document.Integral := by
  refine .object _ (List.forall_mem_cons.2 ⟨.string _, integral_optional fun v hv => ?_⟩)
  obtain ⟨value, hvalue, rfl⟩ := Option.map_eq_some_iff.1 hv
  cases value with
  | boolean b => exact .boolean b
  | number n => exact integral_number (h _ hvalue)
  | text s => exact .string s

theorem integral_listDocument {es : List Element} (h : ∀ e ∈ es, e.Integral) :
    (Element.listDocument es).Integral := by
  refine .array _ fun v hv => ?_
  obtain ⟨e, he, rfl⟩ := List.mem_map.1 hv
  exact (h e he).document

theorem integral_optionalList {name : String} {list : Option (List Element)}
    (h : ∀ e ∈ list.getD [], e.Integral) :
    ∀ m ∈ Value.optional name (list.map Element.listDocument), m.2.Integral := by
  refine integral_optional fun v hv => ?_
  obtain ⟨es, rfl, rfl⟩ := Option.map_eq_some_iff.1 hv
  exact integral_listDocument h

theorem Stage.integral_document (s : Stage) : s.document.Integral :=
  .object _ (List.forall_mem_cons.2 ⟨.string _, List.forall_mem_nil _⟩)

theorem Outcome.integral_document (o : Outcome) : o.document.Integral := by
  cases o with
  | pending => exact .object _ (List.forall_mem_cons.2 ⟨.string _, List.forall_mem_nil _⟩)
  | result verified =>
    exact .object _ (List.forall_mem_cons.2
      ⟨.string _, List.forall_mem_cons.2 ⟨.boolean _, List.forall_mem_nil _⟩⟩)

theorem MachineState.integral_document {m : MachineState}
    (h : ∀ e ∈ m.elements, e.Integral) : m.document.Integral := by
  simp only [elements, List.forall_mem_append] at h
  obtain ⟨⟨⟨⟨⟨⟨⟨hlocking, hunlocking⟩, hcurrent⟩, hredeem⟩, hwitness⟩, hwitnessStack⟩, hmain⟩,
    halt⟩ := h
  refine .object _ ?_
  simp only [List.forall_mem_append, List.forall_mem_cons]
  refine ⟨⟨⟨⟨⟨?_, ?_, ?_, nofun⟩, ?_⟩, ?_⟩, ?_⟩, ?_, ?_, ?_, nofun⟩
  · exact integral_listDocument hlocking
  · exact integral_listDocument hunlocking
  · exact integral_listDocument hcurrent
  · exact integral_optionalList hredeem
  · exact integral_optionalList hwitness
  · exact integral_optionalList hwitnessStack
  · exact integral_listDocument hmain
  · exact integral_listDocument halt
  · exact m.stage.integral_document

namespace Snapshot

theorem elements_state (s : Snapshot) : s.state.elements = s.lists.flatten := by
  obtain ⟨_, _, _, locking, unlocking, current, redeem, witness, witnessStack, main, alt⟩ := s
  cases redeem <;> cases witness <;> cases witnessStack <;>
    simp [MachineState.elements, state, lists]

theorem Integral.document {s : Snapshot} (h : s.Integral) : s.document.Integral := by
  have hstate : s.state.document.Integral := by
    refine MachineState.integral_document fun e he => ?_
    rw [elements_state] at he
    obtain ⟨list, hlist, he⟩ := List.mem_flatten.1 he
    exact h list hlist e he
  refine .object _ ?_
  simp only [List.forall_mem_append, List.forall_mem_cons]
  refine ⟨⟨s.outcome.integral_document, hstate, nofun⟩, integral_optional fun v hv => ?_⟩
  obtain ⟨n, -, rfl⟩ := Option.map_eq_some_iff.1 hv
  exact integral_number rfl

/-- What comes of reading a written snapshot: the first bare element is refused, and otherwise the
settled snapshot is read. -/
theorem ofJson_toJson {s : Snapshot} (h : s.Integral) :
    ofJson s.toJson = made s.lists.flatten s.settled := by
  have hread := s.read_document 123
  rw [elements_state] at hread
  rw [ofJson, toJson, Value.readText_toText h.document]
  exact hread

end Snapshot

end SpendTrace.Script
