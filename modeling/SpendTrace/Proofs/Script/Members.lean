import SpendTrace.Proofs.Json.Members
import SpendTrace.Proofs.Script.Spelling
import SpendTrace.Proofs.Script.Valued

/-!
# The members of every record

Each of the five records of a document insists on its members. Four of them have a draft with a
field for every member; an outcome has not, as what its value must be hangs on its type, but its two
members may change places as well. And what becomes of a part of a record, when it is changed,
becomes of the record.

* `Element.insists`, `Stage.insists`, `Outcome.insists`, `MachineState.insists`,
  `Snapshot.insists`.
* `Outcome.read_without_value`: a verdict without its value.
* `MachineState.meets_element`, `MachineState.meets_stage`: parts of a state.
* `Snapshot.meets_result`, `Snapshot.meets_state`: parts of a snapshot.
-/

namespace SpendTrace.Script

open Json (Tree Error Form DraftField Orderly Insists ReadsObjects Needs Meets Fate ItemChanged
  FieldChanged MemberRemoved)

/-! ## Elements -/

namespace Element

/-- The fields of a draft, in the order of the array. -/
def draftFields (depth : Nat) : List (DraftField Draft) :=
  [⟨"type", String, Draft.kind, fun x d => { d with kind := x }, Json.readString⟩,
    ⟨"value", Option ElementValue, Draft.value, fun x d => { d with value := x },
      Json.readOption (ElementValue.read depth)⟩]

theorem fields_member (depth : Nat) :
    Json.Fields (Draft.member depth) (draftFields depth) Tree.skip where
  own := by
    simp only [draftFields, List.forall_mem_cons]
    exact ⟨fun _ _ => rfl, fun _ _ => rfl, List.forall_mem_nil _⟩
  other := by
    intro name hname d t
    simp only [draftFields, List.map_cons, List.map_nil, List.mem_cons, List.not_mem_nil,
      not_or] at hname
    rw [Draft.member, if_neg hname.1, if_neg hname.2.1]
  kept := by
    simp only [draftFields, List.forall_mem_cons]
    exact ⟨fun _ _ => rfl, fun _ _ => rfl, List.forall_mem_nil _⟩
  apart := List.pairwise_pair.2 ⟨fun _ _ => rfl, fun _ _ => rfl, fun _ _ _ => rfl⟩

/-- The element that a draft is made into. -/
def Draft.element (d : Draft) : Except Error Element := do
  let kind ← Json.demand "type" d.kind
  match ofParts kind d.value.join with
  | .ok e => .ok e
  | .error m => .error (.mismatch (.refused m.message))

theorem readsObjects : ReadsObjects Element.read {} Draft.member Draft.element := by
  intro depth members
  cases depth with
  | zero => rfl
  | succ depth =>
    simp only [Element.read, readParts, Tree.enter, bind_assoc, Except.ok_bind]
    rfl

theorem insists : Insists Element.read ["type", "value"] ["type"] fun _ => Tree.skip := by
  refine Json.insists_of_orderly readsObjects (fun d => (fields_member d).orderly) (by simp) ?_
  refine List.forall_mem_singleton.2 fun {depth d d' t e} ht _ => ?_
  obtain ⟨hnone, -⟩ := (fields_member depth).own_eq_ok (List.mem_of_getElem? (i := 0) rfl) ht
  have hkind : d.kind = none := hnone
  rw [Draft.element, hkind]
  rfl

end Element

/-! ## Stages -/

namespace Stage

def draftFields : List (DraftField (Option Stage)) :=
  [⟨"type", Stage, id, fun x _ => x, Json.readName tags⟩]

theorem fields_member (depth : Nat) :
    Json.Fields (member depth) draftFields (Tree.check depth) where
  own := by
    refine List.forall_mem_singleton.2 fun stage t => ?_
    show Json.fill "type" stage (Json.readName tags t) =
      Json.fill "type" stage (Json.readName tags t) >>= fun x => .ok x
    cases Json.fill "type" stage (Json.readName tags t) <;> rfl
  other := by
    intro name hname d t
    rw [member, if_neg fun heq => hname (List.mem_singleton.2 heq)]
  kept := List.forall_mem_singleton.2 fun _ _ => rfl
  apart := List.pairwise_singleton _ _

theorem readsObjects : ReadsObjects Stage.read none member (Json.demand "type") :=
  fun _ _ => rfl

theorem insists : Insists Stage.read ["type"] ["type"] fun d => Tree.check d := by
  refine Json.insists_of_orderly readsObjects (fun d => (fields_member d).orderly) (by simp) ?_
  refine List.forall_mem_singleton.2 fun {depth d d' t s} ht _ => ?_
  obtain ⟨hnone, -⟩ := (fields_member depth).own_eq_ok (List.mem_of_getElem? (i := 0) rfl) ht
  obtain rfl : d = none := hnone
  rfl

end Stage

/-! ## Outcomes -/

namespace Outcome

/-- The type comes first, or behind the value it decides on. -/
theorem member_type_eq_ok {depth : Nat} {d d₁ : Draft} {t : Tree}
    (h : Draft.member depth d "type" t = .ok d₁) :
    ∃ tag, Json.readVariant Tag.names depth t = .ok tag ∧
      (d = .empty ∧ d₁ = .tagged tag ∨
        ∃ v o, d = .valued v ∧ readValue tag v = .ok o ∧ d₁ = .complete o) := by
  cases d with
  | empty =>
    obtain ⟨tag, htag, rfl⟩ := Except.map_eq_ok.1 h
    exact ⟨tag, htag, .inl ⟨rfl, rfl⟩⟩
  | valued v =>
    obtain ⟨tag, htag, h⟩ := Except.bind_eq_ok.1 h
    obtain ⟨o, ho, rfl⟩ := Except.map_eq_ok.1 h
    exact ⟨tag, htag, .inr ⟨v, o, rfl, ho, rfl⟩⟩
  | tagged | complete => cases h

/-- The value comes first and is kept, or behind its type. -/
theorem member_value_eq_ok {depth : Nat} {d d₁ : Draft} {t : Tree}
    (h : Draft.member depth d "value" t = .ok d₁) :
    d = .empty ∧ t.check depth = .ok () ∧ d₁ = .valued t ∨
      ∃ tag o, d = .tagged tag ∧ readValue tag t = .ok o ∧ d₁ = .complete o := by
  cases d with
  | empty =>
    obtain ⟨u, hu, rfl⟩ := Except.map_eq_ok.1 h
    exact .inl ⟨rfl, hu, rfl⟩
  | tagged tag =>
    obtain ⟨o, ho, rfl⟩ := Except.map_eq_ok.1 h
    exact .inr ⟨tag, o, rfl, ho, rfl⟩
  | valued | complete => cases h

/-- The value of an outcome is a leaf, so it passes every check. -/
theorem check_of_readValue {tag : Tag} {t : Tree} {o : Outcome} (h : readValue tag t = .ok o)
    (depth : Nat) : t.check depth = .ok () := by
  cases tag with
  | noResult => cases t <;> first | rfl | cases h
  | result =>
    obtain ⟨b, hb, -⟩ := Except.map_eq_ok.1 h
    cases t <;> first | rfl | cases hb

/-- A value behind its type may as well come first. -/
theorem value_before_type {depth : Nat} {d d₁ d₂ : Draft} {t v : Tree}
    (ht : Draft.member depth d "type" t = .ok d₁) (hv : Draft.member depth d₁ "value" v = .ok d₂) :
    ∃ e, Draft.member depth d "value" v = .ok e ∧ Draft.member depth e "type" t = .ok d₂ := by
  obtain ⟨tag, htag, ⟨rfl, rfl⟩ | ⟨_, _, -, -, rfl⟩⟩ := member_type_eq_ok ht
  · obtain ⟨hd, -⟩ | ⟨tag', o, hd, ho, rfl⟩ := member_value_eq_ok hv
    · cases hd
    · cases hd
      refine ⟨.valued v, ?_, ?_⟩
      · show (v.check depth).map _ = _
        rw [check_of_readValue ho]
        rfl
      · show (Json.readVariant Tag.names depth t >>= fun tag =>
          (readValue tag v).map Draft.complete) = _
        rw [htag, Except.ok_bind, ho]
        rfl
  · cases hv

/-- A value in front of its type may as well come last. -/
theorem type_before_value {depth : Nat} {d d₁ d₂ : Draft} {t v : Tree}
    (hv : Draft.member depth d "value" v = .ok d₁) (ht : Draft.member depth d₁ "type" t = .ok d₂) :
    ∃ e, Draft.member depth d "type" t = .ok e ∧ Draft.member depth e "value" v = .ok d₂ := by
  obtain ⟨rfl, -, rfl⟩ | ⟨_, _, -, -, rfl⟩ := member_value_eq_ok hv
  · obtain ⟨tag, htag, ⟨hd, -⟩ | ⟨_, o, hd, ho, rfl⟩⟩ := member_type_eq_ok ht
    · cases hd
    · cases hd
      refine ⟨.tagged tag, ?_, ?_⟩
      · show (Json.readVariant Tag.names depth t).map _ = _
        rw [htag]
        rfl
      · show (readValue tag v).map Draft.complete = _
        rw [ho]
        rfl
  · cases ht

theorem orderly (depth : Nat) : Orderly (Draft.member depth) ["type", "value"] Tree.skip where
  swap := by
    intro d d₁ d₂ name name' t t' hname hname' hne ht ht'
    simp only [List.mem_cons, List.not_mem_nil, or_false] at hname hname'
    rcases hname with rfl | rfl <;> rcases hname' with rfl | rfl
    · exact absurd rfl hne
    · exact value_before_type ht ht'
    · exact type_before_value ht ht'
    · exact absurd rfl hne
  again := by
    intro d d₁ name t hname ht t'
    simp only [List.mem_cons, List.not_mem_nil, or_false] at hname
    rcases hname with rfl | rfl
    · obtain ⟨tag, -, ⟨rfl, rfl⟩ | ⟨v, o, rfl, -, rfl⟩⟩ := member_type_eq_ok ht <;> rfl
    · obtain ⟨rfl, -, rfl⟩ | ⟨tag, o, rfl, -, rfl⟩ := member_value_eq_ok ht <;> rfl
  other := by
    intro name hname d t
    simp only [List.mem_cons, List.not_mem_nil, or_false, not_or] at hname
    unfold Draft.member
    rw [if_neg hname.1, if_neg hname.2]

theorem readsObjects : ReadsObjects Outcome.read .empty Draft.member Draft.outcome :=
  fun _ _ => rfl

theorem insists : Insists Outcome.read ["type", "value"] ["type"] fun _ => Tree.skip := by
  refine Json.insists_of_orderly readsObjects orderly (by simp) ?_
  refine List.forall_mem_singleton.2 fun ht _ => ?_
  obtain ⟨tag, -, ⟨rfl, -⟩ | ⟨v, o, rfl, -⟩⟩ := member_type_eq_ok ht <;> rfl

/-- An outcome of type `Result` cannot do without its value. -/
theorem read_without_value {depth : Nat} {f g : Form} {verified : Bool}
    (hfg : MemberRemoved "value" f g) (hf : Outcome.read depth f.tree = .ok (.result verified)) :
    Outcome.read depth g.tree = .error (.mismatch (.missingField "value")) := by
  refine readsObjects.removed orderly (by simp) hfg hf fun {_ _ _ t} ht hfin => ?_
  obtain ⟨-, -, rfl⟩ | ⟨tag, o, rfl, ho, rfl⟩ := member_value_eq_ok ht
  · cases hfin
  · cases hfin
    cases tag with
    | noResult => cases t <;> cases ho
    | result => rfl

end Outcome

/-! ## States -/

namespace MachineState

def draftFields (depth : Nat) : List (DraftField Draft) :=
  let list := Element.readList depth
  let list? := Json.readOption list
  [⟨"scriptPubKey", _, Draft.locking, fun x d => { d with locking := x }, list⟩,
    ⟨"scriptSig", _, Draft.unlocking, fun x d => { d with unlocking := x }, list⟩,
    ⟨"currentScript", _, Draft.current, fun x d => { d with current := x }, list⟩,
    ⟨"scriptP2sh", _, Draft.redeem, fun x d => { d with redeem := x }, list?⟩,
    ⟨"scriptWitness", _, Draft.witness, fun x d => { d with witness := x }, list?⟩,
    ⟨"scriptWitnessStack", _, Draft.witnessStack, fun x d => { d with witnessStack := x }, list?⟩,
    ⟨"stack", _, Draft.main, fun x d => { d with main := x }, list⟩,
    ⟨"altStack", _, Draft.alt, fun x d => { d with alt := x }, list⟩,
    ⟨"stage", _, Draft.stage, fun x d => { d with stage := x }, Stage.read depth⟩]

theorem fields_member (depth : Nat) :
    Json.Fields (Draft.member depth) (draftFields depth) Tree.skip where
  own := by
    simp only [draftFields, List.forall_mem_cons]
    and_intros
    all_goals first | exact List.forall_mem_nil _ | exact fun _ _ => rfl
  other := by
    intro name hname d t
    simp only [draftFields, List.map_cons, List.map_nil, List.mem_cons, List.not_mem_nil,
      not_or] at hname
    unfold Draft.member
    split
    all_goals first | rfl | simp at hname
  kept := by
    simp only [draftFields, List.forall_mem_cons]
    and_intros
    all_goals first | exact List.forall_mem_nil _ | exact fun _ _ => rfl
  apart := by
    simp only [draftFields, List.pairwise_cons, List.forall_mem_cons]
    and_intros
    all_goals first
      | exact List.forall_mem_nil _
      | exact List.Pairwise.nil
      | exact ⟨fun _ _ => rfl, fun _ _ => rfl, fun _ _ _ => rfl⟩

theorem readsObjects : ReadsObjects MachineState.read {} Draft.member Draft.state :=
  fun _ _ => rfl

/-- The members of a state that may not miss. -/
def required : List String :=
  ["scriptPubKey", "scriptSig", "currentScript", "stack", "altStack", "stage"]

theorem needs_required : ∀ name ∈ required, Needs Draft.member Draft.state name := by
  simp only [required, List.forall_mem_cons]
  refine ⟨?_, ?_, ?_, ?_, ?_, ?_, List.forall_mem_nil _⟩
  all_goals
    intro depth d d' t m ht hfin
    have hfields := fields_member depth
  · obtain ⟨hnone, -⟩ := hfields.own_eq_ok (List.mem_of_getElem? (i := 0) rfl) ht
    have hnone : d.locking = none := hnone
    rw [Draft.state, hnone]
    rfl
  · obtain ⟨hnone, x, -, rfl⟩ := hfields.own_eq_ok (List.mem_of_getElem? (i := 1) rfl) ht
    have hnone : d.unlocking = none := hnone
    rw [Draft.state, hnone]
    exact Json.bind_spoilt hfin fun _ _ => rfl
  · obtain ⟨hnone, x, -, rfl⟩ := hfields.own_eq_ok (List.mem_of_getElem? (i := 2) rfl) ht
    have hnone : d.current = none := hnone
    rw [Draft.state, hnone]
    exact Json.bind_spoilt hfin fun _ hfin => Json.bind_spoilt hfin fun _ _ => rfl
  · obtain ⟨hnone, x, -, rfl⟩ := hfields.own_eq_ok (List.mem_of_getElem? (i := 6) rfl) ht
    have hnone : d.main = none := hnone
    rw [Draft.state, hnone]
    exact Json.bind_spoilt hfin fun _ hfin => Json.bind_spoilt hfin fun _ hfin =>
      Json.bind_spoilt hfin fun _ _ => rfl
  · obtain ⟨hnone, x, -, rfl⟩ := hfields.own_eq_ok (List.mem_of_getElem? (i := 7) rfl) ht
    have hnone : d.alt = none := hnone
    rw [Draft.state, hnone]
    exact Json.bind_spoilt hfin fun _ hfin => Json.bind_spoilt hfin fun _ hfin =>
      Json.bind_spoilt hfin fun _ hfin => Json.bind_spoilt hfin fun _ _ => rfl
  · obtain ⟨hnone, x, -, rfl⟩ := hfields.own_eq_ok (List.mem_of_getElem? (i := 8) rfl) ht
    have hnone : d.stage = none := hnone
    rw [Draft.state, hnone]
    exact Json.bind_spoilt hfin fun _ hfin => Json.bind_spoilt hfin fun _ hfin =>
      Json.bind_spoilt hfin fun _ hfin => Json.bind_spoilt hfin fun _ hfin =>
        Json.bind_spoilt hfin fun _ _ => rfl

theorem insists : Insists MachineState.read (listNames ++ ["stage"]) required
    fun _ => Tree.skip :=
  Json.insists_of_orderly readsObjects (fun d => (fields_member d).orderly)
    (by simp [required, listNames]) needs_required

/-! ### Parts of a state -/

/-- In the state, one element of one of the lists is changed. -/
def ElementChanged (R : Form → Form → Prop) (f g : Form) : Prop :=
  ∃ i name, listNames[i]? = some name ∧ FieldChanged name i (ItemChanged R) f g

section

variable {R : Form → Form → Prop} {fate : Fate} {depth : Nat}

theorem meets_member (hread : Meets R fate (Element.read depth)) {name : String}
    (hname : name ∈ listNames) (d : Draft) :
    Meets (ItemChanged R) fate (Draft.member (depth + 1) d name) := by
  have hlist : Meets (ItemChanged R) fate (Element.readList (depth + 1)) :=
    Json.meets_readList hread
  have hlist? := Json.meets_readOption hlist
  intro f g d' hfg h
  simp only [listNames, List.mem_cons, List.not_mem_nil, or_false] at hname
  rcases hname with rfl | rfl | rfl | rfl | rfl | rfl | rfl | rfl
  · exact Json.fill_met hlist hfg h
  · exact Json.fill_met hlist hfg h
  · exact Json.fill_met hlist hfg h
  · exact Json.fill_met hlist? hfg h
  · exact Json.fill_met hlist? hfg h
  · exact Json.fill_met hlist? hfg h
  · exact Json.fill_met hlist hfg h
  · exact Json.fill_met hlist hfg h

/-- The fate of an element is that of its state. -/
theorem meets_element (hread : Meets R fate (Element.read depth)) :
    Meets (ElementChanged R) fate (MachineState.read (depth + 2)) := by
  rintro _ _ m ⟨i, name, hname, hfg⟩ h
  cases hfg with
  | member before after hkey hfg =>
    have hstep := meets_member hread (List.mem_of_getElem? hname)
    exact readsObjects.member_met hstep hkey hfg h
  | @entry before after f g hindex hfg =>
    have hlist : Meets (ItemChanged R) fate (Element.readList (depth + 1)) :=
      Json.meets_readList hread
    have hlist? := Json.meets_readOption hlist
    have hi : before.length < 8 := hindex ▸ (List.getElem?_eq_some_iff.1 hname).1
    have hitems := Json.Entries.changed_append hfg hi after
    rw [Form.tree, Form.itemsTrees_eq_map] at h ⊢
    -- Entry by entry: this one is changed, or one of those to come.
    refine Json.Entries.next_met hlist hitems (fun _ _ _ hitems h => ?_) h
    refine Json.Entries.next_met hlist hitems (fun _ _ _ hitems h => ?_) h
    refine Json.Entries.next_met hlist hitems (fun _ _ _ hitems h => ?_) h
    refine Json.Entries.nextOption_met hlist? hitems (fun _ _ _ hitems h => ?_) h
    refine Json.Entries.nextOption_met hlist? hitems (fun _ _ _ hitems h => ?_) h
    refine Json.Entries.nextOption_met hlist? hitems (fun _ _ _ hitems h => ?_) h
    refine Json.Entries.next_met hlist hitems (fun _ _ _ hitems h => ?_) h
    refine Json.Entries.next_met hlist hitems (fun _ _ _ hitems h => ?_) h
    cases hitems

/-- The fate of the stage is that of its state. -/
theorem meets_stage (hread : Meets R fate (Stage.read depth)) :
    Meets (FieldChanged "stage" 8 R) fate (MachineState.read (depth + 1)) := by
  intro _ _ m hfg h
  cases hfg with
  | member before after hkey hfg =>
    refine readsObjects.member_met (fun d f g d' hfg h => ?_) hkey hfg h
    exact Json.fill_met hread hfg h
  | @entry before after f g hindex hfg =>
    -- The stage comes ninth, behind the lists.
    match before, hindex with
    | [_, _, _, _, _, _, _, _], _ =>
      rw [Form.tree, Form.itemsTrees_eq_map] at h ⊢
      simp only [MachineState.read, Tree.enter, List.map_cons, List.cons_append, List.nil_append,
        Json.Entries.next_cons_bind, Json.Entries.nextOption_cons_bind] at h ⊢
      refine Fate.behind h fun _ h => Fate.behind h fun _ h => Fate.behind h fun _ h => ?_
      refine Fate.behind h fun _ h => Fate.behind h fun _ h => Fate.behind h fun _ h => ?_
      refine Fate.behind h fun _ h => Fate.behind h fun _ h => ?_
      exact Fate.bind (fun s hs => hread f g s hfg hs) h

end

end MachineState

/-! ## Snapshots -/

namespace Snapshot

def draftFields (depth : Nat) : List (DraftField Draft) :=
  [⟨"result", _, Draft.outcome, fun x d => { d with outcome := x }, Outcome.read depth⟩,
    ⟨"state", _, Draft.state, fun x d => { d with state := x }, MachineState.read depth⟩,
    ⟨"step", _, Draft.step, fun x d => { d with step := x }, Json.readOption Json.readUInt64⟩]

theorem fields_member (depth : Nat) :
    Json.Fields (Draft.member depth) (draftFields depth) Tree.skip where
  own := by
    simp only [draftFields, List.forall_mem_cons]
    exact ⟨fun _ _ => rfl, fun _ _ => rfl, fun _ _ => rfl, List.forall_mem_nil _⟩
  other := by
    intro name hname d t
    simp only [draftFields, List.map_cons, List.map_nil, List.mem_cons, List.not_mem_nil,
      not_or] at hname
    unfold Draft.member
    split
    all_goals first | rfl | simp at hname
  kept := by
    simp only [draftFields, List.forall_mem_cons]
    exact ⟨fun _ _ => rfl, fun _ _ => rfl, fun _ _ => rfl, List.forall_mem_nil _⟩
  apart := by
    simp only [draftFields, List.pairwise_cons, List.forall_mem_cons]
    and_intros
    all_goals first
      | exact List.forall_mem_nil _
      | exact List.Pairwise.nil
      | exact ⟨fun _ _ => rfl, fun _ _ => rfl, fun _ _ _ => rfl⟩

/-- The snapshot that a draft is made into. -/
def Draft.snapshot (d : Draft) : Except Error Snapshot := do
  let outcome ← Json.demand "result" d.outcome
  let state ← Json.demand "state" d.state
  .ok (ofState outcome state d.step.join)

theorem readsObjects : ReadsObjects Snapshot.read {} Draft.member Draft.snapshot :=
  fun _ _ => rfl

theorem insists : Insists Snapshot.read ["result", "state", "step"] ["result", "state"]
    fun _ => Tree.skip := by
  refine Json.insists_of_orderly readsObjects (fun d => (fields_member d).orderly) (by simp) ?_
  simp only [List.forall_mem_cons]
  refine ⟨?_, ?_, List.forall_mem_nil _⟩
  · intro depth d d' t s ht hfin
    obtain ⟨hnone, -⟩ := (fields_member depth).own_eq_ok (List.mem_of_getElem? (i := 0) rfl) ht
    have hnone : d.outcome = none := hnone
    rw [Draft.snapshot, hnone]
    rfl
  · intro depth d d' t s ht hfin
    obtain ⟨hnone, x, -, rfl⟩ :=
      (fields_member depth).own_eq_ok (List.mem_of_getElem? (i := 1) rfl) ht
    have hnone : d.state = none := hnone
    rw [Draft.snapshot, hnone]
    exact Json.bind_spoilt hfin fun _ _ => rfl

/-! ### Parts of a snapshot -/

section

variable {R : Form → Form → Prop} {fate : Fate} {depth : Nat}

/-- The fate of the result is that of its snapshot. -/
theorem meets_result (hread : Meets R fate (Outcome.read depth)) :
    Meets (FieldChanged "result" 0 R) fate (Snapshot.read (depth + 1)) := by
  intro _ _ s hfg h
  cases hfg with
  | member before after hkey hfg =>
    refine readsObjects.member_met (fun d f g d' hfg h => ?_) hkey hfg h
    exact Json.fill_met hread hfg h
  | @entry before after f g hindex hfg =>
    rw [Form.tree, Form.itemsTrees_eq_map] at h ⊢
    obtain rfl := List.length_eq_zero_iff.1 hindex
    simp only [Snapshot.read, Tree.enter, List.map_cons, List.nil_append,
      Json.Entries.next_cons_bind] at h ⊢
    exact Fate.bind (fun o ho => hread f g o hfg ho) h

/-- The fate of the state is that of its snapshot. -/
theorem meets_state (hread : Meets R fate (MachineState.read depth)) :
    Meets (FieldChanged "state" 1 R) fate (Snapshot.read (depth + 1)) := by
  intro _ _ s hfg h
  cases hfg with
  | member before after hkey hfg =>
    refine readsObjects.member_met (fun d f g d' hfg h => ?_) hkey hfg h
    exact Json.fill_met hread hfg h
  | @entry before after f g hindex hfg =>
    rw [Form.tree, Form.itemsTrees_eq_map] at h ⊢
    -- The state comes second, behind the result.
    obtain ⟨result, rfl⟩ := List.length_eq_one_iff.1 hindex
    simp only [Snapshot.read, Tree.enter, List.map_cons, List.cons_append, List.nil_append,
      Json.Entries.next_cons_bind] at h ⊢
    exact Fate.behind h fun _ h => Fate.bind (fun m hm => hread f g m hfg hm) h

/-- The outcome of a snapshot is what its result was read as. -/
theorem fieldChanged_of_read {f g : Form} {s : Snapshot} (hfg : FieldChanged "result" 0 R f g)
    (hs : Snapshot.read (depth + 1) f.tree = .ok s) :
    FieldChanged "result" 0 (fun u v => R u v ∧ Outcome.read depth u.tree = .ok s.outcome) f g := by
  cases hfg with
  | member before after hkey hfg =>
    refine .member before after hkey ⟨hfg, ?_⟩
    rw [Form.tree, readsObjects] at hs
    obtain ⟨draft, hfold, hdraft⟩ := Except.bind_eq_ok.1 hs
    -- The result may as well be read last, and then it is the draft's.
    obtain ⟨e, -, hstep⟩ :=
      (fields_member depth).orderly.removed (by simp [draftFields]) hkey hfold
    obtain ⟨-, o, ho, rfl⟩ :=
      (fields_member depth).own_eq_ok (List.mem_of_getElem? (i := 0) rfl) hstep
    have hdraft : (Json.demand "state" e.state >>= fun m =>
      .ok (ofState o m e.step.join)) = .ok s := hdraft
    obtain ⟨m, -, hs⟩ := Except.bind_eq_ok.1 hdraft
    cases hs
    exact ho
  | @entry before after u v hindex hfg =>
    refine .entry after hindex ⟨hfg, ?_⟩
    rw [Form.tree, Form.itemsTrees_eq_map] at hs
    obtain rfl := List.length_eq_zero_iff.1 hindex
    simp only [Snapshot.read, Tree.enter, List.map_cons, List.nil_append,
      Json.Entries.next_cons_bind] at hs
    obtain ⟨o, ho, hs⟩ := Except.bind_eq_ok.1 hs
    obtain ⟨⟨m, es⟩, -, hs⟩ := Except.bind_eq_ok.1 hs
    obtain ⟨⟨step, es'⟩, -, hs⟩ := Except.bind_eq_ok.1 hs
    obtain ⟨-, -, hs⟩ := Except.bind_eq_ok.1 hs
    cases hs
    exact ho

end

end Snapshot

end SpendTrace.Script
