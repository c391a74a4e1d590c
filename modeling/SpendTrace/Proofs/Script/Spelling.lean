import SpendTrace.Proofs.Json.Record
import SpendTrace.Proofs.Script.Written

/-!
# All spellings of a snapshot

A snapshot has one written form, and many more texts say the same: with white space, with characters
escaped in other ways, with members in another order or under names that mean nothing, with arrays
for records, with a value at an opcode. `Snapshot.IsForm` says which forms these are, field by field
and without a reader, and all of them are read as the snapshot.

* `Element.IsForm`, `Stage.IsForm`, `Outcome.IsForm`, `MachineState.IsForm`, `Snapshot.IsForm`.
* `slot`: a draft after some of its fields have been read, in whatever order.
* `Element.read_tree` and its companions: each of the records is read.
-/

namespace SpendTrace.Script

open Json (Tree Error Form Record RecordField)

/-! ## Forms -/

/-- A string that writes the text. -/
def IsString (text : String) (f : Form) : Prop :=
  ∃ s : Json.StringText, f = .string s ∧ s.Writes text

/-- The numeral in which the number is written. -/
def IsNumber (n : Json.Number) (f : Form) : Prop :=
  ∃ numeral : Json.NumeralText, f = .number numeral ∧ numeral.chars = n.text

/-- What may be absent is then null. -/
def IsOption {α : Type} (IsForm : α → Form → Prop) : Option α → Form → Prop
  | some a, f => IsForm a f
  | none, f => f = .null

/-- Members under unknown names may have any value. -/
def anyForm (_ : Form) : Prop := True

def ElementValue.IsForm : ElementValue → Form → Prop
  | boolean b, f => f = .boolean b
  | number n, f => IsNumber n f
  | text s, f => IsString s f

namespace Element

/-- An opcode may have any value that is no container, and none of these counts. -/
def valueField (e : Element) : RecordField :=
  match e.value with
  | some v => ⟨"value", v.IsForm, False⟩
  | none => ⟨"value", Form.Readable 0, True⟩

def fields (e : Element) : List RecordField :=
  [⟨"type", IsString e.kind, False⟩, e.valueField]

def IsForm (e : Element) : Form → Prop :=
  Record e.fields anyForm

def IsListForm (es : List Element) (f : Form) : Prop :=
  ∃ items, f = .array items ∧ List.Forall₂ IsForm es items

end Element

namespace Stage

def fields (s : Stage) : List RecordField :=
  [⟨"type", IsString s.tag, False⟩]

/-- The values of unknown members are read too, and three containers lie around them. -/
def IsForm (s : Stage) : Form → Prop :=
  Record s.fields (Form.Readable (Json.maxDepth - 3))

end Stage

namespace Outcome

def tag : Outcome → Tag
  | pending => .noResult
  | result _ => .result

def typeName : Outcome → String
  | pending => "NoResult"
  | result _ => "Result"

def valueForm : Outcome → Form
  | pending => .null
  | result verified => .boolean verified

def fields (o : Outcome) : List RecordField :=
  [⟨"type", IsString o.typeName, False⟩, ⟨"value", (· = o.valueForm), o = .pending⟩]

def IsForm (o : Outcome) : Form → Prop :=
  Record o.fields anyForm

end Outcome

namespace MachineState

def fields (m : MachineState) : List RecordField :=
  let list (name : String) (es : List Element) : RecordField :=
    ⟨name, Element.IsListForm es, False⟩
  let list? (name : String) (es : Option (List Element)) : RecordField :=
    ⟨name, IsOption Element.IsListForm es, es = none⟩
  [list "scriptPubKey" m.locking, list "scriptSig" m.unlocking, list "currentScript" m.current,
    list? "scriptP2sh" m.redeem, list? "scriptWitness" m.witness,
    list? "scriptWitnessStack" m.witnessStack, list "stack" m.main, list "altStack" m.alt,
    ⟨"stage", m.stage.IsForm, False⟩]

def IsForm (m : MachineState) : Form → Prop :=
  Record m.fields anyForm

end MachineState

namespace Snapshot

def fields (s : Snapshot) : List RecordField :=
  [⟨"result", s.outcome.IsForm, False⟩, ⟨"state", s.state.IsForm, False⟩,
    ⟨"step", IsOption (fun n => IsNumber (Json.Number.ofUInt64 n)) s.step, s.step = none⟩]

def IsForm (s : Snapshot) : Form → Prop :=
  Record s.fields anyForm

/-- The text writes the document of the snapshot, in one way or another. -/
def IsSpelledBy (s : Snapshot) (text : String) : Prop :=
  ∃ f, s.IsForm f ∧ f.IsText text

end Snapshot

/-! ## Reading leaves -/

theorem IsString.tree_eq {text : String} {f : Form} (h : IsString text f) :
    f.tree = .string (.exact text) := by
  obtain ⟨s, rfl, hs⟩ := h
  rw [Form.tree, Json.reading_of_writes hs]

theorem IsString.read_tree {text : String} {f : Form} (h : IsString text f) (expected : String) :
    Json.readStringAs expected f.tree = .ok text := by
  rw [h.tree_eq]
  rfl

theorem IsNumber.tree_eq {n : Json.Number} (hn : n.isInteger = true) {f : Form}
    (h : IsNumber n f) : f.tree = .number (.exact n) := by
  obtain ⟨numeral, rfl, hnumeral⟩ := h
  cases n with
  | integer i hi => rw [Form.tree, Json.reading_of_chars_integer hi hnumeral]
  | double x => cases hn

theorem ElementValue.IsForm.tree_eq {v : ElementValue} (hv : v.isIntegral = true) {f : Form}
    (h : v.IsForm f) : f.tree = v.document.tree := by
  cases v with
  | boolean b =>
    obtain rfl := h
    rfl
  | number n => exact IsNumber.tree_eq hv h
  | text s => exact IsString.tree_eq h

theorem readOption_of_ok {α : Type} {read : Tree → Except Error α} {t : Tree} {a : α}
    (h : read t = .ok a) (hnull : t ≠ .null) : Json.readOption read t = .ok (some a) := by
  cases t with
  | null => exact absurd rfl hnull
  | boolean | number | string | misspelled | missing | array | object =>
    show (read _).map some = _
    rw [h]
    rfl

theorem readValue_of_isForm {v : ElementValue} (hv : v.isIntegral = true) {f : Form}
    (h : v.IsForm f) (depth : Nat) :
    Json.readOption (ElementValue.read depth) f.tree = .ok (some v) := by
  rw [h.tree_eq hv]
  refine readOption_of_ok (v.read_document depth) ?_
  cases v <;> exact nofun

/-- Whatever stands at an opcode can be read. -/
theorem exists_readAttached {f : Form} (h : f.Readable 0) :
    ∃ v, ∀ depth, Json.readOption (ElementValue.read depth) f.tree = .ok v := by
  cases h with
  | null => exact ⟨none, fun _ => rfl⟩
  | @boolean _ b => exact ⟨some (.boolean b), fun _ => rfl⟩
  | number h =>
    obtain ⟨n, hn⟩ := h.exists_reading
    exact ⟨some (.number n), fun _ => by rw [Form.tree, hn]; rfl⟩
  | @string _ s text h =>
    exact ⟨some (.text text), fun _ => by rw [Form.tree, Json.reading_of_writes h]; rfl⟩

/-! ## Drafts -/

/-- A field of a draft when the fields of these names have been read. -/
def slot {α : Type} (names : List String) (name : String) (a : α) : Option α :=
  if name ∈ names then some a else none

section

variable {α σ : Type} {names : List String} {name : String} {a : α}

theorem slot_of_mem (h : name ∈ names) : slot names name a = some a :=
  if_pos h

theorem slot_of_not_mem (h : name ∉ names) : slot names name a = none :=
  if_neg h

theorem slot_cons_self : slot (name :: names) name a = some a :=
  slot_of_mem List.mem_cons_self

theorem slot_cons_of_ne {other : String} (h : name ≠ other) :
    slot (other :: names) name a = slot names name a := by
  simp [slot, h]

theorem join_slot {o : Option α} (h : o = none ∨ name ∈ names) : (slot names name o).join = o := by
  unfold slot
  split
  · rfl
  · next hnot => exact (h.resolve_right hnot).symm

/-- Reading a field for the first time. -/
theorem fill_slot {value : Except Error α} (hvalue : value = .ok a) (h : name ∉ names)
    (put : Option α → σ) :
    (Json.fill name (slot names name a) value >>= fun x => .ok (put x)) = .ok (put (some a)) := by
  rw [slot_of_not_mem h, hvalue]
  rfl

/-- A field whose member does no more than to fill it with what it reads. -/
theorem own_of_fill {IsValue : Form → Prop} {read : Tree → Except Error α}
    {step : σ → String → Tree → Except Error σ} {draft : List String → σ}
    (hread : ∀ form, IsValue form → read form.tree = .ok a) (put : List String → Option α → σ)
    (hstep : ∀ names t, step (draft names) name t =
      Json.fill name (slot names name a) (read t) >>= fun x => .ok (put names x))
    (hput : ∀ names, put names (some a) = draft (name :: names)) {names : List String} {d : σ}
    {form : Form} (hd : d = draft names) (hname : name ∉ names) (hform : IsValue form) :
    ∃ d', step d name form.tree = .ok d' ∧ d' = draft (name :: names) := by
  refine ⟨put names (some a), ?_, hput names⟩
  rw [hd, hstep]
  exact fill_slot (hread form hform) hname (put names)

/-- A member under an unknown name is skipped. -/
theorem skip_tree (f : Form) (d : σ) : (f.tree.skip.map fun _ => d) = .ok d := by
  have hskip : f.tree.skip = .ok () := f.whole_tree
  rw [hskip]
  rfl

end

/-! ## Elements -/

namespace Element

theorem exists_readValue {e : Element} (hi : e.Integral) {f : Form} (h : e.valueField.IsValue f) :
    ∃ value, (∀ depth, Json.readOption (ElementValue.read depth) f.tree = .ok value) ∧
      (e.value.isSome → value = e.value) := by
  obtain ⟨kind, value⟩ := e
  cases value with
  | some v => exact ⟨some v, readValue_of_isForm (hi v rfl) h, fun _ => rfl⟩
  | none =>
    obtain ⟨value, hvalue⟩ := exists_readAttached h
    exact ⟨value, hvalue, nofun⟩

theorem name_valueField (e : Element) : e.valueField.name = "value" := by
  unfold valueField
  split <;> rfl

theorem map_name_fields (e : Element) : e.fields.map RecordField.name = ["type", "value"] := by
  simp only [fields, List.map_cons, List.map_nil, name_valueField]

/-- A literal cannot do without its value. -/
theorem value_eq_none_of_mayMiss {e : Element} (h : e.valueField.MayMiss) : e.value = none := by
  unfold valueField at h
  split at h
  · exact h.elim
  · assumption

/-- The draft of an element, with any value if it is an opcode. -/
structure Reached (e : Element) (names : List String) (d : Draft) : Prop where
  kind : d.kind = slot names "type" e.kind
  unread : "value" ∉ names → d.value = none
  value : e.value.isSome → "value" ∈ names → d.value = some e.value

theorem fills (depth : Nat) {e : Element} (hi : e.Integral) :
    Json.Fills e.fields anyForm (Draft.member depth) e.Reached where
  own := by
    refine List.forall_mem_cons.2 ⟨?_, List.forall_mem_singleton.2 ?_⟩
    · rintro names d form ⟨hkind, hunread, hvalue⟩ hnames hform
      have hread : Json.readString form.tree = .ok e.kind := IsString.read_tree hform _
      refine ⟨{ d with kind := some e.kind }, ?_, slot_cons_self.symm, ?_, ?_⟩
      · show (Json.fill "type" d.kind _ >>= fun x => .ok { d with kind := x }) = _
        rw [hkind]
        exact fill_slot hread hnames fun x => { d with kind := x }
      · simpa using hunread
      · simpa using hvalue
    · rw [name_valueField]
      rintro names d form ⟨hkind, hunread, hvalue⟩ hnames hform
      obtain ⟨value, hread, heq⟩ := exists_readValue hi hform
      refine ⟨{ d with value := some value }, ?_, ?_, ?_, ?_⟩
      · show (Json.fill "value" d.value _ >>= fun x => .ok { d with value := x }) = _
        rw [hunread hnames, hread]
        rfl
      · rw [slot_cons_of_ne (by decide), ← hkind]
      · simp
      · exact fun hsome _ => congrArg some (heq hsome)
  other := by
    intro names d name form _ hname _
    rw [map_name_fields] at hname
    simp only [List.mem_cons, List.not_mem_nil, not_or] at hname
    rw [Draft.member, if_neg hname.1, if_neg hname.2.1]
    exact skip_tree form d

theorem ofParts_of_wellFormed {e : Element} (hw : e.WellFormed) {value : Option ElementValue}
    (h : e.value.isSome → value = e.value) : ofParts e.kind value = .ok e := by
  obtain ⟨kind, v⟩ := e
  unfold ofParts
  cases v with
  | some v =>
    obtain rfl := h rfl
    have hliteral : Opcode.isLiteralMarker kind = true := hw.symm
    rw [if_pos hliteral]
  | none =>
    have hliteral : Opcode.isLiteralMarker kind = false := hw.symm
    rw [hliteral]
    rfl

theorem exists_readParts {e : Element} (hi : e.Integral) {f : Form} (h : e.IsForm f)
    (depth : Nat) : ∃ value, readParts (depth + 1) f.tree = .ok (e.kind, value) ∧
      (e.value.isSome → value = e.value) := by
  cases h with
  | object horder hown hothers =>
    have hnodup : (e.fields.map RecordField.name).Nodup := by
      rw [map_name_fields]
      decide
    have hempty : e.Reached [] {} := ⟨rfl, fun _ => rfl, nofun⟩
    obtain ⟨names, d, hfold, ⟨hkind, -, hvalue⟩, hall⟩ :=
      (fills depth hi).foldMembers hnodup hempty horder hown hothers
    obtain ⟨htype, hrest⟩ := List.forall_mem_cons.1 hall
    have hin := hrest e.valueField (List.mem_singleton_self _)
    rw [name_valueField] at hin
    refine ⟨d.value.join, ?_, fun hsome => ?_⟩
    · show (Json.foldMembers (Draft.member depth) {} _ none >>= _) = _
      rw [hfold, Except.ok_bind, hkind, slot_of_mem (htype.resolve_left id)]
      rfl
    · obtain hmiss | hin := hin
      · rw [value_eq_none_of_mayMiss hmiss] at hsome
        cases hsome
      · rw [hvalue hsome hin, Option.join_some]
  | array hitems =>
    obtain ⟨kindForm, _, hkind, hrest, rfl⟩ := List.forall₂_cons_left_iff.1 hitems
    obtain ⟨valueForm, _, hvalue, hnone, rfl⟩ := List.forall₂_cons_left_iff.1 hrest
    obtain rfl := List.forall₂_nil_left_iff.1 hnone
    obtain ⟨value, hread, heq⟩ := exists_readValue hi hvalue
    have hkind : Json.readString kindForm.tree = .ok e.kind := IsString.read_tree hkind _
    refine ⟨value, ?_, heq⟩
    show (Json.Entries.next ⟨[_, _], none⟩ 0 _ Json.readString >>= _) = _
    rw [Json.Entries.next_cons hkind, Except.ok_bind]
    show (Json.Entries.nextOption ⟨[_], none⟩ _ >>= _) = _
    rw [Json.Entries.nextOption_cons (hread depth)]
    rfl

theorem read_tree {e : Element} (hi : e.Integral) (hw : e.WellFormed) {f : Form} (h : e.IsForm f)
    (depth : Nat) : Element.read (depth + 1) f.tree = .ok e := by
  obtain ⟨value, hparts, hvalue⟩ := exists_readParts hi h depth
  rw [Element.read, hparts, Except.ok_bind]
  simp only [ofParts_of_wellFormed hw hvalue]

/-- An element that is written and read without loss. -/
structure Readable (e : Element) : Prop where
  integral : e.Integral
  wellFormed : e.WellFormed

theorem mapM_read_tree {es : List Element} (hes : ∀ e ∈ es, e.Readable) {items : List Form}
    (h : List.Forall₂ IsForm es items) (depth : Nat) :
    (items.map Form.tree).mapM (Element.read (depth + 1)) = .ok es := by
  induction h with
  | nil => rfl
  | cons he _ ih =>
    obtain ⟨hfirst, hes⟩ := List.forall_mem_cons.1 hes
    rw [List.map_cons, List.mapM_cons, read_tree hfirst.integral hfirst.wellFormed he, ih hes]
    rfl

theorem readList_tree {es : List Element} (hes : ∀ e ∈ es, e.Readable) {f : Form}
    (h : IsListForm es f) (depth : Nat) : Element.readList (depth + 2) f.tree = .ok es := by
  obtain ⟨items, rfl, hitems⟩ := h
  rw [Form.tree, Form.itemsTrees_eq_map]
  show ((items.map Form.tree).mapM (Element.read (depth + 1)) >>= _) = _
  rw [mapM_read_tree hes hitems]
  rfl

theorem readList?_tree {list : Option (List Element)} (hlist : ∀ e ∈ list.getD [], e.Readable)
    {f : Form} (h : IsOption IsListForm list f) (depth : Nat) :
    Json.readOption (Element.readList (depth + 2)) f.tree = .ok list := by
  cases list with
  | none =>
    obtain rfl := h
    rfl
  | some es =>
    refine readOption_of_ok (readList_tree hlist h depth) ?_
    obtain ⟨items, rfl, -⟩ := h
    exact nofun

end Element

/-! ## Stages -/

namespace Stage

theorem readName_tags {s : Stage} {f : Form} (h : IsString s.tag f) :
    Json.readName tags f.tree = .ok s := by
  rw [Json.readName, h.read_tree, Except.ok_bind, lookup_tag]

theorem fills (depth : Nat) (s : Stage) :
    Json.Fills s.fields (Form.Readable depth) (Stage.member depth) fun names d =>
      d = slot names "type" s where
  own := by
    refine List.forall_mem_singleton.2 ?_
    rintro names d form rfl hnames hform
    refine ⟨_, ?_, rfl⟩
    show Json.fill "type" (slot names "type" s) _ = _
    rw [slot_of_not_mem hnames, slot_cons_self, readName_tags hform]
    rfl
  other := by
    rintro names d name form rfl hname hform
    have hne : name ≠ "type" := fun heq => hname (List.mem_singleton.2 heq)
    rw [member, if_neg hne, hform.check_tree]
    rfl

theorem read_tree {s : Stage} {f : Form} (h : s.IsForm f) :
    Stage.read (Json.maxDepth - 2) f.tree = .ok s := by
  cases h with
  | object horder hown hothers =>
    have hnodup : (s.fields.map RecordField.name).Nodup := by
      simp only [fields, List.map_cons, List.map_nil]
      decide
    obtain ⟨names, d, hfold, rfl, hall⟩ :=
      (fills (Json.maxDepth - 3) s).foldMembers (d := none) hnodup rfl horder hown hothers
    have htype := List.forall_mem_singleton.1 hall
    show (Json.foldMembers (Stage.member (Json.maxDepth - 3)) none _ none >>= _) = _
    rw [hfold, Except.ok_bind, slot_of_mem (htype.resolve_left id)]
    rfl
  | array hitems =>
    obtain ⟨typeForm, _, htype, hnone, rfl⟩ := List.forall₂_cons_left_iff.1 hitems
    obtain rfl := List.forall₂_nil_left_iff.1 hnone
    have htype : Json.readName tags typeForm.tree = .ok s := readName_tags htype
    show (Json.Entries.next? ⟨[_], none⟩ _ >>= _) = _
    simp only [Json.Entries.next?, htype, Except.ok_bind]
    rfl

end Stage

/-! ## Outcomes -/

namespace Outcome

theorem lookup_typeName (o : Outcome) : Json.lookup Tag.names o.typeName = .ok o.tag := by
  cases o <;> rfl

theorem readValue_valueForm (o : Outcome) : readValue o.tag o.valueForm.tree = .ok o := by
  cases o <;> rfl

theorem readVariant_names (depth : Nat) {o : Outcome} {f : Form} (h : IsString o.typeName f) :
    Json.readVariant Tag.names depth f.tree = .ok o.tag := by
  rw [h.tree_eq]
  exact o.lookup_typeName

/-- The draft of an outcome of which these members have been read. -/
def draft (o : Outcome) (names : List String) : Draft :=
  if "type" ∈ names then
    if "value" ∈ names then .complete o else .tagged o.tag
  else
    if "value" ∈ names then .valued o.valueForm.tree else .empty

theorem fills (depth : Nat) (o : Outcome) :
    Json.Fills o.fields anyForm (Draft.member depth) fun names d => d = o.draft names where
  own := by
    refine List.forall_mem_cons.2 ⟨?_, List.forall_mem_singleton.2 ?_⟩
    · rintro names d form rfl hnames hform
      have hread := readVariant_names depth hform
      refine ⟨_, ?_, rfl⟩
      have hnames : "type" ∉ names := hnames
      by_cases hvalue : "value" ∈ names
      · simp only [draft, hnames, hvalue, if_true, if_false, List.mem_cons, true_or, or_true]
        show (Json.readVariant Tag.names depth form.tree >>= fun tag =>
          (readValue tag o.valueForm.tree).map Draft.complete) = _
        rw [hread, Except.ok_bind, readValue_valueForm]
        rfl
      · simp only [draft, hnames, hvalue, if_true, if_false, List.mem_cons, true_or]
        show (Json.readVariant Tag.names depth form.tree).map Draft.tagged = _
        rw [hread]
        rfl
    · rintro names d form rfl hnames rfl
      refine ⟨_, ?_, rfl⟩
      have hnames : "value" ∉ names := hnames
      have hcheck : o.valueForm.tree.check depth = .ok () := by
        cases o <;> rfl
      by_cases htype : "type" ∈ names
      · simp only [draft, hnames, htype, if_true, if_false, List.mem_cons, true_or, or_true]
        show (readValue o.tag o.valueForm.tree).map Draft.complete = _
        rw [readValue_valueForm]
        rfl
      · simp only [draft, hnames, htype, if_true, if_false, List.mem_cons, true_or]
        show (o.valueForm.tree.check depth).map (fun _ => Draft.valued o.valueForm.tree) = _
        rw [hcheck]
        rfl
  other := by
    rintro names d name form rfl hname _
    simp only [fields, List.map_cons, List.map_nil, List.mem_cons, List.not_mem_nil,
      not_or] at hname
    unfold Draft.member
    rw [if_neg hname.1, if_neg hname.2.1]
    exact skip_tree form _

theorem outcome_draft {o : Outcome} {names : List String} (htype : "type" ∈ names)
    (hvalue : o = .pending ∨ "value" ∈ names) : (o.draft names).outcome = .ok o := by
  by_cases hin : "value" ∈ names
  · simp [draft, htype, hin, Draft.outcome]
  · obtain rfl := hvalue.resolve_right hin
    simp [draft, htype, hin, Draft.outcome, tag, withoutValue]

theorem read_tree {o : Outcome} {f : Form} (h : o.IsForm f) (depth : Nat) :
    Outcome.read (depth + 1) f.tree = .ok o := by
  cases h with
  | object horder hown hothers =>
    have hnodup : (o.fields.map RecordField.name).Nodup := by
      simp only [fields, List.map_cons, List.map_nil]
      decide
    obtain ⟨names, d, hfold, rfl, hall⟩ :=
      (fills depth o).foldMembers (d := .empty) hnodup rfl horder hown hothers
    obtain ⟨htype, hrest⟩ := List.forall_mem_cons.1 hall
    have hvalue := List.forall_mem_singleton.1 hrest
    show (Json.foldMembers (Draft.member depth) .empty _ none >>= _) = _
    rw [hfold, Except.ok_bind, outcome_draft (htype.resolve_left id) hvalue]
  | array hitems =>
    obtain ⟨typeForm, _, htype, hrest, rfl⟩ := List.forall₂_cons_left_iff.1 hitems
    obtain ⟨valueForm, _, rfl, hnone, rfl⟩ := List.forall₂_cons_left_iff.1 hrest
    obtain rfl := List.forall₂_nil_left_iff.1 hnone
    have htype : Json.readName Tag.names typeForm.tree = .ok o.tag := by
      rw [Json.readName, IsString.read_tree htype, Except.ok_bind, lookup_typeName]
    show (Json.Entries.next ⟨[_, _], none⟩ 0 _ _ >>= _) = _
    rw [Json.Entries.next_cons htype, Except.ok_bind]
    show (Json.Entries.next ⟨[_], none⟩ 1 _ (readValue o.tag) >>= _) = _
    rw [Json.Entries.next_cons o.readValue_valueForm, Except.ok_bind]
    rfl

end Outcome

/-! ## States -/

namespace MachineState

/-- The draft of a state when the fields of these names have been read. -/
def draftWith (m : MachineState) (names : List String) : Draft where
  locking := slot names "scriptPubKey" m.locking
  unlocking := slot names "scriptSig" m.unlocking
  current := slot names "currentScript" m.current
  redeem := slot names "scriptP2sh" m.redeem
  witness := slot names "scriptWitness" m.witness
  witnessStack := slot names "scriptWitnessStack" m.witnessStack
  main := slot names "stack" m.main
  alt := slot names "altStack" m.alt
  stage := slot names "stage" m.stage

/-- Every list of the state can be read. -/
def Readable (m : MachineState) : Prop :=
  ∀ e ∈ m.elements, e.Readable

theorem fills {m : MachineState} (hm : m.Readable) :
    Json.Fills m.fields anyForm (Draft.member (Json.maxDepth - 2)) fun names d =>
      d = m.draftWith names where
  own := by
    obtain ⟨hlocking, hunlocking, hcurrent, hredeem, hwitness, hwitnessStack, hmain, halt⟩ :=
      forall_mem_elements.1 hm
    simp only [fields, List.forall_mem_cons]
    refine ⟨?_, ?_, ?_, ?_, ?_, ?_, ?_, ?_, ?_, List.forall_mem_nil _⟩
    · exact own_of_fill (fun _ h => Element.readList_tree hlocking h 123)
        (fun names x => { m.draftWith names with locking := x }) (fun _ _ => rfl)
        fun _ => by simp [draftWith, slot]
    · exact own_of_fill (fun _ h => Element.readList_tree hunlocking h 123)
        (fun names x => { m.draftWith names with unlocking := x }) (fun _ _ => rfl)
        fun _ => by simp [draftWith, slot]
    · exact own_of_fill (fun _ h => Element.readList_tree hcurrent h 123)
        (fun names x => { m.draftWith names with current := x }) (fun _ _ => rfl)
        fun _ => by simp [draftWith, slot]
    · exact own_of_fill (fun _ h => Element.readList?_tree hredeem h 123)
        (fun names x => { m.draftWith names with redeem := x }) (fun _ _ => rfl)
        fun _ => by simp [draftWith, slot]
    · exact own_of_fill (fun _ h => Element.readList?_tree hwitness h 123)
        (fun names x => { m.draftWith names with witness := x }) (fun _ _ => rfl)
        fun _ => by simp [draftWith, slot]
    · exact own_of_fill (fun _ h => Element.readList?_tree hwitnessStack h 123)
        (fun names x => { m.draftWith names with witnessStack := x }) (fun _ _ => rfl)
        fun _ => by simp [draftWith, slot]
    · exact own_of_fill (fun _ h => Element.readList_tree hmain h 123)
        (fun names x => { m.draftWith names with main := x }) (fun _ _ => rfl)
        fun _ => by simp [draftWith, slot]
    · exact own_of_fill (fun _ h => Element.readList_tree halt h 123)
        (fun names x => { m.draftWith names with alt := x }) (fun _ _ => rfl)
        fun _ => by simp [draftWith, slot]
    · exact own_of_fill (fun _ h => Stage.read_tree h)
        (fun names x => { m.draftWith names with stage := x }) (fun _ _ => rfl)
        fun _ => by simp [draftWith, slot]
  other := by
    rintro names d name form rfl hname _
    simp only [fields, List.map_cons, List.map_nil, List.mem_cons, List.not_mem_nil,
      not_or] at hname
    unfold Draft.member
    split
    all_goals first | exact skip_tree form _ | simp at hname

theorem state_draftWith {m : MachineState} {names : List String}
    (hall : ∀ field ∈ m.fields, field.MayMiss ∨ field.name ∈ names) :
    (m.draftWith names).state = .ok m := by
  simp only [fields, List.forall_mem_cons, false_or] at hall
  obtain ⟨hlocking, hunlocking, hcurrent, hredeem, hwitness, hwitnessStack, hmain, halt, hstage,
    -⟩ := hall
  simp only [Draft.state, draftWith, slot_of_mem hlocking, slot_of_mem hunlocking,
    slot_of_mem hcurrent, join_slot hredeem, join_slot hwitness, join_slot hwitnessStack,
    slot_of_mem hmain, slot_of_mem halt, slot_of_mem hstage, Json.demand, Except.ok_bind]

theorem read_tree {m : MachineState} (hm : m.Readable) {f : Form} (h : m.IsForm f) :
    MachineState.read (Json.maxDepth - 1) f.tree = .ok m := by
  cases h with
  | object horder hown hothers =>
    have hnodup : (m.fields.map RecordField.name).Nodup := by
      simp only [fields, List.map_cons, List.map_nil]
      decide
    obtain ⟨names, d, hfold, rfl, hall⟩ :=
      (fills hm).foldMembers (d := {}) hnodup rfl horder hown hothers
    show (Json.foldMembers (Draft.member (Json.maxDepth - 2)) {} _ none >>= _) = _
    rw [hfold, Except.ok_bind, state_draftWith hall]
  | array hitems =>
    obtain ⟨hlocking, hunlocking, hcurrent, hredeem, hwitness, hwitnessStack, hmain, halt⟩ :=
      forall_mem_elements.1 hm
    obtain ⟨lockingForm, _, h₁, hrest₁, rfl⟩ := List.forall₂_cons_left_iff.1 hitems
    obtain ⟨unlockingForm, _, h₂, hrest₂, rfl⟩ := List.forall₂_cons_left_iff.1 hrest₁
    obtain ⟨currentForm, _, h₃, hrest₃, rfl⟩ := List.forall₂_cons_left_iff.1 hrest₂
    obtain ⟨redeemForm, _, h₄, hrest₄, rfl⟩ := List.forall₂_cons_left_iff.1 hrest₃
    obtain ⟨witnessForm, _, h₅, hrest₅, rfl⟩ := List.forall₂_cons_left_iff.1 hrest₄
    obtain ⟨witnessStackForm, _, h₆, hrest₆, rfl⟩ := List.forall₂_cons_left_iff.1 hrest₅
    obtain ⟨mainForm, _, h₇, hrest₇, rfl⟩ := List.forall₂_cons_left_iff.1 hrest₆
    obtain ⟨altForm, _, h₈, hrest₈, rfl⟩ := List.forall₂_cons_left_iff.1 hrest₇
    obtain ⟨stageForm, _, h₉, hnone, rfl⟩ := List.forall₂_cons_left_iff.1 hrest₈
    obtain rfl := List.forall₂_nil_left_iff.1 hnone
    have hlocking := Element.readList_tree hlocking h₁ 123
    have hunlocking := Element.readList_tree hunlocking h₂ 123
    have hcurrent := Element.readList_tree hcurrent h₃ 123
    have hredeem := Element.readList?_tree hredeem h₄ 123
    have hwitness := Element.readList?_tree hwitness h₅ 123
    have hwitnessStack := Element.readList?_tree hwitnessStack h₆ 123
    have hmain := Element.readList_tree hmain h₇ 123
    have halt := Element.readList_tree halt h₈ 123
    have hstage : Stage.read 125 stageForm.tree = .ok m.stage := Stage.read_tree h₉
    show (Json.Entries.next ⟨[_, _, _, _, _, _, _, _, _], none⟩ 0 _ (Element.readList 125) >>= _) =
      _
    simp only [Json.Entries.next_cons hlocking, Json.Entries.next_cons hunlocking,
      Json.Entries.next_cons hcurrent, Json.Entries.nextOption_cons hredeem,
      Json.Entries.nextOption_cons hwitness, Json.Entries.nextOption_cons hwitnessStack,
      Json.Entries.next_cons hmain, Json.Entries.next_cons halt, Json.Entries.next_cons hstage,
      Except.ok_bind]
    rfl

end MachineState

/-! ## Snapshots -/

namespace Snapshot

/-- The draft of a snapshot when the fields of these names have been read. -/
def draftWith (s : Snapshot) (names : List String) : Draft where
  outcome := slot names "result" s.outcome
  state := slot names "state" s.state
  step := slot names "step" s.step

theorem readOption_step {step : Option UInt64} {f : Form}
    (h : IsOption (fun n => IsNumber (Json.Number.ofUInt64 n)) step f) :
    Json.readOption Json.readUInt64 f.tree = .ok step := by
  cases step with
  | none =>
    obtain rfl := h
    rfl
  | some n =>
    have htree : f.tree = .number (.exact (Json.Number.ofUInt64 n)) := IsNumber.tree_eq rfl h
    rw [htree]
    exact readOption_of_ok (readUInt64_document n) nofun

theorem fills {s : Snapshot} (hs : s.state.Readable) :
    Json.Fills s.fields anyForm (Draft.member (Json.maxDepth - 1)) fun names d =>
      d = s.draftWith names where
  own := by
    simp only [fields, List.forall_mem_cons]
    refine ⟨?_, ?_, ?_, List.forall_mem_nil _⟩
    · exact own_of_fill (fun _ h => Outcome.read_tree h 125)
        (fun names x => { s.draftWith names with outcome := x }) (fun _ _ => rfl)
        fun _ => by simp [draftWith, slot]
    · exact own_of_fill (fun _ h => MachineState.read_tree hs h)
        (fun names x => { s.draftWith names with state := x }) (fun _ _ => rfl)
        fun _ => by simp [draftWith, slot]
    · exact own_of_fill (fun _ h => readOption_step h)
        (fun names x => { s.draftWith names with step := x }) (fun _ _ => rfl)
        fun _ => by simp [draftWith, slot]
  other := by
    rintro names d name form rfl hname _
    simp only [fields, List.map_cons, List.map_nil, List.mem_cons, List.not_mem_nil,
      not_or] at hname
    unfold Draft.member
    split
    all_goals first | exact skip_tree form _ | simp at hname

theorem read_tree {s : Snapshot} (hs : s.state.Readable) {f : Form} (h : s.IsForm f) :
    Snapshot.read Json.maxDepth f.tree = .ok s := by
  cases h with
  | object horder hown hothers =>
    have hnodup : (s.fields.map RecordField.name).Nodup := by
      simp only [fields, List.map_cons, List.map_nil]
      decide
    obtain ⟨names, d, hfold, rfl, hall⟩ :=
      (fills hs).foldMembers (d := {}) hnodup rfl horder hown hothers
    simp only [fields, List.forall_mem_cons, false_or] at hall
    obtain ⟨hresult, hstate, hstep, -⟩ := hall
    show (Json.foldMembers (Draft.member (Json.maxDepth - 1)) {} _ none >>= _) = _
    rw [hfold, Except.ok_bind]
    simp only [draftWith, slot_of_mem hresult, slot_of_mem hstate, join_slot hstep, Json.demand,
      Except.ok_bind, ofState_state]
  | array hitems =>
    obtain ⟨resultForm, _, hresult, hrest, rfl⟩ := List.forall₂_cons_left_iff.1 hitems
    obtain ⟨stateForm, _, hstate, hlast, rfl⟩ := List.forall₂_cons_left_iff.1 hrest
    obtain ⟨stepForm, _, hstep, hnone, rfl⟩ := List.forall₂_cons_left_iff.1 hlast
    obtain rfl := List.forall₂_nil_left_iff.1 hnone
    have hresult := Outcome.read_tree hresult 125
    have hstate : MachineState.read 126 stateForm.tree = .ok s.state :=
      MachineState.read_tree hs hstate
    have hstep := readOption_step hstep
    show (Json.Entries.next ⟨[_, _, _], none⟩ 0 _ (Outcome.read 126) >>= _) = _
    simp only [Json.Entries.next_cons hresult, Json.Entries.next_cons hstate,
      Json.Entries.nextOption_cons hstep, Except.ok_bind]
    rfl

theorem readable_state {s : Snapshot} (hs : s.Integral)
    (hw : ∀ es ∈ s.lists, ∀ e ∈ es, e.WellFormed) : s.state.Readable := by
  intro e he
  rw [elements_state] at he
  obtain ⟨es, hes, he⟩ := List.mem_flatten.1 he
  exact ⟨hs es hes e he, hw es hes e he⟩

theorem ofJson_of_isSpelledBy {s : Snapshot} (hs : s.Integral)
    (hw : ∀ es ∈ s.lists, ∀ e ∈ es, e.WellFormed) {text : String} (h : s.IsSpelledBy text) :
    ofJson text = .ok s := by
  obtain ⟨f, hf, htext⟩ := h
  rw [ofJson, Json.readText, Json.parse_of_isText htext]
  show (Snapshot.read Json.maxDepth f.tree >>= _) = _
  rw [read_tree (readable_state hs hw) hf]
  rfl

end Snapshot

end SpendTrace.Script
