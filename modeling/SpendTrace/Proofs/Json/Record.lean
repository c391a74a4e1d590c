import Mathlib.Data.List.Forall2
import SpendTrace.Proofs.Json.Form
import SpendTrace.Proofs.Json.Reading

/-!
# Forms of records

A record is written as an object or as the array of its fields. In an object its members stand in
any order, those that may miss do so or not, and members under other names stand anywhere between
them.
In the array all fields stand, in their own order.

* `RecordField`, `Record`: the forms of a record.
* `Fills`: what each member does to the draft of a reader.
* `Fills.foldMembers`: all members together fill the draft, whatever their order.
* `Entries.next_cons`, `Entries.nextOption_cons`: an array is read entry by entry.
-/

namespace SpendTrace.Json

/-- A field of a record: its name, the forms of its value, and whether its member may miss. -/
structure RecordField where
  name : String
  IsValue : Form → Prop
  MayMiss : Prop

/-- One member for each of the fields, or none where it may miss. -/
inductive OwnMembers : List RecordField → List (StringText × Form) → Prop where
  | nil : OwnMembers [] []
  | written {field fields key form members} (hkey : key.Writes field.name)
      (hvalue : field.IsValue form) (h : OwnMembers fields members) :
      OwnMembers (field :: fields) ((key, form) :: members)
  | missing {field fields members} (hmiss : field.MayMiss) (h : OwnMembers fields members) :
      OwnMembers (field :: fields) members

/-- A member under a name that no field has. -/
def IsOther (fields : List RecordField) (Unknown : Form → Prop) (m : StringText × Form) : Prop :=
  ∃ name, m.1.Writes name ∧ name ∉ fields.map RecordField.name ∧ Unknown m.2

/-- The forms of a record, where the values of unknown members are restricted to `Unknown`. -/
inductive Record (fields : List RecordField) (Unknown : Form → Prop) : Form → Prop where
  | object {members own others} (horder : members.Perm (own ++ others))
      (hown : OwnMembers fields own) (hothers : ∀ m ∈ others, IsOther fields Unknown m) :
      Record fields Unknown (.object members)
  | array {items} (h : List.Forall₂ RecordField.IsValue fields items) :
      Record fields Unknown (.array items)

/-! ## Names -/

theorem StringText.Writes.unique {s : StringText} {name name' : String} (h : s.Writes name)
    (h' : s.Writes name') : name = name' := by
  have hread : (Reading.exact name).read = (Reading.exact name').read := by
    rw [← reading_of_writes h, ← reading_of_writes h']
  exact Except.ok.inj hread

/-- No field is written by both members. -/
def Apart (fields : List RecordField) (m n : StringText × Form) : Prop :=
  ∀ field ∈ fields, ¬(m.1.Writes field.name ∧ n.1.Writes field.name)

theorem Apart.symm {fields : List RecordField} {m n : StringText × Form} (h : Apart fields m n) :
    Apart fields n m :=
  fun field hfield hboth => h field hfield hboth.symm

theorem IsOther.not_writes {fields : List RecordField} {Unknown : Form → Prop}
    {m : StringText × Form} (h : IsOther fields Unknown m) {field : RecordField}
    (hfield : field ∈ fields) : ¬m.1.Writes field.name := by
  obtain ⟨name, hname, hnot, -⟩ := h
  intro hwrites
  exact hnot (hname.unique hwrites ▸ List.mem_map_of_mem hfield)

namespace OwnMembers

variable {fields : List RecordField} {members : List (StringText × Form)}

theorem exists_field (h : OwnMembers fields members) :
    ∀ m ∈ members, ∃ field ∈ fields, m.1.Writes field.name ∧ field.IsValue m.2 := by
  induction h with
  | nil => exact List.forall_mem_nil _
  | @written field fields key form members hkey hvalue _ ih =>
    refine List.forall_mem_cons.2 ⟨⟨field, List.mem_cons_self, hkey, hvalue⟩, fun m hm => ?_⟩
    obtain ⟨field', hfield', hm⟩ := ih m hm
    exact ⟨field', List.mem_cons_of_mem _ hfield', hm⟩
  | missing _ _ ih =>
    intro m hm
    obtain ⟨field', hfield', hm⟩ := ih m hm
    exact ⟨field', List.mem_cons_of_mem _ hfield', hm⟩

theorem exists_member (h : OwnMembers fields members) :
    ∀ field ∈ fields, field.MayMiss ∨ ∃ m ∈ members, m.1.Writes field.name := by
  induction h with
  | nil => exact List.forall_mem_nil _
  | @written field fields key form members hkey hvalue _ ih =>
    refine List.forall_mem_cons.2 ⟨.inr ⟨_, List.mem_cons_self, hkey⟩, fun field' hfield' => ?_⟩
    refine (ih field' hfield').imp_right ?_
    rintro ⟨m, hm, hwrites⟩
    exact ⟨m, List.mem_cons_of_mem _ hm, hwrites⟩
  | missing hmiss _ ih => exact List.forall_mem_cons.2 ⟨.inl hmiss, ih⟩

theorem pairwise (h : OwnMembers fields members) (hnodup : (fields.map RecordField.name).Nodup) :
    members.Pairwise fun m n => ∀ name, ¬(m.1.Writes name ∧ n.1.Writes name) := by
  induction h with
  | nil => exact .nil
  | @written field fields key form members hkey _ h ih =>
    obtain ⟨hnot, hnodup⟩ := List.nodup_cons.1 hnodup
    refine .cons ?_ (ih hnodup)
    rintro n hn name ⟨hname, hname'⟩
    obtain ⟨field', hfield', hwrites, -⟩ := h.exists_field n hn
    have heq : field'.name = field.name :=
      (hwrites.unique hname').trans (hname.unique hkey)
    exact hnot (heq ▸ List.mem_map_of_mem hfield')
  | missing _ _ ih => exact ih (List.nodup_cons.1 hnodup).2

end OwnMembers

/-! ## Reading the members of an object -/

theorem foldMembers_key_bind {σ : Type} (step : σ → String → Tree → Except Error σ) (d : σ)
    {key : StringText} {name : String} (hkey : key.Writes name) (f : Form)
    (members : List (StringText × Form)) :
    foldMembers step d (Form.membersTrees ((key, f) :: members)) none =
      step d name f.tree >>= fun d => foldMembers step d (Form.membersTrees members) none := by
  rw [Form.membersTrees, foldMembers_cons_bind, reading_of_writes hkey]
  rfl

theorem foldMembers_forms_append {σ : Type} (step : σ → String → Tree → Except Error σ) (d : σ)
    (ms ns : List (StringText × Form)) :
    foldMembers step d (Form.membersTrees (ms ++ ns)) none =
      foldMembers step d (Form.membersTrees ms) none >>= fun d =>
        foldMembers step d (Form.membersTrees ns) none := by
  rw [Form.membersTrees_eq_map, List.map_append, foldMembers_append, ← Form.membersTrees_eq_map,
    ← Form.membersTrees_eq_map]

/-- What the members of a record do to a draft of which the fields with some names have been read:
a field that has not been read is added, and any other member changes nothing. -/
structure Fills {σ : Type} (fields : List RecordField) (Unknown : Form → Prop)
    (step : σ → String → Tree → Except Error σ) (Reached : List String → σ → Prop) : Prop where
  own : ∀ field ∈ fields, ∀ {names d form}, Reached names d → field.name ∉ names →
    field.IsValue form →
      ∃ d', step d field.name form.tree = .ok d' ∧ Reached (field.name :: names) d'
  other : ∀ {names d name form}, Reached names d → name ∉ fields.map RecordField.name →
    Unknown form → step d name form.tree = .ok d

section

variable {σ : Type} {fields : List RecordField} {Unknown : Form → Prop}
  {step : σ → String → Tree → Except Error σ} {Reached : List String → σ → Prop}

theorem foldMembers_cons {d d' : σ} {key : StringText} {name : String} (hkey : key.Writes name)
    {form : Form} (h : step d name form.tree = .ok d') (members : List (StringText × Form)) :
    foldMembers step d (Form.membersTrees ((key, form) :: members)) none =
      foldMembers step d' (Form.membersTrees members) none := by
  rw [foldMembers_key_bind step d hkey, h]
  rfl

/-- Members of which no two are the same field are read one after the other. -/
theorem Fills.foldMembers_of_apart (h : Fills fields Unknown step Reached)
    {members : List (StringText × Form)}
    (hmembers : ∀ m ∈ members,
      (∃ field ∈ fields, m.1.Writes field.name ∧ field.IsValue m.2) ∨ IsOther fields Unknown m)
    (hapart : members.Pairwise (Apart fields)) {names : List String} {d : σ}
    (hd : Reached names d)
    (hnames : ∀ m ∈ members, ∀ field ∈ fields, m.1.Writes field.name → field.name ∉ names) :
    ∃ names' d', foldMembers step d (Form.membersTrees members) none = .ok d' ∧
      Reached names' d' ∧ names ⊆ names' ∧
      ∀ m ∈ members, ∀ field ∈ fields, m.1.Writes field.name → field.name ∈ names' := by
  induction members generalizing names d with
  | nil => exact ⟨names, d, rfl, hd, List.Subset.refl _, List.forall_mem_nil _⟩
  | cons m members ih =>
    obtain ⟨key, form⟩ := m
    obtain ⟨hm, hmembers⟩ := List.forall_mem_cons.1 hmembers
    obtain ⟨hfirst, hapart⟩ := List.pairwise_cons.1 hapart
    obtain ⟨hfresh, hnames⟩ := List.forall_mem_cons.1 hnames
    obtain ⟨field, hfield, hkey, hvalue⟩ | hother := hm
    · obtain ⟨d₁, hstep, hd₁⟩ := h.own field hfield hd (hfresh field hfield hkey) hvalue
      have hnames₁ : ∀ n ∈ members, ∀ field' ∈ fields, n.1.Writes field'.name →
          field'.name ∉ field.name :: names := by
        intro n hn field' hfield' hwrites hmem
        obtain heq | hmem := List.mem_cons.1 hmem
        · exact hfirst n hn field' hfield' ⟨heq ▸ hkey, hwrites⟩
        · exact hnames n hn field' hfield' hwrites hmem
      obtain ⟨names', d', hfold, hd', hsub, hall⟩ := ih hmembers hapart hd₁ hnames₁
      refine ⟨names', d', (foldMembers_cons hkey hstep members).trans hfold, hd',
        fun name hname => hsub (List.mem_cons_of_mem _ hname), ?_⟩
      refine List.forall_mem_cons.2 ⟨fun field' _ hwrites => ?_, hall⟩
      exact hkey.unique hwrites ▸ hsub List.mem_cons_self
    · have hnot : ∀ field' ∈ fields, ¬key.Writes field'.name := fun _ => hother.not_writes
      obtain ⟨name, hkey, hname, hvalue⟩ := hother
      have hstep := h.other hd hname hvalue
      obtain ⟨names', d', hfold, hd', hsub, hall⟩ := ih hmembers hapart hd hnames
      refine ⟨names', d', (foldMembers_cons hkey hstep members).trans hfold, hd', hsub, ?_⟩
      exact List.forall_mem_cons.2
        ⟨fun field' hfield' hwrites => absurd hwrites (hnot field' hfield'), hall⟩

/-- The members of an object fill the draft, whatever their order, with all that may not miss. -/
theorem Fills.foldMembers (h : Fills fields Unknown step Reached)
    (hnodup : (fields.map RecordField.name).Nodup) {d : σ} (hd : Reached [] d)
    {members own others : List (StringText × Form)}
    (horder : members.Perm (own ++ others)) (hown : OwnMembers fields own)
    (hothers : ∀ m ∈ others, IsOther fields Unknown m) :
    ∃ names d', Json.foldMembers step d (Form.membersTrees members) none = .ok d' ∧
      Reached names d' ∧ ∀ field ∈ fields, field.MayMiss ∨ field.name ∈ names := by
  have hmembers : ∀ m ∈ members,
      (∃ field ∈ fields, m.1.Writes field.name ∧ field.IsValue m.2) ∨
        IsOther fields Unknown m := by
    intro m hm
    obtain hm | hm := List.mem_append.1 (horder.mem_iff.1 hm)
    · exact .inl (hown.exists_field m hm)
    · exact .inr (hothers m hm)
  have hapart : (own ++ others).Pairwise (Apart fields) := by
    refine List.pairwise_append.2 ⟨?_, ?_, ?_⟩
    · exact (hown.pairwise hnodup).imp fun hnot (field : RecordField) _ => hnot field.name
    · refine List.pairwise_of_forall_mem_list fun m hm n _ => ?_
      exact fun field hfield hboth => (hothers m hm).not_writes hfield hboth.1
    · exact fun m _ n hn field hfield hboth => (hothers n hn).not_writes hfield hboth.2
  have hapart := (horder.pairwise_iff Apart.symm).2 hapart
  obtain ⟨names, d', hfold, hd', -, hall⟩ :=
    h.foldMembers_of_apart hmembers hapart hd fun _ _ _ _ _ => List.not_mem_nil
  refine ⟨names, d', hfold, hd', fun field hfield => (hown.exists_member field hfield).imp_right ?_⟩
  rintro ⟨m, hm, hwrites⟩
  exact hall m (horder.mem_iff.2 (List.mem_append_left _ hm)) field hfield hwrites

end

/-! ## Reading the entries of an array -/

namespace Entries

variable {α : Type}

theorem next_cons {read : Tree → Except Error α} {t : Tree} {a : α} (h : read t = .ok a)
    (ts : List Tree) (ending : Option Stop) (index : Nat) (record : String) :
    next ⟨t :: ts, ending⟩ index record read = .ok (a, ⟨ts, ending⟩) := by
  simp only [next, next?, h, Except.ok_bind]

theorem nextOption_cons {read : Tree → Except Error α} {t : Tree} {o : Option α}
    (h : readOption read t = .ok o) (ts : List Tree) (ending : Option Stop) :
    nextOption ⟨t :: ts, ending⟩ read = .ok (o, ⟨ts, ending⟩) := by
  simp only [nextOption, next?, h, Except.ok_bind, Option.join_some]

end Entries

end SpendTrace.Json
