import Mathlib.Data.List.Pairwise
import SpendTrace.Proofs.Json.Changing

/-!
# How often a member may stand

A reader of objects knows some names. A member under one of them may stand in any place, but only
once, and some may not miss; a member under any other name does nothing. It is enough to know this
of two members that follow each other: a member can then be moved to the end of what it stands in,
where its own effect on the draft is all that is left of it.

* `MemberRemoved`, `MemberRepeated`, `MemberAdded`: what may be done to the members of an object.
* `Orderly`, `Orderly.to_end`, `Orderly.to_front`: members may be moved.
* `Insists`: what a reader makes of a member too few, too many or unknown.
* `DraftField`, `Fields.orderly`: readers whose members fill the fields of a draft.
* `insists_of_orderly`: these readers insist on their members.
-/

namespace SpendTrace.Json

/-! ## Members removed and inserted -/

/-- A member under the name is removed. -/
inductive MemberRemoved (name : String) : Form → Form → Prop where
  | member (before after : List (StringText × Form)) {key : StringText} {f : Form}
      (hkey : key.Writes name) :
    MemberRemoved name (.object (before ++ (key, f) :: after)) (.object (before ++ after))

/-- A second member under the name is inserted: somewhere behind the first one, where it may have
any value, or somewhere in front of it with the same value. -/
inductive MemberRepeated (name : String) : Form → Form → Prop where
  | behind (before between after : List (StringText × Form)) {key key' : StringText} {f g : Form}
      (hkey : key.Writes name) (hkey' : key'.Writes name) :
    MemberRepeated name (.object (before ++ (key, f) :: (between ++ after)))
      (.object (before ++ (key, f) :: (between ++ (key', g) :: after)))
  | front (before between after : List (StringText × Form)) {key key' : StringText} {f : Form}
      (hkey : key.Writes name) (hkey' : key'.Writes name) :
    MemberRepeated name (.object (before ++ (between ++ (key, f) :: after)))
      (.object (before ++ (key', f) :: (between ++ (key, f) :: after)))

/-- A member under an unknown name is inserted, with an admissible value or with the value of a
member of that name. -/
inductive MemberAdded (names : List String) (Admissible : Form → Prop) : Form → Form → Prop where
  | member (before after : List (StringText × Form)) {key : StringText} {name : String} {f : Form}
      (hkey : key.Writes name) (hname : name ∉ names)
      (hf : Admissible f ∨ ∃ key' : StringText, key'.Writes name ∧ (key', f) ∈ before ++ after) :
    MemberAdded names Admissible (.object (before ++ after))
      (.object (before ++ (key, f) :: after))

theorem MemberAdded.mono {names : List String} {P Q : Form → Prop} {f g : Form}
    (h : MemberAdded names P f g) (hPQ : ∀ v, P v → Q v) : MemberAdded names Q f g := by
  cases h with
  | member before after hkey hname hf =>
    exact .member before after hkey hname (hf.imp_left (hPQ _))

/-! ## Moving a member -/

/-- Members under two names may change places, a second member under a known name is refused, and a
member under another name is looked through and forgotten. -/
structure Orderly {σ : Type} (step : σ → String → Tree → Except Error σ) (names : List String)
    (skim : Tree → Except Error Unit) : Prop where
  swap : ∀ {d d₁ d₂ : σ} {name name' : String} {t t' : Tree}, name ∈ names → name' ∈ names →
    name ≠ name' → step d name t = .ok d₁ → step d₁ name' t' = .ok d₂ →
      ∃ e, step d name' t' = .ok e ∧ step e name t = .ok d₂
  again : ∀ {d d₁ : σ} {name : String} {t : Tree}, name ∈ names → step d name t = .ok d₁ →
    ∀ t', step d₁ name t' = .error (.mismatch (.duplicateField name))
  other : ∀ {name : String}, name ∉ names → ∀ d t, step d name t = (skim t).map fun _ => d

namespace Orderly

variable {σ : Type} {step : σ → String → Tree → Except Error σ} {names : List String}
  {skim : Tree → Except Error Unit} {d d₁ d₂ : σ} {name : String} {t : Tree}
  {members : List (Reading String × Tree)}

theorem other_eq_ok (h : Orderly step names skim) (hname : name ∉ names)
    (ht : step d name t = .ok d₁) : skim t = .ok () ∧ d = d₁ := by
  rw [h.other hname] at ht
  obtain ⟨u, hu, rfl⟩ := Except.map_eq_ok.1 ht
  exact ⟨hu, rfl⟩

theorem step_other (h : Orderly step names skim) (hname : name ∉ names) (ht : skim t = .ok ())
    (d : σ) : step d name t = .ok d := by
  rw [h.other hname, ht]
  rfl

/-- Members under any two names may change places. -/
theorem swap_any (h : Orderly step names skim) {name' : String} {t' : Tree} (hne : name ≠ name')
    (ht : step d name t = .ok d₁) (ht' : step d₁ name' t' = .ok d₂) :
    ∃ e, step d name' t' = .ok e ∧ step e name t = .ok d₂ := by
  by_cases hname : name ∈ names
  · by_cases hname' : name' ∈ names
    · exact h.swap hname hname' hne ht ht'
    · obtain ⟨hskim, rfl⟩ := h.other_eq_ok hname' ht'
      exact ⟨d, h.step_other hname' hskim d, ht⟩
  · obtain ⟨hskim, rfl⟩ := h.other_eq_ok hname ht
    exact ⟨d₂, ht', h.step_other hname hskim d₂⟩

/-- The first member may be moved to the end. -/
theorem to_end (h : Orderly step names skim) (hname : name ∈ names) (ht : step d name t = .ok d₁)
    (hfold : foldMembers step d₁ members none = .ok d₂) :
    ∃ e, foldMembers step d members none = .ok e ∧ step e name t = .ok d₂ := by
  induction members generalizing d d₁ with
  | nil =>
    cases hfold
    exact ⟨d, rfl, ht⟩
  | cons m members ih =>
    rw [foldMembers_cons_bind] at hfold
    obtain ⟨name', hname', hfold⟩ := Except.bind_eq_ok.1 hfold
    obtain ⟨d', hd', hfold⟩ := Except.bind_eq_ok.1 hfold
    by_cases hne : name = name'
    · subst hne
      rw [h.again hname ht] at hd'
      cases hd'
    · obtain ⟨e', he', hstep⟩ := h.swap_any hne ht hd'
      obtain ⟨e, he, hlast⟩ := ih hstep hfold
      refine ⟨e, ?_, hlast⟩
      rw [foldMembers_cons_bind, hname', Except.ok_bind, he', Except.ok_bind, he]

/-- The last member may be moved to the front. -/
theorem to_front (h : Orderly step names skim) (hname : name ∈ names)
    (hfold : foldMembers step d members none = .ok d₁) (ht : step d₁ name t = .ok d₂) :
    ∃ e, step d name t = .ok e ∧ foldMembers step e members none = .ok d₂ := by
  induction members generalizing d with
  | nil =>
    cases hfold
    exact ⟨d₂, ht, rfl⟩
  | cons m members ih =>
    rw [foldMembers_cons_bind] at hfold
    obtain ⟨name', hname', hfold⟩ := Except.bind_eq_ok.1 hfold
    obtain ⟨d', hd', hfold⟩ := Except.bind_eq_ok.1 hfold
    obtain ⟨e', he', hrest⟩ := ih hfold
    by_cases hne : name' = name
    · subst hne
      rw [h.again hname hd'] at he'
      cases he'
    · obtain ⟨e, he, hstep⟩ := h.swap_any hne hd' he'
      refine ⟨e, he, ?_⟩
      rw [foldMembers_cons_bind, hname', Except.ok_bind, hstep, Except.ok_bind, hrest]

/-- What stood under an unknown name was looked through. -/
theorem skim_of_mem (h : Orderly step names skim) (hname : name ∉ names) {key : Reading String}
    (hkey : key.read = .ok name) (hmem : (key, t) ∈ members)
    (hfold : foldMembers step d members none = .ok d₁) : skim t = .ok () := by
  obtain ⟨before, after, rfl⟩ := List.append_of_mem hmem
  rw [foldMembers_append] at hfold
  obtain ⟨d', -, hfold⟩ := Except.bind_eq_ok.1 hfold
  rw [foldMembers_cons_bind, hkey, Except.ok_bind] at hfold
  obtain ⟨d₂, hd₂, -⟩ := Except.bind_eq_ok.1 hfold
  exact (h.other_eq_ok hname hd₂).1

end Orderly

/-! ## Members of a form -/

namespace Orderly

variable {σ β : Type} {step : σ → String → Tree → Except Error σ} {names : List String}
  {skim : Tree → Except Error Unit} {d d₂ : σ} {name : String} {f : Form}
  {before between after : List (StringText × Form)} {key key' : StringText}

/-- What is left without a member: a draft to which the member could be added at the end. -/
theorem removed (h : Orderly step names skim) (hname : name ∈ names) (hkey : key.Writes name)
    (hfold : foldMembers step d (Form.membersTrees (before ++ (key, f) :: after)) none = .ok d₂) :
    ∃ e, foldMembers step d (Form.membersTrees (before ++ after)) none = .ok e ∧
      step e name f.tree = .ok d₂ := by
  rw [foldMembers_forms_append] at hfold
  obtain ⟨d', hbefore, hfold⟩ := Except.bind_eq_ok.1 hfold
  rw [foldMembers_key_bind step d' hkey] at hfold
  obtain ⟨d₁, hstep, hafter⟩ := Except.bind_eq_ok.1 hfold
  obtain ⟨e, he, hlast⟩ := h.to_end hname hstep hafter
  refine ⟨e, ?_, hlast⟩
  rw [foldMembers_forms_append, hbefore, Except.ok_bind, he]

theorem again_behind (h : Orderly step names skim) (hname : name ∈ names) (hkey : key.Writes name)
    (hkey' : key'.Writes name) {g : Form}
    (hfold : foldMembers step d
      (Form.membersTrees (before ++ (key, f) :: (between ++ after))) none = .ok d₂)
    (k : σ → Except Error β) :
    (foldMembers step d (Form.membersTrees
      (before ++ (key, f) :: (between ++ (key', g) :: after))) none >>= k) =
        .error (.mismatch (.duplicateField name)) := by
  have hsplit (rest : List (StringText × Form)) : before ++ (key, f) :: (between ++ rest) =
      (before ++ (key, f) :: between) ++ rest := by
    rw [List.append_assoc, List.cons_append]
  rw [hsplit, foldMembers_forms_append] at hfold ⊢
  obtain ⟨d₁, hfold, -⟩ := Except.bind_eq_ok.1 hfold
  obtain ⟨e, -, hlast⟩ := h.removed hname hkey hfold
  rw [hfold, Except.ok_bind, foldMembers_key_bind step d₁ hkey', h.again hname hlast]
  rfl

theorem again_in_front (h : Orderly step names skim) (hname : name ∈ names)
    (hkey : key.Writes name) (hkey' : key'.Writes name)
    (hfold : foldMembers step d
      (Form.membersTrees (before ++ (between ++ (key, f) :: after))) none = .ok d₂)
    (k : σ → Except Error β) :
    (foldMembers step d (Form.membersTrees
      (before ++ (key', f) :: (between ++ (key, f) :: after))) none >>= k) =
        .error (.mismatch (.duplicateField name)) := by
  rw [foldMembers_forms_append] at hfold ⊢
  obtain ⟨d', hbefore, hfold⟩ := Except.bind_eq_ok.1 hfold
  rw [foldMembers_forms_append] at hfold
  obtain ⟨d₁, hbetween, hfold⟩ := Except.bind_eq_ok.1 hfold
  rw [foldMembers_key_bind step d₁ hkey] at hfold
  obtain ⟨d₃, hstep, -⟩ := Except.bind_eq_ok.1 hfold
  -- Moved to the front, the first member leaves the same draft, which has no room for the second.
  obtain ⟨e, he, hrest⟩ := h.to_front hname hbetween hstep
  rw [hbefore, Except.ok_bind, foldMembers_key_bind step d' hkey', he, Except.ok_bind,
    foldMembers_forms_append, hrest, Except.ok_bind, foldMembers_key_bind step d₃ hkey,
    h.again hname hstep]
  rfl

theorem unknown_added (h : Orderly step names skim) (hname : name ∉ names)
    (hkey : key.Writes name) (hf : skim f.tree = .ok ()) :
    foldMembers step d (Form.membersTrees (before ++ (key, f) :: after)) none =
      foldMembers step d (Form.membersTrees (before ++ after)) none := by
  rw [foldMembers_forms_append, foldMembers_forms_append]
  refine congrArg _ (funext fun d' => ?_)
  rw [foldMembers_key_bind step d' hkey, h.step_other hname hf, Except.ok_bind]

end Orderly

/-! ## Readers that insist on their members -/

/-- Without a required member an object is refused, with a second known one too, and an unknown one
that can be looked through changes nothing. -/
structure Insists {α : Type} (read : Nat → Tree → Except Error α) (names required : List String)
    (skim : Nat → Tree → Except Error Unit) : Prop where
  removed : ∀ name ∈ required, ∀ depth, Meets (MemberRemoved name)
    (.refused (.mismatch (.missingField name))) (read depth)
  repeated : ∀ name ∈ names, ∀ depth, Meets (MemberRepeated name)
    (.refused (.mismatch (.duplicateField name))) (read depth)
  added : ∀ depth, Meets (MemberAdded names fun f => skim depth f.tree = .ok ()) .unharmed
    (read (depth + 1))

section

variable {α σ : Type} {read : Nat → Tree → Except Error α} {names required : List String}
  {skim : Nat → Tree → Except Error Unit} {start : σ}
  {step : Nat → σ → String → Tree → Except Error σ} {fin : σ → Except Error α}

/-- An object is read member by member into a draft, and then made of the draft. -/
def ReadsObjects (read : Nat → Tree → Except Error α) (start : σ)
    (step : Nat → σ → String → Tree → Except Error σ) (fin : σ → Except Error α) : Prop :=
  ∀ depth members, read depth (.object members none) =
    Tree.enter depth fun d => foldMembers (step d) start members none >>= fin

/-- The fate of the member under a name is that of the object. -/
theorem ReadsObjects.member_met (hread : ReadsObjects read start step fin)
    {R : Form → Form → Prop} {fate : Fate} {depth : Nat} {name : String}
    (hstep : ∀ d, Meets R fate (step depth d name)) {before after : List (StringText × Form)}
    {key : StringText} {f g : Form} {a : α} (hkey : key.Writes name) (hfg : R f g)
    (h : read (depth + 1) (Form.object (before ++ (key, f) :: after)).tree = .ok a) :
    read (depth + 1) (Form.object (before ++ (key, g) :: after)).tree = fate.of a := by
  rw [Form.tree, hread] at h ⊢
  exact Fate.bind (fun _ hd => foldMembers_met hstep hfg hkey hd) h

/-- A draft that could be completed by a member under the name is not complete. -/
def Needs (step : Nat → σ → String → Tree → Except Error σ) (fin : σ → Except Error α)
    (name : String) : Prop :=
  ∀ {depth d d' t a}, step depth d name t = .ok d' → fin d' = .ok a →
    fin d = .error (.mismatch (.missingField name))

theorem ReadsObjects.removed (hread : ReadsObjects read start step fin)
    (horderly : ∀ d, Orderly (step d) names (skim d)) {name : String} (hname : name ∈ names)
    {depth : Nat} {f g : Form} {a : α} (hfg : MemberRemoved name f g)
    (hf : read depth f.tree = .ok a)
    (hfin : ∀ {depth d d' t}, step depth d name t = .ok d' → fin d' = .ok a →
      fin d = .error (.mismatch (.missingField name))) :
    read depth g.tree = .error (.mismatch (.missingField name)) := by
  cases hfg with
  | member before after hkey =>
    rw [Form.tree, hread] at hf ⊢
    obtain ⟨d, rfl, hf⟩ := Tree.enter_eq_ok.1 hf
    obtain ⟨draft, hfold, hdraft⟩ := Except.bind_eq_ok.1 hf
    obtain ⟨e, he, hstep⟩ := (horderly d).removed hname hkey hfold
    show (foldMembers (step d) start _ none >>= fin) = _
    rw [he, Except.ok_bind, hfin hstep hdraft]

theorem insists_of_orderly (hread : ReadsObjects read start step fin)
    (horderly : ∀ d, Orderly (step d) names (skim d)) (hrequired : required ⊆ names)
    (hneeds : ∀ name ∈ required, Needs step fin name) : Insists read names required skim where
  removed := by
    intro name hname depth f g a hfg hf
    exact hread.removed horderly (hrequired hname) hfg hf (hneeds name hname)
  repeated := by
    intro name hname depth f g a hfg hf
    cases hfg with
    | behind before between after hkey hkey' =>
      rw [Form.tree, hread] at hf ⊢
      obtain ⟨d, rfl, hf⟩ := Tree.enter_eq_ok.1 hf
      obtain ⟨draft, hfold, -⟩ := Except.bind_eq_ok.1 hf
      exact (horderly d).again_behind hname hkey hkey' hfold fin
    | front before between after hkey hkey' =>
      rw [Form.tree, hread] at hf ⊢
      obtain ⟨d, rfl, hf⟩ := Tree.enter_eq_ok.1 hf
      obtain ⟨draft, hfold, -⟩ := Except.bind_eq_ok.1 hf
      exact (horderly d).again_in_front hname hkey hkey' hfold fin
  added := by
    intro d f g a hfg hf
    cases hfg with
    | @member before after _ _ f hkey hname hvalue =>
      rw [Form.tree, hread] at hf ⊢
      obtain ⟨draft, hfold, hdraft⟩ := Except.bind_eq_ok.1 hf
      have hskim : skim d f.tree = .ok () := by
        rcases hvalue with hskim | ⟨key', hkey', hmem⟩
        · exact hskim
        · have hread' : key'.reading.read = .ok _ := congrArg Reading.read (reading_of_writes hkey')
          have hmem' : (key'.reading, f.tree) ∈ Form.membersTrees (before ++ after) :=
            Form.membersTrees_eq_map _ ▸ List.mem_map_of_mem hmem
          exact (horderly d).skim_of_mem hname hread' hmem' hfold
      show (foldMembers (step d) start _ none >>= fin) = _
      rw [(horderly d).unknown_added hname hkey hskim, hfold, Except.ok_bind, hdraft]
      rfl

end

/-! ## Drafts with a field for every member -/

/-- A field of a draft, and how its member is read. -/
structure DraftField (σ : Type) where
  name : String
  Value : Type
  get : σ → Option Value
  put : Option Value → σ → σ
  read : Tree → Except Error Value

namespace DraftField

variable {σ : Type}

/-- The member of the field. -/
def fill (field : DraftField σ) (d : σ) (t : Tree) : Except Error σ :=
  Json.fill field.name (field.get d) (field.read t) >>= fun x => .ok (field.put x d)

/-- A field is what was put there last. -/
def Kept (field : DraftField σ) : Prop :=
  ∀ x d, field.get (field.put x d) = x

/-- Either field is left alone when the other one is filled. -/
structure Apart (field field' : DraftField σ) : Prop where
  get_put : ∀ x d, field.get (field'.put x d) = field.get d
  get_put' : ∀ x d, field'.get (field.put x d) = field'.get d
  put_put : ∀ x y d, field.put x (field'.put y d) = field'.put y (field.put x d)

instance : Std.Symm (@Apart σ) where
  symm _ _ h := ⟨h.get_put', h.get_put, fun x y d => (h.put_put y x d).symm⟩

theorem fill_eq_ok {field : DraftField σ} {d d' : σ} {t : Tree} :
    field.fill d t = .ok d' ↔
      field.get d = none ∧ ∃ a, field.read t = .ok a ∧ d' = field.put (some a) d := by
  constructor
  · intro h
    obtain ⟨x, hx, hd'⟩ := Except.bind_eq_ok.1 h
    obtain ⟨a, ha, rfl⟩ := Json.fill_eq_ok hx
    refine ⟨?_, a, ha, (Except.ok.inj hd').symm⟩
    cases hget : field.get d with
    | none => rfl
    | some b =>
      rw [hget] at hx
      cases hx
  · rintro ⟨hget, a, ha, rfl⟩
    rw [fill, hget, Json.fill, ha]
    rfl

end DraftField

/-- Every member under the name of a field fills that field and no other, and the rest is looked
through. -/
structure Fields {σ : Type} (step : σ → String → Tree → Except Error σ)
    (fields : List (DraftField σ)) (skim : Tree → Except Error Unit) : Prop where
  own : ∀ field ∈ fields, ∀ d t, step d field.name t = field.fill d t
  other : ∀ {name : String}, name ∉ fields.map DraftField.name →
    ∀ d t, step d name t = (skim t).map fun _ => d
  kept : ∀ field ∈ fields, field.Kept
  apart : fields.Pairwise DraftField.Apart

namespace Fields

variable {σ : Type} {step : σ → String → Tree → Except Error σ} {fields : List (DraftField σ)}
  {skim : Tree → Except Error Unit}

theorem own_eq_ok (h : Fields step fields skim) {field : DraftField σ} (hfield : field ∈ fields)
    {d d' : σ} {t : Tree} (ht : step d field.name t = .ok d') :
    field.get d = none ∧ ∃ a, field.read t = .ok a ∧ d' = field.put (some a) d := by
  rw [h.own field hfield] at ht
  exact DraftField.fill_eq_ok.1 ht

theorem orderly (h : Fields step fields skim) :
    Orderly step (fields.map DraftField.name) skim where
  swap := by
    intro d d₁ d₂ name name' t t' hname hname' hne ht ht'
    obtain ⟨field, hfield, rfl⟩ := List.mem_map.1 hname
    obtain ⟨field', hfield', rfl⟩ := List.mem_map.1 hname'
    have hapart : field.Apart field' :=
      h.apart.forall hfield hfield' fun heq => hne (congrArg DraftField.name heq)
    obtain ⟨hnone, a, ha, rfl⟩ := h.own_eq_ok hfield ht
    obtain ⟨hnone', a', ha', rfl⟩ := h.own_eq_ok hfield' ht'
    rw [hapart.get_put'] at hnone'
    refine ⟨field'.put (some a') d, ?_, ?_⟩
    · rw [h.own field' hfield', DraftField.fill_eq_ok]
      exact ⟨hnone', a', ha', rfl⟩
    · rw [h.own field hfield, DraftField.fill_eq_ok, hapart.get_put]
      exact ⟨hnone, a, ha, (hapart.put_put _ _ d).symm⟩
  again := by
    intro d d₁ name t hname ht t'
    obtain ⟨field, hfield, rfl⟩ := List.mem_map.1 hname
    obtain ⟨-, a, -, rfl⟩ := h.own_eq_ok hfield ht
    rw [h.own field hfield, DraftField.fill, h.kept field hfield]
    rfl
  other := h.other

end Fields

end SpendTrace.Json
