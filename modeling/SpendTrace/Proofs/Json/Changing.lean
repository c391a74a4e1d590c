import SpendTrace.Proofs.Json.Record
import SpendTrace.Proofs.Json.Replacing

/-!
# Documents that are changed in one place

One part of a document is changed and everything around it stays as it is. What becomes of the
document is what becomes of the part: either both are read as before, or both are refused with the
same fault.

* `ItemChanged`, `FieldChanged`: an array or a record in which one part is changed.
* `Fate`, `Meets`: what a reader makes of every change of a kind.
* `meets_readList`, `foldMembers_met`, `Entries.next_met`: the reader of the whole meets the fate of
  the reader of the part.
-/

namespace SpendTrace.Json

/-- One item of the array is changed. -/
inductive ItemChanged (R : Form → Form → Prop) : Form → Form → Prop where
  | item (before after : List Form) {f g : Form} (h : R f g) :
    ItemChanged R (.array (before ++ f :: after)) (.array (before ++ g :: after))

/-- The value of the field with this name, which is the entry with this number in an array, is
changed. -/
inductive FieldChanged (name : String) (index : Nat) (R : Form → Form → Prop) :
    Form → Form → Prop where
  | member (before after : List (StringText × Form)) {key : StringText} {f g : Form}
      (hkey : key.Writes name) (h : R f g) :
    FieldChanged name index R (.object (before ++ (key, f) :: after))
      (.object (before ++ (key, g) :: after))
  | entry {before : List Form} (after : List Form) {f g : Form} (hindex : before.length = index)
      (h : R f g) :
    FieldChanged name index R (.array (before ++ f :: after)) (.array (before ++ g :: after))

/-- What becomes of something that could be read. -/
inductive Fate where
  | unharmed
  | refused (error : Error)

/-- What is read instead of `a`. -/
def Fate.of {α : Type} : Fate → α → Except Error α
  | unharmed, a => .ok a
  | refused error, _ => .error error

/-- Whatever the reader could read before such a change meets this fate after it. -/
def Meets {α : Type} (R : Form → Form → Prop) (fate : Fate) (read : Tree → Except Error α) : Prop :=
  ∀ f g a, R f g → read f.tree = .ok a → read g.tree = fate.of a

section

variable {α β σ : Type} {R : Form → Form → Prop} {fate : Fate}

theorem Meets.mono {S : Form → Form → Prop} {read : Tree → Except Error α}
    (h : Meets R fate read) (hS : ∀ f g, S f g → R f g) : Meets S fate read :=
  fun f g a hfg hf => h f g a (hS f g hfg) hf

/-! ## Sequences of steps -/

namespace Fate

/-- The first step meets the fate. -/
theorem bind {x y : Except Error α} (hy : ∀ a, x = .ok a → y = fate.of a)
    {k : α → Except Error β} {b : β} (h : (x >>= k) = .ok b) : (y >>= k) = fate.of b := by
  obtain ⟨a, ha, hk⟩ := Except.bind_eq_ok.1 h
  rw [hy a ha]
  cases fate with
  | unharmed => exact hk
  | refused error => rfl

/-- A step behind the first one meets the fate. -/
theorem behind {x : Except Error α} {k l : α → Except Error β} {b : β} (h : (x >>= k) = .ok b)
    (hl : ∀ a, k a = .ok b → l a = fate.of b) : (x >>= l) = fate.of b := by
  obtain ⟨a, rfl, hk⟩ := Except.bind_eq_ok.1 h
  exact hl a hk

theorem map {x y : Except Error α} (hy : ∀ a, x = .ok a → y = fate.of a) {k : α → β} {b : β}
    (h : x.map k = .ok b) : y.map k = fate.of b := by
  obtain ⟨a, ha, rfl⟩ := Except.map_eq_ok.1 h
  rw [hy a ha]
  cases fate <;> rfl

end Fate

/-! ## Lists -/

theorem meets_readList {read : Nat → Tree → Except Error α} {depth : Nat}
    (hread : Meets R fate (read depth)) :
    Meets (ItemChanged R) fate (readList read (depth + 1)) := by
  rintro _ _ as (@⟨before, after, f, g, hfg⟩) h
  have hlist (items : List Form) : readList read (depth + 1) (Form.array items).tree =
      (items.map Form.tree).mapM (read depth) >>= fun xs => .ok xs := by
    rw [Form.tree, Form.itemsTrees_eq_map]
    rfl
  rw [hlist] at h ⊢
  refine Fate.bind (fun bs hbs => ?_) h
  rw [List.map_append, List.map_cons, List.mapM_append, List.mapM_cons] at hbs ⊢
  exact Fate.behind hbs fun _ hbs =>
    Fate.bind (fun _ hcs => Fate.bind (fun a ha => hread f g a hfg ha) hcs) hbs

/-- A list that may be null is not, before and after an item of it is changed. -/
theorem meets_readOption {read : Tree → Except Error α} (hread : Meets (ItemChanged R) fate read) :
    Meets (ItemChanged R) fate (readOption read) := by
  rintro _ _ o ⟨before, after, hfg⟩ h
  exact Fate.map (fun a ha => hread _ _ a (.item before after hfg) ha) h

/-! ## Objects -/

theorem fill_met {read : Tree → Except Error α} (hread : Meets R fate read) {f g : Form}
    (hfg : R f g) {name : String} {field : Option α} {put : Option α → σ} {d : σ}
    (h : (fill name field (read f.tree) >>= fun x => .ok (put x)) = .ok d) :
    (fill name field (read g.tree) >>= fun x => .ok (put x)) = fate.of d := by
  refine Fate.bind (fun x hx => ?_) h
  cases field with
  | some b => cases hx
  | none => exact Fate.map (fun a ha => hread f g a hfg ha) hx

/-- The members around the one that is changed are read as before. -/
theorem foldMembers_met {step : σ → String → Tree → Except Error σ} {name : String}
    (hstep : ∀ d, Meets R fate (step d name)) {f g : Form} (hfg : R f g) {key : StringText}
    (hkey : key.Writes name) {before after : List (StringText × Form)} {d d' : σ}
    (h : foldMembers step d (Form.membersTrees (before ++ (key, f) :: after)) none = .ok d') :
    foldMembers step d (Form.membersTrees (before ++ (key, g) :: after)) none = fate.of d' := by
  rw [foldMembers_forms_append] at h ⊢
  refine Fate.behind h fun d₁ h => ?_
  rw [foldMembers_key_bind step d₁ hkey] at h ⊢
  exact Fate.bind (fun d₂ hd₂ => hstep d₁ f g d₂ hfg hd₂) h

/-! ## Arrays -/

namespace Entries

/-- The entries of an array of forms. -/
def ofForms (items : List Form) : Entries :=
  ⟨items.map Form.tree, none⟩

/-- One of the first `k` entries is changed. -/
inductive Changed (R : Form → Form → Prop) : Nat → List Form → List Form → Prop where
  | here {k : Nat} {f g : Form} {items : List Form} (h : R f g) :
    Changed R (k + 1) (f :: items) (g :: items)
  | later {k : Nat} {f : Form} {items items' : List Form} (h : Changed R k items items') :
    Changed R (k + 1) (f :: items) (f :: items')

theorem changed_append {f g : Form} (hfg : R f g) {k : Nat} {before : List Form}
    (hk : before.length < k) (after : List Form) :
    Changed R k (before ++ f :: after) (before ++ g :: after) := by
  induction before generalizing k with
  | nil =>
    obtain ⟨k, rfl⟩ := Nat.exists_eq_add_one.2 hk
    exact .here hfg
  | cons first before ih =>
    obtain ⟨k, rfl⟩ := Nat.exists_eq_add_one.2 (Nat.zero_lt_of_lt hk)
    exact .later (ih (Nat.lt_of_succ_lt_succ hk))

variable {k : Nat} {items items' : List Form} {read : Tree → Except Error α} {b : β}

theorem next_met (hread : Meets R fate read) (hitems : Changed R (k + 1) items items')
    {index : Nat} {record : String} {rest : α × Entries → Except Error β}
    (hrest : ∀ a items items', Changed R k items items' →
      rest (a, ofForms items) = .ok b → rest (a, ofForms items') = fate.of b)
    (h : ((ofForms items).next index record read >>= rest) = .ok b) :
    ((ofForms items').next index record read >>= rest) = fate.of b := by
  cases hitems with
  | here hfg =>
    simp only [ofForms, List.map_cons, next_cons_bind] at h ⊢
    exact Fate.bind (fun a ha => hread _ _ a hfg ha) h
  | later hitems =>
    simp only [ofForms, List.map_cons, next_cons_bind] at h ⊢
    exact Fate.behind h fun a h => hrest a _ _ hitems h

theorem nextOption_met (hread : Meets R fate (readOption read))
    (hitems : Changed R (k + 1) items items') {rest : Option α × Entries → Except Error β}
    (hrest : ∀ o items items', Changed R k items items' →
      rest (o, ofForms items) = .ok b → rest (o, ofForms items') = fate.of b)
    (h : ((ofForms items).nextOption read >>= rest) = .ok b) :
    ((ofForms items').nextOption read >>= rest) = fate.of b := by
  cases hitems with
  | here hfg =>
    simp only [ofForms, List.map_cons, nextOption_cons_bind] at h ⊢
    exact Fate.bind (fun o ho => hread _ _ o hfg ho) h
  | later hitems =>
    simp only [ofForms, List.map_cons, nextOption_cons_bind] at h ⊢
    exact Fate.behind h fun o h => hrest o _ _ hitems h

end Entries

end

end SpendTrace.Json
