import SpendTrace.Proofs.Json.Reading

/-!
# Documents in which a part is replaced

A document that could be read is spoilt at one place: a part of it is replaced by something that
cannot be read, and whatever follows that part is changed at will. As every reader goes through its
tree in order and stops at the first fault, the fault of the part is the fault of the document.

* `ItemReplaced`, `FieldReplaced`: an array or a record that is spoilt in one of its parts.
* `Spoils`: a reader reports a fault for what it could read before the change.
* `spoils_readList`, `foldMembers_spoilt`, `next_spoilt`: what a reader of a part reports, the
  reader of the whole reports.
-/

namespace SpendTrace.Json

/-- In the array, one item is replaced, and whatever follows it may have changed. -/
inductive ItemReplaced (R : Tree → Tree → Prop) : Tree → Tree → Prop where
  | item {before after after' : List Tree} {t t' : Tree} {ending ending' : Option Stop}
      (h : R t t') :
    ItemReplaced R (.array (before ++ t :: after) ending) (.array (before ++ t' :: after') ending')

/-- In the record, the value of the field with this name, which is the entry with this number in an
array, is replaced, and whatever follows it may have changed. -/
inductive FieldReplaced (name : String) (index : Nat) (R : Tree → Tree → Prop) :
    Tree → Tree → Prop where
  | member {before after after' : List (Reading String × Tree)} {key : Reading String}
      {t t' : Tree} {ending ending' : Option Stop} (hkey : key.read = .ok name) (h : R t t') :
    FieldReplaced name index R (.object (before ++ (key, t) :: after) ending)
      (.object (before ++ (key, t') :: after') ending')
  | entry {before after after' : List Tree} {t t' : Tree} {ending ending' : Option Stop}
      (hindex : before.length = index) (h : R t t') :
    FieldReplaced name index R (.array (before ++ t :: after) ending)
      (.array (before ++ t' :: after') ending')

/-- What the reader could read before it is replaced, it refuses with this fault afterwards. -/
def Spoils {α : Type} (R : Tree → Tree → Prop) (e : Error) (read : Tree → Except Error α) : Prop :=
  ∀ t t' a, R t t' → read t = .ok a → read t' = .error e

section

variable {α β γ : Type} {R : Tree → Tree → Prop} {e : Error} {t t' : Tree}

/-! ## Sequences of steps -/

/-- A fault behind a step that went well. -/
theorem bind_spoilt {x : Except Error α} {f : α → Except Error β} {g : α → Except Error γ} {b : β}
    (h : (x >>= f) = .ok b) (hrest : ∀ a, f a = .ok b → g a = .error e) :
    (x >>= g) = .error e := by
  obtain ⟨a, rfl, hf⟩ := Except.bind_eq_ok.1 h
  exact hrest a hf

/-- A fault in a step that went well before. -/
theorem bind_spoils {read : Tree → Except Error α} (hread : Spoils R e read) (ht : R t t')
    {f : α → Except Error β} {g : α → Except Error γ} {b : β} (h : (read t >>= f) = .ok b) :
    (read t' >>= g) = .error e := by
  obtain ⟨a, ha, -⟩ := Except.bind_eq_ok.1 h
  rw [hread t t' a ht ha, Except.error_bind]

theorem enter_spoilt {depth : Nat} {f : Nat → Except Error α} {g : Nat → Except Error β} {a : α}
    (h : Tree.enter depth f = .ok a) (hinside : ∀ d, f d = .ok a → g d = .error e) :
    Tree.enter depth g = .error e := by
  obtain ⟨d, rfl, hf⟩ := Tree.enter_eq_ok.1 h
  exact hinside d hf

/-! ## Lists -/

theorem spoils_readList {read : Nat → Tree → Except Error α} (hread : ∀ d, Spoils R e (read d))
    (depth : Nat) : Spoils (ItemReplaced R) e (readList read depth) := by
  rintro _ _ as ⟨ht⟩ h
  refine enter_spoilt h fun d h => ?_
  rw [List.mapM_append, List.mapM_cons] at h ⊢
  simp only [bind_assoc] at h ⊢
  exact bind_spoilt h fun _ h => bind_spoils (hread d) ht h

/-- A list that may be null is not, before and after an item of it is replaced. -/
theorem spoils_readOption {read : Tree → Except Error α}
    (hread : Spoils (ItemReplaced R) e read) : Spoils (ItemReplaced R) e (readOption read) := by
  rintro _ _ o ⟨ht⟩ h
  obtain ⟨a, ha, -⟩ := Except.map_eq_ok.1 h
  show (read _).map some = _
  rw [hread _ _ a (.item ht) ha]
  rfl

/-! ## Objects -/

theorem fill_spoils {σ : Type} {read : Tree → Except Error α} (hread : Spoils R e read)
    (ht : R t t') {name : String} {field : Option α} {put : Option α → σ} {d : σ}
    (h : (fill name field (read t) >>= fun x => .ok (put x)) = .ok d) :
    (fill name field (read t') >>= fun x => .ok (put x)) = .error e := by
  obtain ⟨filled, hfill, -⟩ := Except.bind_eq_ok.1 h
  obtain ⟨a, ha, -⟩ := fill_eq_ok hfill
  cases field with
  | some b => cases hfill
  | none =>
    rw [fill, hread t t' a ht ha]
    rfl

/-- The members before the one that is replaced are read as before. -/
theorem foldMembers_spoilt {σ : Type} {step : σ → String → Tree → Except Error σ} {name : String}
    (hstep : ∀ d, Spoils R e (step d name)) (ht : R t t') {key : Reading String}
    (hkey : key.read = .ok name) {d d' : σ} {before after after' : List (Reading String × Tree)}
    {ending ending' : Option Stop} {g : σ → Except Error β}
    (h : foldMembers step d (before ++ (key, t) :: after) ending = .ok d') :
    (foldMembers step d (before ++ (key, t') :: after') ending' >>= g) = .error e := by
  unfold foldMembers at h ⊢
  simp only [List.foldlM_append, List.foldlM_cons, hkey, Except.ok_bind, bind_assoc] at h ⊢
  exact bind_spoilt h fun d h => bind_spoils (hstep d) ht h

/-! ## Arrays -/

namespace Entries

theorem next_cons_bind (t : Tree) (ts : List Tree) (ending : Option Stop) (index : Nat)
    (record : String) (read : Tree → Except Error α) (f : α × Entries → Except Error β) :
    (next ⟨t :: ts, ending⟩ index record read >>= f) =
      read t >>= fun a => f (a, ⟨ts, ending⟩) := by
  simp only [next, next?]
  cases read t <;> rfl

theorem nextOption_cons_bind (t : Tree) (ts : List Tree) (ending : Option Stop)
    (read : Tree → Except Error α) (f : Option α × Entries → Except Error β) :
    (nextOption ⟨t :: ts, ending⟩ read >>= f) =
      readOption read t >>= fun o => f (o, ⟨ts, ending⟩) := by
  simp only [nextOption, next?]
  cases readOption read t <;> rfl

/-- One of the first `k` entries is replaced, and whatever follows it may have changed. -/
inductive Replaced (R : Tree → Tree → Prop) : Nat → Entries → Entries → Prop where
  | here {k : Nat} {t t' : Tree} {ts ts' : List Tree} {ending ending' : Option Stop} (h : R t t') :
    Replaced R (k + 1) ⟨t :: ts, ending⟩ ⟨t' :: ts', ending'⟩
  | later {k : Nat} {t : Tree} {ts ts' : List Tree} {ending ending' : Option Stop}
      (h : Replaced R k ⟨ts, ending⟩ ⟨ts', ending'⟩) :
    Replaced R (k + 1) ⟨t :: ts, ending⟩ ⟨t :: ts', ending'⟩

theorem replaced_append (ht : R t t') {k : Nat} {before : List Tree} (hk : before.length < k)
    (after after' : List Tree) (ending ending' : Option Stop) :
    Replaced R k ⟨before ++ t :: after, ending⟩ ⟨before ++ t' :: after', ending'⟩ := by
  induction before generalizing k with
  | nil =>
    obtain ⟨k, rfl⟩ := Nat.exists_eq_add_one.2 hk
    exact .here ht
  | cons u before ih =>
    obtain ⟨k, rfl⟩ := Nat.exists_eq_add_one.2 (Nat.zero_lt_of_lt hk)
    exact .later (ih (Nat.lt_of_succ_lt_succ hk))

variable {k : Nat} {es es' : Entries} {read : Tree → Except Error α} {b : β}

theorem next_spoilt (hread : Spoils R e read) (hes : Replaced R (k + 1) es es') {index : Nat}
    {record : String} {f : α × Entries → Except Error β} {g : α × Entries → Except Error γ}
    (hrest : ∀ a es es', Replaced R k es es' → f (a, es) = .ok b → g (a, es') = .error e)
    (h : (es.next index record read >>= f) = .ok b) :
    (es'.next index record read >>= g) = .error e := by
  cases hes with
  | here ht =>
    rw [next_cons_bind] at h ⊢
    exact bind_spoils hread ht h
  | later hes =>
    rw [next_cons_bind] at h ⊢
    exact bind_spoilt h fun a h => hrest a _ _ hes h

theorem nextOption_spoilt (hread : Spoils R e (readOption read))
    (hes : Replaced R (k + 1) es es') {f : Option α × Entries → Except Error β}
    {g : Option α × Entries → Except Error γ}
    (hrest : ∀ o es es', Replaced R k es es' → f (o, es) = .ok b → g (o, es') = .error e)
    (h : (es.nextOption read >>= f) = .ok b) : (es'.nextOption read >>= g) = .error e := by
  cases hes with
  | here ht =>
    rw [nextOption_cons_bind] at h ⊢
    exact bind_spoils hread ht h
  | later hes =>
    rw [nextOption_cons_bind] at h ⊢
    exact bind_spoilt h fun o h => hrest o _ _ hes h

end Entries

end

end SpendTrace.Json
