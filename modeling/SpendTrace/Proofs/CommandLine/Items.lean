import SpendTrace.CommandLine.Parse
import SpendTrace.Proofs.Except
import SpendTrace.Proofs.Text.Cutting

/-!
# What a command line is made of

A command line that is accepted is a row of items: settings with their values, switches and links.
They may be spelled in several ways, and they are taken one after the other, in the order in which
they stand.

* `Spells`: the items that a line of arguments spells.
* `Draft.take`: what an item does to the line so far.
* `parse_eq_ok_iff`: a line is accepted if and only if it spells items that can be taken.
-/

namespace SpendTrace.CommandLine

open Text

/-! ## Items -/

inductive Item where
  | setting (s : Setting) (value : String)
  | switch (s : Switch)
  | link (text : String)
  deriving DecidableEq

/-- What does not look like an option: a dash alone, or a text that does not begin with one. -/
def IsPlain (s : String) : Prop :=
  s.toList = ['-'] ∨ s.toList.head? ≠ some '-'

/-- The items that a line of arguments spells. The value of a setting stands behind a `=` or in an
argument of its own, switches may share an argument by their letters, and behind `--` there are
links only. -/
inductive Spells : List Item → List String → Prop
  | nil : Spells [] []
  | attached {name : String} {s : Setting} {items : List Item} {line : List String}
      (hname : settings.lookup name = some s) (value : String) (rest : Spells items line) :
    Spells (.setting s value :: items) (("--" ++ name ++ "=" ++ value) :: line)
  | separate {name value : String} {s : Setting} {items : List Item} {line : List String}
      (hname : settings.lookup name = some s) (hvalue : IsPlain value) (rest : Spells items line) :
    Spells (.setting s value :: items) (("--" ++ name) :: value :: line)
  | switch {name : String} {s : Switch} {items : List Item} {line : List String}
      (hname : switches.lookup name = some s) (rest : Spells items line) :
    Spells (.switch s :: items) (("--" ++ name) :: line)
  | letters {cs : List Char} {ss : List Switch} {items : List Item} {line : List String}
      (hne : cs ≠ []) (hcs : cs.mapM (fun c => letters.lookup c) = some ss)
      (rest : Spells items line) :
    Spells (ss.map .switch ++ items) (String.ofList ('-' :: cs) :: line)
  | link {text : String} {items : List Item} {line : List String} (htext : IsPlain text)
      (rest : Spells items line) : Spells (.link text :: items) (text :: line)
  | ended (texts : List String) : Spells (texts.map .link) ("--" :: texts)

namespace Draft

/-- What an item does to the line so far. -/
def take (d : Draft) : Item → Except Refusal Draft
  | .setting s value => d.assign s value
  | .switch s => d.switch s
  | .link text => d.positional text

variable {d d' r : Draft} {s : Setting} {value text : String}

/-! ## Between two items -/

/-- A value goes to its place and nowhere else. -/
theorem assign_eq_ok (h : d.assign s value = .ok d') :
    d'.pending = d.pending ∧ d'.optionsEnded = d.optionsEnded ∧ d'.link = d.link := by
  cases s <;>
  · obtain ⟨p, -, hp⟩ := Except.bind_eq_ok.1 h
    obtain rfl := Except.ok.inj hp
    exact ⟨rfl, rfl, rfl⟩

theorem resolve_eq_ok (h : d.resolve = .ok r) :
    r.pending = none ∧ r.optionsEnded = d.optionsEnded ∧ r.link = d.link := by
  unfold resolve at h
  split at h
  · next hnone => exact Except.ok.inj h ▸ ⟨hnone, rfl, rfl⟩
  · cases h
  · exact assign_eq_ok h

theorem resolve_of_pending_eq_none (hd : d.pending = none) : d.resolve = .ok d := by
  simp only [resolve, hd]

theorem resolve_of_waiting (h : d.pending = some ⟨s, none⟩) :
    d.resolve = .error .invalidValue := by
  simp only [resolve, h]

/-- An item puts nothing off. -/
theorem take_eq_ok (hd : d.pending = none) {i : Item} (h : d.take i = .ok d') :
    d'.pending = none ∧ d'.optionsEnded = d.optionsEnded := by
  cases i with
  | setting s value =>
    obtain ⟨hpending, hended, -⟩ := assign_eq_ok h
    exact ⟨hpending.trans hd, hended⟩
  | switch s =>
    simp only [take, switch, resolve_of_pending_eq_none hd, Except.ok_bind] at h
    cases s with
    | automatic | toEnd | noColor =>
      obtain ⟨b, -, hb⟩ := Except.bind_eq_ok.1 h
      exact Except.ok.inj hb ▸ ⟨hd, rfl⟩
    | verbose => exact Except.ok.inj h ▸ ⟨hd, rfl⟩
    | help | version => cases h
  | link text =>
    simp only [take, positional, resolve_of_pending_eq_none hd, Except.ok_bind] at h
    split at h
    · cases h
    · exact Except.ok.inj h ▸ ⟨hd, rfl⟩

theorem foldlM_take_eq_ok (hd : d.pending = none) {items : List Item}
    (h : items.foldlM take d = .ok d') : d'.pending = none ∧ d'.optionsEnded = d.optionsEnded := by
  induction items generalizing d with
  | nil => exact Except.ok.inj h ▸ ⟨hd, rfl⟩
  | cons i items ih =>
    rw [List.foldlM_cons, Except.bind_eq_ok] at h
    obtain ⟨d₁, hd₁, h⟩ := h
    obtain ⟨hpending, hended⟩ := take_eq_ok hd hd₁
    obtain ⟨hpending', hended'⟩ := ih hpending h
    exact ⟨hpending', hended'.trans hended⟩

theorem foldlM_take_singleton (d : Draft) (i : Item) : [i].foldlM take d = d.take i := by
  rw [List.foldlM_cons]
  exact bind_pure _

/-- Whatever is put off comes before a switch. -/
theorem switch_eq (d : Draft) (s : Switch) :
    d.switch s = d.resolve >>= fun r => r.take (.switch s) := by
  cases hr : d.resolve with
  | error e => simp [switch, hr, bind, Except.bind]
  | ok r =>
    have hr' := resolve_of_pending_eq_none (resolve_eq_ok hr).1
    simp only [Except.ok_bind, take, switch, hr, hr']

/-- Whatever is put off comes before a link. -/
theorem exists_resolve_of_positional (h : d.positional text = .ok d') :
    ∃ r, d.resolve = .ok r ∧ r.take (.link text) = .ok d' := by
  unfold positional at h
  split at h
  · cases h
  · next hnone =>
    obtain ⟨r, hr, h⟩ := Except.bind_eq_ok.1 h
    obtain ⟨hpending, -, hlink⟩ := resolve_eq_ok hr
    have hr' := resolve_of_pending_eq_none hpending
    exact ⟨r, hr, by simp only [take, positional, hlink, hnone, hr', Except.ok_bind, h]⟩

/-- Letters are taken as the switches that they stand for. -/
theorem cluster_eq_ok_iff {cs : List Char} : d.cluster cs = .ok d' ↔
    ∃ ss, cs.mapM (fun c => letters.lookup c) = some ss ∧
      (ss.map Item.switch).foldlM Draft.take d = .ok d' := by
  induction cs generalizing d with
  | nil => simp [cluster]
  | cons c cs ih =>
    rw [cluster, List.foldlM_cons, List.mapM_cons]
    cases hc : letters.lookup c with
    | none => simp
    | some s =>
      constructor
      · intro h
        obtain ⟨d₁, hd₁, h⟩ := Except.bind_eq_ok.1 h
        obtain ⟨ss, hcs, h⟩ := ih.1 h
        refine ⟨s :: ss, by simp [hcs], ?_⟩
        rw [List.map_cons, List.foldlM_cons, show d.take (.switch s) = .ok d₁ from hd₁]
        exact h
      · rintro ⟨ss, hss, h⟩
        obtain ⟨ss, hcs, rfl⟩ : ∃ ss', cs.mapM (fun c => letters.lookup c) = some ss' ∧
            s :: ss' = ss := by simpa [Option.bind_eq_some_iff] using hss
        obtain ⟨d₁, hd₁, h⟩ := Except.bind_eq_ok.1 h
        exact Except.bind_eq_ok.2 ⟨d₁, hd₁, ih.2 ⟨ss, hcs, h⟩⟩

theorem switches_ne_nil {cs : List Char} {ss : List Switch} (hne : cs ≠ [])
    (hcs : cs.mapM (fun c => letters.lookup c) = some ss) : ss ≠ [] := by
  rintro rfl
  cases cs with
  | nil => exact hne rfl
  | cons c cs => simp [Option.bind_eq_some_iff] at hcs

/-- Whatever is put off comes before the first of several switches. -/
theorem foldlM_switches (d : Draft) {ss : List Switch} (hne : ss ≠ []) :
    (ss.map Item.switch).foldlM take d =
      d.resolve >>= fun r => (ss.map Item.switch).foldlM take r := by
  cases ss with
  | nil => exact absurd rfl hne
  | cons s ss =>
    simp only [List.map_cons, List.foldlM_cons]
    rw [show d.take (.switch s) = _ from switch_eq d s, bind_assoc]

/-! ## Whether options may follow -/

/-- Whether options may follow makes no difference to an item. -/
def ending (d : Draft) (b : Bool) : Draft :=
  { d with optionsEnded := b }

theorem ending_eq_self (h : d.optionsEnded = false) : d.ending false = d := by
  rw [ending, ← h]

theorem assign_ending (d : Draft) (b : Bool) (s : Setting) (value : String) :
    (d.ending b).assign s value = (d.assign s value).map (ending · b) := by
  cases s <;>
  · simp only [assign, ending]
    generalize once _ _ = p
    cases p <;> rfl

theorem resolve_ending (d : Draft) (b : Bool) :
    (d.ending b).resolve = d.resolve.map (ending · b) := by
  unfold resolve
  cases hd : d.pending with
  | none => simp [ending, hd, Except.map]
  | some p =>
    obtain ⟨s, value⟩ := p
    cases value with
    | none => simp [ending, hd, Except.map]
    | some value =>
      have hassign := assign_ending { d with pending := none } b s value
      simpa [ending, hd] using hassign

theorem take_ending (d : Draft) (b : Bool) (i : Item) :
    (d.ending b).take i = (d.take i).map (ending · b) := by
  cases i with
  | setting s value => exact assign_ending d b s value
  | switch s =>
    simp only [take, switch, resolve_ending]
    cases d.resolve with
    | error e => rfl
    | ok r =>
      cases s with
      | automatic | toEnd | noColor =>
        simp only [ending, Except.map, Except.ok_bind]
        generalize turnOn _ = p
        cases p <;> rfl
      | verbose | help | version => rfl
  | link text =>
    simp only [take, positional, resolve_ending]
    cases hlink : d.link with
    | some t => simp [ending, hlink, Except.map]
    | none =>
      simp only [ending, hlink]
      cases d.resolve <;> rfl

theorem foldlM_take_ending (items : List Item) (d : Draft) (b : Bool) :
    items.foldlM take (d.ending b) = (items.foldlM take d).map (ending · b) := by
  induction items generalizing d with
  | nil => rfl
  | cons i items ih =>
    rw [List.foldlM_cons, List.foldlM_cons, take_ending]
    cases d.take i with
    | error e => rfl
    | ok r => exact ih r

/-! ## One argument -/

theorem mem_of_lookup {α β : Type} [BEq α] [LawfulBEq α] {l : List (α × β)} {a : α} {b : β}
    (h : l.lookup a = some b) : (a, b) ∈ l := by
  obtain ⟨l₁, l₂, rfl, -⟩ := List.lookup_eq_some_iff.1 h
  simp

/-- The names of options are not empty and end in front of a `=`. -/
theorem name_of_setting {name : String} (h : settings.lookup name = some s) :
    name.toList ≠ [] ∧ '=' ∉ name.toList := by
  have hall : ∀ p ∈ settings, p.1.toList ≠ [] ∧ '=' ∉ p.1.toList := by decide
  exact hall _ (mem_of_lookup h)

theorem name_of_switch {name : String} {s : Switch} (h : switches.lookup name = some s) :
    name.toList ≠ [] ∧ '=' ∉ name.toList ∧ settings.lookup name = none := by
  have hall : ∀ p ∈ switches, p.1.toList ≠ [] ∧ '=' ∉ p.1.toList ∧ settings.lookup p.1 = none := by
    decide
  exact hall _ (mem_of_lookup h)

theorem cut?_name {name : List Char} (h : '=' ∉ name) : cut? ['='] name = none :=
  (cut?_eq_none_iff (by simp) name).2 (not_infix_of_not_mem h)

/-- What an argument is taken for, as long as options may follow: for whole items, for the name of a
setting, for the value of one, or for the end of the options. -/
inductive Reads (d : Draft) (text : String) : Draft → Prop
  | items {l : List Item} {r d' : Draft}
      (hspells : ∀ {items line}, Spells items line → Spells (l ++ items) (text :: line))
      (hr : d.resolve = .ok r) (htake : l.foldlM take r = .ok d') : Reads d text d'
  | name {name : String} {s : Setting} {r : Draft} (htext : text = "--" ++ name)
      (hname : settings.lookup name = some s) (hr : d.resolve = .ok r) :
    Reads d text { r with pending := some ⟨s, none⟩ }
  | value {s : Setting} (htext : IsPlain text) (hwaits : d.pending = some ⟨s, none⟩) :
    Reads d text { d with pending := some ⟨s, some text⟩ }
  | ended (htext : text = "--") : Reads d text (d.ending true)

theorem Reads.switch {name : String} {s : Switch} (hname : switches.lookup name = some s)
    (h : d.switch s = .ok d') : Reads d ("--" ++ name) d' := by
  rw [switch_eq, Except.bind_eq_ok] at h
  obtain ⟨r, hr, htake⟩ := h
  refine .items (l := [.switch s]) (.switch hname) hr ?_
  rw [foldlM_take_singleton, htake]

theorem reads_of_option {name : String} {attached : Option String}
    (h : d.option name attached = .ok d') :
    Reads d ("--" ++ name ++ attached.elim "" ("=" ++ ·)) d' := by
  unfold option at h
  split at h
  · next s hname =>
    obtain ⟨r, hr, h⟩ := Except.bind_eq_ok.1 h
    cases attached with
    | none => exact Except.ok.inj h ▸ .name (by simp) hname hr
    | some value =>
      have htext : "--" ++ name ++ ("=" ++ value) = "--" ++ name ++ "=" ++ value :=
        String.append_assoc.symm
      have htake : r.take (.setting s value) = .ok d' := h
      refine .items (l := [.setting s value]) ?_ hr ((foldlM_take_singleton r _).trans htake)
      exact htext ▸ .attached hname value
  · split at h
    · cases h
    · next s hname =>
      cases attached with
      | some value => cases h
      | none => simpa using Reads.switch hname h

theorem reads_of_cluster {cs : List Char} (hne : cs ≠ []) (h : d.cluster cs = .ok d') :
    Reads d (String.ofList ('-' :: cs)) d' := by
  obtain ⟨ss, hcs, h⟩ := cluster_eq_ok_iff.1 h
  rw [foldlM_switches d (switches_ne_nil hne hcs), Except.bind_eq_ok] at h
  obtain ⟨r, hr, htake⟩ := h
  exact .items (.letters hne hcs) hr htake

theorem reads_of_plain (htext : IsPlain text) (h : d.plain text = .ok d') : Reads d text d' := by
  unfold plain at h
  split at h
  · next s hwaits => exact Except.ok.inj h ▸ .value htext hwaits
  · obtain ⟨r, hr, htake⟩ := exists_resolve_of_positional h
    exact .items (l := [.link text]) (.link htext) hr ((foldlM_take_singleton r _).trans htake)

theorem reads_of_argument (hd : d.optionsEnded = false) (h : d.argument text = .ok d') :
    Reads d text d' := by
  have htext : text = String.ofList text.toList := String.ofList_toList.symm
  rw [argument, if_neg (by simp [hd])] at h
  split at h
  · next hdashes =>
    rw [hdashes] at htext
    exact Except.ok.inj h ▸ .ended htext
  · next rest _ hdashes =>
    split at h
    · next name value hcut =>
      have hrest := cut?_eq_some hcut
      have hoption := reads_of_option h
      have heq : text = "--" ++ String.ofList name ++ ("=" ++ String.ofList value) :=
        String.toList_inj.1 (by simp [hdashes, hrest])
      exact heq ▸ hoption
    · have hoption := reads_of_option h
      have heq : text = "--" ++ String.ofList rest ++ "" := String.toList_inj.1 (by simp [hdashes])
      exact heq ▸ hoption
  · next c cs _ _ hdash =>
    rw [hdash] at htext
    exact htext ▸ reads_of_cluster (by simp) h
  · next _ _ hdash =>
    refine reads_of_plain ?_ h
    cases hlist : text.toList with
    | nil => exact .inr (by simp [hlist])
    | cons c cs =>
      by_cases hc : c = '-'
      · cases cs with
        | nil => exact .inl (by rw [hlist, hc])
        | cons c' cs => exact absurd (hc ▸ hlist) (hdash c' cs)
      · exact .inr (by simp [hlist, hc])

/-! ## A whole line -/

/-- Behind `--` every argument is a link. -/
theorem exists_resolve_of_ended {line : List String} {e : Draft} (hd : d.optionsEnded = true)
    (h : (line.foldlM argument d >>= resolve) = .ok e) :
    ∃ r, d.resolve = .ok r ∧ (line.map .link).foldlM take r = .ok e := by
  induction line generalizing d with
  | nil => exact ⟨e, h, rfl⟩
  | cons text line ih =>
    rw [List.foldlM_cons, bind_assoc, Except.bind_eq_ok] at h
    obtain ⟨d₁, hd₁, h⟩ := h
    rw [argument, if_pos hd] at hd₁
    obtain ⟨r, hr, hr₁⟩ := exists_resolve_of_positional hd₁
    obtain ⟨hpending, hended, -⟩ := resolve_eq_ok hr
    obtain ⟨hpending₁, hended₁⟩ := take_eq_ok hpending hr₁
    obtain ⟨r₁, hr₁', hrest⟩ := ih (hended₁.trans (hended.trans hd)) h
    rw [resolve_of_pending_eq_none hpending₁] at hr₁'
    refine ⟨r, hr, ?_⟩
    rw [List.map_cons, List.foldlM_cons, hr₁, Except.ok_bind, Except.ok.inj hr₁']
    exact hrest

/-- Between two items, the rest of the line spells the items that follow. -/
theorem exists_items {line : List String} {e : Draft} (hd : d.optionsEnded = false)
    (h : (line.foldlM argument d >>= resolve) = .ok e) :
    (∀ s, d.pending = some ⟨s, none⟩ → ∃ value rest items r, line = value :: rest ∧ IsPlain value ∧
      Spells items rest ∧ ({ d with pending := none } : Draft).assign s value = .ok r ∧
      items.foldlM take r = .ok (e.ending false)) ∧
    ((∀ s, d.pending ≠ some ⟨s, none⟩) → ∃ items r, Spells items line ∧ d.resolve = .ok r ∧
      items.foldlM take r = .ok (e.ending false)) := by
  induction line generalizing d with
  | nil =>
    have hresolve : d.resolve = .ok e := h
    refine ⟨fun s hwaits => ?_, fun _ => ⟨[], e, .nil, hresolve, ?_⟩⟩
    · rw [resolve_of_waiting hwaits] at hresolve
      cases hresolve
    · rw [ending_eq_self ((resolve_eq_ok hresolve).2.1.trans hd)]
      rfl
  | cons text line ih =>
    rw [List.foldlM_cons, bind_assoc, Except.bind_eq_ok] at h
    obtain ⟨d₁, hd₁, h⟩ := h
    cases reads_of_argument hd hd₁ with
    | @items l r _ hspells hr htake =>
      obtain ⟨hpending, hended, -⟩ := resolve_eq_ok hr
      obtain ⟨hpending₁, hended₁⟩ := foldlM_take_eq_ok hpending htake
      obtain ⟨items, r₁, hitems, hr₁, hrest⟩ :=
        (ih (hended₁.trans (hended.trans hd)) h).2 (by simp [hpending₁])
      rw [resolve_of_pending_eq_none hpending₁] at hr₁
      obtain rfl := Except.ok.inj hr₁
      refine ⟨fun s hwaits => ?_, fun _ => ⟨l ++ items, r, hspells hitems, hr, ?_⟩⟩
      · rw [resolve_of_waiting hwaits] at hr
        cases hr
      · rw [List.foldlM_append, htake]
        exact hrest
    | @name name s r htext hname hr =>
      obtain ⟨hpending, hended, -⟩ := resolve_eq_ok hr
      obtain ⟨value, rest, items, r₁, rfl, hvalue, hitems, hassign, hrest⟩ :=
        (ih (d := { r with pending := some ⟨s, none⟩ }) (hended.trans hd) h).1 s rfl
      have hr' : ({ r with pending := none } : Draft) = r := by rw [← hpending]
      refine ⟨fun s hwaits => ?_,
        fun _ => ⟨.setting s value :: items, r, htext ▸ .separate hname hvalue hitems, hr, ?_⟩⟩
      · rw [resolve_of_waiting hwaits] at hr
        cases hr
      · rw [List.foldlM_cons, show r.take (.setting s value) = .ok r₁ from hr' ▸ hassign]
        exact hrest
    | @value s htext hwaits =>
      obtain ⟨items, r, hitems, hr, hrest⟩ :=
        (ih (d := { d with pending := some ⟨s, some text⟩ }) hd h).2 (by simp)
      refine ⟨fun s' hwaits' => ?_, fun hnone => absurd hwaits (hnone s)⟩
      obtain rfl : s = s' := by
        rw [hwaits] at hwaits'
        exact congrArg Pending.setting (Option.some.inj hwaits')
      exact ⟨text, line, items, r, rfl, htext, hitems, hr, hrest⟩
    | ended htext =>
      obtain ⟨r₁, hr₁, hlinks⟩ := exists_resolve_of_ended rfl h
      rw [resolve_ending, Except.map_eq_ok] at hr₁
      obtain ⟨r, hr, rfl⟩ := hr₁
      have hended := (resolve_eq_ok hr).2.1.trans hd
      refine ⟨fun s hwaits => ?_, fun _ => ⟨line.map .link, r, htext ▸ .ended line, hr, ?_⟩⟩
      · rw [resolve_of_waiting hwaits] at hr
        cases hr
      · have hback : (r.ending true).ending false = r := ending_eq_self hended
        rw [← hback, foldlM_take_ending, hlinks]
        rfl

/-! ## From items to arguments -/

theorem argument_name {name : String} (hd : d.optionsEnded = false) (hne : name.toList ≠ [])
    (hequals : '=' ∉ name.toList) : d.argument ("--" ++ name) = d.option name none := by
  have hdashes : ("--" ++ name).toList = '-' :: '-' :: name.toList := by simp
  rw [argument, if_neg (by simp [hd]), hdashes]
  cases hname : name.toList with
  | nil => exact absurd hname hne
  | cons c cs =>
    rw [hname] at hequals
    simp only [cut?_name hequals]
    rw [← hname, String.ofList_toList]

theorem argument_name_value {name : String} (hd : d.optionsEnded = false)
    (hequals : '=' ∉ name.toList) (value : String) :
    d.argument ("--" ++ name ++ "=" ++ value) = d.option name (some value) := by
  have hdashes : ("--" ++ name ++ "=" ++ value).toList =
      '-' :: '-' :: (name.toList ++ '=' :: value.toList) := by simp
  have hcut := cut?_singleton_append hequals value.toList
  rw [argument, if_neg (by simp [hd]), hdashes]
  cases hrest : name.toList ++ '=' :: value.toList with
  | nil => simp at hrest
  | cons c cs =>
    rw [hrest] at hcut
    simp only [hcut, String.ofList_toList]

theorem argument_setting {name : String} (hd : d.optionsEnded = false)
    (hname : settings.lookup name = some s) (hr : d.resolve = .ok r) :
    d.argument ("--" ++ name) = .ok { r with pending := some ⟨s, none⟩ } := by
  obtain ⟨hne, hequals⟩ := name_of_setting hname
  rw [argument_name hd hne hequals, option, hname]
  show (d.resolve >>= _) = _
  rw [hr]
  rfl

theorem argument_letters {cs : List Char} {ss : List Switch} (hd : d.optionsEnded = false)
    (hne : cs ≠ []) (hcs : cs.mapM (fun c => letters.lookup c) = some ss) :
    d.argument (String.ofList ('-' :: cs)) = d.cluster cs := by
  cases cs with
  | nil => exact absurd rfl hne
  | cons c cs =>
    have hc : c ≠ '-' := by
      rintro rfl
      simp [show letters.lookup '-' = none by decide] at hcs
    rw [argument, if_neg (by simp [hd]), String.toList_ofList]
    split
    · next h => exact absurd (List.cons.inj (List.cons.inj h).2).1 hc
    · next h => exact absurd (List.cons.inj (List.cons.inj h).2).1 hc
    · next h =>
      obtain ⟨rfl, rfl⟩ := List.cons.inj (List.cons.inj h).2
      rfl
    · next h => exact absurd rfl (h c cs)

theorem argument_plain (hd : d.optionsEnded = false) (htext : IsPlain text) :
    d.argument text = d.plain text := by
  rw [argument, if_neg (by simp [hd])]
  rcases htext with hdash | hhead
  · rw [hdash]
    rfl
  · split
    · next h => simp [h] at hhead
    · next h => simp [h] at hhead
    · next h => simp [h] at hhead
    · rfl

/-- A link that can be taken is taken where something is put off, too. -/
theorem positional_of_take (hr : d.resolve = .ok r) (h : r.take (.link text) = .ok d') :
    d.positional text = .ok d' := by
  obtain ⟨hpending, -, hlink⟩ := resolve_eq_ok hr
  rw [take, positional, resolve_of_pending_eq_none hpending, hlink] at h
  rw [positional, hr]
  exact h

theorem plain_of_take (hr : d.resolve = .ok r) (h : r.take (.link text) = .ok d') :
    d.plain text = .ok d' := by
  unfold plain
  split
  · next s hwaits =>
    rw [resolve_of_waiting hwaits] at hr
    cases hr
  · exact positional_of_take hr h

theorem reading_of_links {texts : List String} {e : Draft} (hd : d.optionsEnded = true)
    (hr : d.resolve = .ok r) (h : (texts.map .link).foldlM take r = .ok e) :
    (texts.foldlM argument d >>= resolve) = .ok e := by
  induction texts generalizing d r with
  | nil => exact hr.trans h
  | cons text texts ih =>
    rw [List.map_cons, List.foldlM_cons, Except.bind_eq_ok] at h
    obtain ⟨d₁, hd₁, h⟩ := h
    obtain ⟨hpending, hended, -⟩ := resolve_eq_ok hr
    obtain ⟨hpending₁, hended₁⟩ := take_eq_ok hpending hd₁
    rw [List.foldlM_cons, argument, if_pos hd, positional_of_take hr hd₁, Except.ok_bind]
    exact ih (hended₁.trans (hended.trans hd)) (resolve_of_pending_eq_none hpending₁) h

/-- An argument that is read as whole items leaves nothing put off for those behind it. -/
theorem reading_behind {l items : List Item} {line : List String} {e : Draft}
    (hd : d.optionsEnded = false) (hr : d.resolve = .ok r)
    (hargument : ∀ {d₁}, l.foldlM take r = .ok d₁ → d.argument text = .ok d₁)
    (h : (l ++ items).foldlM take r = .ok e)
    (hline : ∀ {d₁}, d₁.optionsEnded = false → d₁.resolve = .ok d₁ →
      items.foldlM take d₁ = .ok e →
      ∃ b, (line.foldlM argument d₁ >>= resolve) = .ok (e.ending b)) :
    ∃ b, ((text :: line).foldlM argument d >>= resolve) = .ok (e.ending b) := by
  rw [List.foldlM_append, Except.bind_eq_ok] at h
  obtain ⟨d₁, hd₁, h⟩ := h
  obtain ⟨hpending, hended, -⟩ := resolve_eq_ok hr
  obtain ⟨hpending₁, hended₁⟩ := foldlM_take_eq_ok hpending hd₁
  rw [List.foldlM_cons, hargument hd₁, Except.ok_bind]
  exact hline (hended₁.trans (hended.trans hd)) (resolve_of_pending_eq_none hpending₁) h

/-- A line of items that can be taken is read. -/
theorem reading_of_spells {items : List Item} {line : List String} (hline : Spells items line)
    {e : Draft} (hd : d.optionsEnded = false) (hr : d.resolve = .ok r)
    (h : items.foldlM take r = .ok e) :
    ∃ b, (line.foldlM argument d >>= resolve) = .ok (e.ending b) := by
  induction hline generalizing d r with
  | nil =>
    obtain rfl := Except.ok.inj h
    exact ⟨r.optionsEnded, hr⟩
  | @attached name s _ _ hname value _ ih =>
    refine reading_behind (l := [.setting s value]) hd hr (fun htake => ?_) h ih
    rw [foldlM_take_singleton] at htake
    rw [argument_name_value hd (name_of_setting hname).2, option, hname]
    show (d.resolve >>= fun r => r.assign s value) = _
    rw [hr]
    exact htake
  | @separate name value s items line hname hvalue _ ih =>
    -- The setting waits for its value, which is put off in turn.
    obtain ⟨hpending, hended, -⟩ := resolve_eq_ok hr
    have hr' : ({ r with pending := none } : Draft) = r := by rw [← hpending]
    rw [List.foldlM_cons, Except.bind_eq_ok] at h
    obtain ⟨d₁, hd₁, h⟩ := h
    have hread : ({ r with pending := some ⟨s, none⟩ } : Draft).argument value =
        .ok { r with pending := some ⟨s, some value⟩ } := by
      rw [argument_plain (d := { r with pending := some ⟨s, none⟩ }) (hended.trans hd) hvalue]
      rfl
    rw [List.foldlM_cons, argument_setting hd hname hr, Except.ok_bind, List.foldlM_cons, hread,
      Except.ok_bind]
    refine ih (d := { r with pending := some ⟨s, some value⟩ }) (hended.trans hd) ?_ h
    show ({ r with pending := none } : Draft).assign s value = _
    rw [hr']
    exact hd₁
  | @switch name s _ _ hname _ ih =>
    obtain ⟨hne, hequals, hnone⟩ := name_of_switch hname
    refine reading_behind (l := [.switch s]) hd hr (fun htake => ?_) h ih
    rw [foldlM_take_singleton] at htake
    rw [argument_name hd hne hequals, option, hnone, hname]
    show d.switch s = _
    rw [switch_eq, hr, Except.ok_bind, htake]
  | @letters cs ss _ _ hne hcs _ ih =>
    refine reading_behind hd hr (fun htake => ?_) h ih
    rw [argument_letters hd hne hcs]
    refine cluster_eq_ok_iff.2 ⟨ss, hcs, ?_⟩
    rw [foldlM_switches d (switches_ne_nil hne hcs), hr, Except.ok_bind, htake]
  | @link text _ _ htext _ ih =>
    refine reading_behind (l := [.link text]) hd hr (fun htake => ?_) h ih
    rw [foldlM_take_singleton] at htake
    rw [argument_plain hd htext, plain_of_take hr htake]
  | ended texts =>
    have hdashes : d.argument "--" = .ok (d.ending true) := by
      rw [argument, if_neg (by simp [hd])]
      rfl
    have hlinks : (texts.map .link).foldlM take (r.ending true) = .ok (e.ending true) := by
      rw [foldlM_take_ending, h]
      rfl
    refine ⟨true, ?_⟩
    rw [List.foldlM_cons, hdashes, Except.ok_bind]
    refine reading_of_links rfl ?_ hlinks
    rw [resolve_ending, hr]
    rfl

end Draft

/-! ## The main statement -/

theorem finish_ending (d : Draft) (b : Bool) (serverSetting : Option String) :
    (d.ending b).finish serverSetting = d.finish serverSetting := by
  unfold Draft.finish
  rw [Draft.resolve_ending]
  cases d.resolve <;> rfl

/-- **A command line is accepted exactly if it spells items that go together.** -/
theorem parse_eq_ok_iff {serverSetting : Option String} {line : List String} {a : Arguments} :
    parse serverSetting line = .ok a ↔
      ∃ items d, Spells items line ∧ items.foldlM Draft.take {} = .ok d ∧
        d.finish serverSetting = .ok a := by
  constructor
  · intro h
    obtain ⟨d, hd, hfinish⟩ := Except.bind_eq_ok.1 h
    obtain ⟨e, he, hrest⟩ := Except.bind_eq_ok.1 hfinish
    have hreading : (line.foldlM Draft.argument {} >>= Draft.resolve) = .ok e := by
      rw [hd, Except.ok_bind, he]
    obtain ⟨items, r, hspells, hr, htake⟩ := (Draft.exists_items rfl hreading).2 (by simp)
    obtain rfl := Except.ok.inj hr
    refine ⟨items, e.ending false, hspells, htake, ?_⟩
    have hpending := (Draft.resolve_eq_ok he).1
    rw [finish_ending, Draft.finish, Draft.resolve_of_pending_eq_none hpending]
    exact hrest
  · rintro ⟨items, d, hspells, htake, hfinish⟩
    obtain ⟨b, hreading⟩ := Draft.reading_of_spells (d := {}) hspells rfl rfl htake
    obtain ⟨d₁, hd₁, hresolve⟩ := Except.bind_eq_ok.1 hreading
    have hpending := (Draft.resolve_eq_ok hresolve).1
    have hend : d₁.finish serverSetting = .ok a := by
      rw [← finish_ending d b, Draft.finish, Draft.resolve_of_pending_eq_none hpending] at hfinish
      rw [Draft.finish, hresolve]
      exact hfinish
    rw [parse, hd₁, Except.ok_bind, hend]

end SpendTrace.CommandLine
