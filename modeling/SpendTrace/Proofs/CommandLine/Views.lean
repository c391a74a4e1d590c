import SpendTrace.Proofs.CommandLine.Items
import SpendTrace.Proofs.Link.Codec

/-!
# The view that a command line names

A view is named by a link or by its parts, and both ways lead to the same views. A line that is
accepted names one: nothing but a link that does not read can stand between the line and its view.

* `viewOf`: the view that items name, with the defaults filled in.
* `Draft.Holds`: a line so far holds what its items give.
* `accepted_lines_name_views` is the main statement.
-/

namespace SpendTrace.CommandLine

open Service (Endpoint)
open Text

/-! ## What items give -/

namespace Item

def link? : Item → Option String
  | .link text => some text
  | _ => none

/-- The value that an item gives a setting. -/
def value? (s : Setting) : Item → Option String
  | .setting s' value => if s' = s then some value else none
  | _ => none

end Item

/-- The first value that items give a setting. -/
def given (s : Setting) (items : List Item) : Option String :=
  items.findSome? (Item.value? s)

/-- The view that items name. A link comes first. Without one the transaction must be named, and
whatever else is not given has its default. -/
def viewOf (items : List Item) : Except LinkFailure Link :=
  match items.findSome? Item.link?, given .tx items with
  | some text, _ => (Link.parse text).mapError (.unreadable text)
  | none, none => .error .missing
  | none, some tx => .ok
      { target := ⟨tx, ((given .input items).bind Draft.inputIndex?).getD 0⟩
        view :=
          if .switch .automatic ∈ items then .automatic
          else .step (((given .step items).bind (uint64? ·.toList)).getD 0) }

theorem findSome?_concat {α β : Type} (f : α → Option β) (l : List α) (a : α) :
    (l ++ [a]).findSome? f = (l.findSome? f).or (f a) := by
  rw [List.findSome?_append, List.findSome?_singleton]

/-! ## What a line so far holds -/

/-- The text that was given for a place fills it, as `f` reads the text. -/
def Fills {α : Type} (f : String → Option α) (text : Option String) (place : Option α) : Prop :=
  text.map f = place.map some

namespace Fills

variable {α : Type} {f : String → Option α} {place p : Option α} {text : Option String}
  {s : Setting} {items : List Item} {i : Item} {value : String}

theorem bind_eq (h : Fills f text place) : text.bind f = place := by
  cases text <;> cases place <;> simp_all [Fills]

theorem concat (h : Fills f (given s items) place) (hi : i.value? s = none) :
    Fills f (given s (items ++ [i])) place := by
  rw [given, findSome?_concat, hi, Option.or_none]
  exact h

/-- A place that could be filled was empty before. -/
theorem concat_once (h : Fills f (given s items) place) (hi : i.value? s = some value)
    (hp : Draft.once place (f value) = .ok p) : Fills f (given s (items ++ [i])) p := by
  unfold Draft.once at hp
  split at hp
  · cases hp
  · have hnone : given s items = none := Option.map_eq_none_iff.1 h
    rw [given, findSome?_concat, show items.findSome? _ = none from hnone, hi]
    split at hp
    · next a hvalue =>
      obtain rfl := Except.ok.inj hp
      exact congrArg some hvalue
    · cases hp

end Fills

namespace Draft

variable {d d' : Draft} {items items' : List Item}

/-- The line so far holds what its items give. -/
structure Holds (d : Draft) (items : List Item) : Prop where
  link : items.findSome? Item.link? = d.link
  tx : Fills some (given .tx items) d.tx
  input : Fills inputIndex? (given .input items) d.input
  step : Fills (uint64? ·.toList) (given .step items) d.step
  server : Fills some (given .server items) d.server
  apiPrefix : Fills some (given .apiPrefix items) d.apiPrefix
  automatic : .switch .automatic ∈ items ↔ d.automatic = true

theorem holds_nil : ({} : Draft).Holds [] :=
  ⟨rfl, rfl, rfl, rfl, rfl, rfl, by simp⟩

theorem Holds.assign (h : d.Holds items) {s : Setting} {value : String}
    (hd' : d.assign s value = .ok d') : d'.Holds (items ++ [.setting s value]) := by
  have hlink : (items ++ [Item.setting s value]).findSome? Item.link? = d.link := by
    rw [findSome?_concat, h.link]
    exact Option.or_none
  have hautomatic : .switch .automatic ∈ items ++ [Item.setting s value] ↔ d.automatic = true := by
    simp [h.automatic]
  cases s <;> obtain ⟨p, hp, hd'⟩ := Except.bind_eq_ok.1 hd' <;> obtain rfl := Except.ok.inj hd'
  case tx =>
    exact ⟨hlink, h.tx.concat_once rfl hp, h.input.concat rfl, h.step.concat rfl,
      h.server.concat rfl, h.apiPrefix.concat rfl, hautomatic⟩
  case input =>
    exact ⟨hlink, h.tx.concat rfl, h.input.concat_once rfl hp, h.step.concat rfl,
      h.server.concat rfl, h.apiPrefix.concat rfl, hautomatic⟩
  case step =>
    exact ⟨hlink, h.tx.concat rfl, h.input.concat rfl, h.step.concat_once rfl hp,
      h.server.concat rfl, h.apiPrefix.concat rfl, hautomatic⟩
  case server =>
    exact ⟨hlink, h.tx.concat rfl, h.input.concat rfl, h.step.concat rfl,
      h.server.concat_once rfl hp, h.apiPrefix.concat rfl, hautomatic⟩
  case apiPrefix =>
    exact ⟨hlink, h.tx.concat rfl, h.input.concat rfl, h.step.concat rfl,
      h.server.concat rfl, h.apiPrefix.concat_once rfl hp, hautomatic⟩

/-- An item that is no setting leaves the settings as they are. -/
theorem Holds.concat (h : d.Holds items) {i : Item} (hi : ∀ s, i.value? s = none)
    (hlink : (items ++ [i]).findSome? Item.link? = d'.link)
    (hautomatic : .switch .automatic ∈ items ++ [i] ↔ d'.automatic = true)
    (hsettings : d'.tx = d.tx ∧ d'.input = d.input ∧ d'.step = d.step ∧ d'.server = d.server ∧
      d'.apiPrefix = d.apiPrefix) : d'.Holds (items ++ [i]) := by
  obtain ⟨htx, hinput, hstep, hserver, hroutes⟩ := hsettings
  exact ⟨hlink, htx ▸ h.tx.concat (hi _), hinput ▸ h.input.concat (hi _),
    hstep ▸ h.step.concat (hi _), hserver ▸ h.server.concat (hi _),
    hroutes ▸ h.apiPrefix.concat (hi _), hautomatic⟩

theorem Holds.switch (h : d.Holds items) (hd : d.pending = none) {s : Switch}
    (hd' : d.switch s = .ok d') : d'.Holds (items ++ [.switch s]) := by
  have hlink : (items ++ [Item.switch s]).findSome? Item.link? = d.link := by
    rw [findSome?_concat, h.link]
    exact Option.or_none
  simp only [Draft.switch, resolve_of_pending_eq_none hd, Except.ok_bind] at hd'
  cases s with
  | automatic =>
    obtain ⟨b, hb, hd'⟩ := Except.bind_eq_ok.1 hd'
    obtain rfl := Except.ok.inj hd'
    have hon : b = true := by
      unfold turnOn at hb
      split at hb
      · cases hb
      · exact (Except.ok.inj hb).symm
    exact h.concat (fun _ => rfl) hlink (by simp [hon]) ⟨rfl, rfl, rfl, rfl, rfl⟩
  | toEnd | noColor =>
    obtain ⟨b, -, hd'⟩ := Except.bind_eq_ok.1 hd'
    obtain rfl := Except.ok.inj hd'
    exact h.concat (fun _ => rfl) hlink (by simp [h.automatic]) ⟨rfl, rfl, rfl, rfl, rfl⟩
  | verbose =>
    obtain rfl := Except.ok.inj hd'
    exact h.concat (fun _ => rfl) hlink (by simp [h.automatic]) ⟨rfl, rfl, rfl, rfl, rfl⟩
  | help | version => cases hd'

theorem Holds.positional (h : d.Holds items) (hd : d.pending = none) {text : String}
    (hd' : d.positional text = .ok d') : d'.Holds (items ++ [.link text]) := by
  unfold Draft.positional at hd'
  split at hd'
  · cases hd'
  · next hnone =>
    rw [resolve_of_pending_eq_none hd, Except.ok_bind] at hd'
    obtain rfl := Except.ok.inj hd'
    refine h.concat (fun _ => rfl) ?_ (by simp [h.automatic]) ⟨rfl, rfl, rfl, rfl, rfl⟩
    rw [findSome?_concat, h.link, hnone]
    rfl

theorem Holds.take (h : d.Holds items) (hd : d.pending = none) {i : Item}
    (hd' : d.take i = .ok d') : d'.Holds (items ++ [i]) := by
  cases i with
  | setting s value => exact h.assign hd'
  | switch s => exact h.switch hd hd'
  | link text => exact h.positional hd hd'

theorem Holds.foldlM_take (h : d.Holds items) (hd : d.pending = none)
    (hd' : items'.foldlM Draft.take d = .ok d') : d'.Holds (items ++ items') := by
  induction items' generalizing d items with
  | nil =>
    obtain rfl := Except.ok.inj hd'
    rwa [List.append_nil]
  | cons i items' ih =>
    rw [List.foldlM_cons, Except.bind_eq_ok] at hd'
    obtain ⟨d₁, hd₁, hd'⟩ := hd'
    have hrest := ih (h.take hd hd₁) (take_eq_ok hd hd₁).1 hd'
    rwa [List.append_assoc] at hrest

/-- A line that was read as items holds what they give. -/
theorem holds_of_foldlM (h : items.foldlM Draft.take {} = .ok d) : d.Holds items :=
  holds_nil.foldlM_take rfl h

/-! ## What an accepted line names -/

/-- The view of a line so far is the one that its items name, and missing where they name none. -/
theorem Holds.viewOf_eq (h : d.Holds items) (serverSetting : Option String) :
    viewOf items = (d.arguments serverSetting).link := by
  have htx : given .tx items = d.tx := by
    rw [← h.tx.bind_eq, Option.bind_fun_some]
  unfold viewOf
  rw [h.link, htx, h.input.bind_eq, h.step.bind_eq]
  cases hlink : d.link with
  | some text => exact (Arguments.link_of_linkText hlink).symm
  | none =>
    cases htx : d.tx with
    | none => simp only [Arguments.link, Draft.arguments, hlink, htx]
    | some tx =>
      simp only [h.automatic]
      exact (Arguments.link_of_tx (a := d.arguments serverSetting) hlink htx).symm

/-- A line that passes the check has a link or a transaction, so its view can only be unreadable. -/
theorem link_eq_error_of_check (h : d.check = .ok ()) {serverSetting : Option String}
    {f : LinkFailure} (hf : (d.arguments serverSetting).link = .error f) :
    ∃ text e, f = .unreadable text e ∧ d.link = some text ∧ Link.parse text = .error e := by
  have hgiven : (d.link.isNone && d.tx.isNone) = false := by
    unfold Draft.check at h
    split at h
    · cases h
    · split at h
      · cases h
      · next hnone => exact Bool.eq_false_iff.2 hnone
  cases hlink : d.link with
  | some text =>
    rw [Arguments.link_of_linkText hlink] at hf
    cases hparse : Link.parse text with
    | ok l =>
      rw [hparse] at hf
      cases hf
    | error e =>
      rw [hparse] at hf
      exact ⟨text, e, (Except.error.inj hf).symm, rfl, hparse⟩
  | none =>
    cases htx : d.tx with
    | none => simp [hlink, htx] at hgiven
    | some tx =>
      rw [Arguments.link_of_tx hlink htx] at hf
      cases hf

theorem Holds.mem_of_link (h : d.Holds items) {text : String} (hlink : d.link = some text) :
    .link text ∈ items := by
  obtain ⟨i, hi, htext⟩ := List.exists_of_findSome?_eq_some (h.link.trans hlink)
  cases i with
  | link text' =>
    cases htext
    exact hi
  | setting | switch => cases htext

end Draft

/-- An accepted line says what its items give, and passes the check. -/
theorem exists_items_of_parse {serverSetting : Option String} {line : List String} {a : Arguments}
    (h : parse serverSetting line = .ok a) :
    ∃ items, ∃ d : Draft, Spells items line ∧ d.Holds items ∧ d.check = .ok () ∧
      a = d.arguments serverSetting := by
  obtain ⟨items, d, hspells, htake, hfinish⟩ := parse_eq_ok_iff.1 h
  have hpending := (Draft.foldlM_take_eq_ok rfl htake).1
  rw [Draft.finish, Draft.resolve_of_pending_eq_none hpending, Except.ok_bind] at hfinish
  obtain ⟨_, hcheck, ha⟩ := Except.bind_eq_ok.1 hfinish
  exact ⟨items, d, hspells, Draft.holds_of_foldlM htake, hcheck, (Except.ok.inj ha).symm⟩

/-! ## The two ways to name a view -/

/-- The options that name a view by its parts. -/
def flags (l : Link) : List String :=
  ["--tx", l.target.transactionId, "--input",
    String.ofList (digits l.target.inputIndex.toNat)] ++
  match l.view with
  | .step n => ["--step", String.ofList (digits n.toNat)]
  | .automatic => ["--automatic"]

def flagItems (l : Link) : List Item :=
  [.setting .tx l.target.transactionId,
    .setting .input (String.ofList (digits l.target.inputIndex.toNat))] ++
  match l.view with
  | .step n => [.setting .step (String.ofList (digits n.toNat))]
  | .automatic => [.switch .automatic]

theorem isPlain_digits (n : Nat) : IsPlain (String.ofList (digits n)) := by
  refine .inr fun hhead => not_mem_digits (c := '-') rfl n ?_
  rw [String.toList_ofList] at hhead
  exact List.mem_of_mem_head? hhead

theorem spells_flags {l : Link} (hdash : l.target.transactionId.toList.head? ≠ some '-') :
    Spells (flagItems l) (flags l) := by
  obtain ⟨⟨tx, index⟩, view⟩ := l
  have htx : settings.lookup "tx" = some .tx := rfl
  have hinput : settings.lookup "input" = some .input := rfl
  refine .separate htx (.inr hdash) (.separate hinput (isPlain_digits _) ?_)
  cases view with
  | step n =>
    have hstep : settings.lookup "step" = some .step := rfl
    exact .separate hstep (isPlain_digits _) .nil
  | automatic =>
    have hautomatic : switches.lookup "automatic" = some .automatic := rfl
    exact .switch hautomatic .nil

theorem inputIndex?_digits (index : UInt32) :
    Draft.inputIndex? (String.ofList (digits index.toNat)) = some index := by
  have hindex : 0 ≤ (index.toNat : Int) ∧ (index.toNat : Int).toNat < UInt32.size :=
    ⟨Int.natCast_nonneg _, index.toNat_lt_size⟩
  rw [Draft.inputIndex?, String.toList_ofList, signed?_digits, Option.bind_some, if_pos hindex,
    Int.toNat_natCast, UInt32.ofNat_toNat]

/-- What the options that name a view by its parts fill in. -/
def flagDraft (l : Link) : Draft where
  tx := some l.target.transactionId
  input := some l.target.inputIndex
  step := l.requestedStep
  automatic := l.mode = .streamed

theorem parse_flags (serverSetting : Option String) {l : Link}
    (hdash : l.target.transactionId.toList.head? ≠ some '-') :
    parse serverSetting (flags l) = .ok ((flagDraft l).arguments serverSetting) := by
  refine parse_eq_ok_iff.2 ⟨flagItems l, flagDraft l, spells_flags hdash, ?_, ?_⟩
  · obtain ⟨⟨tx, index⟩, view⟩ := l
    cases view with
    | step n =>
      simp [flagItems, flagDraft, Draft.take, Draft.assign, Draft.once, inputIndex?_digits,
        uint64?_digits, Link.requestedStep, Link.mode]
    | automatic =>
      simp [flagItems, flagDraft, Draft.take, Draft.assign, Draft.switch, Draft.resolve,
        Draft.turnOn, Draft.once, inputIndex?_digits, Link.requestedStep, Link.mode]
  · obtain ⟨target, view⟩ := l
    cases view <;> rfl

theorem link_flagDraft (l : Link) (serverSetting : Option String) :
    ((flagDraft l).arguments serverSetting).link = .ok l := by
  obtain ⟨target, view⟩ := l
  cases view <;> rfl

theorem parse_link (serverSetting : Option String) {text : String} (htext : IsPlain text) :
    parse serverSetting [text] =
      .ok (Draft.arguments { link := some text } serverSetting) :=
  parse_eq_ok_iff.2 ⟨[.link text], { link := some text }, .link htext .nil, rfl, rfl⟩

theorem isPlain_text (l : Link) : IsPlain l.text := by
  refine .inr ?_
  rw [Link.text, String.toList_ofList, Link.chars_eq]
  simp

theorem parse_text {l : Link} (h : l.WellFormed) : Link.parse l.text = .ok l := by
  refine Link.parse_of_route h ?_
  have hroute := Link.route_padded h (List.forall_mem_nil _) (List.forall_mem_nil _)
  simpa [Link.text] using hroute

/-! ## Main statement -/

/-- A command line that is accepted names a view, the one that its items name; only a link that does
not read can stand in the way, and never that neither a link nor a transaction is given. And a view
can be named by its parts as well as by its link: both lines are accepted, both name that view, and
the endpoint is the same for all views. -/
theorem accepted_lines_name_views (serverSetting : Option String) :
    (∀ line a, parse serverSetting line = .ok a → ∃ items, Spells items line ∧
      viewOf items = a.link ∧ ∀ f, a.link = .error f →
        ∃ text e, f = .unreadable text e ∧ .link text ∈ items ∧ Link.parse text = .error e) ∧
    ∀ l : Link, l.WellFormed → l.target.transactionId.toList.head? ≠ some '-' →
      ∃ a b, parse serverSetting (flags l) = .ok a ∧ parse serverSetting [l.text] = .ok b ∧
        a.link = .ok l ∧ b.link = .ok l ∧ a.endpoint = b.endpoint ∧
        a.endpoint = ⟨serverSetting.getD Endpoint.defaultServer, Endpoint.defaultApiPrefix⟩ := by
  constructor
  · intro line a h
    obtain ⟨items, d, hspells, hholds, hcheck, rfl⟩ := exists_items_of_parse h
    refine ⟨items, hspells, hholds.viewOf_eq serverSetting, fun f hf => ?_⟩
    obtain ⟨text, e, hf, hlink, hparse⟩ := Draft.link_eq_error_of_check hcheck hf
    exact ⟨text, e, hf, hholds.mem_of_link hlink, hparse⟩
  · intro l hl hdash
    refine ⟨_, _, parse_flags serverSetting hdash, parse_link serverSetting (isPlain_text l),
      link_flagDraft l serverSetting, ?_, rfl, rfl⟩
    rw [Arguments.link_of_linkText rfl, parse_text hl]
    rfl

/-- The id may look like an assignment and hold blanks, and a link may begin with a dash behind
`--`, though it then does not read. -/
theorem accepted_lines_name_views_at_the_limits :
    let l : Link := ⟨⟨"tx=ab -1", 4294967295⟩, .step 18446744073709551615⟩
    (∃ items, Spells items ["--no-color", "--", "-x"] ∧
      viewOf items = .error (.unreadable "-x" (.notInterpretLink "-x"))) ∧
    ∃ a b, parse (some "") (flags l) = .ok a ∧ parse (some "") [l.text] = .ok b ∧
      a.link = .ok l ∧ b.link = .ok l ∧ a.endpoint = b.endpoint := by
  intro l
  obtain ⟨hlines, hviews⟩ := accepted_lines_name_views (some "")
  have hline : parse (some "") ["--no-color", "--", "-x"] =
      .ok ⟨some "-x", none, 0, 0, false, ⟨"", "api"⟩, false, true, 0⟩ := by rfl
  obtain ⟨items, hspells, hview, -⟩ := hlines _ _ hline
  obtain ⟨a, b, ha, hb, hlink, hlink', hsame, -⟩ := hviews l (by decide) (by decide)
  exact ⟨⟨items, hspells, hview.trans rfl⟩, a, b, ha, hb, hlink, hlink', hsame⟩

end SpendTrace.CommandLine
