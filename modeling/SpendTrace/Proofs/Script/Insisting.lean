import SpendTrace.Proofs.Json.Accepted
import SpendTrace.Proofs.Json.Canonical
import SpendTrace.Proofs.Script.Members

/-!
# Every known member once

A document consists of records: the snapshot, its state and its result, the stage of the state and
the elements of its lists. Each of them insists on its members. If one that is required is taken
out of a document that could be read, the document is refused for that member; if one that is known
is put in a second time, the document is refused for that one, wherever it is put and even if the
first one is null. A member that is not known may be put in as often as one likes.

* `RecordKind`: the records of a document, with their members.
* `RecordKind.meets`: what becomes of a record becomes of the document.
* `Snapshot.exists_form`: every document that can be read has a form.
* `members_are_insisted_on` is the main statement.
-/

namespace SpendTrace.Script

open Json (Tree Error Form Insists Meets Fate FieldChanged MemberRemoved MemberRepeated MemberAdded)

/-! ## Records -/

/-- The records of which a document consists. -/
inductive RecordKind where
  | snapshot
  | state
  | result
  | stage
  | element
  deriving DecidableEq

namespace RecordKind

/-- The members that a record knows. -/
def members : RecordKind → List String
  | snapshot => ["result", "state", "step"]
  | state => MachineState.listNames ++ ["stage"]
  | result => ["type", "value"]
  | stage => ["type"]
  | element => ["type", "value"]

/-- The members that may not miss in a document with this outcome. -/
def required : RecordKind → Outcome → List String
  | snapshot, _ => ["result", "state"]
  | state, _ => MachineState.required
  | result, .pending => ["type"]
  | result, .result _ => ["type", "value"]
  | stage, _ => ["type"]
  | element, _ => ["type"]

/-- The values that members under unknown names may have. Those of a stage are read, and three
containers lie around them. -/
def Admissible : RecordKind → Form → Prop
  | stage => Form.Readable (Json.maxDepth - 3)
  | _ => anyForm

/-- In the document, one record of this kind is changed. -/
def Changed : RecordKind → (Form → Form → Prop) → Form → Form → Prop
  | snapshot, R => R
  | state, R => FieldChanged "state" 1 R
  | result, R => FieldChanged "result" 0 R
  | stage, R => FieldChanged "state" 1 (FieldChanged "stage" 8 R)
  | element, R => FieldChanged "state" 1 (MachineState.ElementChanged R)

theorem of_required {kind : RecordKind} {o : Outcome} {name : String}
    (h : name ∈ kind.required o) (hnot : name ∉ kind.required .pending) :
    kind = .result ∧ name = "value" ∧ ∃ verified, o = .result verified := by
  cases kind with
  | snapshot | state | stage | element => exact absurd h hnot
  | result =>
    cases o with
    | pending => exact absurd h hnot
    | result verified =>
      rcases List.mem_cons.1 h with rfl | h
      · exact absurd (List.mem_singleton_self _) hnot
      · exact ⟨rfl, List.mem_singleton.1 h, verified, rfl⟩

/-! ### Their readers -/

/-- What a record is read as. -/
def Value : RecordKind → Type
  | snapshot => Snapshot
  | state => MachineState
  | result => Outcome
  | stage => Stage
  | element => Element

def read : (kind : RecordKind) → Nat → Tree → Except Error kind.Value
  | snapshot => Snapshot.read
  | state => MachineState.read
  | result => Outcome.read
  | stage => Stage.read
  | element => Element.read

/-- How an unknown member is looked through. -/
def skim : RecordKind → Nat → Tree → Except Error Unit
  | stage => fun depth => Tree.check depth
  | _ => fun _ => Tree.skip

/-- How many containers may lie inside each other in a member of the record. -/
def depth : RecordKind → Nat
  | snapshot => 126
  | state => 125
  | result => 125
  | stage => 124
  | element => 123

theorem insists (kind : RecordKind) :
    Insists kind.read kind.members (kind.required .pending) kind.skim := by
  cases kind with
  | snapshot => exact Snapshot.insists
  | state => exact MachineState.insists
  | result => exact Outcome.insists
  | stage => exact Stage.insists
  | element => exact Element.insists

theorem Admissible.skim {kind : RecordKind} {f : Form} (h : kind.Admissible f) :
    kind.skim kind.depth f.tree = .ok () := by
  cases kind with
  | stage => exact Form.Readable.check_tree h
  | snapshot | state | result | element => exact f.whole_tree

/-- What becomes of a record becomes of the document. -/
theorem meets (kind : RecordKind) {R : Form → Form → Prop} {fate : Fate}
    (h : Meets R fate (kind.read (kind.depth + 1))) :
    Meets (kind.Changed R) fate (Snapshot.read Json.maxDepth) := by
  cases kind with
  | snapshot => exact h
  | state => exact Snapshot.meets_state h
  | result => exact Snapshot.meets_result h
  | stage => exact Snapshot.meets_state (MachineState.meets_stage h)
  | element => exact Snapshot.meets_state (MachineState.meets_element h)

end RecordKind

/-! ## Documents -/

namespace Snapshot

/-- A document that can be read is a container that is closed. -/
theorem closed_of_read {depth : Nat} {t : Tree} {s : Snapshot} (h : Snapshot.read depth t = .ok s) :
    t.Closed := by
  cases t with
  | object members ending =>
    obtain ⟨d, -, h⟩ := Tree.enter_eq_ok.1 h
    obtain ⟨draft, hfold, -⟩ := Except.bind_eq_ok.1 h
    obtain rfl := Json.ending_of_foldMembers hfold
    trivial
  | array items ending =>
    obtain ⟨d, -, h⟩ := Tree.enter_eq_ok.1 h
    obtain ⟨⟨outcome, es₁⟩, hresult, h⟩ := Except.bind_eq_ok.1 h
    obtain ⟨⟨state, es₂⟩, hstate, h⟩ := Except.bind_eq_ok.1 h
    obtain ⟨⟨step, es₃⟩, hstep, h⟩ := Except.bind_eq_ok.1 h
    obtain ⟨_, hfinish, -⟩ := Except.bind_eq_ok.1 h
    obtain rfl : ending = none := by
      rw [← Json.Entries.ending_of_finish hfinish, Json.Entries.nextOption_ending hstep,
        Json.Entries.next_ending hstate, Json.Entries.next_ending hresult]
    trivial
  | null | boolean | number | string | misspelled | missing => cases h

theorem parse_of_ofJson {text : String} {s : Snapshot} (h : ofJson text = .ok s) :
    ∃ t, Json.parse text.toList = ⟨t, false⟩ ∧ Snapshot.read Json.maxDepth t = .ok s := by
  obtain ⟨a, hread, h⟩ := Except.bind_eq_ok.1 h
  split at h
  · cases h
  · next htrailing =>
    cases h
    refine ⟨_, ?_, hread⟩
    rw [← Bool.eq_false_iff.2 htrailing]

/-- Every text that can be read has a form. -/
theorem exists_form {text : String} {s : Snapshot} (h : ofJson text = .ok s) :
    ∃ f : Form, f.IsText text := by
  obtain ⟨t, hparse, hread⟩ := parse_of_ofJson h
  exact Json.exists_form_of_parse (closed_of_read hread) hparse

theorem ofJson_of_isText {f : Form} {text : String} (h : f.IsText text) :
    ofJson text = Snapshot.read Json.maxDepth f.tree := by
  rw [ofJson, Json.readText, Json.parse_of_isText h]
  show (Snapshot.read Json.maxDepth f.tree >>= fun s => .ok s) = _
  cases Snapshot.read Json.maxDepth f.tree <;> rfl

/-- What a change makes of a form, it makes of the texts of the form. -/
theorem ofJson_met {R : Form → Form → Prop} {fate : Fate}
    (hread : Meets R fate (Snapshot.read Json.maxDepth)) {f g : Form} (hfg : R f g)
    {text text' : String} (hf : f.IsText text) (hg : g.IsText text') {s : Snapshot}
    (hs : ofJson text = .ok s) : ofJson text' = fate.of s := by
  rw [ofJson_of_isText hf] at hs
  rw [ofJson_of_isText hg]
  exact hread f g s hfg hs

/-- A verdict cannot do without its value. -/
theorem ofJson_without_value {f g : Form} {text text' : String} (hf : f.IsText text)
    (hg : g.IsText text') {s : Snapshot} (hs : ofJson text = .ok s) {verified : Bool}
    (hverified : s.outcome = .result verified)
    (hfg : FieldChanged "result" 0 (MemberRemoved "value") f g) :
    ofJson text' = .error (.mismatch (.missingField "value")) := by
  have hread : Meets (fun u v => MemberRemoved "value" u v ∧
      Outcome.read 126 u.tree = .ok s.outcome)
      (.refused (.mismatch (.missingField "value"))) (Outcome.read 126) := by
    rintro u v o ⟨huv, hu⟩ -
    exact Outcome.read_without_value huv (hverified ▸ hu)
  have hs' := hs
  rw [ofJson_of_isText hf] at hs'
  exact ofJson_met (meets_result hread) (fieldChanged_of_read hfg hs') hf hg hs

theorem ofJson_removed {kind : RecordKind} {name : String} {f g : Form} {text text' : String}
    (hf : f.IsText text) (hg : g.IsText text') {s : Snapshot} (hs : ofJson text = .ok s)
    (hname : name ∈ kind.required s.outcome) (hfg : kind.Changed (MemberRemoved name) f g) :
    ofJson text' = .error (.mismatch (.missingField name)) := by
  by_cases halways : name ∈ kind.required .pending
  · exact ofJson_met (kind.meets (kind.insists.removed name halways _)) hfg hf hg hs
  · -- Only the value of a verdict is not required of every document.
    obtain ⟨rfl, rfl, verified, hverified⟩ := RecordKind.of_required hname halways
    exact ofJson_without_value hf hg hs hverified hfg

end Snapshot

/-! ## Main statement -/

/-- **Every known member once.** Every text that can be read is the text of a form. In such a form
let one record be changed, be it the snapshot, its state, its result, its stage or an element. If a
member that the record requires is removed from it, every text of the new form is refused because
that field is missing. If a member under a name that the record knows is inserted a second time, it
is refused because that field is duplicated. And if a member under another name is inserted, with a
value that is admissible or that such a member has, the snapshot is read as before. What is printed
for a refusal begins with the wording given here. -/
theorem members_are_insisted_on :
    (∀ text s, Snapshot.ofJson text = .ok s → ∃ f : Form, f.IsText text) ∧
    ∀ (f : Form) text s, f.IsText text → Snapshot.ofJson text = .ok s →
      ∀ (kind : RecordKind) (g : Form) text', g.IsText text' →
        (∀ name ∈ kind.required s.outcome, kind.Changed (MemberRemoved name) f g →
          ∃ error, Snapshot.ofJson text' = .error error ∧ error.category = .data ∧
            error.message = "missing field `" ++ name ++ "`" ∧
            ∀ line column, error.message.toList <+: (error.textAt line column).toList) ∧
        (∀ name ∈ kind.members, kind.Changed (MemberRepeated name) f g →
          ∃ error, Snapshot.ofJson text' = .error error ∧ error.category = .data ∧
            error.message = "duplicate field `" ++ name ++ "`" ∧
            ∀ line column, error.message.toList <+: (error.textAt line column).toList) ∧
        (kind.Changed (MemberAdded kind.members kind.Admissible) f g →
          Snapshot.ofJson text' = .ok s) := by
  refine ⟨fun text s => Snapshot.exists_form, ?_⟩
  intro f text s hf hs kind g text' hg
  refine ⟨?_, ?_, ?_⟩
  · intro name hname hfg
    exact ⟨_, Snapshot.ofJson_removed hf hg hs hname hfg, rfl, rfl,
      Error.message_prefix_textAt _⟩
  · intro name hname hfg
    have hread := kind.meets (kind.insists.repeated name hname _)
    exact ⟨_, Snapshot.ofJson_met hread hfg hf hg hs, rfl, rfl, Error.message_prefix_textAt _⟩
  · intro hfg
    have hadded : Meets (MemberAdded kind.members kind.Admissible) .unharmed _ :=
      (kind.insists.added kind.depth).mono fun _ _ h => h.mono fun _ => RecordKind.Admissible.skim
    exact Snapshot.ofJson_met (kind.meets hadded) hfg hf hg hs

set_option maxRecDepth 4000 in
/-- A verdict without its value, a null in front of a null, and an unknown member of the stage that
is there twice. -/
theorem verdict_is_insisted_on :
    let text := "\x7b\"result\":\x7b\"type\":\"Result\",\"value\":true\x7d,
      \"state\":\x7b\"stack\":[],\"altStack\":[],\"scriptPubKey\":[],\"scriptSig\":[],
      \"currentScript\":[],\"scriptP2sh\":null,
      \"stage\":\x7b\"x\":[1],\"type\":\"ExecutingScriptSig\"\x7d\x7d\x7d"
    let valueless := "\x7b\"result\":\x7b\"type\":\"Result\"\x7d,
      \"state\":\x7b\"stack\":[],\"altStack\":[],\"scriptPubKey\":[],\"scriptSig\":[],
      \"currentScript\":[],\"scriptP2sh\":null,
      \"stage\":\x7b\"x\":[1],\"type\":\"ExecutingScriptSig\"\x7d\x7d\x7d"
    let doubled := "\x7b\"result\":\x7b\"type\":\"Result\",\"value\":true\x7d,
      \"state\":\x7b\"scriptP2sh\":null,\"stack\":[],\"altStack\":[],\"scriptPubKey\":[],
      \"scriptSig\":[],\"currentScript\":[],\"scriptP2sh\":null,
      \"stage\":\x7b\"x\":[1],\"type\":\"ExecutingScriptSig\"\x7d\x7d\x7d"
    let repeated := "\x7b\"result\":\x7b\"type\":\"Result\",\"value\":true\x7d,
      \"state\":\x7b\"stack\":[],\"altStack\":[],\"scriptPubKey\":[],\"scriptSig\":[],
      \"currentScript\":[],\"scriptP2sh\":null,
      \"stage\":\x7b\"x\":[1],\"type\":\"ExecutingScriptSig\",\"x\":[1]\x7d\x7d\x7d"
    ∃ s, Snapshot.ofJson text = .ok s ∧ s.outcome = .result true ∧
      (∃ error, Snapshot.ofJson valueless = .error error ∧ error.category = .data ∧
        error.message = "missing field `value`" ∧
        ∀ line column, error.message.toList <+: (error.textAt line column).toList) ∧
      (∃ error, Snapshot.ofJson doubled = .error error ∧ error.category = .data ∧
        error.message = "duplicate field `scriptP2sh`" ∧
        ∀ line column, error.message.toList <+: (error.textAt line column).toList) ∧
      Snapshot.ofJson repeated = .ok s := by
  intro text valueless doubled repeated
  let name : String → Json.StringText := .ofString
  let string (text : String) : Form := .string (name text)
  have hname : ∀ text, (name text).Writes text := Json.StringText.writes_ofString
  let typeMember : Json.StringText × Form := (name "type", string "Result")
  let valueMember : Json.StringText × Form := (name "value", .boolean true)
  let unknown : Json.StringText × Form := (name "x", .array [.number (.ofInt 1)])
  let stageType : Json.StringText × Form := (name "type", string "ExecutingScriptSig")
  let lists : List (Json.StringText × Form) := [(name "stack", .array []),
    (name "altStack", .array []), (name "scriptPubKey", .array []), (name "scriptSig", .array []),
    (name "currentScript", .array [])]
  let null : Json.StringText × Form := (name "scriptP2sh", .null)
  let result : Json.StringText × Form := (name "result", .object [typeMember, valueMember])
  let stage : Json.StringText × Form := (name "stage", .object [unknown, stageType])
  let state : Json.StringText × Form := (name "state", .object (lists ++ [null, stage]))
  let f : Form := .object [result, state]
  let f₁ : Form := .object [(name "result", .object [typeMember]), state]
  let f₂ : Form := .object [result, (name "state", .object (null :: (lists ++ [null, stage])))]
  let f₃ : Form := .object [result, (name "state", .object (lists ++
    [null, (name "stage", .object [unknown, stageType, unknown])]))]
  have htext : text.toList = _ := String.toList_ofList
  have hf : f.IsText text :=
    show Json.Spaced f.pieces text.toList from htext ▸ Json.spaced_of_isSpaced (by decide +kernel)
  have hvalueless : valueless.toList = _ := String.toList_ofList
  have hf₁ : f₁.IsText valueless := show Json.Spaced f₁.pieces valueless.toList from
    hvalueless ▸ Json.spaced_of_isSpaced (by decide +kernel)
  have hdoubled : doubled.toList = _ := String.toList_ofList
  have hf₂ : f₂.IsText doubled := show Json.Spaced f₂.pieces doubled.toList from
    hdoubled ▸ Json.spaced_of_isSpaced (by decide +kernel)
  have hrepeated : repeated.toList = _ := String.toList_ofList
  have hf₃ : f₃.IsText repeated := show Json.Spaced f₃.pieces repeated.toList from
    hrepeated ▸ Json.spaced_of_isSpaced (by decide +kernel)
  have hread : Snapshot.ofJson text =
      .ok ⟨.unlocking, .result true, none, [], [], [], none, none, none, [], []⟩ := by
    rw [Snapshot.ofJson_of_isText hf]
    rfl
  have hall := members_are_insisted_on.2 f text _ hf hread
  refine ⟨_, hread, rfl, ?_, ?_, ?_⟩
  · refine (hall .result f₁ valueless hf₁).1 "value" (by decide) ?_
    exact .member [] [state] (hname "result") (.member [typeMember] [] (hname "value"))
  · refine (hall .state f₂ doubled hf₂).2.1 "scriptP2sh" (by decide) ?_
    exact .member [result] [] (hname "state")
      (.front [] lists [stage] (hname "scriptP2sh") (hname "scriptP2sh"))
  · refine (hall .stage f₃ repeated hf₃).2.2 ?_
    refine .member [result] [] (hname "state") (.member (lists ++ [null]) [] (hname "stage") ?_)
    have hcopy : unknown ∈ [unknown, stageType] ++ [] := List.mem_cons_self
    exact .member [unknown, stageType] [] (hname "x") (by decide) (.inr ⟨_, hname "x", hcopy⟩)

end SpendTrace.Script
