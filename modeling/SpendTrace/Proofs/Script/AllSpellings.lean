import SpendTrace.Proofs.Json.Canonical
import SpendTrace.Proofs.Script.Spelling

/-!
# All spellings of a snapshot are read alike

The written form of a snapshot is found among its spellings record by record: each record is written
as an object with its members in the order of the fields.

* `Snapshot.isSpelledBy_toJson`: the written form is one of the spellings.
* `all_spellings_read_alike` is the main statement.
-/

namespace SpendTrace.Script

open Json (Form Record RecordField Value WritesFields)

/-! ## The written form -/

theorem isString_ofString (text : String) : IsString text (.string (.ofString text)) :=
  ⟨_, rfl, Json.StringText.writes_ofString text⟩

theorem exists_isString (text : String) :
    ∃ f, IsString text f ∧ f.IsWritten (.string text) := by
  refine ⟨_, isString_ofString text, ?_⟩
  rw [Form.IsWritten, Form.pieces, List.flatten_singleton, Json.StringText.chars_ofString,
    Value.text]

theorem exists_isNumber {n : Json.Number} (hn : n.isInteger = true) :
    ∃ f, IsNumber n f ∧ f.IsWritten (.number n) := by
  cases n with
  | integer i hi =>
    have hchars := Json.NumeralText.chars_ofInt i
    refine ⟨.number (.ofInt i), ⟨_, rfl, hchars⟩, ?_⟩
    rw [Form.IsWritten, Form.pieces, List.flatten_singleton, hchars]
    rfl
  | double x => cases hn

/-- A field that may be absent is written if it is there. -/
theorem writesFields_optional {α : Type} {IsForm : α → Form → Prop} {document : α → Value}
    (name : String) {o : Option α} (h : ∀ a ∈ o, ∃ f, IsForm a f ∧ f.IsWritten (document a)) :
    WritesFields [⟨name, IsOption IsForm o, o = none⟩] (Value.optional name (o.map document)) := by
  cases o with
  | none => exact .missing rfl .nil
  | some a => exact .single (h a rfl)

namespace Element

theorem exists_valueForm {v : ElementValue} (hv : v.isIntegral = true) :
    ∃ f, v.IsForm f ∧ f.IsWritten v.document := by
  cases v with
  | boolean b => exact ⟨.boolean b, rfl, Json.isWritten_boolean b⟩
  | number n => exact exists_isNumber hv
  | text s => exact exists_isString s

theorem exists_isForm {e : Element} (hi : e.Integral) :
    ∃ f, e.IsForm f ∧ f.IsWritten e.document := by
  refine WritesFields.exists_record (.written (exists_isString e.kind) ?_) anyForm
  obtain ⟨kind, value⟩ := e
  cases value with
  | none => exact .missing trivial .nil
  | some v => exact .single (exists_valueForm (hi v rfl))

theorem exists_isListForm {es : List Element} (hi : ∀ e ∈ es, e.Integral) :
    ∃ f, IsListForm es f ∧ f.IsWritten (listDocument es) := by
  suffices ∃ items, List.Forall₂ IsForm es items ∧
      List.Forall₂ Form.IsWritten items (es.map document) by
    obtain ⟨items, hforms, hwritten⟩ := this
    exact ⟨.array items, ⟨items, rfl, hforms⟩, Json.isWritten_array hwritten⟩
  induction es with
  | nil => exact ⟨[], .nil, .nil⟩
  | cons e es ih =>
    obtain ⟨he, hes⟩ := List.forall_mem_cons.1 hi
    obtain ⟨f, hf, hwritten⟩ := exists_isForm he
    obtain ⟨items, hforms, hitems⟩ := ih hes
    exact ⟨f :: items, .cons hf hforms, .cons hwritten hitems⟩

end Element

theorem Stage.exists_isForm (s : Stage) : ∃ f, s.IsForm f ∧ f.IsWritten s.document :=
  (WritesFields.single (exists_isString s.tag)).exists_record _

theorem Outcome.exists_isForm (o : Outcome) : ∃ f, o.IsForm f ∧ f.IsWritten o.document := by
  cases o with
  | pending =>
    exact (WritesFields.written (exists_isString _) (.missing rfl .nil)).exists_record _
  | result verified =>
    exact (WritesFields.written (exists_isString _)
      (.single ⟨.boolean verified, rfl, Json.isWritten_boolean verified⟩)).exists_record _

theorem MachineState.exists_isForm {m : MachineState} (hi : ∀ e ∈ m.elements, e.Integral) :
    ∃ f, m.IsForm f ∧ f.IsWritten m.document := by
  obtain ⟨hlocking, hunlocking, hcurrent, hredeem, hwitness, hwitnessStack, hmain, halt⟩ :=
    forall_mem_elements.1 hi
  have hlist? (name : String) {list : Option (List Element)}
      (hes : ∀ e ∈ list.getD [], e.Integral) :
      WritesFields [⟨name, IsOption Element.IsListForm list, list = none⟩]
        (Value.optional name (list.map Element.listDocument)) :=
    writesFields_optional name fun es hlist => Element.exists_isListForm <| by
      rwa [Option.mem_def.1 hlist] at hes
  have hscripts : WritesFields (m.fields.take 3) _ :=
    .written (Element.exists_isListForm hlocking) (.written (Element.exists_isListForm hunlocking)
      (.single (Element.exists_isListForm hcurrent)))
  have hstacks : WritesFields (m.fields.drop 6) _ :=
    .written (Element.exists_isListForm hmain) (.written (Element.exists_isListForm halt)
      (.single m.stage.exists_isForm))
  have hall := (((hscripts.append (hlist? "scriptP2sh" hredeem)).append
    (hlist? "scriptWitness" hwitness)).append (hlist? "scriptWitnessStack" hwitnessStack)).append
      hstacks
  exact hall.exists_record anyForm

namespace Snapshot

theorem exists_isForm {s : Snapshot} (hs : s.Integral) :
    ∃ f, s.IsForm f ∧ f.IsWritten s.document := by
  have hstate : ∀ e ∈ s.state.elements, e.Integral := by
    intro e he
    rw [elements_state] at he
    obtain ⟨es, hes, he⟩ := List.mem_flatten.1 he
    exact hs es hes e he
  have hfirst : WritesFields (s.fields.take 2) _ :=
    .written s.outcome.exists_isForm (.single (MachineState.exists_isForm hstate))
  have hstep : WritesFields (s.fields.drop 2)
      (Value.optional "step" (s.step.map fun n => .number (Json.Number.ofUInt64 n))) :=
    writesFields_optional "step" fun n _ => exists_isNumber rfl
  exact (hfirst.append hstep).exists_record anyForm

/-- What a snapshot is written as is one of its spellings. -/
theorem isSpelledBy_toJson {s : Snapshot} (hs : s.Integral) : s.IsSpelledBy s.toJson := by
  obtain ⟨f, hf, hwritten⟩ := exists_isForm hs
  exact ⟨f, hf, hwritten.isText⟩

end Snapshot

/-! ## Main statement -/

/-- **All spellings of a snapshot are read alike.** The snapshot has no doubles and its elements are
well-formed. Then its written form is one of its spellings, and whichever of them is read, the
snapshot comes back. -/
theorem all_spellings_read_alike (s : Snapshot) (hs : s.Integral)
    (hw : ∀ es ∈ s.lists, ∀ e ∈ es, e.WellFormed) :
    s.IsSpelledBy s.toJson ∧ ∀ text, s.IsSpelledBy text → Snapshot.ofJson text = .ok s :=
  ⟨Snapshot.isSpelledBy_toJson hs, fun _ => Snapshot.ofJson_of_isSpelledBy hs hw⟩

set_option maxRecDepth 2000 in
/-- Arrays and objects for records, an escaped key, the value before the type, a value at an opcode,
and unknown members, of which one can only be skipped. -/
theorem shuffled_spelling_is_read :
    let s : Snapshot := ⟨.unlocking, .pending, none, [], [⟨"OP_DUP", none⟩], [], none, none, none,
      [⟨"ScriptNum", some (.number (.integer (-5) (by decide)))⟩], []⟩
    let text := "\x7b \"x\" : [\"\\uD800\", 1e999],\n \"st\\u0061te\" : [[],
      [ \x7b\"value\":false, \"type\":\"OP_DUP\"\x7d ], [], null, null, null,
      [[\"ScriptNum\", -5]], [], \x7b\"y\": \x7b\x7d, \"type\":\"ExecutingScriptSig\"\x7d],
      \"result\":[\"NoResult\",null]\x7d "
    s.Integral ∧ (∀ es ∈ s.lists, ∀ e ∈ es, e.WellFormed) ∧ s.IsSpelledBy text ∧
      Snapshot.ofJson text = .ok s := by
  intro s text
  have hs : s.Integral := by decide
  have hw : ∀ es ∈ s.lists, ∀ e ∈ es, e.WellFormed := by decide
  let name : String → Json.StringText := .ofString
  let string (text : String) : Form := .string (name text)
  let key : Json.StringText :=
    ⟨[.ofChar 's', .ofChar 't', .unit ⟨⟨0, false⟩, ⟨0, false⟩, ⟨6, false⟩, ⟨1, false⟩⟩, .ofChar 't',
      .ofChar 'e']⟩
  let lone : Json.StringText := ⟨[.unit ⟨⟨13, true⟩, ⟨8, false⟩, ⟨0, false⟩, ⟨0, false⟩⟩]⟩
  let huge : Json.NumeralText :=
    ⟨false, .ofNat 1, Json.Digits.ofNat_alone 1, none, some ⟨false, none, .ofNat 999⟩⟩
  let dup : Form := .object [(name "value", .boolean false), (name "type", string "OP_DUP")]
  let number : Form := .array [string "ScriptNum", .number (.ofInt (-5))]
  let stage : Form :=
    .object [(name "y", .object []), (name "type", string "ExecutingScriptSig")]
  let state : Form := .array [.array [], .array [dup], .array [], .null, .null, .null,
    .array [number], .array [], stage]
  let f : Form := .object [(name "x", .array [.string lone, .number huge]), (key, state),
    (name "result", .array [string "NoResult", .null])]
  have hname : ∀ text, (name text).Writes text := Json.StringText.writes_ofString
  have hstring : ∀ text, IsString text (string text) := isString_ofString
  have hkey : key.Writes "state" :=
    (Json.Writes.unit rfl ((Json.Writes.nil.ofChar 'e').ofChar 't') |>.ofChar 't').ofChar 's'
  have hdup : Element.IsForm ⟨"OP_DUP", none⟩ dup :=
    .object (show List.Perm _ ([_, _] ++ []) from List.reverse_perm [_, _])
      (.written (hname "type") (hstring _) (.written (hname "value") .boolean .nil))
      (List.forall_mem_nil _)
  have hnumber : Element.IsForm ⟨"ScriptNum", some (.number (.integer (-5) (by decide)))⟩ number :=
    .array (.cons (hstring _) (.cons ⟨_, rfl, Json.NumeralText.chars_ofInt (-5)⟩ .nil))
  have hstage : Stage.IsForm .unlocking stage :=
    .object (show List.Perm _ ([_] ++ [_]) from List.reverse_perm [_, _])
      (.written (hname "type") (hstring _) .nil)
      (List.forall_mem_singleton.2 ⟨"y", hname "y", by decide,
        .object (List.forall_mem_nil _) (List.forall_mem_nil _)⟩)
  have hnone : Element.IsListForm [] (.array []) := ⟨[], rfl, .nil⟩
  have hstate : s.state.IsForm state :=
    .array (.cons hnone (.cons ⟨[dup], rfl, .cons hdup .nil⟩ (.cons hnone (.cons rfl (.cons rfl
      (.cons rfl (.cons ⟨[number], rfl, .cons hnumber .nil⟩ (.cons hnone
        (.cons hstage .nil)))))))))
  have hresult : Outcome.IsForm .pending (.array [string "NoResult", .null]) :=
    .array (.cons (hstring _) (.cons rfl .nil))
  have hform : s.IsForm f :=
    .object (show List.Perm _ ([_, _] ++ [_]) from List.reverse_perm [_, _, _])
      (.written (hname "result") hresult (.written hkey hstate (.missing rfl .nil)))
      (List.forall_mem_singleton.2 ⟨"x", hname "x", by decide, trivial⟩)
  have htext : text.toList = _ := String.toList_ofList
  have hspaced : Json.Spaced f.pieces text.toList :=
    htext ▸ Json.spaced_of_isSpaced (by decide +kernel)
  have hspelled : s.IsSpelledBy text := ⟨f, hform, hspaced⟩
  exact ⟨hs, hw, hspelled, (all_spellings_read_alike s hs hw).2 text hspelled⟩

end SpendTrace.Script
