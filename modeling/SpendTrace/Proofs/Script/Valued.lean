import SpendTrace.Proofs.Json.Canonical
import SpendTrace.Proofs.Json.Places
import SpendTrace.Proofs.Script.Decoded
import SpendTrace.Proofs.Script.Spelling

/-!
# Literals have values, and nothing else has

Three tests single out the literals among the elements of a snapshot that was read: having a value,
being of a literal kind, and being sorted under the values. No literal gets in without its value:
whatever place of whatever list it is put in, the document is refused for it.

* `Opcode.classify_eq_values_iff`: the table agrees with the list of literal markers.
* `Element.IsBare`: the forms of a literal that has no value.
* `Snapshot.ElementReplaced`: documents in which one element is replaced.
* `literals_have_values` is the main statement.
-/

namespace SpendTrace.Opcode

/-! ## Literal markers -/

/-- What the standard index knows is listed in the standard table. -/
theorem mem_listed_of_classify {kind : String} {category : Category}
    (h : classify kind = some category) : (kind, category) ∈ standardTable.listed := by
  obtain ⟨before, after, hentries, -⟩ := List.lookup_eq_some_iff.1 h
  have hmem : (kind, category) ∈ standard.entries := by simp [hentries]
  exact List.mem_reverse.1 hmem

theorem marker_of_listed :
    ∀ entry ∈ standardTable.listed, entry.2 = .values → isLiteralMarker entry.1 = true := by
  decide +kernel

/-- The kinds that are sorted under the values are the literal markers. -/
theorem classify_eq_values_iff (kind : String) :
    classify kind = some .values ↔ isLiteralMarker kind = true := by
  constructor
  · intro h
    exact marker_of_listed _ (mem_listed_of_classify h) rfl
  · intro h
    rcases (isLiteralMarker_iff kind).1 h with rfl | rfl <;> decide +kernel

end SpendTrace.Opcode

namespace SpendTrace.Script

open Json (Tree Error Form Frame Held Record RecordField Spoils ItemReplaced FieldReplaced)

namespace Element

/-! ## Literals without a value -/

/-- The fields of an element without a value: if there is one, it is null. -/
def bareFields (kind : String) : List RecordField :=
  [⟨"type", IsString kind, False⟩, ⟨"value", (· = .null), True⟩]

/-- The forms of an element of this kind whose value is missing or null: objects with these members
in any order and with any others, and arrays with or without the null. -/
inductive IsBare (kind : String) : Form → Prop where
  | record {f : Form} (h : Record (bareFields kind) anyForm f) : IsBare kind f
  | alone {f : Form} (h : IsString kind f) : IsBare kind (.array [f])

/-- The draft of such an element when the fields of these names have been read. -/
def bareDraft (kind : String) (names : List String) : Draft where
  kind := slot names "type" kind
  value := slot names "value" none

theorem fills_bare (depth : Nat) (kind : String) :
    Json.Fills (bareFields kind) anyForm (Draft.member depth) fun names d =>
      d = bareDraft kind names where
  own := by
    refine List.forall_mem_cons.2 ⟨?_, List.forall_mem_singleton.2 ?_⟩
    · exact own_of_fill (fun _ h => IsString.read_tree h _)
        (fun names x => { bareDraft kind names with kind := x }) (fun _ _ => rfl)
        fun _ => by simp [bareDraft, slot]
    · refine own_of_fill ?_ (fun names x => { bareDraft kind names with value := x })
        (fun _ _ => rfl) fun _ => by simp [bareDraft, slot]
      rintro _ rfl
      rfl
  other := by
    rintro names d name form rfl hname _
    simp only [bareFields, List.map_cons, List.map_nil, List.mem_cons, List.not_mem_nil,
      not_or] at hname
    rw [Draft.member, if_neg hname.1, if_neg hname.2.1]
    exact skip_tree form _

theorem readParts_bare {kind : String} {f : Form} (h : IsBare kind f) (depth : Nat) :
    readParts (depth + 1) f.tree = .ok (kind, none) := by
  cases h with
  | record h =>
    cases h with
    | object horder hown hothers =>
      have hnodup : ((bareFields kind).map RecordField.name).Nodup := by
        simp only [bareFields, List.map_cons, List.map_nil]
        decide
      obtain ⟨names, d, hfold, rfl, hall⟩ :=
        (fills_bare depth kind).foldMembers (d := {}) hnodup rfl horder hown hothers
      have htype := List.forall_mem_cons.1 hall |>.1
      have hvalue : (slot names "value" (none : Option ElementValue)).join = none :=
        join_slot (.inl rfl)
      show (Json.foldMembers (Draft.member depth) {} _ none >>= _) = _
      rw [hfold, Except.ok_bind]
      simp only [bareDraft, slot_of_mem (htype.resolve_left id), hvalue, Json.demand,
        Except.ok_bind]
    | array hitems =>
      obtain ⟨kindForm, _, hkind, hrest, rfl⟩ := List.forall₂_cons_left_iff.1 hitems
      obtain ⟨valueForm, _, rfl, hnone, rfl⟩ := List.forall₂_cons_left_iff.1 hrest
      obtain rfl := List.forall₂_nil_left_iff.1 hnone
      have hkind : Json.readString kindForm.tree = .ok kind := IsString.read_tree hkind _
      show (Json.Entries.next ⟨[_, _], none⟩ 0 _ Json.readString >>= _) = _
      rw [Json.Entries.next_cons hkind]
      rfl
  | @alone kindForm h =>
    have hkind : Json.readString kindForm.tree = .ok kind := IsString.read_tree h _
    show (Json.Entries.next ⟨[_], none⟩ 0 _ Json.readString >>= _) = _
    rw [Json.Entries.next_cons hkind]
    rfl

/-- What is reported of a literal without a value. -/
def bareError (kind : String) : Error :=
  .mismatch (.refused (MissingValue.message ⟨kind⟩))

theorem read_bare {kind : String} (hkind : Opcode.isLiteralMarker kind = true) {f : Form}
    (h : IsBare kind f) (depth : Nat) : read (depth + 1) f.tree = .error (bareError kind) := by
  have hparts : ofParts kind none = .error ⟨kind⟩ := by simp [ofParts, hkind]
  rw [read, readParts_bare h, Except.ok_bind]
  simp only [hparts]
  rfl

/-- Where an element could be read, a container may be entered. -/
theorem exists_depth_of_read {depth : Nat} {t : Tree} {e : Element} (h : read depth t = .ok e) :
    ∃ d, depth = d + 1 := by
  obtain ⟨_, hparts, -⟩ := Except.bind_eq_ok.1 h
  cases t with
  | array | object =>
    obtain ⟨d, hd, -⟩ := Json.Tree.enter_eq_ok.1 hparts
    exact ⟨d, hd⟩
  | null | boolean | number | string | misspelled | missing => cases hparts

/-- An element that could be read, replaced by a literal without a value. -/
theorem spoils_read {kind : String} (hkind : Opcode.isLiteralMarker kind = true) {f : Form}
    (h : IsBare kind f) (depth : Nat) :
    Spoils (fun _ t' => t' = f.tree) (bareError kind) (read depth) := by
  rintro t _ e rfl hread
  obtain ⟨d, rfl⟩ := exists_depth_of_read hread
  exact read_bare hkind h d

end Element

/-! ## Places of an element -/

namespace MachineState

/-- The lists of a state under their names, in the order in which arrays have them. -/
def listNames : List String :=
  ["scriptPubKey", "scriptSig", "currentScript", "scriptP2sh", "scriptWitness",
    "scriptWitnessStack", "stack", "altStack"]

/-- In the state, one element of one of the lists is replaced. -/
def ElementReplaced (R : Tree → Tree → Prop) (t t' : Tree) : Prop :=
  ∃ i name, listNames[i]? = some name ∧ FieldReplaced name i (ItemReplaced R) t t'

variable {R : Tree → Tree → Prop} {e : Error}

theorem spoils_member (hread : ∀ d, Spoils R e (Element.read d)) (depth : Nat) {name : String}
    (hname : name ∈ listNames) (d : Draft) :
    Spoils (ItemReplaced R) e (Draft.member depth d name) := by
  have hlist : Spoils (ItemReplaced R) e (Element.readList depth) :=
    Json.spoils_readList hread depth
  have hlist? := Json.spoils_readOption hlist
  intro t t' d' ht h
  simp only [listNames, List.mem_cons, List.not_mem_nil, or_false] at hname
  rcases hname with rfl | rfl | rfl | rfl | rfl | rfl | rfl | rfl
  · exact Json.fill_spoils hlist ht h
  · exact Json.fill_spoils hlist ht h
  · exact Json.fill_spoils hlist ht h
  · exact Json.fill_spoils hlist? ht h
  · exact Json.fill_spoils hlist? ht h
  · exact Json.fill_spoils hlist? ht h
  · exact Json.fill_spoils hlist ht h
  · exact Json.fill_spoils hlist ht h

/-- The entries before the list in question are read as before. -/
theorem spoils_read (hread : ∀ d, Spoils R e (Element.read d)) (depth : Nat) :
    Spoils (ElementReplaced R) e (MachineState.read depth) := by
  rintro _ _ m ⟨i, name, hname, ht⟩ h
  cases ht with
  | member hkey ht =>
    refine Json.enter_spoilt h fun d h => ?_
    obtain ⟨draft, hfold, -⟩ := Except.bind_eq_ok.1 h
    exact Json.foldMembers_spoilt (spoils_member hread d (List.mem_of_getElem? hname)) ht hkey hfold
  | @entry before after after' t t' ending ending' hindex ht =>
    refine Json.enter_spoilt h fun d h => ?_
    have hlist : Spoils (ItemReplaced R) e (Element.readList d) := Json.spoils_readList hread d
    have hlist? := Json.spoils_readOption hlist
    have hi : before.length < 8 := hindex ▸ (List.getElem?_eq_some_iff.1 hname).1
    have hes := Json.Entries.replaced_append ht hi after after' ending ending'
    -- Entry by entry: this one is replaced, or one of those to come.
    refine Json.Entries.next_spoilt hlist hes (fun _ _ _ hes h => ?_) h
    refine Json.Entries.next_spoilt hlist hes (fun _ _ _ hes h => ?_) h
    refine Json.Entries.next_spoilt hlist hes (fun _ _ _ hes h => ?_) h
    refine Json.Entries.nextOption_spoilt hlist? hes (fun _ _ _ hes h => ?_) h
    refine Json.Entries.nextOption_spoilt hlist? hes (fun _ _ _ hes h => ?_) h
    refine Json.Entries.nextOption_spoilt hlist? hes (fun _ _ _ hes h => ?_) h
    refine Json.Entries.next_spoilt hlist hes (fun _ _ _ hes h => ?_) h
    refine Json.Entries.next_spoilt hlist hes (fun _ _ _ hes h => ?_) h
    nomatch hes

end MachineState

namespace Snapshot

/-- In the snapshot, one element of one of the lists of its state is replaced, and whatever follows
it may have changed. -/
def ElementReplaced (R : Tree → Tree → Prop) : Tree → Tree → Prop :=
  FieldReplaced "state" 1 (MachineState.ElementReplaced R)

theorem spoils_read {R : Tree → Tree → Prop} {e : Error}
    (hread : ∀ d, Spoils R e (Element.read d)) (depth : Nat) :
    Spoils (ElementReplaced R) e (Snapshot.read depth) := by
  rintro _ _ m ht h
  cases ht with
  | member hkey ht =>
    refine Json.enter_spoilt h fun d h => ?_
    obtain ⟨draft, hfold, -⟩ := Except.bind_eq_ok.1 h
    refine Json.foldMembers_spoilt (fun draft t t' _ ht h => ?_) ht hkey hfold
    exact Json.fill_spoils (MachineState.spoils_read hread d) ht h
  | @entry before after after' t t' ending ending' hindex ht =>
    refine Json.enter_spoilt h fun d h => ?_
    -- The state comes second, behind the result.
    match before, hindex with
    | [result], _ =>
      simp only [List.cons_append, List.nil_append, Json.Entries.next_cons_bind] at h ⊢
      exact Json.bind_spoilt h fun _ h => Json.bind_spoils (MachineState.spoils_read hread d) ht h

/-- The containers around an element of a snapshot, innermost first: a list, which is one of those
of a state, which is the state of a snapshot. -/
inductive InList : List Frame → Prop where
  | intro {items : List Tree} {list state : Frame} {i : Nat} {name : String}
      (hname : MachineState.listNames[i]? = some name) (hlist : list.IsField name i)
      (hstate : state.IsField "state" 1) : InList [.item items, list, state]

theorem InList.elementReplaced {around : List Frame} (h : InList around) {u v t t' : Tree}
    (hu : Held around u t) (hv : Held around v t') : ElementReplaced (fun _ v' => v' = v) t t' := by
  obtain ⟨hname, hlist, hstate⟩ := h
  obtain ⟨_, _, hitem, hu, hv⟩ := hu.itemReplaced (R := fun _ v' => v' = v) rfl hv
  obtain ⟨_, _, hfield, hu, hv⟩ := hu.fieldReplaced hlist hitem hv
  have hstates : MachineState.ElementReplaced (fun _ v' => v' = v) _ _ := ⟨_, _, hname, hfield⟩
  obtain ⟨_, _, hsnapshot, rfl, rfl⟩ := hu.fieldReplaced hstate hstates hv
  exact hsnapshot

/-- Where there was an element in a text that could be read, a literal without a value is refused,
whatever comes behind it. -/
theorem ofJson_bare {text text' : String} {s : Snapshot} (hs : ofJson text = .ok s)
    {before after : List Json.Token} {around : List Frame}
    (hplace : Json.IsPlace text.toList before around) (hin : InList around) {kind : String}
    (hkind : Opcode.isLiteralMarker kind = true) {f : Form} (hf : Element.IsBare kind f)
    (htext : Json.tokens text'.toList = before ++ (f.tree.tokens ++ after)) :
    ofJson text' = .error (Element.bareError kind) := by
  obtain ⟨u, hu⟩ := hplace.exists_held
  have hreplaced := hin.elementReplaced hu (hplace.held f.whole_tree htext)
  have hspoils := spoils_read (fun depth => Element.spoils_read hkind hf depth) Json.maxDepth
  obtain ⟨a, hread, -⟩ := Except.bind_eq_ok.1 hs
  have herror := hspoils _ _ a hreplaced hread
  rw [ofJson, Json.readText]
  show (Snapshot.read Json.maxDepth (Json.parse text'.toList).tree >>= _) = _
  rw [herror]
  rfl

end Snapshot

/-! ## Main statement -/

/-- **Literals have values, and nothing else has.** In a snapshot that was read, an element of any
list has a value exactly if its kind is one of the two literal markers, if it passes for a literal,
if it is sorted under the values. And a text that agrees with one that can be read up to an element
of any list, and there has a literal without a value, is refused for that literal, whatever comes
behind it; what is printed for that begins with the wording given here. -/
theorem literals_have_values :
    (∀ text s, Snapshot.ofJson text = .ok s → ∀ es ∈ s.lists, ∀ e ∈ es,
      (e.value.isSome = true ↔ e.kind = Opcode.scriptConstant ∨ e.kind = Opcode.scriptNum) ∧
      (e.value.isSome = true ↔ e.isLiteral = true) ∧
      (e.value.isSome = true ↔ e.category = some .values)) ∧
    ∀ text s, Snapshot.ofJson text = .ok s →
      ∀ before around, Json.IsPlace text.toList before around → Snapshot.InList around →
      ∀ kind f, Opcode.isLiteralMarker kind = true → Element.IsBare kind f →
      ∀ text' after, Json.tokens text'.toList = before ++ (f.tree.tokens ++ after) →
        ∃ error, Snapshot.ofJson text' = .error error ∧ error.category = .data ∧
          error.message = "literal element '" ++ kind ++ "' has no value" ∧
          ∀ line column, error.message.toList <+: (error.textAt line column).toList := by
  constructor
  · intro text s hs es hes e he
    have hvalue : e.value.isSome = e.isLiteral := Snapshot.wellFormed_of_ofJson hs es hes e he
    have hkind := Opcode.isLiteralMarker_iff e.kind
    have hcategory := Opcode.classify_eq_values_iff e.kind
    rw [hvalue]
    exact ⟨hkind, Iff.rfl, hcategory.symm⟩
  · intro text s hs before around hplace hin kind f hkind hf text' after htext
    exact ⟨_, Snapshot.ofJson_bare hs hplace hin hkind hf htext, rfl, rfl,
      Error.message_prefix_textAt _⟩

set_option maxRecDepth 2000 in
/-- The element of the main stack is replaced, in a document that goes on in another way. -/
theorem valueless_number_is_refused :
    let text := "\x7b\"state\":\x7b\"stack\":[[\"OP_DUP\"]],\"altStack\":[],\"scriptPubKey\":[],
      \"scriptSig\":[],\"currentScript\":[],\"stage\":[\"ExecutingScriptSig\"]\x7d,
      \"result\":[\"NoResult\",null]\x7d"
    let text' := "\x7b\"state\":\x7b\"stack\":[\x7b\"value\":null,\"type\":\"ScriptNum\"\x7d],
      \"stage\":7\x7d\x7d"
    (∃ s, Snapshot.ofJson text = .ok s) ∧ ∃ error, Snapshot.ofJson text' = .error error ∧
      error.category = .data ∧ error.message = "literal element 'ScriptNum' has no value" ∧
      ∀ line column, error.message.toList <+: (error.textAt line column).toList := by
  intro text text'
  let name : String → Json.StringText := .ofString
  let string (text : String) : Form := .string (name text)
  let dup : Form := .array [string "OP_DUP"]
  let state : Form := .object [(name "stack", .array [dup]), (name "altStack", .array []),
    (name "scriptPubKey", .array []), (name "scriptSig", .array []),
    (name "currentScript", .array []), (name "stage", .array [string "ExecutingScriptSig"])]
  let f : Form :=
    .object [(name "state", state), (name "result", .array [string "NoResult", .null])]
  let bare : Form := .object [(name "value", .null), (name "type", string "ScriptNum")]
  let state' : Form := .object [(name "stack", .array [bare]), (name "stage", .number (.ofInt 7))]
  let f' : Form := .object [(name "state", state')]
  have htext : text.toList = _ := String.toList_ofList
  have hf : f.IsText text :=
    show Json.Spaced f.pieces text.toList from htext ▸ Json.spaced_of_isSpaced (by decide +kernel)
  have htext' : text'.toList = _ := String.toList_ofList
  have hf' : f'.IsText text' :=
    show Json.Spaced f'.pieces text'.toList from
      htext' ▸ Json.spaced_of_isSpaced (by decide +kernel)
  have hread : Snapshot.ofJson text =
      .ok ⟨.unlocking, .pending, none, [], [], [], none, none, none, [⟨"OP_DUP", none⟩], []⟩ := by
    rw [Snapshot.ofJson, Json.readText, Json.parse_of_isText hf]
    rfl
  have hbare : Element.IsBare "ScriptNum" bare :=
    .record (.object (show List.Perm _ ([_, _] ++ []) from List.reverse_perm [_, _])
      (.written (Json.StringText.writes_ofString "type") ⟨_, rfl, Json.StringText.writes_ofString _⟩
        (.written (Json.StringText.writes_ofString "value") rfl .nil)) (List.forall_mem_nil _))
  let before : List Json.Token := [.openBrace, .string (name "state").reading, .colon, .openBrace,
    .string (name "stack").reading, .colon, .openBracket]
  have hplace : Json.IsPlace text.toList before
      [.item [], .member [] (name "stack").reading, .member [] (name "state").reading] :=
    ⟨.first _, _, _, Json.tokens_of_isText hf, by simp⟩
  have hin : Snapshot.InList
      [.item [], .member [] (name "stack").reading, .member [] (name "state").reading] :=
    .intro (i := 6) rfl rfl rfl
  refine ⟨⟨_, hread⟩, ?_⟩
  exact literals_have_values.2 text _ hread before _ hplace hin "ScriptNum" bare (by decide) hbare
    text' _ (Json.tokens_of_isText hf')

end SpendTrace.Script
