import SpendTrace.Proofs.Json.Beginnings
import SpendTrace.Proofs.Json.Form
import SpendTrace.Proofs.Script.RoundTrip

/-!
# A part of a document is not a document

A snapshot may be stored or sent in pieces. A piece from the front is never taken for a snapshot,
nor for a fault of anything but the end of the text: whatever a record misses, whatever name is not
complete and whatever number could have gone on, the end is what is reported. A document may be
followed by white space, and by nothing else.

* `Snapshot.stopsShort_read`: what is left of a document is read up to where it ends.
* `no_part_is_a_document` is the main statement.
-/

namespace SpendTrace.Script

open Json (Tree Value Error Cut StopsShort Ends)

/-! ## Records -/

section

variable {σ : Type} {step : σ → String → Tree → Except Error σ}

/-- What is left of the members of a written object is read up to the end of the text. -/
theorem foldMembers_ends {ms : List (String × Value)} {members' : List (Json.Reading String × Tree)}
    {stop : Json.Stop} (hcut : Json.CutMembers stop (Value.membersTrees ms) members')
    (hstep : ∀ m ∈ ms, ∀ d, StopsShort (step d m.1) m.2.tree) {d d' : σ}
    (hd : Json.foldMembers step d (Value.membersTrees ms) none = .ok d') :
    Ends (Json.foldMembers step d members' (some stop)) := by
  refine Json.foldMembers_ends hcut ?_ hd
  rw [Value.membersTrees_eq_map, List.forall_mem_map]
  rintro m hm name ⟨⟩
  exact hstep m hm

/-- A reader of records that goes through the members of an object first. -/
theorem stopsShort_record {α : Type} {read : Tree → Except Error α} {ms : List (String × Value)}
    {start : σ} {finish : σ → Except Error α} {depth : Nat}
    (step : Nat → σ → String → Tree → Except Error σ)
    (hread : ∀ members ending, read (.object members ending) = Tree.enter depth fun d =>
      Json.foldMembers (step d) start members ending >>= finish)
    (hmissing : ∀ e skip, read (.missing e skip) = .error e)
    (hstep : ∀ d, ∀ m ∈ ms, ∀ draft, StopsShort (step d draft m.1) m.2.tree) :
    StopsShort read (Value.object ms).tree := by
  intro a ha whole t' hcut
  refine .inl ?_
  rw [Value.tree, hread] at ha
  obtain ⟨d, rfl, ha⟩ := Json.Tree.enter_eq_ok.1 ha
  obtain ⟨draft, hdraft, -⟩ := Except.bind_eq_ok.1 ha
  cases hcut with
  | broken h =>
    cases h
    exact ⟨_, hmissing _ _⟩
  | object h =>
    rw [hread]
    exact (foldMembers_ends h (hstep d) hdraft).bind finish

end

/-! ## Elements -/

theorem ElementValue.stopsShort_read (depth : Nat) (v : ElementValue) :
    StopsShort (ElementValue.read depth) v.document.tree := by
  intro a _ whole t' hcut
  cases v with
  | boolean b =>
    cases hcut with
    | broken h => cases h <;> exact .inl (Json.ends_ended _)
  | number n =>
    cases hcut with
    | broken h =>
      cases h with
      | missing => exact .inl (Json.ends_ended _)
      | number h => exact .inl ((h.map _).bind _)
    | integer => exact .inr ⟨rfl, _, rfl⟩
  | text s =>
    cases hcut with
    | broken h =>
      cases h with
      | missing => exact .inl (Json.ends_ended _)
      | string h => exact .inl ((h.map _).bind _)

/-- A member that is there only if there is a value for it. -/
theorem forall_mem_optional {name : String} {value : Option Value} {P : String × Value → Prop}
    (h : ∀ v ∈ value, P (name, v)) : ∀ m ∈ Value.optional name value, P m := by
  cases value with
  | none => nofun
  | some v => exact List.forall_mem_singleton.2 (h v rfl)

theorem Element.stopsShort_read (depth : Nat) (e : Element) :
    StopsShort (Element.read depth) e.document.tree := by
  have hparts : StopsShort (Element.readParts depth) e.document.tree := by
    refine stopsShort_record Element.Draft.member (fun _ _ => rfl) (fun _ _ => rfl) fun d => ?_
    refine List.forall_mem_cons.2 ⟨fun draft => ?_, forall_mem_optional fun v hv draft => ?_⟩
    · exact ((Json.stopsShort_readStringAs _ _).fill "type" draft.kind).put
        fun kind => { draft with kind }
    · obtain ⟨value, -, rfl⟩ := Option.map_eq_some_iff.1 hv
      have hne : value.document.tree ≠ .null := by cases value <;> nofun
      exact (((ElementValue.stopsShort_read d value).option hne).fill "value" draft.value).put
        fun value => { draft with value }
  exact hparts.bind nofun _

theorem Element.stopsShort_readList (depth : Nat) (es : List Element) :
    StopsShort (Element.readList depth) (Element.listDocument es).tree := by
  rw [Element.listDocument, Value.tree, Value.itemsTrees_eq_map, List.map_map]
  refine Json.stopsShort_readList (fun d t ht => ?_) depth
  obtain ⟨e, -, rfl⟩ := List.mem_map.1 ht
  exact e.stopsShort_read d

theorem Element.stopsShort_readList? (depth : Nat) (es : List Element) :
    StopsShort (Json.readOption (Element.readList depth)) (Element.listDocument es).tree :=
  (Element.stopsShort_readList depth es).option
    (by simp [Element.listDocument, Value.tree])

/-! ## Stages and outcomes -/

theorem Stage.stopsShort_read (depth : Nat) (s : Stage) :
    StopsShort (Stage.read depth) s.document.tree := by
  refine stopsShort_record Stage.member (fun _ _ => rfl) (fun _ _ => rfl) fun d => ?_
  exact List.forall_mem_singleton.2 fun draft =>
    (Json.stopsShort_readName tags _).fill "type" draft

namespace Outcome

theorem stopsShort_readVariant {α : Type} (table : List (String × α)) (depth : Nat)
    (name : String) : StopsShort (Json.readVariant table depth) (Value.string name).tree := by
  intro a _ whole t' hcut
  cases hcut with
  | broken h =>
    cases h with
    | missing => exact .inl (Json.ends_ended _)
    | string h => exact .inl (h.bind _)

theorem stopsShort_readValue (tag : Tag) (b : Bool) :
    StopsShort (readValue tag) (Value.boolean b).tree := by
  cases tag with
  | noResult => nofun
  | result => exact (Json.stopsShort_readBool b).map result

theorem stopsShort_type (depth : Nat) (d : Draft) (name : String) :
    StopsShort (d.member depth "type") (Value.string name).tree := by
  have hname := stopsShort_readVariant Tag.names depth name
  cases d with
  | empty => exact hname.map Draft.tagged
  | valued v => exact hname.bind nofun fun tag => (readValue tag v).map Draft.complete
  | tagged | complete => nofun

theorem stopsShort_value (depth : Nat) (d : Draft) (b : Bool) :
    StopsShort (d.member depth "value") (Value.boolean b).tree := by
  cases d with
  | empty =>
    intro a _ whole t' hcut
    cases hcut with
    | broken h => cases h <;> exact .inl (Json.ends_ended _)
  | tagged tag => exact (stopsShort_readValue tag b).map Draft.complete
  | valued | complete => nofun

theorem stopsShort_read (depth : Nat) (o : Outcome) :
    StopsShort (Outcome.read depth) o.document.tree := by
  cases o with
  | pending =>
    refine stopsShort_record Draft.member (fun _ _ => rfl) (fun _ _ => rfl) fun d => ?_
    exact List.forall_mem_singleton.2 fun draft => stopsShort_type d draft _
  | result verified =>
    refine stopsShort_record Draft.member (fun _ _ => rfl) (fun _ _ => rfl) fun d => ?_
    exact List.forall_mem_cons.2 ⟨fun draft => stopsShort_type d draft _,
      List.forall_mem_singleton.2 fun draft => stopsShort_value d draft _⟩

end Outcome

/-! ## The state and the snapshot -/

theorem MachineState.stopsShort_read (depth : Nat) (m : MachineState) :
    StopsShort (MachineState.read depth) m.document.tree := by
  refine stopsShort_record Draft.member (fun _ _ => rfl) (fun _ _ => rfl) fun depth => ?_
  have hlist := Element.stopsShort_readList depth
  have hlist? := Element.stopsShort_readList? depth
  have hoptional {name : String} (list : Option (List Element))
      (h : ∀ es, ∀ d : Draft, StopsShort (d.member depth name) (Element.listDocument es).tree) :
      ∀ m ∈ Value.optional name (list.map Element.listDocument), ∀ d : Draft,
        StopsShort (d.member depth m.1) m.2.tree := by
    refine forall_mem_optional fun v hv => ?_
    obtain ⟨es, -, rfl⟩ := Option.map_eq_some_iff.1 hv
    exact h es
  simp only [List.forall_mem_append, List.forall_mem_cons]
  refine ⟨⟨⟨⟨⟨fun d => ?_, fun d => ?_, fun d => ?_, nofun⟩, ?_⟩, ?_⟩, ?_⟩,
    fun d => ?_, fun d => ?_, fun d => ?_, nofun⟩
  · exact ((hlist _).fill _ d.locking).put fun x => { d with locking := x }
  · exact ((hlist _).fill _ d.unlocking).put fun x => { d with unlocking := x }
  · exact ((hlist _).fill _ d.current).put fun x => { d with current := x }
  · exact hoptional m.redeem fun es d =>
      ((hlist? es).fill "scriptP2sh" d.redeem).put fun x => ({ d with redeem := x } : Draft)
  · exact hoptional m.witness fun es d =>
      ((hlist? es).fill "scriptWitness" d.witness).put fun x => ({ d with witness := x } : Draft)
  · exact hoptional m.witnessStack fun es d =>
      ((hlist? es).fill "scriptWitnessStack" d.witnessStack).put fun x =>
        ({ d with witnessStack := x } : Draft)
  · exact ((hlist _).fill _ d.main).put fun x => { d with main := x }
  · exact ((hlist _).fill _ d.alt).put fun x => { d with alt := x }
  · exact ((m.stage.stopsShort_read depth).fill _ d.stage).put fun x => { d with stage := x }

namespace Snapshot

theorem stopsShort_read (depth : Nat) (s : Snapshot) :
    StopsShort (Snapshot.read depth) s.document.tree := by
  refine stopsShort_record Draft.member (fun _ _ => rfl) (fun _ _ => rfl) fun depth => ?_
  refine List.forall_mem_append.2 ⟨?_, forall_mem_optional fun v hv d => ?_⟩
  · simp only [List.forall_mem_cons]
    refine ⟨fun d => ?_, fun d => ?_, nofun⟩
    · exact ((s.outcome.stopsShort_read depth).fill "result" d.outcome).put
        fun x => { d with outcome := x }
    · exact ((s.state.stopsShort_read depth).fill "state" d.state).put
        fun x => { d with state := x }
  · obtain ⟨n, -, rfl⟩ := Option.map_eq_some_iff.1 hv
    exact ((Json.stopsShort_readUInt64.option nofun).fill "step" d.step).put
      fun x => { d with step := x }

/-! ## Texts -/

variable {s : Snapshot}

theorem toList_toJson (s : Snapshot) : s.toJson.toList = s.document.text :=
  String.toList_ofList

theorem read_document_of_wellFormed (h : s.Integral)
    (hw : ∀ es ∈ s.lists, ∀ e ∈ es, e.WellFormed) :
    Snapshot.read Json.maxDepth s.document.tree = .ok s := by
  have hread := ofJson_toJson_of_wellFormed h hw
  rwa [ofJson, toJson, Value.readText_toText h.document] at hread

/-- The text of a document, with anything behind it. -/
theorem ofJson_toJson_append (h : s.Integral) (hw : ∀ es ∈ s.lists, ∀ e ∈ es, e.WellFormed)
    (tail : String) : ofJson (s.toJson ++ tail) =
      if (Json.tokens tail.toList).isEmpty then .ok s
      else .error (.malformed .trailingCharacters) := by
  have hparse : Json.parse (s.document.text ++ tail.toList) =
      ⟨s.document.tree, !(Json.tokens tail.toList).isEmpty⟩ :=
    Value.parse_object_append h.document tail.toList
  rw [ofJson, Json.readText, String.toList_append, toList_toJson, hparse]
  simp only [read_document_of_wellFormed h hw, Except.ok_bind]
  cases (Json.tokens tail.toList).isEmpty <;> rfl

/-- A beginning of a document is not read beyond its end. -/
theorem ends_ofJson (h : s.Integral) (hw : ∀ es ∈ s.lists, ∀ e ∈ es, e.WellFormed) {text : String}
    (hp : text.toList <+: s.toJson.toList) (hne : text ≠ s.toJson) : Ends (ofJson text) := by
  rw [toList_toJson] at hp
  have hne' : text.toList ≠ s.document.text := by
    rw [← toList_toJson]
    exact fun heq => hne (String.toList_inj.1 heq)
  obtain ⟨whole, t, hcut, hparse⟩ := Value.parse_of_beginning h.document hp hne'
  obtain hends | ⟨rfl, -⟩ := s.stopsShort_read Json.maxDepth s
    (read_document_of_wellFormed h hw) whole t hcut
  · rw [ofJson, Json.readText, hparse]
    exact hends.bind _
  · cases hcut

end Snapshot

/-- **A part of a document is not a document.** Of the document of any well-formed snapshot without
doubles, every proper beginning is refused because the text ends, and for no other reason. The
document followed by white space is read as the document; followed by anything else, it is refused
as no JSON text. -/
theorem no_part_is_a_document (s : Snapshot) (h : s.Integral)
    (hw : ∀ es ∈ s.lists, ∀ e ∈ es, e.WellFormed) :
    (∀ text : String, text.toList <+: s.toJson.toList → text ≠ s.toJson →
      ∃ error, Snapshot.ofJson text = .error error ∧ error.category = .eof) ∧
    (∀ tail : String, (∀ c ∈ tail.toList, Json.isSpace c = true) →
      Snapshot.ofJson (s.toJson ++ tail) = .ok s) ∧
    ∀ tail : String, (∃ c ∈ tail.toList, Json.isSpace c = false) →
      ∃ error, Snapshot.ofJson (s.toJson ++ tail) = .error error ∧ error.category = .text := by
  refine ⟨fun text hp hne => ?_, fun tail htail => ?_, fun tail htail => ?_⟩
  · obtain ⟨inside, hends⟩ := Snapshot.ends_ofJson h hw hp hne
    exact ⟨_, hends, rfl⟩
  · have hnone : Json.tokens tail.toList = [] := by
      have hspace := Json.tokens_space htail []
      rwa [List.append_nil, Json.tokens] at hspace
    rw [Snapshot.ofJson_toJson_append h hw, hnone]
    rfl
  · refine ⟨.malformed .trailingCharacters, ?_, rfl⟩
    rw [Snapshot.ofJson_toJson_append h hw, if_neg]
    simpa using Json.tokens_ne_nil htail

/-- A document that is cut between the sign and the digit of a number, and the whole of it with
other things behind. -/
theorem no_part_is_a_document_with_a_sign :
    let number : Element := ⟨"ScriptNum", some (.number (.integer (-5) (by decide)))⟩
    let s : Snapshot :=
      ⟨.locking, .result true, some 12, [number], [], [], none, some [], none, [⟨"OP_DUP", none⟩],
        []⟩
    let part := "\x7b\"result\":\x7b\"type\":\"Result\",\"value\":true\x7d," ++
      "\"state\":\x7b\"scriptPubKey\":[\x7b\"type\":\"ScriptNum\",\"value\":-"
    (∃ error, Snapshot.ofJson part = .error error ∧ error.category = .eof) ∧
      Snapshot.ofJson (s.toJson ++ " \n") = .ok s ∧
      ∃ error, Snapshot.ofJson (s.toJson ++ "\n7") = .error error ∧ error.category = .text := by
  intro number s part
  obtain ⟨hcut, hspace, hmore⟩ := no_part_is_a_document s (by decide) (by decide)
  refine ⟨hcut part ?_ (by decide +kernel), hspace " \n" (by simp [Json.isSpace]),
    hmore "\n7" (by simp [Json.isSpace])⟩
  rw [Snapshot.toList_toJson]
  decide +kernel

end SpendTrace.Script
