import SpendTrace.Proofs.Script.Decoded

/-!
# How elements come about

Every maker of elements and every reader sees to it that an element has a value exactly if its kind
is a literal marker. There is one exception: whatever is named as an opcode is taken for one, also a
literal marker. Such an element has no value, and its document is refused.

* `Element.Source`: the ways to an element, with what they start from.
* `Element.ofJson_document`: what comes of reading a written element, in all cases.
* `values_are_where_they_belong` is the main statement, `marker_named_as_opcode_is_not_read_back`
  the exception.
-/

namespace SpendTrace.Script

namespace Element

/-! ## Sources -/

/-- What an element is made or read from. -/
inductive Source where
  | opcode (mnemonic : String)
  | constant (text : String)
  | number (value : Int) (inWord : Json.InWord value)
  | parts (kind : String) (value : Option ElementValue)
  /-- The document of one element. -/
  | document (text : String)
  /-- The document of a list of elements. -/
  | listDocument (text : String)
  /-- The document of a snapshot, which has elements in its lists. -/
  | snapshotDocument (text : String)

/-- Whether a source yields an element. -/
def Source.Yields : Source → Element → Prop
  | opcode mnemonic, e => e = .opcode mnemonic
  | constant text, e => e = .constant text
  | number value inWord, e => e = .number value inWord
  | parts kind value, e => ofParts kind value = .ok e
  | document text, e => ofJson text = .ok e
  | listDocument text, e => ∃ es, Json.readText readList text = .ok es ∧ e ∈ es
  | snapshotDocument text, e => ∃ s, Snapshot.ofJson text = .ok s ∧ ∃ es ∈ s.lists, e ∈ es

/-- A literal marker that is named as an opcode. -/
def Source.IsMisnomer (source : Source) : Prop :=
  ∃ mnemonic, source = opcode mnemonic ∧ Opcode.isLiteralMarker mnemonic = true

theorem wellFormed_opcode_iff (mnemonic : String) :
    (opcode mnemonic).WellFormed ↔ Opcode.isLiteralMarker mnemonic = false := by
  rw [WellFormed, isLiteral, opcode, Option.isSome_none, eq_comm]

theorem isBare_opcode {mnemonic : String} (h : Opcode.isLiteralMarker mnemonic = true) :
    (opcode mnemonic).isBare = true := by
  simp [isBare, isLiteral, opcode, h]

/-- Only an opcode is made without a look at its kind. -/
theorem Source.Yields.wellFormed {source : Source} {e : Element} (h : source.Yields e)
    (hopcode : ∀ mnemonic, source ≠ opcode mnemonic) : e.WellFormed := by
  cases source with
  | opcode mnemonic => exact absurd rfl (hopcode mnemonic)
  | constant text =>
    obtain rfl := h
    rfl
  | number value inWord =>
    obtain rfl := h
    rfl
  | parts kind value => exact wellFormed_of_ofParts h
  | document text => exact wellFormed_of_read (Json.read_of_readText h)
  | listDocument text =>
    obtain ⟨es, hes, he⟩ := h
    exact forall_of_readList (T := fun _ => True) ⟨fun _ _ _ => trivial, fun _ _ _ => trivial⟩
      (fun _ => wellFormed_of_read) trivial (Json.read_of_readText hes) e he
  | snapshotDocument text =>
    obtain ⟨s, hs, es, hes, he⟩ := h
    exact Snapshot.wellFormed_of_ofJson hs es hes e he

theorem Source.Yields.wellFormed_iff {source : Source} {e : Element} (h : source.Yields e) :
    e.WellFormed ↔ ¬source.IsMisnomer := by
  by_cases hopcode : ∃ mnemonic, source = opcode mnemonic
  · obtain ⟨mnemonic, rfl⟩ := hopcode
    obtain rfl := h
    rw [wellFormed_opcode_iff, ← Bool.not_eq_true]
    refine not_congr ⟨fun hmarker => ⟨mnemonic, rfl, hmarker⟩, ?_⟩
    rintro ⟨_, ⟨⟩, hmarker⟩
    exact hmarker
  · have hw := h.wellFormed fun mnemonic hs => hopcode ⟨mnemonic, hs⟩
    refine iff_of_true hw ?_
    rintro ⟨mnemonic, hs, -⟩
    exact hopcode ⟨mnemonic, hs⟩

/-- What is made of a literal marker that is named as an opcode is bare. -/
theorem Source.Yields.isBare {source : Source} {e : Element} (h : source.Yields e)
    (hmisnomer : source.IsMisnomer) : e.isBare = true := by
  obtain ⟨mnemonic, rfl, hmarker⟩ := hmisnomer
  obtain rfl := h
  exact isBare_opcode hmarker

/-! ## Reading what was written -/

/-- What comes of reading a written element: a bare one is refused, and otherwise the settled
element is read. -/
theorem ofJson_document {e : Element} (h : e.Integral) :
    ofJson e.document.toText = made [e] e.settled := by
  rw [ofJson, Json.Value.readText_toText h.document]
  exact e.read_document 126

theorem ofJson_document_of_wellFormed {e : Element} (h : e.Integral) (hw : e.WellFormed) :
    ofJson e.document.toText = .ok e := by
  obtain ⟨hbare, hsettled⟩ := Element.wellFormed_iff.1 hw
  rw [ofJson_document h, hsettled]
  exact made_of_not_bare (List.forall_mem_singleton.2 hbare) e

theorem ofJson_document_of_bare {e : Element} (hbare : e.isBare = true) :
    ofJson e.document.toText = .error e.refusal := by
  have hintegral : e.Integral := by
    have hvalue : e.value = none := Option.isNone_iff_eq_none.1 (Bool.and_eq_true_iff.1 hbare).2
    intro v hv
    rw [hvalue] at hv
    cases hv
  rw [ofJson_document hintegral, made, List.find?_cons_of_pos hbare]

end Element

open Element (Source)

/-- **Values are where they belong**, unless a literal marker is named as an opcode. Whatever else
an element is made or read from, it has a value exactly if its kind is one of the two literal
markers; and an element without a double that has a value exactly then is read back as it was from
its document. An element that was made of a marker named as an opcode has no value, and its document
is refused for that. -/
theorem values_are_where_they_belong (source : Source) (e : Element) (h : source.Yields e) :
    ((e.value.isSome = true ↔ e.kind = "ScriptConstant" ∨ e.kind = "ScriptNum") ↔
      ¬source.IsMisnomer) ∧
    (e.Integral → ¬source.IsMisnomer → Element.ofJson e.document.toText = .ok e) ∧
    (source.IsMisnomer → e.value = none ∧
      Element.ofJson e.document.toText =
        .error (.mismatch (.refused ("literal element '" ++ e.kind ++ "' has no value")))) := by
  have hwell : e.WellFormed ↔
      (e.value.isSome = true ↔ e.kind = "ScriptConstant" ∨ e.kind = "ScriptNum") := by
    have hmarker : e.isLiteral = true ↔ e.kind = "ScriptConstant" ∨ e.kind = "ScriptNum" :=
      Opcode.isLiteralMarker_iff e.kind
    rw [← hmarker]
    exact Bool.eq_iff_iff
  refine ⟨hwell.symm.trans h.wellFormed_iff, fun hint hname => ?_, fun hmisnomer => ?_⟩
  · exact Element.ofJson_document_of_wellFormed hint (h.wellFormed_iff.2 hname)
  · have hbare := h.isBare hmisnomer
    refine ⟨?_, Element.ofJson_document_of_bare hbare⟩
    obtain ⟨mnemonic, rfl, -⟩ := hmisnomer
    obtain rfl := h
    rfl

/-- A negative number, and the marker of byte strings named as an opcode. -/
theorem values_of_a_number_and_a_misnomer :
    let n : Element := ⟨"ScriptNum", some (.number (.integer (-5) (by decide)))⟩
    let e : Element := .opcode "ScriptConstant"
    Element.ofJson n.document.toText = .ok n ∧ e.value = none ∧
      Element.ofJson e.document.toText =
        .error (.mismatch (.refused ("literal element '" ++ e.kind ++ "' has no value"))) := by
  intro n e
  obtain ⟨-, hread, -⟩ := values_are_where_they_belong (.parts "ScriptNum" n.value) n rfl
  obtain ⟨-, -, hmisnomer⟩ := values_are_where_they_belong (.opcode "ScriptConstant") e rfl
  refine ⟨hread (by decide) ?_, hmisnomer ⟨_, rfl, rfl⟩⟩
  rintro ⟨mnemonic, hsource, -⟩
  cases hsource

/-- Named as an opcode, a literal marker is made into an element that has no value and that is not
read back, while the maker of elements from parts refuses to make it. -/
theorem marker_named_as_opcode_is_not_read_back :
    let e : Element := .opcode "ScriptConstant"
    (Source.opcode "ScriptConstant").Yields e ∧ e.kind = "ScriptConstant" ∧
      e.value.isSome = false ∧ Element.ofJson e.document.toText ≠ .ok e ∧
      Element.ofParts "ScriptConstant" none = .error ⟨"ScriptConstant"⟩ := by
  refine ⟨rfl, rfl, rfl, ?_, rfl⟩
  decide +kernel

end SpendTrace.Script
