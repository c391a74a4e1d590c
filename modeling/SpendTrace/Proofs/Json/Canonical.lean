import SpendTrace.Proofs.Json.Record
import SpendTrace.Proofs.Json.Written

/-!
# The written form as a form

A written value is one of the texts that its forms have: the one without white space, with the
escapes and the numerals of the writer, and with the members of a record in the order of its fields.

* `StringText.ofString`, `NumeralText.ofInt`: the spellings that the writer chooses.
* `WritesFields.exists_record`: a record written member by member.
-/

namespace SpendTrace.Json

/-! ## Strings -/

/-- The unit that is written for a control character. -/
def HexUnit.ofControl (c : Char) : HexUnit :=
  ⟨⟨0, false⟩, ⟨0, false⟩, ⟨Fin.ofNat 16 (c.toNat / 16), false⟩, ⟨Fin.ofNat 16 c.toNat, false⟩⟩

theorem HexUnit.value_ofControl {c : Char} (h : c.toNat < 0x100) :
    (ofControl c).value = c.toNat := by
  simp only [value, ofControl, Fin.val_ofNat]
  omega

/-- The part that is written for a character: the character, unless it has to be escaped. -/
def StringPart.ofChar (c : Char) : StringPart :=
  if h : c ≠ '"' ∧ c ≠ '\\' ∧ 0x20 ≤ c.toNat then .plain c h
  else
    match he : shortEscapes.find? (·.2 == c) with
    | some e => .short e (List.mem_of_find?_eq_some he)
    | none => .unit (.ofControl c)

theorem chars_ofChar_of_lt : ∀ n < 0x20,
    (StringPart.ofChar (Char.ofNat n)).chars = escapedChar (Char.ofNat n) := by
  decide

theorem chars_ofChar (c : Char) : (StringPart.ofChar c).chars = escapedChar c := by
  by_cases hquote : c = '"'
  · rw [hquote]
    rfl
  by_cases hback : c = '\\'
  · rw [hback]
    rfl
  by_cases hcontrol : c.toNat < 0x20
  · have hchars := chars_ofChar_of_lt c.toNat hcontrol
    rwa [Char.ofNat_toNat] at hchars
  · have hne : ∀ d : Char, d.toNat < 0x20 → c ≠ d := by
      rintro d hd rfl
      exact hcontrol hd
    rw [StringPart.ofChar, dif_pos ⟨hquote, hback, Nat.not_lt.1 hcontrol⟩, escapedChar,
      if_neg hquote, if_neg hback, if_neg (hne _ (by decide)), if_neg (hne _ (by decide)),
      if_neg (hne _ (by decide)), if_neg (hne _ (by decide)), if_neg (hne _ (by decide)),
      if_neg hcontrol]
    rfl

theorem Writes.ofChar {ps : List StringPart} {cs : List Char} (h : Writes ps cs) (c : Char) :
    Writes (.ofChar c :: ps) (c :: cs) := by
  unfold StringPart.ofChar
  split
  · exact .plain h
  · next hescaped =>
    split
    · next e he =>
      have heq : e.2 = c := by simpa using List.find?_some he
      have hshort : Writes (.short e (List.mem_of_find?_eq_some he) :: ps) (e.2 :: cs) := .short h
      rwa [heq] at hshort
    · refine .unit (HexUnit.value_ofControl ?_) h
      by_cases hquote : c = '"'
      · rw [hquote]
        decide
      by_cases hback : c = '\\'
      · rw [hback]
        decide
      · have hcontrol : ¬0x20 ≤ c.toNat := fun h => hescaped ⟨hquote, hback, h⟩
        omega

namespace StringText

/-- The spelling in which a text is written. -/
def ofString (text : String) : StringText :=
  ⟨text.toList.map .ofChar⟩

theorem chars_ofString (text : String) : (ofString text).chars = stringText text := by
  have hparts : (text.toList.map StringPart.ofChar).flatMap StringPart.chars =
      text.toList.flatMap escapedChar := by
    rw [List.flatMap_map]
    exact List.flatMap_congr fun c _ => chars_ofChar c
  rw [chars, ofString, hparts]
  rfl

theorem writes_ofString (text : String) : (ofString text).Writes text := by
  show Json.Writes (text.toList.map .ofChar) text.toList
  induction text.toList with
  | nil => exact .nil
  | cons c cs ih => exact ih.ofChar c

end StringText

/-! ## Numerals -/

namespace Digits

def ofNat (n : Nat) : Digits :=
  ⟨Text.digits n, Text.digits_ne_nil n, fun _ => Text.isDigit_of_mem_digits⟩

theorem ofNat_alone (n : Nat) (h : (ofNat n).chars.head? = some '0') : (ofNat n).chars = ['0'] := by
  have hzero : n = 0 := eq_zero_of_head?_digits n h
  rw [hzero]
  rfl

end Digits

namespace NumeralText

def ofInt (i : Int) : NumeralText :=
  ⟨decide (i < 0), .ofNat i.natAbs, Digits.ofNat_alone _, none, none⟩

theorem chars_ofInt (i : Int) : (ofInt i).chars = Text.integer i := by
  have hunsigned : (ofInt i).unsignedChars = Text.digits i.natAbs := by
    show Text.digits i.natAbs ++ ([] ++ []) = _
    rw [List.append_nil, List.append_nil]
  rw [chars, hunsigned]
  simp only [ofInt, decide_eq_true_eq]
  rfl

end NumeralText

/-! ## Texts without white space -/

theorem spaced_flatten (pieces : List (List Char)) : Spaced pieces pieces.flatten := by
  induction pieces with
  | nil => exact .nil (List.forall_mem_nil _)
  | cons piece pieces ih => exact .cons (List.forall_mem_nil _) ih

/-- The form is what the value is written as. -/
def Form.IsWritten (f : Form) (v : Value) : Prop :=
  f.pieces.flatten = v.text

theorem Form.IsWritten.isText {f : Form} {v : Value} (h : f.IsWritten v) : f.IsText v.toText := by
  have hspaced := spaced_flatten f.pieces
  rw [h] at hspaced
  rwa [IsText, Value.toText, String.toList_ofList]

theorem isWritten_boolean (b : Bool) : (Form.boolean b).IsWritten (.boolean b) := by
  cases b <;> rfl

theorem flatten_itemsPieces {fs : List Form} {vs : List Value}
    (h : List.Forall₂ Form.IsWritten fs vs) :
    (Form.itemsPieces fs).flatten = Value.itemsText vs := by
  induction h with
  | nil => rfl
  | @cons f v fs vs hf hfs ih =>
    have hf : f.pieces.flatten = v.text := hf
    cases hfs with
    | nil => exact hf
    | cons hg hfs =>
      rw [Form.itemsPieces, List.flatten_append, List.flatten_cons, ih, hf]
      rfl

theorem isWritten_array {fs : List Form} {vs : List Value}
    (h : List.Forall₂ Form.IsWritten fs vs) : (Form.array fs).IsWritten (.array vs) := by
  rw [Form.IsWritten, Form.pieces, List.flatten_cons, List.flatten_append, flatten_itemsPieces h]
  rfl

/-- The members are what the members of an object are written as. -/
def MemberIsWritten (m : StringText × Form) (n : String × Value) : Prop :=
  m.1.chars = stringText n.1 ∧ m.2.IsWritten n.2

theorem flatten_membersPieces {ms : List (StringText × Form)} {ns : List (String × Value)}
    (h : List.Forall₂ MemberIsWritten ms ns) :
    (Form.membersPieces ms).flatten = Value.membersText ns := by
  induction h with
  | nil => rfl
  | @cons m n ms ns hm hms ih =>
    obtain ⟨key, f⟩ := m
    obtain ⟨k, v⟩ := n
    obtain ⟨hkey, hf⟩ := hm
    have hkey : key.chars = stringText k := hkey
    have hf : f.pieces.flatten = v.text := hf
    cases hms with
    | nil =>
      rw [Form.membersPieces, List.flatten_cons, List.flatten_cons, hkey, hf]
      rfl
    | cons hn hms =>
      rw [Form.membersPieces, List.flatten_cons, List.flatten_cons, List.flatten_append,
        List.flatten_cons, ih, hkey, hf]
      rfl

theorem isWritten_object {ms : List (StringText × Form)} {ns : List (String × Value)}
    (h : List.Forall₂ MemberIsWritten ms ns) : (Form.object ms).IsWritten (.object ns) := by
  rw [Form.IsWritten, Form.pieces, List.flatten_cons, List.flatten_append, flatten_membersPieces h]
  rfl

/-! ## Records -/

/-- The members that are written for the fields of a record, in their order. -/
inductive WritesFields : List RecordField → List (String × Value) → Prop where
  | nil : WritesFields [] []
  | written {field fields v ns} (hvalue : ∃ f, field.IsValue f ∧ f.IsWritten v)
      (h : WritesFields fields ns) : WritesFields (field :: fields) ((field.name, v) :: ns)
  | missing {field fields ns} (hmiss : field.MayMiss) (h : WritesFields fields ns) :
      WritesFields (field :: fields) ns

namespace WritesFields

variable {fields fields' : List RecordField} {ns ns' : List (String × Value)}

theorem append (h : WritesFields fields ns) (h' : WritesFields fields' ns') :
    WritesFields (fields ++ fields') (ns ++ ns') := by
  induction h with
  | nil => exact h'
  | written hvalue _ ih => exact .written hvalue ih
  | missing hmiss _ ih => exact .missing hmiss ih

theorem single {field : RecordField} {v : Value} (h : ∃ f, field.IsValue f ∧ f.IsWritten v) :
    WritesFields [field] [(field.name, v)] :=
  .written h .nil

theorem exists_ownMembers (h : WritesFields fields ns) :
    ∃ members, OwnMembers fields members ∧ List.Forall₂ MemberIsWritten members ns := by
  induction h with
  | nil => exact ⟨[], .nil, .nil⟩
  | @written field fields v ns hvalue _ ih =>
    obtain ⟨f, hf, hwritten⟩ := hvalue
    obtain ⟨members, hown, hmembers⟩ := ih
    exact ⟨(.ofString field.name, f) :: members,
      .written (StringText.writes_ofString field.name) hf hown,
      .cons ⟨StringText.chars_ofString field.name, hwritten⟩ hmembers⟩
  | missing hmiss _ ih =>
    obtain ⟨members, hown, hmembers⟩ := ih
    exact ⟨members, .missing hmiss hown, hmembers⟩

theorem exists_record (h : WritesFields fields ns) (Unknown : Form → Prop) :
    ∃ f, Record fields Unknown f ∧ f.IsWritten (.object ns) := by
  obtain ⟨members, hown, hmembers⟩ := h.exists_ownMembers
  refine ⟨.object members, .object ?_ hown (List.forall_mem_nil _), isWritten_object hmembers⟩
  rw [List.append_nil]

end WritesFields

end SpendTrace.Json
