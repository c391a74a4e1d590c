import Mathlib.Tactic.SplitIfs
import SpendTrace.Text.Utf8

/-!
# Text survives being sent

A text that is sent as UTF-8 is read back as it was: none of its bytes is taken for ill-formed. What
a character is sent as is a first byte, which announces how many more there are and what the second
one may be, and then these. A second byte is out of range only for characters that need fewer bytes,
for surrogates, and for numbers beyond the last character, and no character is sent like that.

* `ofUtf8From_utf8EncodeChar`: one character is read back.
* `ofUtf8_toUTF8` is the main statement.
-/

namespace SpendTrace.Text

variable {l : Lead} {k n v : Nat}

/-! ## One byte -/

theorem ofUtf8From_ascii (h : n < 0x80) (rest : List UInt8) :
    ofUtf8From none (UInt8.ofNat n :: rest) = Char.ofNat n :: ofUtf8From none rest := by
  have hn : n % 256 = n := by omega
  simp [ofUtf8From, hn, h]

/-- A first byte opens a sequence. -/
theorem ofUtf8From_lead (hn : n < 256) (h : lead? n = some l) (rest : List UInt8) :
    ofUtf8From none (UInt8.ofNat n :: rest) = ofUtf8From (some l) rest := by
  have hbyte : n % 256 = n := by omega
  have hbig : ¬n < 0x80 := by
    intro hsmall
    unfold lead? at h
    split_ifs at h <;> omega
  simp [ofUtf8From, hbyte, h, hbig]

/-- The last byte of a sequence completes the character. -/
theorem ofUtf8From_last (hk : k < 64) (hmore : l.more = 1) (hleast : l.least ≤ k + 128)
    (hmost : k + 128 ≤ l.most) (rest : List UInt8) :
    ofUtf8From (some l) (UInt8.ofNat (k + 128) :: rest) =
      Char.ofNat (l.bits * 64 + k) :: ofUtf8From none rest := by
  have hbyte : (k + 128) % 256 = k + 128 := by omega
  simp [ofUtf8From, hbyte, hmore, hleast, hmost]

/-- A byte in the midst of a sequence adds its bits, and any byte may follow that is not the first
of a sequence. -/
theorem ofUtf8From_more (hk : k < 64) (hmore : 1 < l.more) (hleast : l.least ≤ k + 128)
    (hmost : k + 128 ≤ l.most) (rest : List UInt8) :
    ofUtf8From (some l) (UInt8.ofNat (k + 128) :: rest) =
      ofUtf8From (some ⟨l.bits * 64 + k, l.more - 1, 0x80, 0xBF⟩) rest := by
  have hbyte : (k + 128) % 256 = k + 128 := by omega
  have hnot : ¬l.more ≤ 1 := by omega
  simp [ofUtf8From, hbyte, hnot, hleast, hmost]

/-! ## What a first byte announces -/

theorem lead?_of_two (hleast : 0x80 ≤ v) (hmost : v ≤ 0x7FF) :
    lead? (v / 64 % 32 + 192) = some ⟨v / 64, 1, 0x80, 0xBF⟩ := by
  have hrange : 0xC2 ≤ v / 64 % 32 + 192 ∧ v / 64 % 32 + 192 ≤ 0xDF := by omega
  have hbits : v / 64 % 32 + 192 - 0xC0 = v / 64 := by omega
  rw [lead?, if_pos hrange, hbits]

/-- Of three bytes the second is in range, since the number is no surrogate. -/
theorem lead?_of_three (hleast : 0x800 ≤ v) (hmost : v ≤ 0xFFFF)
    (hvalid : v < 0xD800 ∨ 0xDFFF < v) :
    ∃ least most, lead? (v / 4096 % 16 + 224) = some ⟨v / 4096, 2, least, most⟩ ∧
      least ≤ v / 64 % 64 + 128 ∧ v / 64 % 64 + 128 ≤ most := by
  unfold lead?
  split_ifs
  · omega
  · have hbits : v / 4096 = 0 := by omega
    exact ⟨0xA0, 0xBF, by rw [hbits], by omega, by omega⟩
  · have hbits : v / 4096 = 0xD := by omega
    exact ⟨0x80, 0x9F, by rw [hbits], by omega, by omega⟩
  · have hbits : v / 4096 % 16 + 224 - 0xE0 = v / 4096 := by omega
    exact ⟨0x80, 0xBF, by rw [hbits], by omega, by omega⟩
  all_goals omega

/-- Of four bytes it is, since the number is at most that of the last character. -/
theorem lead?_of_four (hleast : 0x10000 ≤ v) (hmost : v ≤ 0x10FFFF) :
    ∃ least most, lead? (v / 262144 % 8 + 240) = some ⟨v / 262144, 3, least, most⟩ ∧
      least ≤ v / 4096 % 64 + 128 ∧ v / 4096 % 64 + 128 ≤ most := by
  unfold lead?
  split_ifs
  iterate 4 omega
  · have hbits : v / 262144 = 0 := by omega
    exact ⟨0x90, 0xBF, by rw [hbits], by omega, by omega⟩
  · have hbits : v / 262144 % 8 + 240 - 0xF0 = v / 262144 := by omega
    exact ⟨0x80, 0xBF, by rw [hbits], by omega, by omega⟩
  · have hbits : v / 262144 = 4 := by omega
    exact ⟨0x80, 0x8F, by rw [hbits], by omega, by omega⟩
  · omega

/-! ## Characters and texts -/

theorem ofUtf8From_utf8EncodeChar (c : Char) (rest : List UInt8) :
    ofUtf8From none (String.utf8EncodeChar c ++ rest) = c :: ofUtf8From none rest := by
  have hvalid : c.val.toNat < 0xD800 ∨ 0xDFFF < c.val.toNat ∧ c.val.toNat < 0x110000 := c.valid
  have hchar : Char.ofNat c.val.toNat = c := Char.ofNat_toNat c
  unfold String.utf8EncodeChar
  generalize c.val.toNat = v at hvalid hchar
  simp only
  split_ifs with hone htwo hthree
  · rw [List.singleton_append, ofUtf8From_ascii (by omega), hchar]
  · have hbits : v / 64 * 64 + v % 64 = v := by omega
    simp only [List.cons_append, List.nil_append]
    rw [ofUtf8From_lead (by omega) (lead?_of_two (by omega) htwo),
      ofUtf8From_last (by omega) rfl (by simp) (by simp; omega), hbits, hchar]
  · obtain ⟨least, most, hlead, hleast, hmost⟩ := lead?_of_three (by omega) hthree (by omega)
    have hbits : (v / 4096 * 64 + v / 64 % 64) * 64 + v % 64 = v := by omega
    simp only [List.cons_append, List.nil_append]
    rw [ofUtf8From_lead (by omega) hlead, ofUtf8From_more (by omega) (by simp) hleast hmost,
      ofUtf8From_last (by omega) rfl (by simp) (by simp; omega), hbits, hchar]
  · obtain ⟨least, most, hlead, hleast, hmost⟩ := lead?_of_four (v := v) (by omega) (by omega)
    have hbits : ((v / 262144 * 64 + v / 4096 % 64) * 64 + v / 64 % 64) * 64 + v % 64 = v := by
      omega
    simp only [List.cons_append, List.nil_append]
    rw [ofUtf8From_lead (by omega) hlead, ofUtf8From_more (by omega) (by simp) hleast hmost,
      ofUtf8From_more (by omega) (by simp) (by simp) (by simp; omega),
      ofUtf8From_last (by omega) rfl (by simp) (by simp; omega), hbits, hchar]

/-- **A text that is sent is read back.** -/
theorem ofUtf8_toUTF8 (s : String) : ofUtf8 s.toUTF8.data.toList = s := by
  have hbytes : s.toUTF8.data.toList = s.toList.flatMap String.utf8EncodeChar := by
    rw [String.toUTF8, ← String.utf8Encode_toList, List.utf8Encode, List.toList_data_toByteArray]
  have hchars (cs : List Char) : ofUtf8From none (cs.flatMap String.utf8EncodeChar) = cs := by
    induction cs with
    | nil => rfl
    | cons c cs ih => rw [List.flatMap_cons, ofUtf8From_utf8EncodeChar, ih]
  rw [ofUtf8, hbytes, hchars, String.ofList_toList]

end SpendTrace.Text
