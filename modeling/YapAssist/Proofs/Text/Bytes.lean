import Mathlib.Data.List.Basic
import Mathlib.Tactic.SplitIfs
import YapAssist.Text.Bytes

/-!
# Texts and their bytes

UTF-8 keeps all there is of a text. Its bytes are those of no other text, and they are shown as the
text itself.

* `Text.ofBytes?_eq_some_iff`, the text with the given bytes;
* `Text.lossy_bytes`, a text as it is shown.

An ASCII character is its own byte and no other character has such a byte, so what is looked for
among the bytes of a text is found among its characters (`Text.exists_of_byte`).
-/

namespace YapAssist

namespace Text

@[simp] theorem bytes_nil : bytes [] = [] := rfl

theorem bytes_cons (c : Char) (t : Text) : bytes (c :: t) = String.utf8EncodeChar c ++ bytes t :=
  rfl

theorem bytes_append (s t : Text) : bytes (s ++ t) = bytes s ++ bytes t := List.flatMap_append

@[simp] theorem length_bytes (t : Text) : (bytes t).length = t.byteSize := by
  induction t with
  | nil => rfl
  | cons c t ih =>
    rw [bytes_cons, List.length_append, String.length_utf8EncodeChar, ih, byteSize_cons]

/-! ## Reading bytes -/

/-- Bytes are those of one text at most. -/
theorem ofBytes?_eq_some_iff {b : Bytes} {t : Text} : ofBytes? b = some t ↔ b = bytes t := by
  have hencode : (bytes t).toByteArray = t.utf8Encode := rfl
  unfold ofBytes? String.fromUTF8?
  rw [Option.map_eq_some_iff]
  constructor
  · intro h
    obtain ⟨s, hs, rfl⟩ := h
    split at hs
    · obtain rfl := Option.some.inj hs
      rw [← List.toByteArray_inj, hencode, ← String.toByteArray_ofList, String.ofList_toList]
      rfl
    · simp at hs
  · rintro rfl
    have hvalid : (bytes t).toByteArray.IsValidUTF8 := ByteArray.isValidUTF8_utf8Encode
    exact ⟨String.ofList t, dif_pos hvalid, String.toList_ofList⟩

theorem lossyFrom_append (front rest : Bytes) :
    lossyFrom front.length (front ++ rest) = lossyFrom 0 rest := by
  induction front with
  | nil => rfl
  | cons b front ih => rw [List.cons_append, List.length_cons, lossyFrom, ih]

/-- A character is read off the bytes that begin with its own. -/
theorem lossyFrom_encode_append (c : Char) (rest : Bytes) :
    lossyFrom 0 (String.utf8EncodeChar c ++ rest) = c :: lossyFrom 0 rest := by
  have hread : (String.utf8EncodeChar c ++ rest).toByteArray.utf8DecodeChar? 0 = some c := by
    rw [List.toByteArray_append]
    exact ByteArray.utf8DecodeChar?_utf8EncodeChar_append
  have hsize : (String.utf8EncodeChar c).length = c.utf8Size := String.length_utf8EncodeChar c
  cases hbytes : String.utf8EncodeChar c with
  | nil => exact absurd hbytes String.utf8EncodeChar_ne_nil
  | cons first more =>
    rw [hbytes, List.cons_append] at hread
    rw [hbytes, List.length_cons] at hsize
    have hskip : lossyFrom (c.utf8Size - 1) (more ++ rest) = lossyFrom 0 rest := by
      rw [← hsize, Nat.add_sub_cancel, lossyFrom_append]
    rw [List.cons_append, lossyFrom, hread]
    exact congrArg (c :: ·) hskip

/-- A text is shown as it is. -/
@[simp] theorem lossy_bytes (t : Text) : lossy (bytes t) = t := by
  unfold lossy
  induction t with
  | nil => rfl
  | cons c t ih => rw [bytes_cons, lossyFrom_encode_append, ih]

/-! ## ASCII characters among the bytes -/

theorem encode_of_ascii {c : Char} (h : c.toNat < 128) :
    String.utf8EncodeChar c = [c.toUInt8] := by
  apply String.utf8EncodeChar_eq_singleton
  rw [Char.utf8Size_eq_one_iff, UInt32.le_iff_toNat_le]
  exact Nat.le_of_lt_succ h

/-- The bytes of a character beyond ASCII lie beyond ASCII. -/
theorem le_of_mem_encode {c : Char} (h : 128 ≤ c.toNat) :
    ∀ b ∈ String.utf8EncodeChar c, 128 ≤ b.toNat := by
  unfold Char.toNat at h
  unfold String.utf8EncodeChar
  generalize c.val.toNat = n at h
  dsimp only
  intro b hb
  split_ifs at hb
  · omega
  all_goals
    simp only [List.mem_cons, List.not_mem_nil, or_false] at hb
    rcases hb with rfl | rfl | rfl | rfl
  all_goals
    rw [UInt8.toNat_ofNat']
    omega

theorem toNat_toUInt8 {c : Char} (h : c.toNat < 128) : c.toUInt8.toNat = c.toNat := by
  have hmod : c.toUInt8.toNat = c.toNat % 256 := UInt32.toNat_toUInt8 c.val
  omega

theorem toUInt8_eq_iff {c d : Char} (hc : c.toNat < 128) (hd : d.toNat < 128) :
    c.toUInt8 = d.toUInt8 ↔ c = d := by
  rw [← UInt8.toNat_inj, toNat_toUInt8 hc, toNat_toUInt8 hd, Char.toNat_inj]

/-- A byte of ASCII is the byte of one of the characters of a text, at the size of what stands
before it. -/
theorem exists_of_byte {c : Char} (hc : c.toNat < 128) {t : Text} {i : Nat}
    (h : (bytes t)[i]? = some c.toUInt8) : ∃ s u, t = s ++ c :: u ∧ i = s.byteSize := by
  induction t generalizing i with
  | nil => simp at h
  | cons d t ih =>
    rw [bytes_cons, List.getElem?_append] at h
    split at h
    · next hin =>
      -- the byte is one of those of `d`, which is then the character looked for
      have hmem : c.toUInt8 ∈ String.utf8EncodeChar d := List.mem_of_getElem? h
      have hd : d.toNat < 128 := by
        apply Nat.lt_of_not_le
        intro hle
        have := le_of_mem_encode hle _ hmem
        rw [toNat_toUInt8 hc] at this
        omega
      rw [encode_of_ascii hd] at hmem hin
      have hsame : c = d := (toUInt8_eq_iff hc hd).1 (List.mem_singleton.1 hmem)
      refine ⟨[], t, by rw [hsame]; rfl, ?_⟩
      simpa using hin
    · next hout =>
      obtain ⟨s, u, rfl, hi⟩ := ih h
      refine ⟨d :: s, u, rfl, ?_⟩
      rw [String.length_utf8EncodeChar] at hout hi
      rw [byteSize_cons]
      omega

/-- A text whose bytes begin with one of ASCII begins with its character. -/
theorem exists_of_first_byte {c : Char} (hc : c.toNat < 128) {t : Text}
    (h : (bytes t).head? = some c.toUInt8) : ∃ u, t = c :: u := by
  rw [List.head?_eq_getElem?] at h
  obtain ⟨s, u, rfl, hs⟩ := exists_of_byte hc h
  cases s with
  | nil => exact ⟨u, rfl⟩
  | cons d s =>
    have hsize := d.utf8Size_pos
    rw [byteSize_cons] at hs
    omega

end Text

end YapAssist
