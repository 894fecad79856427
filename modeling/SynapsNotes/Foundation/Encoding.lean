import SynapsNotes.Foundation.Text

/-!
# UTF-8

`String(data:encoding:)` with `.utf8`: the text whose encoding the bytes are,
and nothing if they are no encoding of a text. A text is at least as long in
bytes as in characters, and the encoding of texts in a row is that of their
concatenation.
-/

namespace SynapsNotes

abbrev Bytes := List UInt8

/-- `Data(text.utf8)`. -/
def utf8 (t : Text) : Bytes := t.flatMap String.utf8EncodeChar

/-- `String(data:encoding: .utf8)`. -/
def utf8Decode (bytes : Bytes) : Option Text := bytes.toByteArray.utf8Decode?.map Array.toList

theorem utf8_append (t u : Text) : utf8 (t ++ u) = utf8 t ++ utf8 u := List.flatMap_append

theorem toByteArray_utf8 (t : Text) : (utf8 t).toByteArray = t.utf8Encode := rfl

theorem utf8Decode_utf8 (t : Text) : utf8Decode (utf8 t) = some t := by
  rw [utf8Decode, toByteArray_utf8, List.utf8Decode?_utf8Encode]
  rfl

theorem utf8_of_utf8Decode {bytes : Bytes} {t : Text} (h : utf8Decode bytes = some t) : utf8 t = bytes := by
  obtain ⟨a, ha, rfl⟩ := Option.map_eq_some_iff.mp h
  have hs : bytes.toByteArray.utf8Decode?.isSome := Option.isSome_iff_exists.mpr ⟨a, ha⟩
  have henc := ByteArray.utf8Encode_get_utf8Decode? (b := bytes.toByteArray) (h := hs)
  rw [Option.get_of_eq_some hs ha, ← toByteArray_utf8] at henc
  simpa using congrArg (fun b : ByteArray => b.data.toList) henc

theorem utf8_injective {t u : Text} (h : utf8 t = utf8 u) : t = u :=
  Option.some.inj (by rw [← utf8Decode_utf8 t, h, utf8Decode_utf8])

/-- Only the zero character has a zero in its encoding. -/
theorem zero_mem_utf8EncodeChar {c : Char} : 0 ∈ String.utf8EncodeChar c ↔ c = '\x00' := by
  constructor
  · intro h
    rcases Char.utf8Size_eq c with hc | hc | hc | hc
    · have hval : c.val.toNat ≤ 127 := UInt32.le_iff_toNat_le.mp (Char.utf8Size_eq_one_iff.mp hc)
      rw [String.utf8EncodeChar_eq_singleton hc, List.mem_singleton] at h
      have hzero : c.val.toNat % 256 = 0 := (UInt32.toNat_toUInt8 _).symm.trans (congrArg UInt8.toNat h.symm)
      have hnul : c.val.toNat = 0 := by omega
      exact Char.ext (UInt32.toNat_inj.mp hnul)
    -- all bytes of a longer encoding have their highest bit set
    · simp [String.utf8EncodeChar_eq_cons_cons hc, eq_comm (a := (0 : UInt8))] at h
    · simp [String.utf8EncodeChar_eq_cons_cons_cons hc, eq_comm (a := (0 : UInt8))] at h
    · simp [String.utf8EncodeChar_eq_cons_cons_cons_cons hc, eq_comm (a := (0 : UInt8))] at h
  · rintro rfl
    decide

theorem zero_mem_utf8 {t : Text} : 0 ∈ utf8 t ↔ '\x00' ∈ t := by
  rw [utf8, List.mem_flatMap]
  simp only [zero_mem_utf8EncodeChar, exists_eq_right]

example : utf8Decode [0xC3, 0xA9] = some ['é'] := by decide +kernel
example : utf8Decode [0xC3] = none := by decide +kernel

end SynapsNotes
