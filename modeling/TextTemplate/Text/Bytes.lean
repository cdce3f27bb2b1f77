/-
TextTemplate.Text.Bytes — a text as its UTF-8 bytes.

`bytesOf` is the view that everything about offsets is stated in: offsets
count its bytes, and `unitAt?` looks one of them up. What is ASCII can be
told from one byte: an ASCII character is the byte of its code, and every
byte of another character is past the ASCII ones.
-/
namespace TextTemplate

/-- The bytes of a text. -/
def bytesOf (text : String) : List UInt8 :=
  text.toList.flatMap String.utf8EncodeChar

/-- The byte at an offset, as the character of that code. An ASCII
character is one byte and comes back as itself; every byte of a longer
character comes back as one of U+0080 to U+00FF. -/
def unitAt? (text : String) (offset : Nat) : Option Char :=
  if h : offset < text.utf8ByteSize then
    some (Char.ofUInt8 (text.getUTF8Byte ⟨offset⟩ (by simpa [String.Pos.Raw.lt_iff] using h)))
  else
    none

/-! ## The bytes of a text -/

@[simp] theorem bytesOf_empty : bytesOf "" = [] := rfl

@[simp] theorem bytesOf_append (a b : String) : bytesOf (a ++ b) = bytesOf a ++ bytesOf b := by
  simp [bytesOf]

theorem toByteArray_eq (text : String) : text.toByteArray = (bytesOf text).toByteArray := by
  obtain ⟨l, rfl⟩ := text.exists_eq_ofList
  simp [bytesOf, List.utf8Encode]

@[simp] theorem length_bytesOf (text : String) : (bytesOf text).length = text.utf8ByteSize := by
  rw [← String.size_toByteArray, toByteArray_eq, List.size_toByteArray]

theorem unitAt?_eq (text : String) (offset : Nat) :
    unitAt? text offset = ((bytesOf text)[offset]?).map Char.ofUInt8 := by
  unfold unitAt?
  split
  · next h =>
    have hb : offset < (bytesOf text).length := by simpa using h
    rw [List.getElem?_eq_getElem hb]
    simp only [Option.map_some, String.getUTF8Byte, toByteArray_eq text]
    simp
  · next h =>
    rw [List.getElem?_eq_none (by simpa using h)]
    rfl

/-! ## Characters by their codes and bytes -/

theorem toNat_ofNat_of_isValidChar {n : Nat} (h : n.isValidChar) : (Char.ofNat n).toNat = n := by
  rw [Char.ofNat, dif_pos h]
  rfl

theorem toNat_ofUInt8 (b : UInt8) : (Char.ofUInt8 b).toNat = b.toNat := rfl

/-- An ASCII character is one byte, and that byte is the character. -/
theorem utf8EncodeChar_of_ascii {c : Char} (h : c.toNat < 0x80) :
    ∃ b, String.utf8EncodeChar c = [b] ∧ Char.ofUInt8 b = c := by
  refine ⟨UInt8.ofNat c.toNat, ?_, ?_⟩
  · rw [String.utf8EncodeChar, if_pos (show c.val.toNat ≤ 0x7f from Nat.le_of_lt_succ h)]
    rfl
  · apply Char.ext
    apply UInt32.toNat_inj.1
    change (UInt8.ofNat c.toNat).toNat = c.toNat
    rw [UInt8.toNat_ofNat']
    omega

/-- No byte of another character is ASCII. -/
theorem le_of_mem_utf8EncodeChar {c : Char} (h : 0x80 ≤ c.toNat) {b : UInt8}
    (hb : b ∈ String.utf8EncodeChar c) : 0x80 ≤ (Char.ofUInt8 b).toNat := by
  have h : 0x80 ≤ c.val.toNat := h
  have hb' : ∃ n, b = UInt8.ofNat n ∧ n < 0x100 ∧ 0x80 ≤ n := by
    rw [String.utf8EncodeChar, if_neg (by omega)] at hb
    split at hb
    · simp only [List.mem_cons, List.not_mem_nil, or_false] at hb
      rcases hb with rfl | rfl <;> exact ⟨_, rfl, by omega, by omega⟩
    · split at hb
      · simp only [List.mem_cons, List.not_mem_nil, or_false] at hb
        rcases hb with rfl | rfl | rfl <;> exact ⟨_, rfl, by omega, by omega⟩
      · simp only [List.mem_cons, List.not_mem_nil, or_false] at hb
        rcases hb with rfl | rfl | rfl | rfl <;> exact ⟨_, rfl, by omega, by omega⟩
  obtain ⟨n, rfl, hlt, hle⟩ := hb'
  rw [toNat_ofUInt8, UInt8.toNat_ofNat']
  omega

end TextTemplate
