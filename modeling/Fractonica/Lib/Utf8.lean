import Mathlib.Data.List.Basic

namespace Fractonica.Lib.Utf8

open List

-- The bytes of a list of characters.
def encode (characters : List Char) : List UInt8 := characters.flatMap String.utf8EncodeChar

theorem bytes_eq (text : String) : text.toByteArray.data.toList = encode text.toList := by
  rw [← String.utf8Encode_toList, List.utf8Encode]
  simp [encode]

theorem length_encodeChar (c : Char) :
    1 ≤ (String.utf8EncodeChar c).length ∧ (String.utf8EncodeChar c).length ≤ 4 := by
  rw [String.length_utf8EncodeChar]
  exact ⟨c.utf8Size_pos, c.utf8Size_le_four⟩

theorem encodeChar_ascii (h : c.toNat < 0x80) :
    String.utf8EncodeChar c = [UInt8.ofNat c.toNat] := by
  exact if_pos (Nat.le_of_lt_succ h)

-- The bytes of any other character are not ASCII.
theorem encodeChar_high (h : 0x80 ≤ c.toNat) : ∀ byte ∈ String.utf8EncodeChar c,
    0x80 ≤ byte.toNat := by
  have hbyte : ∀ n, 0x80 ≤ n → n < 0x100 → 0x80 ≤ (UInt8.ofNat n).toNat := by
    intro n hlow hhigh
    rw [UInt8.toNat_ofNat']
    omega
  have hval : 0x80 ≤ c.val.toNat := h
  unfold String.utf8EncodeChar
  intro byte hmem
  dsimp only at hmem
  split at hmem
  · omega
  · split at hmem
    · simp only [mem_cons, not_mem_nil, or_false] at hmem
      rcases hmem with rfl | rfl
      · exact hbyte _ (by omega) (by omega)
      · exact hbyte _ (by omega) (by omega)
    · split at hmem
      · simp only [mem_cons, not_mem_nil, or_false] at hmem
        rcases hmem with rfl | rfl | rfl
        · exact hbyte _ (by omega) (by omega)
        · exact hbyte _ (by omega) (by omega)
        · exact hbyte _ (by omega) (by omega)
      · simp only [mem_cons, not_mem_nil, or_false] at hmem
        rcases hmem with rfl | rfl | rfl | rfl
        · exact hbyte _ (by omega) (by omega)
        · exact hbyte _ (by omega) (by omega)
        · exact hbyte _ (by omega) (by omega)
        · exact hbyte _ (by omega) (by omega)

theorem length_le_encode (characters : List Char) :
    characters.length ≤ (encode characters).length := by
  induction characters with
  | nil => exact Nat.zero_le _
  | cons c rest ih =>
    have hone := (length_encodeChar c).1
    simp only [encode, flatMap_cons, length_append, length_cons] at ih ⊢
    omega

theorem length_encode_le (characters : List Char) :
    (encode characters).length ≤ 4 * characters.length := by
  induction characters with
  | nil => exact Nat.zero_le _
  | cons c rest ih =>
    have hfour := (length_encodeChar c).2
    simp only [encode, flatMap_cons, length_append, length_cons] at ih ⊢
    omega

theorem mem_encode :
    byte ∈ encode characters ↔ ∃ c ∈ characters, byte ∈ String.utf8EncodeChar c := by
  simp [encode]

-- Where all bytes are ASCII, they are the codes of the characters.
theorem ascii_of_encode (h : ∀ byte ∈ encode characters, byte.toNat < 0x80) :
    ∀ c ∈ characters, c.toNat < 0x80 ∧ UInt8.ofNat c.toNat ∈ encode characters := by
  intro c hc
  have hascii : c.toNat < 0x80 := by
    by_contra hhigh
    have hpos : 0 < (String.utf8EncodeChar c).length := (length_encodeChar c).1
    obtain ⟨byte, hbyte⟩ := exists_mem_of_length_pos hpos
    have hlow := h byte (mem_encode.mpr ⟨c, hc, hbyte⟩)
    have hbound := encodeChar_high (Nat.le_of_not_lt hhigh) byte hbyte
    omega
  refine ⟨hascii, mem_encode.mpr ⟨c, hc, ?_⟩⟩
  rw [encodeChar_ascii hascii]
  exact mem_singleton.mpr rfl

theorem encode_ascii (h : ∀ c ∈ characters, c.toNat < 0x80) :
    encode characters = characters.map fun c => UInt8.ofNat c.toNat := by
  induction characters with
  | nil => rfl
  | cons c rest ih =>
    obtain ⟨hfirst, hrest⟩ := forall_mem_cons.mp h
    have hencoded := ih hrest
    simp only [encode, flatMap_cons, encodeChar_ascii hfirst, map_cons] at hencoded ⊢
    rw [hencoded]
    rfl

end Fractonica.Lib.Utf8
