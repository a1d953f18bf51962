import Fractonica.DataModel.Projection.Theorems
import Fractonica.Store.Schema

namespace Fractonica.Store

open Lib Trust Content DataModel List

theorem isHexDigit_hexDigit : ∀ n < 16, isHexDigit (hexDigit n) = true := by
  decide

theorem mem_lowerHex {bytes : List UInt8} (h : c ∈ lowerHex bytes) : ∃ n < 16, c = hexDigit n := by
  induction bytes with
  | nil => cases h
  | cons byte rest ih =>
    have hbyte := byte.toNat_lt
    simp only [lowerHex, mem_cons] at h
    rcases h with rfl | rfl | h
    · exact ⟨_, by omega, rfl⟩
    · exact ⟨_, by omega, rfl⟩
    · exact ih h

theorem all_lowerHex (bytes : List UInt8) : (lowerHex bytes).all isHexDigit = true := by
  apply all_eq_true.mpr
  intro c hc
  obtain ⟨n, hn, rfl⟩ := mem_lowerHex hc
  exact isHexDigit_hexDigit n hn

-- The text of an identifier is its label and the digits of its bytes.
theorem isIdentifierText_append (label : String) (bytes : FixedBytes 32) :
    isIdentifierText label (label ++ String.ofList (lowerHex bytes.bytes)) = true := by
  rw [isIdentifierText, String.toList_append, String.toList_ofList, length_append,
    length_lowerHex, bytes.length_eq, take_left, drop_left, all_lowerHex]
  simp

theorem isIdentifierText_identifier (id : Identifier kind) :
    isIdentifierText kind.label id.toText = true :=
  isIdentifierText_append kind.label id.bytes

theorem isIdentifierText_contentId (id : ContentId) :
    isIdentifierText CONTENT_ID_PREFIX id.toText = true :=
  isIdentifierText_append CONTENT_ID_PREFIX id.bytes

theorem hyphen_not_mem_lowerHex (bytes : List UInt8) : '-' ∉ lowerHex bytes := by
  intro h
  obtain ⟨n, hn, hsame⟩ := mem_lowerHex h
  have hnone : ∀ n < 16, '-' ≠ hexDigit n := by decide
  exact hnone n hn hsame

theorem filter_lowerHex (bytes : List UInt8) :
    (lowerHex bytes).filter (· ≠ '-') = lowerHex bytes := by
  apply filter_eq_self.mpr
  intro c hc
  rw [decide_eq_true_eq]
  rintro rfl
  exact hyphen_not_mem_lowerHex bytes hc

theorem lowerHex_append (left right : List UInt8) :
    lowerHex (left ++ right) = lowerHex left ++ lowerHex right := by
  induction left with
  | nil => rfl
  | cons byte rest ih => rw [cons_append, lowerHex, ih, lowerHex, cons_append,
      cons_append]

theorem hexDigit_injOn (hm : m < 16) (hn : n < 16) (h : hexDigit m = hexDigit n) : m = n := by
  have hall : ∀ m < 16, ∀ n < 16, hexDigit m = hexDigit n → m = n := by decide
  exact hall m hm n hn h

theorem lowerHex_injective : Function.Injective lowerHex := by
  intro left
  induction left with
  | nil =>
    intro right h
    cases right with
    | nil => rfl
    | cons byte rest => cases h
  | cons byte rest ih =>
    intro right h
    cases right with
    | nil => cases h
    | cons byte' rest' =>
      have hbyte := byte.toNat_lt
      have hbyte' := byte'.toNat_lt
      simp only [lowerHex, List.cons.injEq] at h
      have hhigh := hexDigit_injOn (by omega) (by omega) h.1
      have hlow := hexDigit_injOn (by omega) (by omega) h.2.1
      rw [UInt8.toNat.inj (a := byte) (b := byte') (by omega), ih h.2.2]

-- The hyphens stand between the groups.
theorem getElem?_groups (ha : a.length = 8) (hb : b.length = 4) (hc : c.length = 4)
    (hd : d.length = 4) :
    (a ++ '-' :: b ++ '-' :: c ++ '-' :: d ++ '-' :: e)[8]? = some '-' ∧
      (a ++ '-' :: b ++ '-' :: c ++ '-' :: d ++ '-' :: e)[13]? = some '-' ∧
      (a ++ '-' :: b ++ '-' :: c ++ '-' :: d ++ '-' :: e)[18]? = some '-' ∧
      (a ++ '-' :: b ++ '-' :: c ++ '-' :: d ++ '-' :: e)[23]? = some '-' := by
  simp [getElem?_append, ha, hb, hc, hd]

theorem isEntityText_toText {id : EntityId} (h : id.uuid.isNil = false) :
    isEntityText id.toText = true := by
  have hlength := length_entityText id
  have hbytes := id.uuid.bytes.length_eq
  have hgroup : ∀ start count, start + count ≤ 16 →
      (lowerHex ((id.uuid.bytes.bytes.drop start).take count)).length = 2 * count := by
    intro start count hle
    rw [length_lowerHex, length_take, length_drop, hbytes]
    omega
  have hdigits : id.toText.toList.filter (· ≠ '-') = lowerHex id.uuid.bytes.bytes := by
    have hwhole : id.uuid.bytes.bytes = (((id.uuid.bytes.bytes.drop 0).take 4 ++
        (id.uuid.bytes.bytes.drop 4).take 2 ++ (id.uuid.bytes.bytes.drop 6).take 2 ++
        (id.uuid.bytes.bytes.drop 8).take 2) ++ (id.uuid.bytes.bytes.drop 10).take 6) := by
      rw [drop_zero, take_of_length_le (i := 6) (by rw [length_drop, hbytes]),
        ← take_add, ← take_add, ← take_add, take_append_drop]
    conv_rhs => rw [hwhole]
    simp only [EntityId.toText, String.toList_ofList, filter_append, filter_cons,
      filter_lowerHex, lowerHex_append]
    rfl
  have hnil : id.toText ≠ "00000000-0000-0000-0000-000000000000" := by
    intro hsame
    rw [hsame] at hdigits
    have hzeros : "00000000-0000-0000-0000-000000000000".toList.filter (· ≠ '-') =
        lowerHex (List.replicate 16 0) := by decide
    have hzero := lowerHex_injective (hzeros.symm.trans hdigits)
    have hbytesNil : id.uuid.bytes = FixedBytes.replicate 16 0 := FixedBytes.ext hzero.symm
    rw [Uuid.isNil, hbytesNil] at h
    exact absurd h (by decide)
  obtain ⟨h8, h13, h18, h23⟩ := getElem?_groups
    (e := lowerHex ((id.uuid.bytes.bytes.drop 10).take 6)) (hgroup 0 4 (by omega))
    (hgroup 4 2 (by omega)) (hgroup 6 2 (by omega)) (hgroup 8 2 (by omega))
  have hcount : (lowerHex id.uuid.bytes.bytes).length = 32 := by rw [length_lowerHex, hbytes]
  have htext : id.toText.toList = lowerHex ((id.uuid.bytes.bytes.drop 0).take 4) ++
      '-' :: lowerHex ((id.uuid.bytes.bytes.drop 4).take 2) ++
      '-' :: lowerHex ((id.uuid.bytes.bytes.drop 6).take 2) ++
      '-' :: lowerHex ((id.uuid.bytes.bytes.drop 8).take 2) ++
      '-' :: lowerHex ((id.uuid.bytes.bytes.drop 10).take 6) := by
    rw [EntityId.toText, String.toList_ofList]
  rw [← htext] at h8 h13 h18 h23
  simp only [isEntityText, hlength, h8, h13, h18, h23, hdigits, hcount, all_lowerHex, hnil,
    decide_true, Bool.and_true, ne_eq, not_false_eq_true]

section Texts

variable {text : String}

theorem instr_eq_zero : instr text c = 0 ↔ c ∉ text.toList := by
  unfold instr
  cases hfound : text.toList.findIdx? (· = c) with
  | none =>
    rw [findIdx?_eq_none_iff] at hfound
    refine iff_of_true rfl ?_
    intro hmem
    exact absurd (hfound c hmem) (by simp)
  | some index =>
    obtain ⟨hlt, hsame, -⟩ := findIdx?_eq_some_iff_getElem.mp hfound
    refine iff_of_false (Nat.succ_ne_zero _) (not_not_intro ?_)
    rw [← of_decide_eq_true hsame]
    exact getElem_mem hlt

theorem blobLengthBetween_iff :
    blobLengthBetween low high text = true ↔
      low ≤ (utf8Bytes text).length ∧ (utf8Bytes text).length ≤ high := by
  rw [blobLengthBetween, Bool.and_eq_true, decide_eq_true_eq, decide_eq_true_eq]

theorem hasNoNul_of_noControl (h : text.toList.any isControl = false) : hasNoNul text = true := by
  rw [hasNoNul, decide_eq_true_eq, instr_eq_zero]
  intro hmem
  exact absurd (any_eq_false.mp h _ hmem) (by decide)

-- The limits of the labels count characters, those of the columns bytes: four
-- bytes are enough for a character.
theorem label_checks {maximum : Nat} (h : isBoundedLabel text maximum false = true) :
    blobLengthBetween 1 (4 * maximum) text = true ∧ hasNoNul text = true := by
  simp only [isBoundedLabel, Bool.false_or, Bool.and_eq_true, decide_eq_true_eq,
    Bool.not_eq_eq_eq_not, Bool.not_true] at h
  obtain ⟨⟨hnonempty, hmost⟩, hcontrol⟩ := h
  have hlow := Utf8.length_le_encode text.toList
  have hhigh := Utf8.length_encode_le text.toList
  rw [← utf8Bytes_eq] at hlow hhigh
  refine ⟨blobLengthBetween_iff.mpr ⟨by omega, by omega⟩, hasNoNul_of_noControl hcontrol⟩

-- The characters of an ASCII text are its bytes.
theorem ascii_char (h : ∀ byte ∈ utf8Bytes text, byte.toNat < 0x80)
    (hc : c ∈ text.toList) : ∃ byte ∈ utf8Bytes text, c.toNat = byte.toNat := by
  rw [utf8Bytes_eq] at h ⊢
  obtain ⟨hascii, hmem⟩ := Utf8.ascii_of_encode h c hc
  refine ⟨_, hmem, ?_⟩
  rw [UInt8.toNat_ofNat', Nat.mod_eq_of_lt (by omega)]

theorem isTokenByte_iff :
    isTokenByte byte = true ↔ (0x61 ≤ byte.toNat ∧ byte.toNat ≤ 0x7a) ∨
      (0x30 ≤ byte.toNat ∧ byte.toNat ≤ 0x39) ∨ byte.toNat = 0x2e ∨ byte.toNat = 0x5f ∨
        byte.toNat = 0x2d := by
  have heq : ∀ n : UInt8, byte = n ↔ byte.toNat = n.toNat := fun n => UInt8.toNat_inj.symm
  simp only [isTokenByte, isAsciiLowercase, isAsciiDigit, Bool.or_eq_true, Bool.and_eq_true,
    decide_eq_true_eq, heq, or_assoc]
  rfl

theorem isRoleCharacter_iff :
    isRoleCharacter c = true ↔ (0x61 ≤ c.toNat ∧ c.toNat ≤ 0x7a) ∨
      (0x30 ≤ c.toNat ∧ c.toNat ≤ 0x39) ∨ c.toNat = 0x2e ∨ c.toNat = 0x5f ∨ c.toNat = 0x2d := by
  have heq : ∀ d : Char, c = d ↔ c.toNat = d.toNat := fun d => Char.toNat_inj.symm
  simp only [isRoleCharacter, Bool.or_eq_true, Bool.and_eq_true, decide_eq_true_eq, heq, or_assoc]
  rfl

theorem isRoleText_of_token {role : String} (h : isToken MAX_RESOURCE_ROLE_BYTES role = true) :
    isRoleText role = true ∧ instr role '*' = 0 := by
  simp only [isToken, Bool.and_eq_true, Bool.not_eq_eq_eq_not, Bool.not_true,
    isEmpty_eq_false_iff,
    decide_eq_true_eq, all_eq_true] at h
  obtain ⟨⟨hnonempty, hmost⟩, hall⟩ := h
  have hascii : ∀ byte ∈ utf8Bytes role, byte.toNat < 0x80 := by
    intro byte hbyte
    have htoken := isTokenByte_iff.mp (hall byte hbyte)
    omega
  have hpositive := length_pos_iff.mpr hnonempty
  refine ⟨?_, ?_⟩
  · rw [isRoleText, Bool.and_eq_true, blobLengthBetween_iff, all_eq_true]
    refine ⟨⟨hpositive, hmost⟩, ?_⟩
    intro c hc
    obtain ⟨byte, hbyte, hcode⟩ := ascii_char hascii hc
    rw [isRoleCharacter_iff, hcode, ← isTokenByte_iff]
    exact hall byte hbyte
  · rw [instr_eq_zero]
    intro hstar
    obtain ⟨byte, hbyte, hcode⟩ := ascii_char hascii hstar
    have htoken := isTokenByte_iff.mp (hall byte hbyte)
    have hcodeStar : byte.toNat = 0x2a := hcode.symm
    omega

theorem one_lt_instr {rest : List Char} (htext : text.toList = first :: rest) (hfirst : first ≠ c)
    (hmem : c ∈ text.toList) : 1 < instr text c := by
  rw [htext] at hmem
  have hrest := (mem_cons.mp hmem).resolve_left hfirst.symm
  unfold instr
  rw [htext, findIdx?_cons, if_neg (by simpa using hfirst)]
  cases hfound : rest.findIdx? (· = c) with
  | none => exact absurd (findIdx?_eq_none_iff.mp hfound c hrest) (by simp)
  | some index => simp

theorem isMediaTokenByte_ne (h : isMediaTokenByte byte = true) : byte ≠ 0x2f := by
  rintro rfl
  exact absurd h (by decide)

theorem mediaType_checks {mediaType : String} (h : isMediaType mediaType = true) :
    blobLengthBetween 3 127 mediaType = true ∧ 1 < instr mediaType '/' ∧
      hasNoNul mediaType = true := by
  simp only [isMediaType, Bool.and_eq_true, decide_eq_true_eq, all_eq_true] at h
  obtain ⟨⟨⟨-, hmost⟩, hprintable⟩, hparts⟩ := h
  split at hparts
  · rename_i kind subkind hsplit
    simp only [Bool.and_eq_true, Bool.not_eq_eq_eq_not, Bool.not_true,
      isEmpty_eq_false_iff, all_eq_true] at hparts
    obtain ⟨⟨⟨hkind, hsubkind⟩, htokens⟩, -⟩ := hparts
    have hbytes : utf8Bytes mediaType = kind ++ 0x2f :: subkind := by
      have hwhole : [0x2f].intercalate ((utf8Bytes mediaType).splitOn 0x2f) =
          utf8Bytes mediaType := intercalate_splitOn 0x2f
      rw [← hwhole, hsplit]
      simp
    have hascii : ∀ byte ∈ utf8Bytes mediaType, byte.toNat < 0x80 := by
      intro byte hbyte
      have hrange := hprintable byte hbyte
      omega
    have hlength := congrArg List.length hbytes
    rw [length_append, length_cons] at hlength
    have hkindLength := length_pos_iff.mpr hkind
    have hsubkindLength := length_pos_iff.mpr hsubkind
    refine ⟨blobLengthBetween_iff.mpr ⟨by omega, hmost⟩, ?_, ?_⟩
    · have hchars : utf8Bytes mediaType =
          mediaType.toList.map fun c => UInt8.ofNat c.toNat := by
        rw [utf8Bytes_eq] at hascii ⊢
        exact Utf8.encode_ascii fun c hc => (Utf8.ascii_of_encode hascii c hc).1
      have hslash : '/' ∈ mediaType.toList := by
        have hmem : (0x2f : UInt8) ∈ utf8Bytes mediaType := by simp [hbytes]
        rw [hchars] at hmem
        obtain ⟨c, hc, hcode⟩ := mem_map.mp hmem
        obtain ⟨byte, hbyte, hsame⟩ := ascii_char hascii hc
        have hlow := hascii byte hbyte
        have hnat := congrArg UInt8.toNat hcode
        rw [UInt8.toNat_ofNat', Nat.mod_eq_of_lt (by omega)] at hnat
        have hslash : c = '/' := Char.toNat_inj.mp hnat
        exact hslash ▸ hc
      obtain ⟨byte, kind, rfl⟩ := exists_cons_of_ne_nil hkind
      cases htext : mediaType.toList with
      | nil => simp [htext] at hslash
      | cons first rest =>
        refine one_lt_instr htext ?_ hslash
        rintro rfl
        rw [hbytes, htext, map_cons, cons_append, List.cons.injEq] at hchars
        exact isMediaTokenByte_ne (htokens byte mem_cons_self) hchars.1
    · rw [hasNoNul, decide_eq_true_eq, instr_eq_zero]
      intro hnul
      obtain ⟨byte, hbyte, hcode⟩ := ascii_char hascii hnul
      have hrange := hprintable byte hbyte
      have hzero : (0 : Nat) = byte.toNat := hcode
      omega
  · cases hparts

-- What a validated name leaves open is its length in bytes.
theorem originalName_checks (h : isOriginalName name = true) :
    1 ≤ (utf8Bytes name).length ∧ hasNoNul name = true ∧ instr name '/' = 0 ∧
      instr name (Char.ofNat 92) = 0 := by
  simp only [isOriginalName, Bool.and_eq_true, decide_eq_true_eq, all_eq_true,
    Bool.not_eq_eq_eq_not, Bool.not_true, Bool.or_eq_false_iff, decide_eq_false_iff_not] at h
  obtain ⟨⟨⟨⟨hnonempty, -⟩, -⟩, -⟩, hall⟩ := h
  have hlow := Utf8.length_le_encode name.toList
  rw [← utf8Bytes_eq] at hlow
  refine ⟨by omega, ?_, ?_, ?_⟩
  · apply hasNoNul_of_noControl
    apply any_eq_false.mpr
    intro c hc
    rw [(hall c hc).1.1.1]
    exact Bool.false_ne_true
  · rw [instr_eq_zero]
    intro hmem
    exact (hall _ hmem).1.1.2 rfl
  · rw [instr_eq_zero]
    intro hmem
    exact (hall _ hmem).1.2 rfl

end Texts

end Fractonica.Store
