import Fractonica.DataModel.Envelope.Theorems
import Fractonica.DataModel.Projection
import Fractonica.Lib.Utf8
import Mathlib.Algebra.Order.BigOperators.Group.List
import Mathlib.Data.List.Perm.Subperm

namespace Fractonica.DataModel

open Lib Trust Content List

-- The nesting of the containers of a document.
def Json.depth : Json → Nat
  | .array values => items values + 1
  | .object entries => pairs entries + 1
  | _ => 0
where
  items : List Json → Nat
    | [] => 0
    | value :: rest => max (depth value) (items rest)
  pairs : List Member → Nat
    | [] => 0
    | (_, value) :: rest => max (depth value) (pairs rest)

theorem utf8Bytes_eq (text : String) : utf8Bytes text = Utf8.encode text.toList :=
  Utf8.bytes_eq text

theorem length_escapeByte_le (byte : UInt8) : (escapeByte byte).length ≤ 6 := by
  unfold escapeByte
  split_ifs <;> simp [lowerHex]

theorem escapeByte_high (h : 0x80 ≤ byte.toNat) : escapeByte byte = [byte] := by
  have hne : ∀ n : UInt8, n.toNat < 0x80 → byte ≠ n := by
    intro n hn hsame
    rw [hsame] at h
    omega
  unfold escapeByte
  rw [if_neg (hne _ (by decide)), if_neg (hne _ (by decide)), if_neg (hne _ (by decide)),
    if_neg (hne _ (by decide)), if_neg (hne _ (by decide)), if_neg (hne _ (by decide)),
    if_neg (hne _ (by decide)), if_neg (by omega)]

theorem flatMap_escapeByte {bytes : List UInt8} (h : ∀ byte ∈ bytes, escapeByte byte = [byte]) :
    bytes.flatMap escapeByte = bytes := by
  rw [flatMap_congr h]
  exact (flatMap_pure_eq_map _ _).trans (map_id _)

-- The longest escape is that of an ASCII control character.
theorem length_escapeChar_le (c : Char) :
    ((String.utf8EncodeChar c).flatMap escapeByte).length ≤ 6 := by
  by_cases hascii : c.toNat < 0x80
  · rw [Utf8.encodeChar_ascii hascii, flatMap_singleton]
    exact length_escapeByte_le _
  · have hhigh := Utf8.encodeChar_high (Nat.le_of_not_lt hascii)
    rw [flatMap_escapeByte fun byte hbyte => escapeByte_high (hhigh byte hbyte)]
    exact (Utf8.length_encodeChar c).2.trans (by decide)

theorem length_quote_le (text : String) :
    (quote (utf8Bytes text)).length ≤ 6 * text.toList.length + 2 := by
  have hescaped : ∀ characters : List Char,
      ((Utf8.encode characters).flatMap escapeByte).length ≤ 6 * characters.length := by
    intro characters
    induction characters with
    | nil => exact Nat.zero_le _
    | cons c rest ih =>
      have hone := length_escapeChar_le c
      simp only [Utf8.encode, flatMap_cons, flatMap_append, length_append,
        length_cons] at ih ⊢
      omega
  have hbound := hescaped text.toList
  rw [utf8Bytes_eq, quote, length_cons, length_append, length_singleton]
  omega

theorem length_decimal_le (hk : 0 < k) (hn : n < 10 ^ k) : (decimal n).length ≤ k := by
  rw [decimal, length_map]
  exact (Nat.length_toDigits_le_iff (by decide) hk).mpr hn

theorem length_lowerHex (bytes : List UInt8) : (lowerHex bytes).length = 2 * bytes.length := by
  induction bytes with
  | nil => rfl
  | cons byte rest ih =>
    simp only [lowerHex, length_cons, ih]
    omega

section Fits

variable (P : Primitives) {json : Json} {text name : String} {members : List Member}
  {bytes : List UInt8}

-- The text of a document has at most `size` bytes and `depth` nested
-- containers.
structure Fits (json : Json) (size depth : Nat) : Prop where
  size : (json.render P).length ≤ size
  depth : json.depth ≤ depth

-- The members of an object, each with its key and the two marks around it.
structure FitsMembers (members : List Member) (size depth : Nat) : Prop where
  size : ((Json.render.pairs P members).map fun text => text.length + 1).sum ≤ size
  depth : Json.depth.pairs members ≤ depth

variable {P} {size depth : Nat}

theorem length_intercalate_le (texts : List (List UInt8)) :
    ([0x2c].intercalate texts).length ≤ (texts.map fun text => text.length + 1).sum := by
  induction texts with
  | nil => exact Nat.zero_le _
  | cons text rest ih =>
    cases rest with
    | nil => simp
    | cons next rest =>
      rw [intercalate_cons_cons]
      simp only [length_append, length_singleton, map_cons, sum_cons]
        at ih ⊢
      omega

theorem depth_items_le :
    Json.depth.items values ≤ depth ↔ ∀ value ∈ values, value.depth ≤ depth := by
  induction values with
  | nil => simp [Json.depth.items]
  | cons value rest ih => simp [Json.depth.items, ih]

theorem depth_pairs_le :
    Json.depth.pairs members ≤ depth ↔ ∀ member ∈ members, member.2.depth ≤ depth := by
  induction members with
  | nil => simp [Json.depth.pairs]
  | cons member rest ih => simp [Json.depth.pairs, ih]

theorem render_items (values : List Json) :
    Json.render.items P values = values.map (Json.render P) := by
  induction values with
  | nil => rfl
  | cons value rest ih => rw [Json.render.items, ih, map_cons]

theorem render_pairs (members : List Member) :
    Json.render.pairs P members = members.map fun member =>
      quote (utf8Bytes member.1.text) ++ 0x3a :: member.2.render P := by
  induction members with
  | nil => rfl
  | cons member rest ih => rw [Json.render.pairs, ih, map_cons]

theorem Fits.mono (h : Fits P json size depth) (hsize : size ≤ size') : Fits P json size' depth :=
  ⟨h.size.trans hsize, h.depth⟩

theorem fits_string (length : Nat) (h : text.toList.length ≤ length) :
    Fits P (.string text) (6 * length + 2) depth := by
  refine ⟨?_, Nat.zero_le _⟩
  have hquote := length_quote_le text
  rw [Json.render]
  omega

theorem fits_ofUInt64 (value : UInt64) : Fits P (.ofUInt64 value) 20 depth := by
  refine ⟨?_, Nat.zero_le _⟩
  have hvalue := value.toNat_lt
  exact length_decimal_le (by decide) (by omega)

theorem fits_ofInt64 (value : Int64) : Fits P (.ofInt64 value) 20 depth := by
  refine ⟨?_, Nat.zero_le _⟩
  have hlow := value.le_toInt
  unfold Json.ofInt64 JsonNumber.ofInt64
  split
  · have hdigits : (decimal value.toInt.natAbs).length ≤ 19 :=
      length_decimal_le (by decide) (by omega)
    simp only [Json.render, JsonNumber.render, length_cons]
    omega
  · exact length_decimal_le (by decide) (UInt64.toNat_lt _ |>.trans (by decide))

theorem fits_array (h : ∀ value ∈ values, Fits P value size depth) :
    Fits P (.array values) (values.length * (size + 1) + 2) (depth + 1) := by
  have hitems : ((Json.render.items P values).map fun text => text.length + 1).sum ≤
      values.length * (size + 1) := by
    rw [render_items, map_map]
    have hsum := sum_le_card_nsmul (values.map _) (size + 1)
      (forall_mem_map.mpr fun value hvalue => Nat.succ_le_succ (h value hvalue).size)
    rwa [length_map] at hsum
  have htexts := length_intercalate_le (Json.render.items P values)
  refine ⟨?_, Nat.succ_le_succ (depth_items_le.mpr fun value hvalue => (h value hvalue).depth)⟩
  simp only [Json.render, length_cons, length_append, length_nil]
  omega

theorem fits_map {values : List α} {toJson : α → Json}
    (h : ∀ value ∈ values, Fits P (toJson value) size depth) :
    Fits P (.array (values.map toJson)) (values.length * (size + 1) + 2) (depth + 1) := by
  have harray := fits_array (forall_mem_map.mpr h)
  rwa [length_map] at harray

theorem FitsMembers.object (h : FitsMembers P members size depth) :
    Fits P (.object members) (size + 2) (depth + 1) := by
  have htexts := length_intercalate_le (Json.render.pairs P members)
  have hsize := h.size
  refine ⟨?_, Nat.succ_le_succ h.depth⟩
  simp only [Json.render, length_cons, length_append, length_nil]
  omega

theorem FitsMembers.append (h : FitsMembers P members size depth)
    (h' : FitsMembers P others size' depth) :
    FitsMembers P (members ++ others) (size + size') depth := by
  refine ⟨?_, depth_pairs_le.mpr (forall_mem_append.mpr
    ⟨depth_pairs_le.mp h.depth, depth_pairs_le.mp h'.depth⟩)⟩
  rw [render_pairs, map_append, ← render_pairs, ← render_pairs, map_append, sum_append]
  exact Nat.add_le_add h.size h'.size

theorem Fits.field (h : Fits P json size depth) :
    FitsMembers P (field name json) (size + 6 * name.toList.length + 4) depth := by
  have hquote := length_quote_le name
  have hsize := h.size
  refine ⟨?_, max_le h.depth (Nat.zero_le _)⟩
  simp only [DataModel.field, Json.render.pairs, map_cons, map_nil, sum_cons,
    sum_nil, length_append, length_cons]
  omega

theorem fits_optionalField {value : Option α} {toJson : α → Json}
    (h : ∀ found ∈ value, Fits P (toJson found) size depth) :
    FitsMembers P (optionalField name toJson value) (size + 6 * name.toList.length + 4) depth := by
  cases value with
  | none => exact ⟨Nat.zero_le _, Nat.zero_le _⟩
  | some found => exact (h found rfl).field

theorem fits_listField {toJson : α → Json}
    (h : ∀ value ∈ values, Fits P (toJson value) size depth) :
    FitsMembers P (listField name toJson values)
      (values.length * (size + 1) + 2 + 6 * name.toList.length + 4) (depth + 1) := by
  cases values with
  | nil => exact ⟨Nat.zero_le _, Nat.zero_le _⟩
  | cons value rest =>
    exact (fits_map h).field

-- A text without escapes, such as the base64 of some bytes.
theorem fits_plain (hbytes : utf8Bytes text = bytes)
    (hplain : ∀ byte ∈ bytes, escapeByte byte = [byte]) (hsize : bytes.length ≤ size) :
    Fits P (.string text) (size + 2) depth := by
  refine ⟨?_, Nat.zero_le _⟩
  rw [Json.render, hbytes, quote, flatMap_escapeByte hplain, length_cons, length_append,
    length_singleton]
  omega

theorem escapeByte_symbol (n : Nat) :
    escapeByte (Base64.symbol n) = [Base64.symbol n] ∧ (Base64.symbol n).toNat < 0x80 := by
  by_cases hsmall : n < 63
  · have hall : ∀ n < 63, escapeByte (Base64.symbol n) = [Base64.symbol n] ∧
        (Base64.symbol n).toNat < 0x80 := by decide
    exact hall n hsmall
  · have hlast : Base64.symbol n = UInt8.ofNat '_'.toNat := by
      unfold Base64.symbol
      rw [if_neg (by omega), if_neg (by omega), if_neg (by omega), if_neg (by omega)]
    rw [hlast]
    decide

theorem mem_base64 :
    ∀ byte ∈ Base64.encode bytes, escapeByte byte = [byte] ∧ byte.toNat < 0x80 := by
  intro byte hbyte
  have hsymbol : ∃ n, byte = Base64.symbol n := by
    induction bytes using Base64.encode.induct with
    | case1 => cases hbyte
    | case2 a =>
      simp only [Base64.encode, mem_cons, not_mem_nil, or_false] at hbyte
      rcases hbyte with h | h <;> exact ⟨_, h⟩
    | case3 a b =>
      simp only [Base64.encode, mem_cons, not_mem_nil, or_false] at hbyte
      rcases hbyte with h | h | h <;> exact ⟨_, h⟩
    | case4 a b c rest ih =>
      simp only [Base64.encode, mem_cons] at hbyte
      rcases hbyte with h | h | h | h | h
      · exact ⟨_, h⟩
      · exact ⟨_, h⟩
      · exact ⟨_, h⟩
      · exact ⟨_, h⟩
      · exact ih h
  obtain ⟨n, rfl⟩ := hsymbol
  exact escapeByte_symbol n

end Fits

section Documents

variable {depth : Nat} {maximum : Nat} {value text : String}

theorem length_identifier (id : Identifier kind) :
    id.toText.toList.length = kind.label.toList.length + 64 := by
  rw [Identifier.toText, String.toList_append, String.toList_ofList, length_append,
    length_lowerHex, id.bytes.length_eq]

theorem fits_ofIdentifier (id : Identifier kind) : Fits P (.ofIdentifier id) 602 depth := by
  have hlabel : kind.label.toList.length ≤ 36 := by
    cases kind <;> decide
  have hlength := length_identifier id
  exact fits_string 100 (by omega)

theorem length_entityText (id : EntityId) : id.toText.toList.length = 36 := by
  have hbytes := id.uuid.bytes.length_eq
  simp only [EntityId.toText, String.toList_ofList, length_append, length_cons,
    length_lowerHex, length_take, length_drop, hbytes]
  decide

theorem fits_entityId (id : EntityId) : Fits P (.string id.toText) 218 depth :=
  fits_string 36 (length_entityText id).le

theorem length_le_utf8Bytes (text : String) : text.toList.length ≤ (utf8Bytes text).length := by
  rw [utf8Bytes_eq]
  exact Utf8.length_le_encode text.toList

theorem length_token (h : isToken maximum value = true) : value.toList.length ≤ maximum := by
  simp only [isToken, Bool.and_eq_true, decide_eq_true_eq] at h
  exact (length_le_utf8Bytes value).trans h.1.2

theorem length_label
    (h : isBoundedLabel value maximum allowEmpty = true) : value.toList.length ≤ maximum := by
  simp only [isBoundedLabel, Bool.and_eq_true, decide_eq_true_eq] at h
  exact h.1.2

theorem fits_resource {resource : ResourceRef} (h : resource.Valid) :
    Fits P (resourceToJson resource) 4200 (depth + 1) := by
  have hid : resource.contentId.toText.toList.length = 72 := by
    rw [ContentId.toText, String.toList_append, String.toList_ofList, length_append,
      length_lowerHex, resource.contentId.bytes.length_eq]
    rfl
  have hmedia : resource.mediaType.toList.length ≤ 127 := by
    have hbytes := h.mediaType
    simp only [isMediaType, Bool.and_eq_true, decide_eq_true_eq] at hbytes
    exact (length_le_utf8Bytes _).trans hbytes.1.1.2
  have hname : ∀ name ∈ resource.originalName, Fits P (.string name) 1532 depth := by
    intro name hname
    have hvalid := h.originalName name hname
    simp only [isOriginalName, Bool.and_eq_true, decide_eq_true_eq] at hvalid
    exact fits_string 255 hvalid.1.1.1.2
  exact (((((fits_string 72 hid.le).field.append (fits_ofUInt64 resource.byteLength).field).append
    (fits_string 127 hmedia).field).append (fits_string 64 (length_token h.role)).field).append
    (fits_optionalField hname)).object.mono (by decide)

theorem fits_target (target : ReferenceTarget) : Fits P target.toJson 2300 (depth + 1) := by
  cases target with
  | actor actorId =>
    have hkind : Fits P (.string "actor") 38 depth := fits_string 6 (by decide)
    exact (hkind.field.append (fits_ofIdentifier actorId).field).object.mono (by decide)
  | entity spaceId entityId operationId =>
    have hkind : Fits P (.string "entity") 38 depth := fits_string 6 (by decide)
    exact (((hkind.field.append (fits_ofIdentifier spaceId).field).append
      (fits_entityId entityId).field).append
      (fits_optionalField fun found _ => fits_ofIdentifier found)).object.mono (by decide)

theorem fits_reference {reference : EntityReference}
    (h : reference.validate P = .ok ()) : Fits P reference.toJson 3100 (depth + 2) := by
  simp only [EntityReference.validate, bind_eq_ok, require_eq_ok] at h
  obtain ⟨-, hrelation, -⟩ := h
  exact ((fits_string 64 (length_token hrelation)).field.append (fits_target
    reference.target).field).object.mono (by decide)

theorem utf8Bytes_of_base64 {bytes : List UInt8}
    (h : decodeCanonicalBase64url text = some bytes) : utf8Bytes text = Base64.encode bytes := by
  simp only [decodeCanonicalBase64url, Option.bind_eq_bind, Option.bind_eq_some_iff,
    Option.ite_none_right_eq_some, Option.some.injEq] at h
  obtain ⟨_, -, hencode, rfl⟩ := h
  exact hencode.symm

theorem length_base64 {bytes : List UInt8} (h : bytes.length ≤ maximum) :
    (Base64.encode bytes).length ≤ (4 * maximum + 2) / 3 := by
  rw [Base64.length_encode]
  exact Nat.div_le_div_right (by omega)

-- The texts of an encrypted payload are base64 and hexadecimal.
theorem fits_base64 {bytes : List UInt8} (maximum : Nat)
    (h : decodeCanonicalBase64url text = some bytes) (hlength : bytes.length ≤ maximum) :
    Fits P (.string text) ((4 * maximum + 2) / 3 + 2) depth :=
  fits_plain (utf8Bytes_of_base64 h) (fun byte hbyte => (mem_base64 byte hbyte).1)
    (length_base64 hlength)

theorem length_keyId (h : isKeyId text = true) : (utf8Bytes text).length ≤ 75 := by
  simp only [isKeyId, Bool.and_eq_true, decide_eq_true_eq, length_drop] at h
  have hlabel : (utf8Bytes KEY_ID_PREFIX).length = 11 := by decide
  omega

theorem fits_encrypted {payload : EncryptedPayload} (h : payload.validate = .ok ()) :
    Fits P payload.toJson 1400000 (depth + 1) := by
  simp only [EncryptedPayload.validate, bind_eq_ok, require_eq_ok, okOr_eq_ok,
    decide_eq_true_eq] at h
  obtain ⟨-, hkey, nonce, hnonce, -, hnonceLength, ciphertext, hciphertext, -, hlength⟩ := h
  have halgorithm : Fits P (.string payload.algorithm.key) 62 depth := by
    cases payload.algorithm
    exact fits_string 10 (by decide)
  have hkeyLength := (length_le_utf8Bytes _).trans (length_keyId hkey)
  exact (((halgorithm.field.append (fits_string 75 hkeyLength).field).append
    (fits_base64 12 hnonce hnonceLength.le).field).append
    (fits_base64 MAX_ENCRYPTED_PAYLOAD_BYTES hciphertext hlength).field).object.mono (by decide)

section Metadata

variable {level : Nat} {entries : List Member}

theorem validateItems_eq_ok :
    validateMetadataValue.items P values level = .ok u ↔
      ∀ value ∈ values, validateMetadataValue P value (level + 1) = .ok () := by
  induction values with
  | nil => simp [validateMetadataValue.items]
  | cons value rest ih =>
    simp only [validateMetadataValue.items, bind_eq_ok, ih, forall_mem_cons, exists_unit]

theorem validatePairs_eq_ok :
    validateMetadataValue.pairs P entries level = .ok u ↔
      ∀ entry ∈ entries, validateMetadataKey entry.1 = .ok () ∧
        validateMetadataValue P entry.2 (level + 1) = .ok () := by
  induction entries with
  | nil => simp [validateMetadataValue.pairs]
  | cons entry rest ih =>
    simp only [validateMetadataValue.pairs, bind_eq_ok, ih, forall_mem_cons, exists_unit,
      and_assoc]

-- A value at some level has no more containers below than levels are left.
theorem depth_metadataValue {value : Json} (h : validateMetadataValue P value level = .ok ()) :
    value.depth ≤ MAX_METADATA_DEPTH + 1 - level := by
  induction value using Json.memberInduction generalizing level with
  | null => exact Nat.zero_le _
  | bool value => exact Nat.zero_le _
  | number value => exact Nat.zero_le _
  | string value => exact Nat.zero_le _
  | array values ih =>
    simp only [validateMetadataValue, validateMetadataContainer, bind_eq_ok, require_eq_ok,
      decide_eq_true_eq, validateItems_eq_ok] at h
    obtain ⟨-, ⟨-, hlevel, -⟩, hitems⟩ := h
    have hdepth : Json.depth.items values ≤ MAX_METADATA_DEPTH + 1 - (level + 1) :=
      depth_items_le.mpr fun value hvalue => ih value hvalue (hitems value hvalue)
    simp only [Json.depth]
    omega
  | object entries ih =>
    simp only [validateMetadataValue, validateMetadataContainer, bind_eq_ok, require_eq_ok,
      decide_eq_true_eq, validatePairs_eq_ok] at h
    obtain ⟨-, ⟨-, hlevel, -⟩, hpairs⟩ := h
    have hdepth : Json.depth.pairs entries ≤ MAX_METADATA_DEPTH + 1 - (level + 1) :=
      depth_pairs_le.mpr fun entry hentry => ih entry hentry (hpairs entry hentry).2
    simp only [Json.depth]
    omega

theorem fits_metadata {metadata : Metadata} (h : validateMetadata P metadata = .ok ()) :
    Fits P metadata.toJson 65536 17 := by
  simp only [validateMetadata, bind_eq_ok, require_eq_ok, checkAll_eq_ok, decide_eq_true_eq] at h
  obtain ⟨-, -, -, hvalues, hsize⟩ := h
  have hdepth : Json.depth.pairs metadata.entries ≤ 16 := by
    rw [depth_pairs_le]
    intro entry hentry
    obtain ⟨_, -, hvalue⟩ := hvalues entry hentry
    exact depth_metadataValue hvalue
  exact ⟨hsize, Nat.succ_le_succ hdepth⟩

end Metadata

theorem fits_resources {resources : List ResourceRef} (h : ValidResources resources) :
    FitsMembers P (listField name resourceToJson resources) (268870 + 6 * name.toList.length)
      (depth + 2) := by
  have hfits : ∀ resource ∈ resources, Fits P (resourceToJson resource) 4200 (depth + 1) :=
    fun resource hresource => fits_resource (h.valid resource hresource)
  have hlist := @fits_listField P name _ _ _ _ _ hfits
  have hcount : resources.length ≤ 64 := h.count
  exact ⟨hlist.size.trans (by omega), hlist.depth⟩

theorem fits_references (h : validateReferences P references = .ok ()) :
    FitsMembers P (listField name EntityReference.toJson references)
      (793862 + 6 * name.toList.length) (depth + 3) := by
  simp only [validateReferences, bind_eq_ok, require_eq_ok, checkAll_eq_ok,
    decide_eq_true_eq] at h
  obtain ⟨-, hcount, -, hvalid, -⟩ := h
  have hfits : ∀ reference ∈ references, Fits P reference.toJson 3100 (depth + 2) :=
    fun reference hreference => fits_reference (hvalid reference hreference)
  have hlist := @fits_listField P name _ _ _ _ _ hfits
  have hmost : references.length ≤ 256 := hcount
  exact ⟨hlist.size.trans (by omega), hlist.depth⟩

theorem fits_label (h : isBoundedLabel text maximum allowEmpty = true) :
    Fits P (.string text) (6 * maximum + 2) depth :=
  fits_string maximum (length_label h)

theorem fits_record {document : RecordDocument} (h : document.validate P = .ok ()) :
    Fits P document.toJson 2800000 18 := by
  simp only [RecordDocument.validate, validateBoundedLabel, bind_eq_ok, checkSome_eq_ok,
    require_eq_ok, decide_eq_true_eq] at h
  obtain ⟨-, -, -, hemoji, -, htext, _, hmetadata, _, hresources, hreferences⟩ := h
  exact (((((((fits_ofInt64 document.startAtUnixMs).field.append
    (fits_optionalField fun finish _ => fits_ofInt64 finish)).append
    (fits_optionalField fun emoji hfound => fits_label (hemoji emoji hfound))).append
    (fits_optionalField fun text hfound => fits_string MAX_TEXT_CHARS (htext text hfound))).append
    (fits_metadata hmetadata).field).append
    (fits_resources (validateResources_eq_ok.mp hresources))).append
    (fits_references hreferences)).object.mono (by decide)

theorem length_color (h : isColor color = true) : (utf8Bytes color).length = 7 := by
  unfold isColor at h
  cases hbytes : utf8Bytes color with
  | nil =>
    rw [hbytes] at h
    cases h
  | cons sign digits =>
    rw [hbytes] at h
    simp only [Bool.and_eq_true, decide_eq_true_eq] at h
    rw [length_cons, h.1.1]

theorem fits_tag {document : TagDocument} (h : document.validate P = .ok ()) :
    Fits P document.toJson 2800000 18 := by
  simp only [TagDocument.validate, validateBoundedLabel, bind_eq_ok, checkSome_eq_ok,
    require_eq_ok] at h
  obtain ⟨-, hname, -, hemoji, -, hnotes, -, hcolor, _, hmetadata, hreferences⟩ := h
  have hcolorLength : ∀ color ∈ document.colorHex, Fits P (.string color) 44 17 :=
    fun color hfound =>
      fits_string 7 ((length_le_utf8Bytes color).trans (length_color (hcolor color hfound)).le)
  exact ((((((fits_label hname).field.append
    (fits_optionalField fun emoji hfound => fits_label (hemoji emoji hfound))).append
    (fits_optionalField fun notes hfound => fits_label (hnotes notes hfound))).append
    (fits_optionalField hcolorLength)).append (fits_metadata hmetadata).field).append
    (fits_references hreferences)).object.mono (by decide)

theorem fits_event {document : EventDocument} (h : document.validate P = .ok ()) :
    Fits P document.toJson 2800000 18 := by
  simp only [EventDocument.validate, validateBoundedLabel, bind_eq_ok, require_eq_ok] at h
  obtain ⟨-, -, -, hlabel, _, hmetadata, hreferences⟩ := h
  exact ((((((fits_ofInt64 document.startAtUnixMs).field.append
    (fits_optionalField fun finish _ => fits_ofInt64 finish)).append
    (fits_label hlabel).field).append (fits_ofInt64 document.typeNumber).field).append
    (fits_metadata hmetadata).field).append (fits_references hreferences)).object.mono (by decide)

theorem fits_profile {document : ProfileDocument} (h : document.validate P = .ok ()) :
    Fits P document.toJson 2800000 18 := by
  simp only [ProfileDocument.validate, validateBoundedLabel, bind_eq_ok, checkSome_eq_ok,
    mapError_eq_ok, ResourceRef.validate_eq_ok, require_eq_ok] at h
  obtain ⟨-, hhandle, -, hname, -, -, -, havatar, hmetadata⟩ := h
  have havatarFits : ∀ avatar ∈ document.avatar, Fits P (resourceToJson avatar) 4200 17 :=
    fun avatar hfound => fits_resource (havatar avatar hfound)
  exact (((((fits_string MAX_PROFILE_HANDLE_BYTES (length_token hhandle)).field.append
    (fits_label hname).field).append (fits_ofUInt64 document.sarosAnchor.toUInt64).field).append
    (fits_optionalField havatarFits)).append
    (fits_metadata hmetadata).field).object.mono (by decide)

-- The shape that the protected documents share.
theorem fits_protected {payload : ProtectedDocument α} {toJson : α → Json}
    (h : validateProtected payload validatePublic allowPrivateResources = .ok ())
    (hpublic : ∀ document, validatePublic document = .ok () →
      Fits P (toJson document) 2800000 18) : Fits P (payload.toJson toJson) 2801000 19 := by
  cases payload with
  | pub document =>
    have hvisibility : Fits P (.string "public") 44 18 := fits_string 7 (by decide)
    exact (hvisibility.field.append (hpublic document h).field).object.mono (by decide)
  | priv envelope resources =>
    obtain ⟨henvelope, hvalid⟩ := validResources_of_protected h
    have hvisibility : Fits P (.string "private") 44 18 := fits_string 7 (by decide)
    exact ((hvisibility.field.append (fits_encrypted henvelope).field).append (fits_resources
      hvalid)).object.mono (by decide)

end Documents

section Capabilities

variable {depth : Nat} {grant : CapabilityGrant}

theorem fits_strings {α : Type} {values : List α} {text : α → String} (count length : Nat)
    (hcount : values.length ≤ count) (h : ∀ value ∈ values, (text value).toList.length ≤ length) :
    Fits P (.array (values.map fun value => .string (text value)))
      (count * (6 * length + 3) + 2) (depth + 1) := by
  refine (fits_map fun value hvalue => fits_string length (h value hvalue)).mono ?_
  have hmul : values.length * (6 * length + 2 + 1) ≤ count * (6 * length + 3) :=
    Nat.mul_le_mul_right _ hcount
  omega

-- A strictly ascending list of constructor numbers is short.
theorem length_le_of_ascending {α : Type} {values : List α} {key : α → Nat}
    (hascending : (values.map key).Pairwise (fun left right => left < right))
    (hbound : ∀ value ∈ values, key value < bound) : values.length ≤ bound := by
  have hnodup : (values.map key).Nodup := hascending.imp fun hlt => Nat.ne_of_lt hlt
  have hsub : (values.map key) ⊆ List.range bound := by
    intro n hn
    obtain ⟨value, hvalue, rfl⟩ := mem_map.mp hn
    exact mem_range.mpr (hbound value hvalue)
  have hlength := (subperm_of_subset hnodup hsub).length_le
  rwa [length_map, length_range] at hlength

theorem length_actions (h : grant.Valid P) : grant.actions.length ≤ 6 :=
  length_le_of_ascending h.actions fun action _ => by cases action <;> decide

theorem length_visibilities (h : grant.Valid P) : grant.visibilities.length ≤ 2 :=
  length_le_of_ascending h.visibilities fun visibility _ => by cases visibility <;> decide

theorem length_schema (schema : EntitySchema) : schema.asStr.toList.length ≤ 32 := by
  cases schema <;> decide

theorem fits_grant (h : grant.Valid P) : Fits P grant.toJson 40000 18 := by
  have haction : ∀ action : CapabilityAction, (actionKey action).toList.length ≤ 20 := by
    intro action
    cases action <;> decide
  have hvisibility : ∀ visibility : Visibility, (visibilityKey visibility).toList.length ≤ 20 := by
    intro visibility
    cases visibility <;> decide
  exact ((((((((((fits_ofIdentifier grant.subject).field.append
    (fits_strings 6 20 (length_actions h) fun action _ => haction action).field).append
    (fits_strings 32 32 h.schemaCount fun schema _ => length_schema schema).field).append
    (fits_strings 2 20 (length_visibilities h) fun visibility _ => hvisibility
      visibility).field).append
    (fits_strings 64 64 h.roleCount fun role hrole => length_token (h.roles role
      hrole)).field).append
    (fits_optionalField fun most _ => fits_ofUInt64 most)).append
    (fits_optionalField fun start _ => fits_ofInt64 start)).append
    (fits_optionalField fun finish _ => fits_ofInt64 finish)).append
    (fits_ofUInt64 grant.delegationDepth.toUInt64).field).append
    (fits_label h.label).field).object.mono (by decide)

theorem fits_revocation {revocation : CapabilityRevocation} (h : revocation.validate = .ok ()) :
    Fits P revocation.toJson 40000 18 := by
  simp only [CapabilityRevocation.validate, validateBoundedLabel, checkSome_eq_ok,
    require_eq_ok] at h
  have hreason : (revocationReasonKey revocation.reason).toList.length ≤ 20 := by
    cases revocation.reason <;> decide
  exact (((fits_ofIdentifier revocation.grantId).field.append (fits_string 20 hreason).field).append
    (fits_optionalField fun detail hfound => fits_label (h detail hfound))).object.mono (by decide)

end Capabilities

section Bodies

variable {json : Json} {size depth : Nat} {e : OperationEnvelope}

-- A body names its kind, and most have one more member.
theorem fits_kind (h : Fits P json size 19) :
    Fits P (.object (field "kind" (.string kind) ++ field name json))
      (size + 6 * (kind.toList.length + name.toList.length) + 36) 20 := by
  have hkey : "kind".toList.length = 4 := by decide
  exact ((fits_string _ le_rfl).field.append h.field).object.mono (by omega)

theorem Fits.weaken (h : Fits P json size depth) (hsize : size ≤ size')
    (hdepth : depth ≤ depth') : Fits P json size' depth' :=
  ⟨h.size.trans hsize, h.depth.trans hdepth⟩

theorem Fits.deeper (h : Fits P json size depth) : Fits P json size (depth + 1) :=
  h.weaken le_rfl (Nat.le_succ _)

theorem ValidBody.fits {schema : EntitySchema} {body : OperationBody}
    (h : ValidBody P schema body) : Fits P body.toJson 2802000 20 := by
  cases h with
  | record valid =>
    exact (fits_kind (fits_protected valid fun _ => fits_record)).mono (by decide)
  | tag valid =>
    exact (fits_kind (fits_protected valid fun _ => fits_tag)).mono (by decide)
  | event valid =>
    exact (fits_kind (fits_protected valid fun _ => fits_event)).mono (by decide)
  | profile valid =>
    exact (fits_kind (fits_profile valid).deeper).mono (by decide)
  | tombstone client =>
    have hkind : Fits P (.string "tombstone") 122 19 := fits_string 20 (by decide)
    exact hkind.field.object.mono (by decide)
  | spaceGenesis controller =>
    exact (fits_kind (fits_ofIdentifier controller)).mono (by decide)
  | capabilityGrant valid =>
    exact (fits_kind (fits_grant valid).deeper).mono (by decide)
  | capabilityRevoke valid =>
    exact (fits_kind (fits_revocation valid).deeper).mono (by decide)

theorem fits_identifiers {ids : List (Identifier kind)}
    (h : ids.length ≤ 64) : Fits P (.array (ids.map .ofIdentifier)) 38594 20 :=
  (fits_map fun id _ => fits_ofIdentifier id).mono (by omega)

theorem utf8Bytes_asciiText {bytes : List UInt8} (h : ∀ byte ∈ bytes, byte.toNat < 0x80) :
    utf8Bytes (asciiText bytes) = bytes := by
  have hchar : ∀ byte ∈ bytes, (Char.ofNat byte.toNat).toNat = byte.toNat := by
    intro byte hbyte
    have hlt := h byte hbyte
    have hvalid : byte.toNat.isValidChar := Or.inl (by omega)
    rw [Char.ofNat, dif_pos hvalid]
    rfl
  rw [utf8Bytes_eq, asciiText, String.toList_ofList, Utf8.encode_ascii, map_map]
  · calc bytes.map _ = bytes.map id := by
          apply map_congr_left
          intro byte hbyte
          rw [Function.comp_apply, hchar byte hbyte]
          exact UInt8.ofNat_toNat
      _ = bytes := map_id _
  · intro c hc
    obtain ⟨byte, hbyte, rfl⟩ := mem_map.mp hc
    rw [hchar byte hbyte]
    exact h byte hbyte

theorem OperationEnvelope.fits_within {length : Nat} (h : e.verify P = .ok ())
    (hbody : Fits P e.body.toJson size 20)
    (hlength : e.coseSign1.length ≤ length) : Fits P e.toJson (size + 2 * length + 83000) 21 := by
  obtain ⟨signed, payload, hsound⟩ := e.verify_sound h
  have hvalid := payload.valid
  have hparents : e.causalParents.length ≤ 64 := hsound.causalParents ▸ hvalid.parentCount
  have hauthorization : e.authorization.length ≤ 64 :=
    hsound.authorization ▸ hvalid.authorizationCount
  have hnonce : (hexText e.nonce.bytes.bytes).toList.length ≤ 32 := by
    rw [hexText, String.toList_ofList, length_lowerHex, e.nonce.bytes.length_eq]
  have hcose : Fits P (.string (asciiText (Base64.encode e.coseSign1))) (2 * length + 2) 20 := by
    apply fits_plain (utf8Bytes_asciiText fun byte hbyte => (mem_base64 byte hbyte).2)
      fun byte hbyte => (mem_base64 byte hbyte).1
    rw [Base64.length_encode]
    omega
  exact ((((((((((((fits_ofUInt64 e.protocolVersion.toUInt64).field.append
    (fits_ofIdentifier e.operationId).field).append (fits_ofIdentifier e.spaceId).field).append
    (fits_ofIdentifier e.actorId).field).append (fits_entityId e.entityId).field).append
    (fits_string 32 (length_schema e.schema)).field).append
    (fits_identifiers hparents).field).append (fits_identifiers hauthorization).field).append
    (fits_ofInt64 e.occurredAtUnixMs).field).append (fits_string 32 hnonce).field).append
    hbody.field).append hcose.field).object.mono (by simp; omega)

-- The projection of a verified envelope is within the limits of the store and
-- of its JSON functions.
theorem OperationEnvelope.fits (h : e.verify P = .ok ()) : Fits P e.toJson 8388608 21 := by
  obtain ⟨signed, payload, hsound⟩ := e.verify_sound h
  have hlength := (fromCoseSign1_eq_ok.mp hsound.read).2.1
  exact (e.fits_within h (e.validBody h).fits hlength).mono (by decide)

-- That of a grant is much smaller.
theorem OperationEnvelope.fits_of_grant (h : e.verify P = .ok ()) {grant : CapabilityGrant}
    (hbody : e.body = .capabilityGrant grant)
    (hlength : e.coseSign1.length ≤ 60000) : Fits P e.toJson 262144 21 := by
  have hvalid := e.validBody h
  rw [hbody] at hvalid
  generalize e.schema = schema at hvalid
  cases hvalid with
  | capabilityGrant valid =>
    have hkind : Fits P (.string "capabilityGrant") 122 19 := fits_string 20 (by decide)
    have hfits : Fits P e.body.toJson 41000 20 := by
      rw [hbody]
      exact (hkind.field.append (fits_grant valid).deeper.field).object.mono (by decide)
    exact (e.fits_within h hfits hlength).mono (by decide)

theorem intercalate_concat (text : List UInt8) (rest : List (List UInt8)) (last : List UInt8) :
    [0x2c].intercalate (text :: rest ++ [last]) =
      [0x2c].intercalate (text :: rest) ++ 0x2c :: last := by
  induction rest generalizing text with
  | nil => simp
  | cons next rest ih =>
    rw [cons_append, cons_append, intercalate_cons_cons, ← cons_append,
      ih next, intercalate_cons_cons]
    simp

-- What an object is rendered to ends with its last member.
theorem render_object_append (members : List Member) (name : String) (value : Json) :
    ∃ front, (Json.object (members ++ field name value)).render P =
      front ++ (value.render P ++ [0x7d]) := by
  rw [Json.render, render_pairs, map_append, ← render_pairs, field, map_singleton]
  cases Json.render.pairs P members with
  | nil =>
    refine ⟨0x7b :: (quote (utf8Bytes name) ++ [0x3a]), ?_⟩
    simp
  | cons text rest =>
    refine ⟨0x7b :: ([0x2c].intercalate (text :: rest) ++
      0x2c :: (quote (utf8Bytes name) ++ [0x3a])), ?_⟩
    rw [intercalate_concat]
    simp

-- The last quoted text is found from the end.
theorem eq_of_quoted {left right : List UInt8} (hleft : 0x22 ∉ left) (hright : 0x22 ∉ right)
    (h : front ++ 0x22 :: (left ++ [0x22, 0x7d]) = front' ++ 0x22 :: (right ++ [0x22, 0x7d])) :
    left = right := by
  have htake : ∀ text front : List UInt8, 0x22 ∉ text →
      ((front ++ 0x22 :: (text ++ [0x22, 0x7d])).reverse.drop 2).takeWhile (· ≠ 0x22) =
        text.reverse := by
    intro text front htext
    have hall : ∀ byte ∈ text.reverse, decide (byte ≠ 0x22) = true := by
      intro byte hbyte
      rw [decide_eq_true_eq]
      intro hsame
      exact htext (hsame ▸ mem_reverse.mp hbyte)
    simp only [reverse_append, reverse_cons, reverse_nil, nil_append,
      append_assoc, cons_append, drop_succ_cons, drop_zero]
    rw [takeWhile_append_of_pos hall]
    simp
  have hreverse := htake left front hleft
  rw [h, htake right front' hright] at hreverse
  exact (reverse_injective hreverse).symm

-- A projection determines the bytes of its envelope, and with them all of it.
theorem OperationEnvelope.eq_of_text {left right : OperationEnvelope}
    (hleft : left.verify P = .ok ()) (hright : right.verify P = .ok ())
    (h : left.toJson.render P = right.toJson.render P) : left = right := by
  have hplain : ∀ bytes : List UInt8, 0x22 ∉ Base64.encode bytes := by
    intro bytes hmem
    exact absurd (mem_base64 _ hmem).1 (by decide)
  have htext : ∀ bytes : List UInt8, (Json.string (asciiText (Base64.encode bytes))).render P =
      0x22 :: (Base64.encode bytes ++ [0x22]) := by
    intro bytes
    rw [Json.render, utf8Bytes_asciiText fun byte hbyte => (mem_base64 byte hbyte).2, quote,
      flatMap_escapeByte fun byte hbyte => (mem_base64 byte hbyte).1]
  unfold OperationEnvelope.toJson at h
  obtain ⟨front, hfront⟩ := render_object_append (P := P) _ "coseSign1"
    (.string (asciiText (Base64.encode left.coseSign1)))
  obtain ⟨front', hfront'⟩ := render_object_append (P := P) _ "coseSign1"
    (.string (asciiText (Base64.encode right.coseSign1)))
  rw [hfront, hfront', htext, htext] at h
  simp only [cons_append, append_assoc, nil_append] at h
  exact eq_of_verify hleft hright
    (Base64.encode_injective (eq_of_quoted (hplain _) (hplain _) h))

end Bodies

end Fractonica.DataModel
