import Fractonica.DataModel.Body.Theorems
import Fractonica.Trust.Operation.Theorems

namespace Fractonica.DataModel

open Lib Trust Content List

-- Reading back member by member.
theorem map_eq_of_forall₂ {α β : Type} {R : α → β → Prop} {f : β → α} {values : List α}
    {found : List β} (h : List.Forall₂ R values found)
    (hf : ∀ value ∈ values, ∀ read, R value read → f read = value) : found.map f = values := by
  induction h with
  | nil => rfl
  | cons hfirst _ ih =>
    rw [forall_mem_cons] at hf
    rw [map_cons, hf.1 _ hfirst, ih hf.2]

section Scalars

variable {schema : EntitySchema} {value : Option CanonicalValue} {fields : List CanonicalValue}

theorem required_eq_ok {found : CanonicalValue} :
    required schema value detail = .ok found ↔ value = some found := by
  cases value <;> simp [required, okOr]

theorem unsigned_eq_ok {found : UInt64} :
    unsigned schema value detail = .ok found ↔ value = some (.unsigned found) := by
  rcases value with _ | value
  · simp [unsigned, required, okOr]
  · cases value <;> simp [unsigned, invalid]

theorem text_eq_ok {found : String} :
    text schema value detail = .ok found ↔ value = some (.text found) := by
  rcases value with _ | value
  · simp [text, required, okOr]
  · cases value <;> simp [text, invalid]

theorem fixedBytes_eq_ok {found : FixedBytes n} :
    fixedBytes schema n value detail = .ok found ↔ value = some (.bytes found.bytes) := by
  refine ⟨fun h => ?_, fun h => by rw [h, fixedBytes_some]⟩
  simp only [fixedBytes, bind_eq_ok, required_eq_ok] at h
  obtain ⟨value, rfl, h⟩ := h
  cases value with
  | bytes bytes =>
    rw [FixedBytes.ofList?_eq_some.mp (okOr_eq_ok.mp h)]
  | _ => cases h

theorem decodeOptionalText_eq_ok {found : Option String} :
    decodeOptionalText schema value detail = .ok found ↔ value = some (optionalText found) := by
  refine ⟨fun h => ?_, fun h => by rw [h, decodeOptionalText_some]⟩
  simp only [decodeOptionalText, bind_eq_ok, required_eq_ok] at h
  obtain ⟨value, rfl, h⟩ := h
  cases value with
  | null | text =>
    cases h
    rfl
  | _ => cases h

theorem decodeOptionalUnsigned_eq_ok {found : Option UInt64} :
    decodeOptionalUnsigned schema value detail = .ok found ↔
      value = some (optionalUnsigned found) := by
  refine ⟨fun h => ?_, fun h => by rw [h, decodeOptionalUnsigned_some]⟩
  simp only [decodeOptionalUnsigned, bind_eq_ok, required_eq_ok] at h
  obtain ⟨value, rfl, h⟩ := h
  cases value with
  | null | unsigned =>
    cases h
    rfl
  | _ => cases h

theorem int64OfUInt64_eq_ok {number : UInt64} (h : int64OfUInt64 schema number detail = .ok found) :
    0 ≤ found.toInt ∧ UInt64.ofNat found.toInt.toNat = number := by
  unfold int64OfUInt64 at h
  by_cases hlt : number.toNat < 2 ^ 63
  · rw [if_pos hlt] at h
    cases h
    rw [Int64.toInt_ofInt_of_le (by omega) (by omega)]
    exact ⟨by omega, by rw [Int.toNat_natCast, UInt64.ofNat_toNat]⟩
  · rw [if_neg hlt] at h
    cases h

theorem nonnegativeI64_canonical (h : nonnegativeI64 schema value detail = .ok found) :
    ∃ encoded, nonnegativeInteger found = .ok encoded ∧ value = some encoded := by
  simp only [nonnegativeI64, bind_eq_ok, unsigned_eq_ok] at h
  obtain ⟨number, rfl, h⟩ := h
  obtain ⟨hnonneg, rfl⟩ := int64OfUInt64_eq_ok h
  exact ⟨_, if_pos hnonneg, rfl⟩

theorem optionalNonnegativeI64_canonical {found : Option Int64}
    (h : optionalNonnegativeI64 schema value detail = .ok found) :
    ∃ encoded, optionalNonnegativeInteger found = .ok encoded ∧ value = some encoded := by
  simp only [optionalNonnegativeI64, bind_eq_ok, required_eq_ok] at h
  obtain ⟨value, rfl, h⟩ := h
  cases value with
  | null =>
    cases h
    exact ⟨.null, rfl, rfl⟩
  | unsigned number =>
    simp only [bind_eq_ok, Except.ok.injEq] at h
    obtain ⟨found, h, rfl⟩ := h
    obtain ⟨hnonneg, rfl⟩ := int64OfUInt64_eq_ok h
    exact ⟨_, if_pos hnonneg, rfl⟩
  | _ => cases h

-- An integer that is not negative is written as an unsigned one.
theorem decodeSignedInteger_canonical (h : decodeSignedInteger schema value detail = .ok found) :
    ∃ encoded, value = some encoded ∧ normalize (signedInteger found) = normalize encoded := by
  simp only [decodeSignedInteger, bind_eq_ok, required_eq_ok] at h
  obtain ⟨value, rfl, h⟩ := h
  refine ⟨value, rfl, ?_⟩
  cases value with
  | integer number =>
    cases h
    by_cases hnegative : found.toInt < 0
    · rw [signedInteger, if_pos hnegative]
    · rw [signedInteger, if_neg hnegative, normalize_unsigned, Trust.normalize, if_pos (by omega)]
  | unsigned number =>
    obtain ⟨hnonneg, rfl⟩ := int64OfUInt64_eq_ok h
    rw [signedInteger, if_neg (by omega)]
  | _ => cases h

theorem decodeArray_canonical {encode : α → CanonicalValue} {field : String}
    {decode : CanonicalValue → Except DataModelError α} {found : List α}
    (hdecode : ∀ value found, decode value = .ok found → encode found = value)
    (h : decodeArray schema value field decode = .ok found) :
    value = some (.array (found.map encode)) := by
  simp only [decodeArray, bind_eq_ok, required_eq_ok] at h
  obtain ⟨value, rfl, h⟩ := h
  cases value with
  | array values =>
    rw [map_eq_of_forall₂ (mapM_eq_ok.mp h) fun value _ => hdecode value]
  | _ => cases h

theorem exactArray_eq_ok {length : Nat} {value : CanonicalValue} :
    exactArray schema value length detail = .ok fields ↔
      value = .array fields ∧ fields.length = length := by
  cases value with
  | array found =>
    simp only [exactArray, CanonicalValue.array.injEq]
    split_ifs with hlength
    · constructor
      · rintro ⟨⟩
        exact ⟨rfl, hlength⟩
      · rintro ⟨rfl, -⟩
        rfl
    · refine iff_of_false (by simp [invalid]) ?_
      rintro ⟨rfl, h⟩
      exact hlength h
  | _ => simp [exactArray, invalid]

theorem bodyArray_eq_ok {value : CanonicalValue} :
    bodyArray schema value = .ok fields ↔ value = .array fields ∧ fields ≠ [] := by
  cases value with
  | array found =>
    cases found with
    | nil => simp [bodyArray, invalid]
    | cons first rest =>
      simp only [bodyArray, Except.ok.injEq, CanonicalValue.array.injEq]
      constructor
      · rintro rfl
        exact ⟨rfl, cons_ne_nil _ _⟩
      · exact And.left
  | _ => simp [bodyArray, invalid]

end Scalars

section Metadata

variable {schema : EntitySchema} {metadata : Metadata}

theorem decodeItems_decodes {encoded : List CanonicalValue}
    (h : decodeJsonValue.items schema encoded = .ok decoded) :
    List.Forall₂ (Decodes schema) encoded (decoded.map Subtype.val) := by
  induction encoded generalizing decoded with
  | nil =>
    cases h
    exact .nil
  | cons first rest ih =>
    simp only [decodeJsonValue.items, bind_eq_ok, Except.ok.injEq] at h
    obtain ⟨value, hvalue, others, hothers, rfl⟩ := h
    exact .cons ⟨value, hvalue, rfl⟩ (ih hothers)

-- The entries are decoded one by one and inserted in turn.
theorem decodePairs_decodes {start : Metadata}
    (h : decodeJsonValue.pairs schema unique detail encoded start = .ok metadata) :
    ∃ entries, List.Forall₂ (DecodesEntry schema) encoded entries ∧
      metadata.entries =
        entries.foldl (fun acc entry => SortedMap.insert entry.1 entry.2 acc) start.entries := by
  induction encoded generalizing start with
  | nil =>
    cases h
    exact ⟨[], .nil, rfl⟩
  | cons first rest ih =>
    obtain ⟨key, value⟩ := first
    cases key with
    | text key =>
      simp only [decodeJsonValue.pairs, bind_eq_ok] at h
      obtain ⟨decoded, hdecoded, h⟩ := h
      split at h
      · cases h
      · obtain ⟨entries, hentries, hresult⟩ := ih h
        exact ⟨(⟨key⟩, decoded.val) :: entries, .cons ⟨rfl, decoded, hdecoded, rfl⟩ hentries,
          hresult⟩
    | _ => cases h

-- Sorting finds the order of entries whose keys ascend strictly.
theorem insertionSort_eq_of_perm {entries order : List (CanonicalValue × CanonicalValue)}
    (hsorted : (entries.map fun entry => encoding entry.1).Pairwise (· < ·))
    (hperm : order.Perm entries) : order.insertionSort keyLe = entries := by
  have hnodup : (entries.map fun entry => encoding entry.1).Nodup :=
    hsorted.imp fun hlt => hlt.ne
  have hle : entries.Pairwise keyLe :=
    (pairwise_map.mp hsorted).imp fun hlt => le_of_lt hlt
  have hasymm : ∀ left right, left ∈ order.insertionSort keyLe → right ∈ entries →
      keyLe left right → keyLe right left → left = right := by
    intro left right hleft hright hlr hrl
    have hmem : left ∈ entries := hperm.mem_iff.mp ((mem_insertionSort keyLe).mp hleft)
    exact inj_on_of_nodup_map hnodup hmem hright (le_antisymm hlr hrl)
  exact ((perm_insertionSort keyLe order).trans hperm).eq_of_pairwise hasymm
    (pairwise_insertionSort keyLe order) hle

theorem nodup_keys {entries : List (JsonKey × Json)}
    (h : List.Forall₂ (DecodesEntry schema) encoded entries)
    (hsorted : (encoded.map fun entry => encoding entry.1).Pairwise (· < ·)) :
    (entries.map Prod.fst).Nodup := by
  have hkeys : encoded.map (fun entry => encoding entry.1) =
      (entries.map Prod.fst).map fun key => encoding (.text key.text) := by
    induction h with
    | nil => rfl
    | cons hfirst _ ih =>
      rw [map_cons, pairwise_cons] at hsorted
      rw [map_cons, map_cons, map_cons, hfirst.1, ih hsorted.2]
  rw [hkeys] at hsorted
  have hnodup := nodup_iff_pairwise_ne.mpr (hsorted.imp fun hlt => hlt.ne)
  exact hnodup.of_map _

-- A map with ascending keys decodes to the object that encodes to it.
theorem decodePairs_canonical (ih : ∀ entry ∈ encoded, ∀ value, Decodes schema entry.2 value →
      normalize (jsonValue value) = entry.2)
    (hsorted : (encoded.map fun entry => encoding entry.1).Pairwise (· < ·))
    (h : decodeJsonValue.pairs schema unique detail encoded .empty = .ok metadata) :
    normalize (metadataValue metadata) = .map encoded := by
  obtain ⟨entries, hentries, hresult⟩ := decodePairs_decodes h
  have hperm : metadata.entries.Perm entries := by
    rw [hresult]
    exact SortedMap.foldl_insert_perm entries (nodup_keys hentries hsorted) [] fun _ _ => rfl
  have hsame : (entries.map entryValue).map normalizeEntry = encoded := by
    rw [map_map]
    exact map_eq_of_forall₂ hentries fun entry hentry found hfound =>
      Prod.ext hfound.1.symm (ih entry hentry found.2 hfound.2)
  rw [metadataValue, normalize_map]
  congr 1
  apply insertionSort_eq_of_perm hsorted
  rw [← hsame]
  exact (hperm.map entryValue).map normalizeEntry

theorem decodes_canonical {encoded : CanonicalValue} {value : Json}
    (hcanonical : Canonical levels encoded) (h : Decodes schema encoded value) :
    normalize (jsonValue value) = encoded := by
  obtain ⟨decoded, hdecoded, rfl⟩ := h
  induction encoded using CanonicalValue.memberInduction generalizing levels decoded with
  | null | bool | unsigned | text =>
    cases hdecoded
    rfl
  | integer number =>
    cases hdecoded
    obtain ⟨levels, rfl⟩ := hcanonical.exists_succ
    have hnegative : number.toInt < 0 := hcanonical
    simp only [JsonNumber.ofInt64, dif_pos hnegative, jsonValue, numberValue, Trust.normalize]
    rw [if_neg (by omega)]
  | float bits =>
    simp only [decodeJsonValue, JsonNumber.ofDouble?, bind_eq_ok, okOr_eq_ok,
      Except.ok.injEq] at hdecoded
    obtain ⟨number, hnumber, rfl⟩ := hdecoded
    split_ifs at hnumber
    cases hnumber
    rfl
  | bytes => cases hdecoded
  | array values ih =>
    obtain ⟨levels, rfl⟩ := hcanonical.exists_succ
    simp only [decodeJsonValue, bind_eq_ok, Except.ok.injEq] at hdecoded
    obtain ⟨members, hmembers, rfl⟩ := hdecoded
    rw [jsonValue_array, normalize_array, map_map,
      map_eq_of_forall₂ (decodeItems_decodes hmembers)]
    rintro member hmember _ ⟨found, hfound, rfl⟩
    exact ih member hmember (hcanonical.2 member hmember) found hfound
  | map entries ih =>
    obtain ⟨levels, rfl⟩ := hcanonical.exists_succ
    obtain ⟨-, hmembers, hsorted⟩ := hcanonical
    simp only [decodeJsonValue, bind_eq_ok, Except.ok.injEq] at hdecoded
    obtain ⟨metadata, hmetadata, rfl⟩ := hdecoded
    rw [jsonValue_object]
    refine decodePairs_canonical ?_ hsorted hmetadata
    rintro entry hentry _ ⟨found, hfound, rfl⟩
    exact (ih entry hentry).2 (hmembers entry hentry).2 found hfound

theorem decodeMetadataObject_canonical {encoded : CanonicalValue}
    (hcanonical : Canonical levels encoded)
    (h : decodeMetadataObject schema (some encoded) = .ok metadata) :
    normalize (metadataValue metadata) = normalize encoded := by
  rw [normalize_eq_self hcanonical]
  cases encoded with
  | map entries =>
    obtain ⟨levels, rfl⟩ := hcanonical.exists_succ
    obtain ⟨-, hmembers, hsorted⟩ := hcanonical
    exact decodePairs_canonical
      (fun entry hentry _ => decodes_canonical (hmembers entry hentry).2) hsorted h
  | _ => cases h

end Metadata

section Documents

variable {schema : EntitySchema} {fields : List CanonicalValue}

theorem decodeResource_canonical {value : CanonicalValue} {resource : ResourceRef}
    (h : decodeResource schema value = .ok resource) : encodeResource resource = value := by
  cases value with
  | array fields =>
    unfold decodeResource at h
    dsimp only at h
    split_ifs at h with hlength
    · match fields, hlength with
      | [contentId, byteLength, mediaType, role, originalName], _ =>
        simp only [bind_eq_ok, fixedBytes_eq_ok, unsigned_eq_ok, text_eq_ok,
          decodeOptionalText_eq_ok, getElem?_cons_zero, getElem?_cons_succ,
          Option.some.injEq, Except.ok.injEq] at h
        obtain ⟨_, rfl, _, rfl, _, rfl, _, rfl, _, rfl, rfl⟩ := h
        rfl
    · cases h
  | _ => cases h

theorem decodeTarget_canonical {target : ReferenceTarget}
    (h : decodeTarget schema fields = .ok target) : encodeTarget target = .array fields := by
  unfold decodeTarget at h
  simp only [bind_eq_ok, unsigned_eq_ok] at h
  obtain ⟨kind, hkind, h⟩ := h
  split at h
  · rename_i hlength
    match fields, hlength with
    | [code, actorId], _ =>
      simp only [bind_eq_ok, fixedBytes_eq_ok, getElem?_cons_zero, getElem?_cons_succ,
        Option.some.injEq, Except.ok.injEq] at hkind h
      obtain ⟨_, rfl, rfl⟩ := h
      rw [hkind, encodeTarget]
  · rename_i hlength
    match fields, hlength with
    | [code, spaceId, entityId, operationId], _ =>
      simp only [bind_eq_ok, required_eq_ok, getElem?_cons_zero, getElem?_cons_succ,
        Option.some.injEq] at hkind h
      obtain ⟨found, rfl, h⟩ := h
      rw [hkind]
      cases operationId <;>
        simp only [ok_bind, bind_eq_ok, fixedBytes_eq_ok, Option.some.injEq,
          CanonicalValue.bytes.injEq, reduceCtorEq, false_and, exists_false,
          Except.ok.injEq] at h
      · obtain ⟨_, rfl, _, rfl, rfl⟩ := h
        rfl
      · obtain ⟨_, rfl, _, rfl, _, rfl, rfl⟩ := h
        rfl
  · cases h

theorem decodeReference_canonical {value : CanonicalValue}
    (h : decodeReference schema value = .ok reference) :
    .array [.text reference.relation, encodeTarget reference.target] = value := by
  unfold decodeReference at h
  simp only [bind_eq_ok, exactArray_eq_ok, bodyArray_eq_ok, text_eq_ok,
    required_eq_ok, Except.ok.injEq] at h
  obtain ⟨fields, ⟨rfl, hlength⟩, relation, hrelation, _, htarget, targetFields, ⟨rfl, -⟩, target,
    hdecoded, rfl⟩ := h
  match fields, hlength with
  | [first, second], _ =>
    simp only [getElem?_cons_zero, getElem?_cons_succ, Option.some.injEq]
      at hrelation htarget
    rw [decodeTarget_canonical hdecoded, hrelation, htarget]

theorem decodeReferences_canonical {value : Option CanonicalValue}
    (h : decodeReferences schema value = .ok references) :
    value = some (encodeReferences references) :=
  decodeArray_canonical (fun _ _ => decodeReference_canonical) h

theorem decodeResources_canonical {value : Option CanonicalValue} {resources : List ResourceRef}
    (h : decodeResources schema value = .ok resources) :
    value = some (.array (resources.map encodeResource)) :=
  decodeArray_canonical (fun _ _ => decodeResource_canonical) h

theorem decodeEncryptedPayload_canonical {value : Option CanonicalValue}
    {envelope : EncryptedPayload} (h : decodeEncryptedPayload schema value = .ok envelope) :
    value = some (encodeEncryptedPayload envelope) := by
  unfold decodeEncryptedPayload at h
  simp only [bind_eq_ok, required_eq_ok] at h
  obtain ⟨value, rfl, h⟩ := h
  cases value with
  | array fields =>
    dsimp only at h
    split_ifs at h with hlength
    · cases h
    · match fields, not_not.mp hlength with
      | [algorithm, keyId, nonce, ciphertext], _ =>
        simp only [bind_eq_ok, require_eq_ok, unsigned_eq_ok, text_eq_ok, decide_eq_true_eq,
          getElem?_cons_zero, getElem?_cons_succ, Option.some.injEq,
          Except.ok.injEq] at h
        obtain ⟨_, rfl, -, rfl, _, rfl, _, rfl, _, rfl, rfl⟩ := h
        rfl
  | _ => cases h

-- The result of an encoder is the value up to the order of its map entries.
def Encodes (result : Except DataModelError CanonicalValue) (value : CanonicalValue) : Prop :=
  ∃ encoded, result = .ok encoded ∧ normalize encoded = normalize value

variable {value : CanonicalValue}

theorem Canonical.members (h : Canonical levels (.array fields)) :
    ∃ inner, ∀ field ∈ fields, Canonical inner field := by
  obtain ⟨levels, rfl⟩ := h.exists_succ
  exact ⟨levels, h.2⟩

theorem decodeRecordDocument_canonical (hcanonical : Canonical levels value)
    (h : decodeRecordDocument schema value = .ok document) :
    Encodes (encodeRecordDocument P document) value := by
  unfold decodeRecordDocument at h
  simp only [bind_eq_ok, exactArray_eq_ok, decodeOptionalText_eq_ok,
    Except.ok.injEq] at h
  obtain ⟨fields, ⟨rfl, hlength⟩, start, hstart, finish, hfinish, emoji, hemoji, text, htext,
    metadata, hmetadata, resources, hresources, references, hreferences, rfl⟩ := h
  obtain ⟨inner, hmembers⟩ := Canonical.members hcanonical
  match fields, hlength with
  | [first, second, third, fourth, fifth, sixth, seventh], _ =>
    obtain ⟨startValue, hstartValue, hfirst⟩ := nonnegativeI64_canonical hstart
    obtain ⟨finishValue, hfinishValue, hsecond⟩ := optionalNonnegativeI64_canonical hfinish
    have hsixth := decodeResources_canonical hresources
    have hseventh := decodeReferences_canonical hreferences
    simp only [getElem?_cons_zero, getElem?_cons_succ, Option.some.injEq] at *
    subst hfirst hsecond hemoji htext hsixth hseventh
    refine ⟨.array [first, second, optionalText emoji, optionalText text, metadataValue metadata,
      .array (resources.map encodeResource), encodeReferences references], ?_, ?_⟩
    · simp [encodeRecordDocument, hstartValue, hfinishValue, encodeMetadataObject_eq]
    · have hfifth := decodeMetadataObject_canonical (hmembers fifth (by simp)) hmetadata
      simp [normalize_array, hfifth]

theorem decodeTagDocument_canonical (hcanonical : Canonical levels value)
    (h : decodeTagDocument schema value = .ok document) :
    Encodes (encodeTagDocument P document) value := by
  unfold decodeTagDocument at h
  simp only [bind_eq_ok, exactArray_eq_ok, text_eq_ok,
    decodeOptionalText_eq_ok, Except.ok.injEq] at h
  obtain ⟨fields, ⟨rfl, hlength⟩, name, hname, emoji, hemoji, notes, hnotes, color, hcolor,
    metadata, hmetadata, references, hreferences, rfl⟩ := h
  obtain ⟨inner, hmembers⟩ := Canonical.members hcanonical
  match fields, hlength with
  | [first, second, third, fourth, fifth, sixth], _ =>
    have hsixth := decodeReferences_canonical hreferences
    simp only [getElem?_cons_zero, getElem?_cons_succ, Option.some.injEq] at *
    subst hname hemoji hnotes hcolor hsixth
    refine ⟨.array [.text name, optionalText emoji, optionalText notes, optionalText color,
      metadataValue metadata, encodeReferences references], ?_, ?_⟩
    · simp [encodeTagDocument, encodeMetadataObject_eq]
    · have hfifth := decodeMetadataObject_canonical (hmembers fifth (by simp)) hmetadata
      simp [normalize_array, hfifth]

theorem decodeEventDocument_canonical (hcanonical : Canonical levels value)
    (h : decodeEventDocument schema value = .ok document) :
    Encodes (encodeEventDocument P document) value := by
  unfold decodeEventDocument at h
  simp only [bind_eq_ok, exactArray_eq_ok, text_eq_ok,
    Except.ok.injEq] at h
  obtain ⟨fields, ⟨rfl, hlength⟩, start, hstart, finish, hfinish, label, hlabel, number, hnumber,
    metadata, hmetadata, references, hreferences, rfl⟩ := h
  obtain ⟨inner, hmembers⟩ := Canonical.members hcanonical
  match fields, hlength with
  | [first, second, third, fourth, fifth, sixth], _ =>
    obtain ⟨startValue, hstartValue, hfirst⟩ := nonnegativeI64_canonical hstart
    obtain ⟨finishValue, hfinishValue, hsecond⟩ := optionalNonnegativeI64_canonical hfinish
    obtain ⟨numberValue, hfourth, hnormal⟩ := decodeSignedInteger_canonical hnumber
    have hsixth := decodeReferences_canonical hreferences
    simp only [getElem?_cons_zero, getElem?_cons_succ, Option.some.injEq] at *
    subst hfirst hsecond hlabel hfourth hsixth
    refine ⟨.array [first, second, .text label, signedInteger number, metadataValue metadata,
      encodeReferences references], ?_, ?_⟩
    · simp [encodeEventDocument, hstartValue, hfinishValue, encodeMetadataObject_eq]
    · have hfifth := decodeMetadataObject_canonical (hmembers fifth (by simp)) hmetadata
      simp [normalize_array, hnormal, hfifth]

theorem decodeAvatar_canonical {value : Option CanonicalValue}
    (h : decodeAvatar schema value = .ok avatar) :
    value = some (avatar.elim .null encodeResource) := by
  simp only [decodeAvatar, bind_eq_ok, required_eq_ok] at h
  obtain ⟨value, rfl, h⟩ := h
  by_cases hnull : value = .null
  · subst hnull
    cases h
    rfl
  · have hresource : ∃ resource, decodeResource schema value = .ok resource ∧
        some resource = avatar := by
      cases value with
      | null => exact absurd rfl hnull
      | _ => simpa only [bind_eq_ok, Except.ok.injEq] using h
    obtain ⟨resource, hresource, rfl⟩ := hresource
    rw [Option.elim_some, decodeResource_canonical hresource]

theorem boundedUnsigned_eq_ok {number : UInt64} :
    boundedUnsigned schema number bound detail = .ok found ↔
      number.toNat < bound ∧ number.toNat = found := by
  unfold boundedUnsigned
  split_ifs with hlt <;> simp [hlt, invalid]

theorem decodeProfileDocument_canonical (hcanonical : Canonical levels value)
    (h : decodeProfileDocument schema (some value) = .ok document) :
    Encodes (encodeProfileDocument P document) value := by
  unfold decodeProfileDocument at h
  simp only [bind_eq_ok, required_eq_ok, exactArray_eq_ok, text_eq_ok,
    unsigned_eq_ok, boundedUnsigned_eq_ok, Option.some.injEq, Except.ok.injEq] at h
  obtain ⟨_, rfl, fields, ⟨rfl, hlength⟩, avatar, havatar, handle, hhandle, name, hname, anchor,
    hanchor, _, ⟨hbound, rfl⟩, metadata, hmetadata, rfl⟩ := h
  obtain ⟨inner, hmembers⟩ := Canonical.members hcanonical
  match fields, hlength with
  | [first, second, third, fourth, fifth], _ =>
    have hfourth := decodeAvatar_canonical havatar
    simp only [getElem?_cons_zero, getElem?_cons_succ, Option.some.injEq] at *
    subst hhandle hname hanchor hfourth
    have hexact : (UInt16.ofNat anchor.toNat).toUInt64 = anchor := by
      apply UInt64.toNat_inj.mp
      rw [UInt16.toNat_toUInt64, UInt16.toNat_ofNat', Nat.mod_eq_of_lt hbound]
    refine ⟨.array [.text handle, .text name, .unsigned anchor,
      avatar.elim .null encodeResource, metadataValue metadata], ?_, ?_⟩
    · simp only [encodeProfileDocument, encodeMetadataObject_eq, ok_bind, hexact]
    · have hfifth := decodeMetadataObject_canonical (hmembers fifth (by simp)) hmetadata
      simp [normalize_array, hfifth]

theorem decodeProtected_canonical {payload : ProtectedDocument α}
    (hpublic : ∀ inner value document, Canonical inner value → decodePublic value = .ok document →
      Encodes (encodePublic document) value) (hcanonical : Canonical levels value)
    (h : decodeProtected schema (some value) decodePublic = .ok payload) :
    Encodes (encodeProtected payload encodePublic) value := by
  cases value with
  | array fields =>
    unfold decodeProtected at h
    simp only [required_some, ok_bind] at h
    split_ifs at h with hlength
    · cases h
    · obtain ⟨inner, hmembers⟩ := Canonical.members hcanonical
      match fields, not_not.mp hlength with
      | [first, second, third], _ =>
        simp only [protectedResources, bind_eq_ok, required_eq_ok, unsigned_eq_ok,
          getElem?_cons_zero, getElem?_cons_succ, Option.some.injEq] at h
        obtain ⟨resources, ⟨_, rfl, hresources⟩, visibility, rfl, h⟩ := h
        cases third with
        | array found =>
          cases hresources
          split at h
          · simp only [required_some, ok_bind, bind_eq_ok, Except.ok.injEq] at h
            obtain ⟨document, hdocument, rfl⟩ := h
            obtain ⟨encoded, hencoded, hnormal⟩ :=
              hpublic inner second document (hmembers second (by simp)) hdocument
            refine ⟨.array [.unsigned 0, encoded, .array []], ?_, ?_⟩
            · simp [encodeProtected, hencoded]
            · simp [normalize_array, hnormal]
          · simp only [bind_eq_ok, Except.ok.injEq] at h
            obtain ⟨envelope, henvelope, listed, hlisted, rfl⟩ := h
            have hsecond := Option.some.inj (decodeEncryptedPayload_canonical henvelope)
            have hthird : listed.map encodeResource = resources :=
              map_eq_of_forall₂ (mapM_eq_ok.mp hlisted) fun _ _ _ =>
                decodeResource_canonical
            refine ⟨_, rfl, ?_⟩
            rw [hsecond, hthird]
          · cases h
        | _ => cases hresources
  | _ => cases h

end Documents

section Bodies

variable {schema : EntitySchema} {value : CanonicalValue} {fields : List CanonicalValue}
  {body : OperationBody}

theorem decodeAction_canonical (h : decodeAction schema (some value) detail = .ok action) :
    .unsigned (actionCode action) = value := by
  simp only [decodeAction, bind_eq_ok, unsigned_eq_ok, Option.some.injEq] at h
  obtain ⟨code, rfl, h⟩ := h
  split at h
  all_goals
    cases h
    try rfl

theorem decodeVisibility_canonical
    (h : decodeVisibility schema (some value) detail = .ok visibility) :
    .unsigned (visibilityCode visibility) = value := by
  simp only [decodeVisibility, bind_eq_ok, unsigned_eq_ok, Option.some.injEq] at h
  obtain ⟨code, rfl, h⟩ := h
  split at h
  all_goals
    cases h
    try rfl

theorem decodeRevocationReason_canonical {value : Option CanonicalValue}
    (h : decodeRevocationReason schema value = .ok reason) :
    value = some (.unsigned (revocationReasonCode reason)) := by
  simp only [decodeRevocationReason, bind_eq_ok, unsigned_eq_ok] at h
  obtain ⟨code, rfl, h⟩ := h
  split at h
  all_goals
    cases h
    try rfl

theorem decodeSchema_canonical
    (h : (do
      let name ← text schema (some value) "grant schema"
      EntitySchema.parse name) = .ok found) : .text found.asStr = value := by
  simp only [bind_eq_ok, text_eq_ok, EntitySchema.parse_eq_ok, Option.some.injEq] at h
  obtain ⟨name, rfl, rfl⟩ := h
  rfl

theorem decodeCapabilityGrant_canonical
    (h : decodeCapabilityGrant schema P (.unsigned BODY_CAPABILITY_GRANT :: fields) = .ok body) :
    ∃ grant, body = .capabilityGrant grant ∧
      encodeCapabilityGrant grant = .ok (.array (.unsigned BODY_CAPABILITY_GRANT :: fields)) := by
  unfold decodeCapabilityGrant at h
  split_ifs at h with hlength
  · cases h
  · match fields, not_not.mp hlength with
    | [subject, actions, schemas, visibilities, roles, maximum, notBefore, expiresAt, depth,
        label], _ =>
        simp only [bind_eq_ok, fixedBytes_eq_ok, text_eq_ok, unsigned_eq_ok,
          decodeOptionalUnsigned_eq_ok, boundedUnsigned_eq_ok, getElem?_cons_zero,
          getElem?_cons_succ, Option.some.injEq, Except.ok.injEq] at h
        obtain ⟨_, rfl, _, -, _, hactions, _, hschemas, _, hvisibilities, _, hroles, _, rfl, _,
          hnotBefore, _, hexpiresAt, depth, rfl, _, ⟨hbound, rfl⟩, _, rfl, rfl⟩ := h
        have hactions := Option.some.inj (decodeArray_canonical
          (fun _ _ => decodeAction_canonical) hactions)
        have hschemas := Option.some.inj (decodeArray_canonical
          (fun _ _ => decodeSchema_canonical) hschemas)
        have hvisibilities := Option.some.inj (decodeArray_canonical
          (fun _ _ => decodeVisibility_canonical) hvisibilities)
        have hroles : some roles = some (.array (List.map .text _)) := decodeArray_canonical
          (fun _ _ htext => (Option.some.inj (text_eq_ok.mp htext)).symm) hroles
        obtain ⟨_, hstart, hnotBefore⟩ := optionalNonnegativeI64_canonical hnotBefore
        obtain ⟨_, hfinish, hexpiresAt⟩ := optionalNonnegativeI64_canonical hexpiresAt
        have hdepth : (UInt8.ofNat depth.toNat).toUInt64 = depth := by
          apply UInt64.toNat_inj.mp
          rw [UInt8.toNat_toUInt64, UInt8.toNat_ofNat', Nat.mod_eq_of_lt hbound]
        cases hroles
        cases hnotBefore
        cases hexpiresAt
        refine ⟨_, rfl, ?_⟩
        simp only [encodeCapabilityGrant, hstart, hfinish, ok_bind, hdepth, hactions, hschemas,
          hvisibilities]

theorem decodeCapabilityRevocation_canonical
    (h : decodeCapabilityRevocation schema (.unsigned BODY_CAPABILITY_REVOKE :: fields) =
      .ok body) :
    ∃ revocation, body = .capabilityRevoke revocation ∧
      encodeCapabilityRevocation revocation =
        .ok (.array (.unsigned BODY_CAPABILITY_REVOKE :: fields)) := by
  unfold decodeCapabilityRevocation at h
  split_ifs at h with hlength
  · cases h
  · match fields, not_not.mp hlength with
    | [grantId, reason, detail], _ =>
      simp only [bind_eq_ok, fixedBytes_eq_ok, decodeOptionalText_eq_ok,
        getElem?_cons_zero, getElem?_cons_succ, Option.some.injEq,
        Except.ok.injEq] at h
      obtain ⟨_, rfl, _, hreason, _, rfl, rfl⟩ := h
      have hreason := Option.some.inj (decodeRevocationReason_canonical hreason)
      exact ⟨_, rfl, by rw [hreason]; rfl⟩

-- A pair of a kind code and a value that an encoder returns.
theorem Encodes.pair (h : Encodes result value) (kind : UInt64) :
    Encodes (do
      let encoded ← result
      .ok (.array [.unsigned kind, encoded])) (.array [.unsigned kind, value]) := by
  obtain ⟨encoded, rfl, hnormal⟩ := h
  refine ⟨_, rfl, ?_⟩
  simp [normalize_array, hnormal]

theorem decodeKind_canonical (hcanonical : Canonical levels (.array (.unsigned kind :: fields)))
    (h : decodeKind schema P kind (.unsigned kind :: fields) = .ok body) :
    Encodes (encodeBody P schema body) (.array (.unsigned kind :: fields)) := by
  obtain ⟨inner, hmembers⟩ := Canonical.members hcanonical
  rw [forall_mem_cons] at hmembers
  have hone : (CanonicalValue.unsigned kind :: fields).length = 2 → ∃ value, fields = [value] :=
    fun hlength => length_eq_one_iff.mp (Nat.succ.inj hlength)
  unfold decodeKind at h
  split_ifs at h with htombstone hrecord htag hevent hprofile hgenesis hgrant hrevoke
  · obtain ⟨hclient, rfl, hlength⟩ := htombstone
    cases h
    cases length_eq_zero_iff.mp (Nat.succ.inj hlength)
    refine ⟨_, ?_, rfl⟩
    cases schema <;> first | rfl | cases hclient
  · obtain ⟨rfl, rfl, hlength⟩ := hrecord
    obtain ⟨value, rfl⟩ := hone hlength
    simp only [bind_eq_ok, Except.ok.injEq] at h
    obtain ⟨payload, hpayload, rfl⟩ := h
    exact (decodeProtected_canonical (fun _ _ _ => decodeRecordDocument_canonical)
      (hmembers.2 value (by simp)) hpayload).pair BODY_RECORD_PUT
  · obtain ⟨rfl, rfl, hlength⟩ := htag
    obtain ⟨value, rfl⟩ := hone hlength
    simp only [bind_eq_ok, Except.ok.injEq] at h
    obtain ⟨payload, hpayload, rfl⟩ := h
    exact (decodeProtected_canonical (fun _ _ _ => decodeTagDocument_canonical)
      (hmembers.2 value (by simp)) hpayload).pair BODY_TAG_PUT
  · obtain ⟨rfl, rfl, hlength⟩ := hevent
    obtain ⟨value, rfl⟩ := hone hlength
    simp only [bind_eq_ok, Except.ok.injEq] at h
    obtain ⟨payload, hpayload, rfl⟩ := h
    exact (decodeProtected_canonical (fun _ _ _ => decodeEventDocument_canonical)
      (hmembers.2 value (by simp)) hpayload).pair BODY_EVENT_PUT
  · obtain ⟨rfl, rfl, hlength⟩ := hprofile
    obtain ⟨value, rfl⟩ := hone hlength
    simp only [bind_eq_ok, Except.ok.injEq] at h
    obtain ⟨document, hdocument, rfl⟩ := h
    exact (decodeProfileDocument_canonical (hmembers.2 value (by simp)) hdocument).pair
      BODY_PROFILE_PUT
  · obtain ⟨rfl, rfl, hlength⟩ := hgenesis
    obtain ⟨value, rfl⟩ := hone hlength
    simp only [bind_eq_ok, fixedBytes_eq_ok, getElem?_cons_zero, getElem?_cons_succ,
      Option.some.injEq, Except.ok.injEq] at h
    obtain ⟨controller, rfl, _, -, rfl⟩ := h
    exact ⟨_, rfl, rfl⟩
  · obtain ⟨rfl, rfl⟩ := hgrant
    obtain ⟨grant, rfl, hencoded⟩ := decodeCapabilityGrant_canonical h
    exact ⟨_, hencoded, rfl⟩
  · obtain ⟨rfl, rfl⟩ := hrevoke
    obtain ⟨revocation, rfl, hencoded⟩ := decodeCapabilityRevocation_canonical h
    exact ⟨_, hencoded, rfl⟩
  · cases h

theorem decodeBody_canonical (hcanonical : Canonical levels value)
    (h : decodeBody schema P value = .ok body) :
    ∃ encoded, encodeBody P schema body = .ok encoded ∧ normalize encoded = value := by
  have hencodes : Encodes (encodeBody P schema body) value := by
    simp only [decodeBody, bind_eq_ok, bodyArray_eq_ok, unsigned_eq_ok] at h
    obtain ⟨fields, ⟨rfl, -⟩, kind, hkind, h⟩ := h
    cases fields with
    | nil => cases hkind
    | cons first rest =>
      cases hkind
      exact decodeKind_canonical hcanonical h
  obtain ⟨encoded, hencoded, hnormal⟩ := hencodes
  exact ⟨encoded, hencoded, hnormal.trans (normalize_eq_self hcanonical)⟩

end Bodies

theorem nonnegativeInteger_isOk {value : Int64} (h : 0 ≤ value.toInt) :
    ∃ encoded, nonnegativeInteger value = .ok encoded :=
  ⟨_, if_pos h⟩

theorem optionalNonnegativeInteger_isOk {value : Option Int64}
    (h : ∀ found ∈ value, 0 ≤ found.toInt) :
    ∃ encoded, optionalNonnegativeInteger value = .ok encoded := by
  cases value with
  | none => exact ⟨.null, rfl⟩
  | some value => exact nonnegativeInteger_isOk (h value rfl)

theorem times_nonnegative {start : Int64} {finish : Option Int64}
    (h : validateClientTimes start finish = .ok ()) :
    0 ≤ start.toInt ∧ ∀ found ∈ finish, 0 ≤ found.toInt := by
  simp only [validateClientTimes, bind_eq_ok, require_eq_ok, checkSome_eq_ok,
    decide_eq_true_eq] at h
  obtain ⟨-, hstart, hfinish⟩ := h
  exact ⟨hstart, fun found hfound => hstart.trans (hfinish found hfound)⟩

theorem encodeRecordDocument_isOk (h : document.validate P = .ok ()) :
    ∃ encoded, encodeRecordDocument P document = .ok encoded := by
  simp only [RecordDocument.validate, bind_eq_ok] at h
  obtain ⟨_, htimes, -⟩ := h
  obtain ⟨hstart, hfinish⟩ := times_nonnegative htimes
  obtain ⟨start, hstart⟩ := nonnegativeInteger_isOk hstart
  obtain ⟨finish, hfinish⟩ := optionalNonnegativeInteger_isOk hfinish
  simp [encodeRecordDocument, hstart, hfinish, encodeMetadataObject_eq]

theorem encodeEventDocument_isOk (h : document.validate P = .ok ()) :
    ∃ encoded, encodeEventDocument P document = .ok encoded := by
  simp only [EventDocument.validate, bind_eq_ok] at h
  obtain ⟨_, htimes, -⟩ := h
  obtain ⟨hstart, hfinish⟩ := times_nonnegative htimes
  obtain ⟨start, hstart⟩ := nonnegativeInteger_isOk hstart
  obtain ⟨finish, hfinish⟩ := optionalNonnegativeInteger_isOk hfinish
  simp [encodeEventDocument, hstart, hfinish, encodeMetadataObject_eq]

theorem encodeCapabilityGrant_isOk {grant : CapabilityGrant} (h : grant.Valid P) :
    ∃ encoded, encodeCapabilityGrant grant = .ok encoded := by
  obtain ⟨start, hstart⟩ := optionalNonnegativeInteger_isOk h.notBefore
  obtain ⟨finish, hfinish⟩ := optionalNonnegativeInteger_isOk h.expiresAt
  simp [encodeCapabilityGrant, hstart, hfinish]

theorem encodeProtected_isOk {payload : ProtectedDocument α} {allowed : Bool}
    (hpublic : ∀ document, validatePublic document = .ok () →
      ∃ encoded, encodePublic document = .ok encoded)
    (h : validateProtected payload validatePublic allowed = .ok ()) (kind : UInt64) :
    ∃ encoded, (do
      let encoded ← encodeProtected payload encodePublic
      .ok (.array [.unsigned kind, encoded]) : Except DataModelError CanonicalValue) =
        .ok encoded := by
  cases payload with
  | pub document =>
    obtain ⟨encoded, hencoded⟩ := hpublic document h
    simp [encodeProtected, hencoded]
  | priv envelope resources => exact ⟨_, rfl⟩

-- Only the times of a body can be out of range, and they are checked.
theorem encodeBody_isOk {schema : EntitySchema} {body : OperationBody} {actorId : ActorId}
    {entityId : EntityId} {causalParents authorization : List OperationId}
    (h : body.validateFor P schema actorId entityId causalParents authorization = .ok ()) :
    ∃ encoded, encodeBody P schema body = .ok encoded := by
  have hbody := validBody_of_validateFor h
  cases hbody with
  | record valid =>
    exact encodeProtected_isOk (fun _ => encodeRecordDocument_isOk) valid BODY_RECORD_PUT
  | tag valid =>
    refine encodeProtected_isOk (fun document _ => ?_) valid BODY_TAG_PUT
    simp [encodeTagDocument, encodeMetadataObject_eq]
  | event valid =>
    exact encodeProtected_isOk (fun _ => encodeEventDocument_isOk) valid BODY_EVENT_PUT
  | profile =>
    simp [encodeBody, encodeProfileDocument, encodeMetadataObject_eq]
  | tombstone client =>
    refine ⟨.array [.unsigned BODY_TOMBSTONE], ?_⟩
    cases schema <;> cases client <;> rfl
  | spaceGenesis | capabilityRevoke => exact ⟨_, rfl⟩
  | capabilityGrant valid => exact encodeCapabilityGrant_isOk valid

-- Encoding and decoding undo each other, up to the order of the map entries:
-- metadata is kept in the order of its keys, and canonical values are in the
-- order of the encoded keys.
theorem body_codec_round_trip (P : Primitives) (schema : EntitySchema) :
    (∀ (body : OperationBody) actorId entityId causalParents authorization,
      body.validateFor P schema actorId entityId causalParents authorization = .ok () →
        ∃ encoded, encodeBody P schema body = .ok encoded ∧
          decodeBody schema P encoded = .ok body ∧
          ∀ levels value, Canonical levels value →
            (decodeBody schema P value = .ok body ↔ normalize encoded = value)) ∧
      ∀ levels value body, Canonical levels value → decodeBody schema P value = .ok body →
        ∃ encoded, encodeBody P schema body = .ok encoded ∧ normalize encoded = value ∧
          ∀ bytes, toCanonicalCbor encoded = .ok bytes ↔ toCanonicalCbor value = .ok bytes := by
  refine ⟨?_, ?_⟩
  · intro body actorId entityId causalParents authorization hvalid
    obtain ⟨encoded, hencoded⟩ := encodeBody_isOk hvalid
    refine ⟨encoded, hencoded, decodeBody_encoded schema respells_id hvalid hencoded, ?_⟩
    intro levels value hcanonical
    constructor
    · intro hdecoded
      obtain ⟨found, hfound, hnormal⟩ := decodeBody_canonical hcanonical hdecoded
      cases hencoded.symm.trans hfound
      exact hnormal
    · rintro rfl
      exact decodeBody_encoded schema respells_normalize hvalid hencoded
  · intro levels value body hcanonical hdecoded
    obtain ⟨encoded, hencoded, hnormal⟩ := decodeBody_canonical hcanonical hdecoded
    refine ⟨encoded, hencoded, hnormal, fun bytes => ?_⟩
    rw [toCanonicalCbor_eq_ok, toCanonicalCbor_eq_ok, hnormal, normalize_eq_self hcanonical]

-- The shorter key comes last in the metadata, and first in a canonical map.
def sampleMetadata : Metadata where
  entries := [(⟨"aa"⟩, .null), (⟨"b"⟩, .bool true)]
  wellFormed := Json.wellFormed_object.mpr ⟨by decide, by simp [Json.WellFormed]⟩

def sampleTag : OperationBody :=
  .putTag (.pub
    { name := "tag", emoji := none, notes := none, colorHex := none, metadata := sampleMetadata,
      references := [] })

def sampleTagValue (metadata : List (CanonicalValue × CanonicalValue)) : CanonicalValue :=
  .array [.unsigned BODY_TAG_PUT, .array [.unsigned 0, .array [.text "tag", .null, .null, .null,
    .map metadata, .array []], .array []]]

theorem sampleTag_validates : sampleTag.validateFor fixtureRecording.primitives .tag
    ⟨fixtureActor⟩ ⟨⟨FixedBytes.replicate 16 1⟩⟩ [] [⟨FixedBytes.replicate 32 1⟩] = .ok () := by
  decide

theorem sampleTag_encoded : encodeBody fixtureRecording.primitives .tag sampleTag =
    .ok (sampleTagValue [(.text "aa", .null), (.text "b", .bool true)]) := by
  rfl

theorem sampleTagValue_normalize :
    normalize (sampleTagValue [(.text "aa", .null), (.text "b", .bool true)]) =
      sampleTagValue [(.text "b", .bool true), (.text "aa", .null)] := by
  rfl

theorem sampleTagValue_canonical :
    Canonical 5 (sampleTagValue [(.text "b", .bool true), (.text "aa", .null)]) := by
  simp [Canonical, sampleTagValue]
  decide

-- Both orders of the entries are read as the same tag, and one is canonical.
theorem body_codec_round_trip_tag :
    decodeBody .tag fixtureRecording.primitives
        (sampleTagValue [(.text "aa", .null), (.text "b", .bool true)]) = .ok sampleTag ∧
      decodeBody .tag fixtureRecording.primitives
        (sampleTagValue [(.text "b", .bool true), (.text "aa", .null)]) = .ok sampleTag := by
  obtain ⟨hvalid, -⟩ := body_codec_round_trip fixtureRecording.primitives .tag
  obtain ⟨encoded, hencoded, hdecoded, hcanonical⟩ := hvalid _ _ _ _ _ sampleTag_validates
  cases sampleTag_encoded.symm.trans hencoded
  exact ⟨hdecoded, (hcanonical _ _ sampleTagValue_canonical).mpr sampleTagValue_normalize⟩

-- The canonical value of the tag is not the value that the encoder builds.
theorem canonical_tag_reordered :
    Canonical 5 (sampleTagValue [(.text "b", .bool true), (.text "aa", .null)]) ∧
      decodeBody .tag fixtureRecording.primitives
        (sampleTagValue [(.text "b", .bool true), (.text "aa", .null)]) = .ok sampleTag ∧
      encodeBody fixtureRecording.primitives .tag sampleTag ≠
        .ok (sampleTagValue [(.text "b", .bool true), (.text "aa", .null)]) := by
  refine ⟨sampleTagValue_canonical, ?_, ?_⟩
  · rw [← sampleTagValue_normalize]
    exact decodeBody_encoded .tag respells_normalize sampleTag_validates sampleTag_encoded
  · rw [sampleTag_encoded]
    simp [sampleTagValue]

end Fractonica.DataModel
