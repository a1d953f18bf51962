import Fractonica.DataModel.Body
import Fractonica.DataModel.Validation.Theorems
import Mathlib.Data.List.Perm.Basic

namespace Fractonica.DataModel

open Lib Trust Content List

section Respelling

-- A value with the entries of its maps in another order.
structure Respells (respell : CanonicalValue → CanonicalValue) : Prop where
  null : respell .null = .null
  bool : ∀ value, respell (.bool value) = .bool value
  negative : ∀ value : Int64, value.toInt < 0 → respell (.integer value) = .integer value
  unsigned : ∀ value, respell (.unsigned value) = .unsigned value
  float : ∀ bits, respell (.float bits) = .float bits
  bytes : ∀ bytes, respell (.bytes bytes) = .bytes bytes
  text : ∀ text, respell (.text text) = .text text
  array : ∀ values, respell (.array values) = .array (values.map respell)
  map : ∀ entries, ∃ order, order.Perm (entries.map (Prod.map respell respell)) ∧
    respell (.map entries) = .map order

theorem respells_id : Respells id where
  null := rfl
  bool _ := rfl
  negative _ _ := rfl
  unsigned _ := rfl
  float _ := rfl
  bytes _ := rfl
  text _ := rfl
  array values := by rw [map_id, id]
  map entries := ⟨entries, by rw [Prod.map_id, map_id], rfl⟩

theorem respells_normalize : Respells normalize where
  null := rfl
  bool _ := rfl
  negative value h := by rw [Trust.normalize, if_neg (by omega)]
  unsigned _ := rfl
  float _ := rfl
  bytes _ := rfl
  text _ := rfl
  array := normalize_array
  map entries := ⟨_, perm_insertionSort keyLe _, normalize_map entries⟩

variable {respell : CanonicalValue → CanonicalValue} (hrespell : Respells respell)

include hrespell

theorem Respells.optionalText (value : Option String) :
    respell (optionalText value) = DataModel.optionalText value := by
  cases value with
  | none => exact hrespell.null
  | some value => exact hrespell.text value

theorem Respells.optionalUnsigned (value : Option UInt64) :
    respell (optionalUnsigned value) = DataModel.optionalUnsigned value := by
  cases value with
  | none => exact hrespell.null
  | some value => exact hrespell.unsigned value

-- A body keeps its kind code.
theorem Respells.kind (code : UInt64) (fields : List CanonicalValue) :
    respell (.array (.unsigned code :: fields)) =
      .array (.unsigned code :: fields.map respell) := by
  rw [hrespell.array, map_cons, hrespell.unsigned]

end Respelling

section Scalars

variable (schema : EntitySchema) {respell : CanonicalValue → CanonicalValue}
  (hrespell : Respells respell) {value : Int64}

@[simp] theorem required_some (value : CanonicalValue) (detail : String) :
    required schema (some value) detail = .ok value := rfl

@[simp] theorem unsigned_some (value : UInt64) (detail : String) :
    unsigned schema (some (.unsigned value)) detail = .ok value := rfl

@[simp] theorem text_some (value detail : String) :
    text schema (some (.text value)) detail = .ok value := rfl

@[simp] theorem fixedBytes_some (bytes : FixedBytes n) (detail : String) :
    fixedBytes schema n (some (.bytes bytes.bytes)) detail = .ok bytes := by
  simp [fixedBytes, okOr]

@[simp] theorem decodeOptionalText_some (value : Option String) (detail : String) :
    decodeOptionalText schema (some (optionalText value)) detail = .ok value := by
  cases value <;> rfl

@[simp] theorem decodeOptionalUnsigned_some (value : Option UInt64) (detail : String) :
    decodeOptionalUnsigned schema (some (optionalUnsigned value)) detail = .ok value := by
  cases value <;> rfl

theorem int64OfUInt64_toNat (h : 0 ≤ value.toInt) (detail : String) :
    int64OfUInt64 schema (UInt64.ofNat value.toInt.toNat) detail = .ok value := by
  have hlt := value.toInt_lt
  have hnat : (UInt64.ofNat value.toInt.toNat).toNat = value.toInt.toNat := by
    rw [UInt64.toNat_ofNat', Nat.mod_eq_of_lt (by omega)]
  rw [int64OfUInt64, hnat, if_pos (by omega), Int.toNat_of_nonneg h, Int64.ofInt_toInt]

include hrespell

theorem nonnegativeI64_encoded (h : nonnegativeInteger value = .ok encoded) (detail : String) :
    nonnegativeI64 schema (some (respell encoded)) detail = .ok value := by
  unfold nonnegativeInteger at h
  by_cases hvalue : 0 ≤ value.toInt
  · rw [if_pos hvalue] at h
    cases h
    rw [hrespell.unsigned]
    exact int64OfUInt64_toNat schema hvalue _
  · rw [if_neg hvalue] at h
    cases h

theorem optionalNonnegativeI64_encoded {value : Option Int64}
    (h : optionalNonnegativeInteger value = .ok encoded) (detail : String) :
    optionalNonnegativeI64 schema (some (respell encoded)) detail = .ok value := by
  cases value with
  | none =>
    cases h
    rw [hrespell.null]
    rfl
  | some value =>
    simp only [optionalNonnegativeInteger, nonnegativeInteger] at h
    by_cases hvalue : 0 ≤ value.toInt
    · rw [if_pos hvalue] at h
      cases h
      simp only [optionalNonnegativeI64, hrespell.unsigned, required_some, ok_bind,
        int64OfUInt64_toNat schema hvalue]
    · rw [if_neg hvalue] at h
      cases h

theorem decodeSignedInteger_encoded (value : Int64) (detail : String) :
    decodeSignedInteger schema (some (respell (signedInteger value))) detail = .ok value := by
  unfold signedInteger
  by_cases hvalue : value.toInt < 0
  · rw [if_pos hvalue, hrespell.negative value hvalue]
    rfl
  · rw [if_neg hvalue, hrespell.unsigned]
    exact int64OfUInt64_toNat schema (by omega) _

omit hrespell in
-- Decoding member by member undoes encoding member by member.
theorem mapM_map_eq_ok {α : Type} {encode : α → CanonicalValue}
    {decode : CanonicalValue → Except DataModelError α} {values : List α}
    (h : ∀ value ∈ values, decode (encode value) = .ok value) :
    (values.map encode).mapM decode = .ok values := by
  rw [mapM_eq_ok, forall₂_map_left_iff]
  exact forall₂_same.mpr h

theorem decodeArray_encoded {encode : α → CanonicalValue}
    {decode : CanonicalValue → Except DataModelError α} (field : String)
    (h : ∀ value ∈ values, decode (respell (encode value)) = .ok value) :
    decodeArray schema (some (respell (.array (values.map encode)))) field decode = .ok values := by
  simp only [decodeArray, hrespell.array, map_map, required_some, ok_bind]
  exact mapM_map_eq_ok h

end Scalars

section Values

-- A number is an integer or finite, so encoding a document never fails.
def numberValue : JsonNumber → CanonicalValue
  | .posInt value => .unsigned value
  | .negInt value _ => .integer value
  | .float bits _ => .float bits

theorem encodeNumber_eq (P : Primitives) (number : JsonNumber) :
    encodeNumber P number = .ok (numberValue number) := by
  cases number with
  | posInt value =>
    have hfilter : (JsonNumber.posInt value).asI64.filter (fun value => value.toInt < 0) =
        none := by
      by_cases hvalue : value.toNat < 2 ^ 63
      · have hnonneg : ¬(Int64.ofInt value.toNat).toInt < 0 := by
          rw [Int64.toInt_ofInt_of_le (by omega) (by omega)]
          omega
        simp only [JsonNumber.asI64, if_pos hvalue, Option.filter_some, hnonneg, decide_false,
          Bool.false_eq_true, if_false]
      · simp only [JsonNumber.asI64, if_neg hvalue, Option.filter_none]
    simp only [encodeNumber, hfilter, JsonNumber.asU64, numberValue]
  | negInt value hnegative =>
    simp only [encodeNumber, JsonNumber.asI64, Option.filter_some, hnegative, decide_true,
      if_true, numberValue]
  | float bits hfinite =>
    simp only [encodeNumber, JsonNumber.asI64, JsonNumber.asU64, JsonNumber.asF64,
      Option.filter_none, Option.filter_some, hfinite, if_true, numberValue]

def jsonValue : Json → CanonicalValue
  | .null => .null
  | .bool value => .bool value
  | .number number => numberValue number
  | .string value => .text value
  | .array values => .array (items values)
  | .object entries => .map (pairs entries)
where
  items : List Json → List CanonicalValue
    | [] => []
    | value :: rest => jsonValue value :: items rest
  pairs : List (JsonKey × Json) → List (CanonicalValue × CanonicalValue)
    | [] => []
    | (key, value) :: rest => (.text key.text, jsonValue value) :: pairs rest

def entryValue (entry : JsonKey × Json) : CanonicalValue × CanonicalValue :=
  (.text entry.1.text, jsonValue entry.2)

def metadataValue (metadata : Metadata) : CanonicalValue :=
  .map (metadata.entries.map entryValue)

theorem jsonValue_array (values : List Json) :
    jsonValue (.array values) = .array (values.map jsonValue) := by
  have hitems : jsonValue.items values = values.map jsonValue := by
    induction values with
    | nil => rfl
    | cons value rest ih => rw [jsonValue.items, ih, map_cons]
  rw [jsonValue, hitems]

theorem jsonValue_object (entries : List (JsonKey × Json)) :
    jsonValue (.object entries) = .map (entries.map entryValue) := by
  have hpairs : jsonValue.pairs entries = entries.map entryValue := by
    induction entries with
    | nil => rfl
    | cons entry rest ih =>
      rw [jsonValue.pairs, ih, map_cons, entryValue]
  rw [jsonValue, hpairs]

variable (P : Primitives)

theorem encodeItems_eq (ih : ∀ value ∈ values, encodeJsonValue P value = .ok (jsonValue value)) :
    encodeJsonValue.items P values = .ok (values.map jsonValue) := by
  induction values with
  | nil => rfl
  | cons value rest ihrest =>
    rw [forall_mem_cons] at ih
    simp [encodeJsonValue.items, ih.1, ihrest ih.2]

theorem encodePairs_eq {entries : List (JsonKey × Json)}
    (ih : ∀ entry ∈ entries, encodeJsonValue P entry.2 = .ok (jsonValue entry.2)) :
    encodeJsonValue.pairs P entries = .ok (entries.map entryValue) := by
  induction entries with
  | nil => rfl
  | cons entry rest ihrest =>
    rw [forall_mem_cons] at ih
    simp [encodeJsonValue.pairs, ih.1, ihrest ih.2, entryValue]

theorem encodeJsonValue_eq (value : Json) : encodeJsonValue P value = .ok (jsonValue value) := by
  induction value using Json.memberInduction with
  | null | bool | string => rfl
  | number number => exact encodeNumber_eq P number
  | array values ih => rw [encodeJsonValue, encodeItems_eq P ih, ok_bind, jsonValue_array]
  | object entries ih => rw [encodeJsonValue, encodePairs_eq P ih, ok_bind, jsonValue_object]

theorem encodeMetadataObject_eq (metadata : Metadata) :
    encodeMetadataObject P metadata = .ok (metadataValue metadata) := by
  rw [encodeMetadataObject, encodePairs_eq P fun entry _ => encodeJsonValue_eq P entry.2, ok_bind,
    metadataValue]

end Values

section Metadata

variable (schema : EntitySchema) {respell : CanonicalValue → CanonicalValue}
  (hrespell : Respells respell) {entries : List (JsonKey × Json)}

-- The decoder returns the document that was encoded.
def Decodes (encoded : CanonicalValue) (value : Json) : Prop :=
  ∃ decoded, decodeJsonValue schema encoded = .ok decoded ∧ decoded.val = value

-- An encoded entry of an object: its key as text, and its value.
def DecodesEntry (encoded : CanonicalValue × CanonicalValue) (entry : JsonKey × Json) : Prop :=
  encoded.1 = .text entry.1.text ∧ Decodes schema encoded.2 entry.2

theorem decodeItems_of_decodes (h : List.Forall₂ (Decodes schema) encoded values) :
    ∃ decoded, decodeJsonValue.items schema encoded = .ok decoded ∧
      decoded.map Subtype.val = values := by
  induction h with
  | nil => exact ⟨[], rfl, rfl⟩
  | cons hfirst _ ih =>
    obtain ⟨decoded, hdecoded, rfl⟩ := hfirst
    obtain ⟨decodedRest, hrest, rfl⟩ := ih
    exact ⟨decoded :: decodedRest, by simp [decodeJsonValue.items, hdecoded, hrest], rfl⟩

-- Fresh keys are inserted one after another.
theorem decodePairs_fresh (unique : Bool) (detail : String)
    (h : List.Forall₂ (DecodesEntry schema) encoded entries) (hkeys : (entries.map Prod.fst).Nodup)
    (start : Metadata) (hfresh : ∀ entry ∈ entries, start.contains entry.1 = false) :
    ∃ metadata, decodeJsonValue.pairs schema unique detail encoded start = .ok metadata ∧
      metadata.entries =
        entries.foldl (fun acc entry => SortedMap.insert entry.1 entry.2 acc) start.entries := by
  induction h generalizing start with
  | nil => exact ⟨start, rfl, rfl⟩
  | @cons first entry others rest hfirst hrest ih =>
    obtain ⟨key, value⟩ := entry
    obtain ⟨encodedKey, encodedValue⟩ := first
    obtain ⟨hkey, decoded, hdecoded, hval⟩ := hfirst
    subst hkey hval
    rw [map_cons, nodup_cons] at hkeys
    rw [forall_mem_cons] at hfresh
    have hfreshRest : ∀ entry ∈ rest, (start.insert key decoded).contains entry.1 = false := by
      intro entry hentry
      have hmem : entry.1 ∈ rest.map Prod.fst := mem_map_of_mem hentry
      have hne : key ≠ entry.1 := fun heq => hkeys.1 (heq ▸ hmem)
      have hperm := SortedMap.insert_perm decoded.val hfresh.1
      have hother := hfresh.2 entry hentry
      rw [Metadata.contains, Metadata.insert, SortedMap.contains_perm hperm]
      simp only [Metadata.contains, SortedMap.contains] at hother
      simp [SortedMap.contains, hother, hne]
    obtain ⟨metadata, hrun, hentries⟩ := ih hkeys.2 (start.insert key decoded) hfreshRest
    refine ⟨metadata, ?_, hentries⟩
    have hfirstFresh : start.contains ⟨key.text⟩ = false := hfresh.1
    simp only [decodeJsonValue.pairs, hdecoded, ok_bind, hfirstFresh, Bool.and_false,
      Bool.false_eq_true, if_false]
    exact hrun

include hrespell

theorem decode_numberValue (number : JsonNumber) :
    decodeJsonValue schema (respell (numberValue number)) = .ok ⟨.number number, trivial⟩ := by
  cases number with
  | posInt value => rw [numberValue, hrespell.unsigned, decodeJsonValue]
  | negInt value hnegative =>
    rw [numberValue, hrespell.negative value hnegative, decodeJsonValue]
    simp [JsonNumber.ofInt64, hnegative]
  | float bits hfinite =>
    rw [numberValue, hrespell.float, decodeJsonValue]
    simp [JsonNumber.ofDouble?, hfinite, okOr]

-- Decoding inserts the entries again in the order of their keys, whatever the
-- order in which it finds them.
theorem decodePairs_encoded (unique : Bool) (detail : String)
    (ih : ∀ entry ∈ entries, Decodes schema (respell (jsonValue entry.2)) entry.2)
    (hsorted : SortedMap.Sorted entries)
    (horder : order.Perm ((entries.map entryValue).map (Prod.map respell respell))) :
    ∃ metadata, decodeJsonValue.pairs schema unique detail order .empty = .ok metadata ∧
      metadata.entries = entries := by
  have hpairs : List.Forall₂ (DecodesEntry schema)
      ((entries.map entryValue).map (Prod.map respell respell)) entries := by
    rw [map_map, forall₂_map_left_iff, forall₂_same]
    exact fun entry hentry => ⟨hrespell.text _, ih entry hentry⟩
  obtain ⟨found, hfound, hentries⟩ := perm_comp_forall₂ horder hpairs
  have hkeys : (found.map Prod.fst).Nodup :=
    (hentries.map Prod.fst).nodup_iff.mpr hsorted.nodup_keys
  obtain ⟨metadata, hrun, hresult⟩ :=
    decodePairs_fresh schema unique detail hfound hkeys .empty (fun _ _ => rfl)
  exact ⟨metadata, hrun, hresult.trans (hsorted.foldl_insert_eq hentries)⟩

theorem decodes_jsonValue {value : Json} (hvalue : value.WellFormed) :
    Decodes schema (respell (jsonValue value)) value := by
  induction value using Json.memberInduction with
  | null => exact ⟨_, by rw [jsonValue, hrespell.null, decodeJsonValue], rfl⟩
  | bool => exact ⟨_, by rw [jsonValue, hrespell.bool, decodeJsonValue], rfl⟩
  | string => exact ⟨_, by rw [jsonValue, hrespell.text, decodeJsonValue], rfl⟩
  | number number => exact ⟨_, decode_numberValue schema hrespell number, rfl⟩
  | array values ih =>
    have hmembers := Json.wellFormed_array.mp hvalue
    have hdecodes : List.Forall₂ (Decodes schema) ((values.map jsonValue).map respell)
        values := by
      rw [map_map, forall₂_map_left_iff, forall₂_same]
      exact fun value hmem => ih value hmem (hmembers value hmem)
    obtain ⟨decoded, hdecoded, rfl⟩ := decodeItems_of_decodes schema hdecodes
    refine ⟨⟨_, Json.wellFormed_values decoded⟩, ?_, rfl⟩
    rw [jsonValue_array, hrespell.array, decodeJsonValue, hdecoded, ok_bind]
  | object entries ih =>
    obtain ⟨hsorted, hmembers⟩ := Json.wellFormed_object.mp hvalue
    obtain ⟨order, horder, hmap⟩ := hrespell.map (entries.map entryValue)
    obtain ⟨metadata, hmetadata, rfl⟩ := decodePairs_encoded schema hrespell true
      "metadata map keys must be text" (fun entry he => ih entry he (hmembers entry he))
      hsorted horder
    refine ⟨⟨_, metadata.wellFormed⟩, ?_, rfl⟩
    rw [jsonValue_object, hmap, decodeJsonValue, hmetadata, ok_bind]

theorem decodeMetadataObject_encoded (metadata : Metadata) :
    decodeMetadataObject schema (some (respell (metadataValue metadata))) = .ok metadata := by
  obtain ⟨hsorted, hmembers⟩ := Json.wellFormed_object.mp metadata.wellFormed
  obtain ⟨order, horder, hmap⟩ := hrespell.map (metadata.entries.map entryValue)
  obtain ⟨decoded, hdecoded, hentries⟩ := decodePairs_encoded schema hrespell false
    "record metadata keys must be text"
    (fun entry he => decodes_jsonValue schema hrespell (hmembers entry he)) hsorted horder
  simp [metadataValue, hmap, decodeMetadataObject, hdecoded, Metadata.ext hentries]

end Metadata

section Documents

variable (schema : EntitySchema) {P : Primitives} {respell : CanonicalValue → CanonicalValue}
  (hrespell : Respells respell) {encoded : CanonicalValue}

include hrespell

theorem decodeResource_encoded (resource : ResourceRef) :
    decodeResource schema (respell (encodeResource resource)) = .ok resource := by
  rw [encodeResource, hrespell.array]
  simp [decodeResource, hrespell.bytes, hrespell.unsigned, hrespell.text, hrespell.optionalText]

theorem decodeResources_encoded (resources : List ResourceRef) :
    decodeResources schema (some (respell (.array (resources.map encodeResource)))) =
      .ok resources :=
  decodeArray_encoded schema hrespell _ fun resource _ =>
    decodeResource_encoded schema hrespell resource

theorem decodeTarget_encoded (target : ReferenceTarget) :
    ∃ fields, respell (encodeTarget target) = .array fields ∧ fields ≠ [] ∧
      decodeTarget schema fields = .ok target := by
  cases target with
  | actor actorId =>
    refine ⟨_, hrespell.array _, by simp, ?_⟩
    simp [decodeTarget, hrespell.unsigned, hrespell.bytes]
  | entity spaceId entityId operationId =>
    refine ⟨_, hrespell.array _, by simp, ?_⟩
    cases operationId <;>
      simp [decodeTarget, hrespell.unsigned, hrespell.bytes, hrespell.null]

theorem decodeReference_encoded (reference : EntityReference) :
    decodeReference schema (respell (.array [.text reference.relation,
      encodeTarget reference.target])) = .ok reference := by
  obtain ⟨relation, target⟩ := reference
  obtain ⟨fields, hfields, hne, htarget⟩ := decodeTarget_encoded schema hrespell target
  have harray : bodyArray schema (.array fields) = .ok fields := by
    cases fields with
    | nil => exact absurd rfl hne
    | cons first rest => rfl
  rw [hrespell.array]
  simp [decodeReference, exactArray, hrespell.text, hfields, harray, htarget]

theorem decodeReferences_encoded (references : List EntityReference) :
    decodeReferences schema (some (respell (encodeReferences references))) = .ok references :=
  decodeArray_encoded schema hrespell _ fun reference _ =>
    decodeReference_encoded schema hrespell reference

theorem decodeEncryptedPayload_encoded (envelope : EncryptedPayload) :
    decodeEncryptedPayload schema (some (respell (encodeEncryptedPayload envelope))) =
      .ok envelope := by
  rw [encodeEncryptedPayload, hrespell.array]
  simp [decodeEncryptedPayload, require, hrespell.unsigned, hrespell.text]

theorem decodeRecordDocument_encoded (h : encodeRecordDocument P document = .ok encoded) :
    decodeRecordDocument schema (respell encoded) = .ok document := by
  simp only [encodeRecordDocument, encodeMetadataObject_eq, ok_bind, bind_eq_ok,
    Except.ok.injEq] at h
  obtain ⟨start, hstart, finish, hfinish, rfl⟩ := h
  rw [hrespell.array]
  simp [decodeRecordDocument, exactArray, hrespell.optionalText,
    nonnegativeI64_encoded schema hrespell hstart,
    optionalNonnegativeI64_encoded schema hrespell hfinish,
    decodeMetadataObject_encoded schema hrespell, decodeResources_encoded schema hrespell,
    decodeReferences_encoded schema hrespell]

theorem decodeTagDocument_encoded (h : encodeTagDocument P document = .ok encoded) :
    decodeTagDocument schema (respell encoded) = .ok document := by
  simp only [encodeTagDocument, encodeMetadataObject_eq, ok_bind, Except.ok.injEq] at h
  subst h
  rw [hrespell.array]
  simp [decodeTagDocument, exactArray, hrespell.text, hrespell.optionalText,
    decodeMetadataObject_encoded schema hrespell,
    decodeReferences_encoded schema hrespell]

theorem decodeEventDocument_encoded (h : encodeEventDocument P document = .ok encoded) :
    decodeEventDocument schema (respell encoded) = .ok document := by
  simp only [encodeEventDocument, encodeMetadataObject_eq, ok_bind, bind_eq_ok,
    Except.ok.injEq] at h
  obtain ⟨start, hstart, finish, hfinish, rfl⟩ := h
  rw [hrespell.array]
  simp [decodeEventDocument, exactArray, hrespell.text,
    nonnegativeI64_encoded schema hrespell hstart,
    optionalNonnegativeI64_encoded schema hrespell hfinish,
    decodeSignedInteger_encoded schema hrespell,
    decodeMetadataObject_encoded schema hrespell,
    decodeReferences_encoded schema hrespell]

theorem decodeAvatar_encoded (avatar : Option ResourceRef) :
    decodeAvatar schema (some (respell (avatar.elim .null encodeResource))) = .ok avatar := by
  cases avatar with
  | none =>
    rw [Option.elim_none, hrespell.null]
    rfl
  | some avatar =>
    have hdecoded := decodeResource_encoded schema hrespell avatar
    rw [encodeResource, hrespell.array] at hdecoded
    rw [Option.elim_some, encodeResource, hrespell.array]
    simp only [decodeAvatar, required_some, ok_bind, hdecoded]

theorem decodeProfileDocument_encoded (h : encodeProfileDocument P document = .ok encoded) :
    decodeProfileDocument schema (some (respell encoded)) = .ok document := by
  simp only [encodeProfileDocument, encodeMetadataObject_eq, ok_bind, Except.ok.injEq] at h
  subst h
  have hanchor := document.sarosAnchor.toNat_lt
  rw [hrespell.array]
  simp [decodeProfileDocument, exactArray, hrespell.text, hrespell.unsigned, boundedUnsigned,
    decodeAvatar_encoded schema hrespell, decodeMetadataObject_encoded schema hrespell,
    hanchor]

theorem decodeProtected_encoded {payload : ProtectedDocument α}
    (hpublic : ∀ document encoded, encodePublic document = .ok encoded →
      decodePublic (respell encoded) = .ok document)
    (h : encodeProtected payload encodePublic = .ok encoded) :
    decodeProtected schema (some (respell encoded)) decodePublic = .ok payload := by
  cases payload with
  | pub document =>
    simp only [encodeProtected, bind_eq_ok, Except.ok.injEq] at h
    obtain ⟨inner, hinner, rfl⟩ := h
    simp [decodeProtected, protectedResources, hrespell.array, hrespell.unsigned,
      hpublic document inner hinner]
  | priv envelope resources =>
    simp only [encodeProtected, Except.ok.injEq] at h
    subst h
    have hresources : (resources.map (respell ∘ encodeResource)).mapM
        (decodeResource schema) = .ok resources :=
      mapM_map_eq_ok fun resource _ => decodeResource_encoded schema hrespell resource
    simp [decodeProtected, protectedResources, hrespell.array, hrespell.unsigned,
      decodeEncryptedPayload_encoded schema hrespell, hresources]

end Documents

section Capabilities

variable (schema : EntitySchema) {P : Primitives} {respell : CanonicalValue → CanonicalValue}
  (hrespell : Respells respell) {encoded : CanonicalValue}

theorem decodeAction_encoded (action : CapabilityAction) (detail : String) :
    decodeAction schema (some (.unsigned (actionCode action))) detail = .ok action := by
  cases action <;> rfl

theorem decodeVisibility_encoded (visibility : Visibility) (detail : String) :
    decodeVisibility schema (some (.unsigned (visibilityCode visibility))) detail =
      .ok visibility := by
  cases visibility <;> rfl

theorem decodeRevocationReason_encoded (reason : CapabilityRevocationReason) :
    decodeRevocationReason schema (some (.unsigned (revocationReasonCode reason))) =
      .ok reason := by
  cases reason <;> rfl

include hrespell

theorem decodeCapabilityGrant_encoded {grant : CapabilityGrant}
    (hsubject : P.validKey grant.subject.bytes = true)
    (h : encodeCapabilityGrant grant = .ok encoded) :
    ∃ fields, respell encoded = .array (.unsigned BODY_CAPABILITY_GRANT :: fields) ∧
      decodeCapabilityGrant schema P (.unsigned BODY_CAPABILITY_GRANT :: fields) =
        .ok (.capabilityGrant grant) := by
  simp only [encodeCapabilityGrant, bind_eq_ok, Except.ok.injEq] at h
  obtain ⟨notBefore, hnotBefore, expiresAt, hexpiresAt, rfl⟩ := h
  have hkey : liftTrust (ActorId.publicKey P ⟨grant.subject.bytes⟩) = .ok ⟨grant.subject.bytes⟩ :=
    liftTrust_eq_ok.mpr (publicKey_eq_ok.mpr ⟨hsubject, rfl⟩)
  have hactions : decodeArray schema
      (some (respell (.array (grant.actions.map fun action => .unsigned (actionCode action)))))
      "grant actions" (fun value => decodeAction schema (some value) "grant action") =
        .ok grant.actions :=
    decodeArray_encoded schema hrespell _ fun action _ => by
      rw [hrespell.unsigned]
      exact decodeAction_encoded schema action _
  have hschemas : decodeArray schema
      (some (respell (.array (grant.schemas.map fun schema => .text schema.asStr))))
      "grant schemas" (fun value => do
        let name ← text schema (some value) "grant schema"
        EntitySchema.parse name) = .ok grant.schemas :=
    decodeArray_encoded schema hrespell _ fun found _ => by
      rw [hrespell.text]
      exact EntitySchema.parse_eq_ok.mpr rfl
  have hvisibilities : decodeArray schema
      (some (respell (.array (grant.visibilities.map fun visibility =>
        .unsigned (visibilityCode visibility)))))
      "grant record visibilities"
      (fun value => decodeVisibility schema (some value) "grant visibility") =
        .ok grant.visibilities :=
    decodeArray_encoded schema hrespell _ fun visibility _ => by
      rw [hrespell.unsigned]
      exact decodeVisibility_encoded schema visibility _
  have hroles : decodeArray schema (some (respell (.array (grant.contentRoles.map .text))))
      "grant content roles" (fun value => text schema (some value) "grant content role") =
        .ok grant.contentRoles :=
    decodeArray_encoded schema hrespell _ fun role _ => by
      rw [hrespell.text, text_some]
  have hdepth := grant.delegationDepth.toNat_lt
  refine ⟨_, hrespell.kind _ _, ?_⟩
  simp [decodeCapabilityGrant, hrespell.bytes, hrespell.unsigned, hrespell.text,
    hrespell.optionalUnsigned, hkey, hactions, hschemas, hvisibilities, hroles,
    optionalNonnegativeI64_encoded schema hrespell hnotBefore,
    optionalNonnegativeI64_encoded schema hrespell hexpiresAt, boundedUnsigned, hdepth]

theorem decodeCapabilityRevocation_encoded {revocation : CapabilityRevocation}
    (h : encodeCapabilityRevocation revocation = .ok encoded) :
    ∃ fields, respell encoded = .array (.unsigned BODY_CAPABILITY_REVOKE :: fields) ∧
      decodeCapabilityRevocation schema (.unsigned BODY_CAPABILITY_REVOKE :: fields) =
        .ok (.capabilityRevoke revocation) := by
  cases h
  refine ⟨_, hrespell.kind _ _, ?_⟩
  simp [decodeCapabilityRevocation, hrespell.bytes, hrespell.unsigned, hrespell.optionalText,
    decodeRevocationReason_encoded]

omit hrespell in
theorem decodeBody_kind (kind : UInt64) (fields : List CanonicalValue) :
    decodeBody schema P (.array (.unsigned kind :: fields)) =
      decodeKind schema P kind (.unsigned kind :: fields) := rfl

theorem decodeBody_pair (kind : UInt64) (inner : CanonicalValue) :
    decodeBody schema P (respell (.array [.unsigned kind, inner])) =
      decodeKind schema P kind [.unsigned kind, respell inner] := by
  rw [hrespell.kind]
  exact decodeBody_kind schema kind [respell inner]

theorem decodeBody_tombstone (hclient : schema.isClient = true) :
    decodeBody schema P (respell (.array [.unsigned BODY_TOMBSTONE])) = .ok .tombstone := by
  rw [hrespell.kind, decodeBody_kind]
  simp [decodeKind, hclient]

-- A body that passes its validation is recovered from its encoding.
theorem decodeBody_encoded {body : OperationBody} {actorId : ActorId} {entityId : EntityId}
    {causalParents authorization : List OperationId}
    (hvalid : body.validateFor P schema actorId entityId causalParents authorization = .ok ())
    (h : encodeBody P schema body = .ok encoded) :
    decodeBody schema P (respell encoded) = .ok body := by
  have hbody := validBody_of_validateFor hvalid
  cases hbody with
  | record =>
    simp only [encodeBody, bind_eq_ok, Except.ok.injEq] at h
    obtain ⟨inner, hinner, rfl⟩ := h
    have hdecoded := decodeProtected_encoded .record hrespell
      (fun _ _ => decodeRecordDocument_encoded .record hrespell) hinner
    simp [decodeBody_pair _ hrespell, decodeKind, BODY_RECORD_PUT, BODY_TOMBSTONE, hdecoded]
  | tag =>
    simp only [encodeBody, bind_eq_ok, Except.ok.injEq] at h
    obtain ⟨inner, hinner, rfl⟩ := h
    have hdecoded := decodeProtected_encoded .tag hrespell
      (fun _ _ => decodeTagDocument_encoded .tag hrespell) hinner
    simp [decodeBody_pair _ hrespell, decodeKind, BODY_TAG_PUT, BODY_TOMBSTONE, hdecoded]
  | event =>
    simp only [encodeBody, bind_eq_ok, Except.ok.injEq] at h
    obtain ⟨inner, hinner, rfl⟩ := h
    have hdecoded := decodeProtected_encoded .event hrespell
      (fun _ _ => decodeEventDocument_encoded .event hrespell) hinner
    simp [decodeBody_pair _ hrespell, decodeKind, BODY_EVENT_PUT, BODY_TOMBSTONE, hdecoded]
  | profile =>
    simp only [encodeBody, bind_eq_ok, Except.ok.injEq] at h
    obtain ⟨inner, hinner, rfl⟩ := h
    have hdecoded := decodeProfileDocument_encoded .profile hrespell hinner
    simp [decodeBody_pair _ hrespell, decodeKind, BODY_PROFILE_PUT, BODY_TOMBSTONE, hdecoded]
  | tombstone client =>
    have hencoded : encoded = .array [.unsigned BODY_TOMBSTONE] := by
      cases schema <;> cases client <;> cases h <;> rfl
    rw [hencoded]
    exact decodeBody_tombstone _ hrespell client
  | spaceGenesis controller =>
    cases h
    simp only [OperationBody.validateFor, bind_eq_ok, liftTrust_eq_ok, publicKey_eq_ok] at hvalid
    obtain ⟨-, -, -, ⟨hkey, -⟩, -⟩ := hvalid
    have hkey : liftTrust (ActorId.publicKey P ⟨controller.bytes⟩) = .ok ⟨controller.bytes⟩ :=
      liftTrust_eq_ok.mpr (publicKey_eq_ok.mpr ⟨hkey, rfl⟩)
    simp [decodeBody_pair _ hrespell, decodeKind, BODY_SPACE_GENESIS, EntitySchema.isClient,
      hrespell.bytes, hkey]
  | capabilityGrant valid =>
    obtain ⟨fields, hfields, hdecoded⟩ :=
      decodeCapabilityGrant_encoded .capabilityGrant hrespell valid.subject h
    rw [hfields, decodeBody_kind]
    simp [decodeKind, EntitySchema.isClient, hdecoded]
  | capabilityRevoke =>
    obtain ⟨fields, hfields, hdecoded⟩ :=
      decodeCapabilityRevocation_encoded .capabilityRevoke hrespell h
    rw [hfields, decodeBody_kind]
    simp [decodeKind, EntitySchema.isClient, hdecoded]

end Capabilities

end Fractonica.DataModel
