import Fractonica.Pairing.Messages
import Fractonica.Trust.Cbor.Theorems

namespace Fractonica.Pairing

open Lib Trust DataModel List

section Numbered

variable {values : List CanonicalValue}

def fieldsOf (values : List CanonicalValue) : List (UInt64 × CanonicalValue) :=
  values.mapIdx fun index value => (UInt64.ofNat index, value)

theorem map_mapIdx {α β γ : Type} (f : Nat → α → β) (g : β → γ) (items : List α) :
    (items.mapIdx f).map g = items.mapIdx fun index item => g (f index item) :=
  ext_getElem (by simp) (by simp)

theorem toNat_index (h : index < 24) : (UInt64.ofNat index).toNat = index := by
  rw [UInt64.toNat_ofNat']
  omega

theorem encoding_index (h : index < 24) :
    encoding (.unsigned (UInt64.ofNat index)) = [leadByte 0 (UInt8.ofNat index)] := by
  have hsmall : index ≤ 23 := by omega
  rw [encoding, toNat_index h, Trust.head, argumentCode, argumentBytes, if_pos hsmall,
    if_pos hsmall]

theorem leadByte_lt : ∀ left right : Fin 24, left < right →
    leadByte 0 (UInt8.ofNat left) < leadByte 0 (UInt8.ofNat right) := by
  decide

-- The keys are in order as they are counted.
theorem ascending_keys (hcount : values.length ≤ 24) :
    ((values.mapIdx fun index value =>
      (CanonicalValue.unsigned (UInt64.ofNat index), value)).map
        fun entry => encoding entry.1).Pairwise (· < ·) := by
  rw [pairwise_iff_getElem]
  intro left right hleft hright hlt
  simp only [length_map, length_mapIdx] at hleft hright
  have hleft' : left < 24 := by omega
  have hright' : right < 24 := by omega
  simp only [getElem_map, getElem_mapIdx, encoding_index hleft', encoding_index hright']
  have hbyte := leadByte_lt ⟨left, hleft'⟩ ⟨right, hright'⟩ hlt
  exact List.Lex.rel hbyte

theorem normalize_numbered (hcount : values.length ≤ 24) :
    normalize (numbered values) = numbered (values.map normalize) := by
  have hcount' : (values.map normalize).length ≤ 24 := by
    rw [length_map]
    exact hcount
  have hentries : (values.mapIdx fun index value =>
      (CanonicalValue.unsigned (UInt64.ofNat index), value)).map normalizeEntry =
      (values.map normalize).mapIdx fun index value =>
        (CanonicalValue.unsigned (UInt64.ofNat index), value) := by
    exact ext_getElem (by simp) (by simp [normalizeEntry])
  have hsorted := pairwise_map.mp (ascending_keys hcount')
  have hordered : ((values.map normalize).mapIdx fun index value =>
      (CanonicalValue.unsigned (UInt64.ofNat index), value)).Pairwise keyLe :=
    hsorted.imp fun hlt => le_of_lt hlt
  rw [numbered, normalize_map, hentries, List.Pairwise.insertionSort_eq hordered]
  rfl

theorem collectFields_eq_ok (fields entries : List (UInt64 × CanonicalValue))
    (hkeys : ((fields ++ entries).map (·.1)).Nodup) :
    collectFields fields (entries.map fun entry => (.unsigned entry.1, entry.2)) =
      .ok (fields ++ entries) := by
  induction entries generalizing fields with
  | nil =>
    rw [append_nil]
    rfl
  | cons entry rest ih =>
    have hfresh : (!fields.any (·.1 = entry.1)) = true := by
      rw [Bool.not_eq_true', any_eq_false]
      intro field hfield hsame
      rw [decide_eq_true_eq] at hsame
      rw [map_append, nodup_append] at hkeys
      exact hkeys.2.2 field.1 (mem_map_of_mem hfield) entry.1 mem_cons_self hsame
    have hnext := ih (fields ++ [entry]) (by simpa using hkeys)
    rw [map_cons, collectFields, hfresh]
    simpa [require] using hnext

theorem keys_fieldsOf (hcount : values.length ≤ 24) : ((fieldsOf values).map (·.1)).Nodup := by
  rw [fieldsOf, map_mapIdx, List.Nodup, pairwise_iff_getElem]
  intro left right hleft hright hlt hsame
  simp only [length_mapIdx] at hleft hright
  simp only [getElem_mapIdx] at hsame
  have hnumber := congrArg UInt64.toNat hsame
  rw [toNat_index (by omega), toNat_index (by omega)] at hnumber
  omega

theorem exactMap_numbered (hlength : values.length = expected) (hcount : values.length ≤ 24) :
    exactMap (numbered values) expected = .ok (fieldsOf values) := by
  have hcollect := collectFields_eq_ok [] (fieldsOf values) (keys_fieldsOf hcount)
  rw [fieldsOf, map_mapIdx] at hcollect
  simp only [exactMap, numbered, length_mapIdx, hlength, require, decide_true, if_true]
  exact hcollect

theorem takeField_first (value : CanonicalValue) (rest : List CanonicalValue) :
    takeField (fieldsOf (value :: rest)) 0 = .ok value := by
  simp [takeField, fieldsOf, okOr]

end Numbered

section Decoding

variable {inner signatures : List CanonicalValue} {bytes : List UInt8}

-- The outer and the inner map of a message are found again.
theorem decodeMessage_eq_ok (hinner : inner.length + 1 ≤ 24) (hsignatures : signatures.length < 24)
    (hnormal : (inner ++ signatures).map normalize = inner ++ signatures)
    (hbytes : encodeMessage (numbered (numbered (.unsigned PAIRING_PROTOCOL_VERSION :: inner) ::
      signatures)) = .ok bytes) :
    decodeMessage bytes signatures.length (inner.length + 1) =
      .ok (fieldsOf (numbered (.unsigned PAIRING_PROTOCOL_VERSION :: inner) :: signatures),
        fieldsOf (.unsigned PAIRING_PROTOCOL_VERSION :: inner)) := by
  obtain ⟨hencoded, hlength⟩ := encodeMessage_eq_ok.mp hbytes
  rw [map_append] at hnormal
  obtain ⟨hinnerNormal, hsignaturesNormal⟩ := append_inj hnormal (length_map _)
  have hnormalInner : normalize (numbered (.unsigned PAIRING_PROTOCOL_VERSION :: inner)) =
      numbered (.unsigned PAIRING_PROTOCOL_VERSION :: inner) := by
    rw [normalize_numbered (by rwa [length_cons]), map_cons, hinnerNormal,
      normalize_unsigned]
  have hread := (toCanonicalCbor_round_trip hencoded).1
  rw [normalize_numbered (length_cons ▸ hsignatures), map_cons, hnormalInner,
    hsignaturesNormal] at hread
  have hmap : exactMap (numbered (numbered (.unsigned PAIRING_PROTOCOL_VERSION :: inner) ::
      signatures)) (signatures.length + 1) = .ok _ :=
    exactMap_numbered rfl (length_cons ▸ hsignatures)
  have hinnerMap : exactMap (numbered (.unsigned PAIRING_PROTOCOL_VERSION :: inner))
      (inner.length + 1) = .ok _ := exactMap_numbered rfl hinner
  simp [decodeMessage, hlength, require, hread, Except.mapError, hmap, takeField_first, hinnerMap,
    unsignedField, requireVersion]

end Decoding

-- What a reader asks of the names in a claim or in an acceptance.
def Presentable (P : Primitives) (node : NodeId) (actor : ActorId) (nonce : FixedBytes 32) : Prop :=
  P.validKey node.bytes = true ∧ P.validKey actor.bytes = true ∧ nonce ≠ FixedBytes.replicate 32 0

-- A message that was written is read as itself or, if its names are not presentable, refused.
theorem pairing_messages_read_back (P : Primitives) :
    (∀ (claim other : JoinerClaim) bytes, claim.canonicalBytes = .ok bytes →
      (JoinerClaim.fromCanonicalBytes P bytes = .ok other ↔
        Presentable P claim.joinerNodeId claim.subjectActorId claim.nonce ∧ other = claim)) ∧
    (∀ (acceptance other : PairingAcceptance) bytes, acceptance.canonicalBytes = .ok bytes →
      (PairingAcceptance.fromCanonicalBytes P bytes = .ok other ↔
        Presentable P acceptance.joinerNodeId acceptance.subjectActorId acceptance.nonce ∧
          other = acceptance)) ∧
    ∀ (receipt other : PairingReceipt) bytes, receipt.canonicalBytes = .ok bytes →
      (PairingReceipt.fromCanonicalBytes bytes = .ok other ↔ other = receipt) := by
  refine ⟨?_, ?_, ?_⟩
  all_goals
    intro message other bytes hbytes
    have hdecoded := decodeMessage_eq_ok (by simp) (by simp) rfl hbytes
    simp only [length_cons, length_nil, Nat.zero_add, Nat.reduceAdd] at hdecoded
    simp only [JoinerClaim.fromCanonicalBytes, PairingAcceptance.fromCanonicalBytes,
      PairingReceipt.fromCanonicalBytes, hdecoded, ok_bind]
    simp [fieldsOf, fixedBytesField, takeField, lookup_cons, okOr, bind_eq_ok, liftTrust_eq_ok,
      nodePublicKey_eq_ok, publicKey_eq_ok, require_eq_ok, Presentable, and_assoc, @eq_comm _ other]

end Fractonica.Pairing
