import Fractonica.Trust.Cbor.Theorems
import Fractonica.Trust.Operation

namespace Fractonica.Trust

open Lib List

namespace OperationPayload

theorem new_eq_ok {payload : OperationPayload P} :
    new P f = .ok payload ↔ f.check P = .ok payload.toOperationFields := by
  unfold new
  split
  · rename_i checked h
    obtain ⟨fields, hvalid⟩ := payload
    simp only [Except.ok.injEq, OperationPayload.mk.injEq]
    exact ⟨fun heq => heq ▸ h, fun h' => Except.ok.inj (h.symm.trans h')⟩
  · rename_i error h
    simp [h]

theorem new_eq_error : new P f = .error error ↔ f.check P = .error error := by
  unfold new
  split
  · rename_i checked h
    simp [h]
  · rename_i found h
    simp [h]

end OperationPayload

-- Checked fields pass the checks unchanged.
theorem OperationFields.check_of_valid {f : OperationFields} (h : f.Valid P) :
    f.check P = .ok f := by
  have hparents := h.parentsAscending.imp (fun hlt => le_of_lt hlt)
  have hauthorization := h.authorizationAscending.imp (fun hlt => le_of_lt hlt)
  rw [OperationFields.check_eq_ok]
  refine ⟨?_, h⟩
  rw [hparents.insertionSort_eq, hauthorization.insertionSort_eq]

section Decoding

variable {value : CanonicalValue} {bytes : List UInt8} {ids : List OperationId} {P : Primitives}
  {payload : OperationPayload P}

theorem takeFixedBytes_eq_ok {field : String} {bytes : FixedBytes n} :
    takeFixedBytes n value field = .ok bytes ↔ value = .bytes bytes.bytes := by
  unfold takeFixedBytes
  split
  · rename_i found
    rw [okOr_eq_ok, FixedBytes.ofList?_eq_some, CanonicalValue.bytes.injEq, eq_comm]
  · rename_i hne
    exact iff_of_false (by simp) (fun h => hne _ h)

-- The canonical form of a set of digests.
def digestValues (ids : List OperationId) : List CanonicalValue :=
  ids.map fun id => .bytes id.bytes.bytes

private theorem forall₂_digestValues {values : List CanonicalValue} :
    List.Forall₂ (fun value (id : OperationId) =>
      ∃ bytes : FixedBytes 32, value = .bytes bytes.bytes ∧ (⟨bytes⟩ : OperationId) = id)
      values ids ↔ values = digestValues ids := by
  unfold digestValues
  rw [← forall₂_eq_eq_eq, forall₂_map_right_iff]
  refine ⟨fun h => h.imp ?_, fun h => h.imp ?_⟩
  · rintro value id ⟨bytes, rfl, rfl⟩
    rfl
  · rintro value ⟨bytes⟩ rfl
    exact ⟨bytes, rfl, rfl⟩

theorem decodeDigestSet_eq_ok :
    decodeDigestSet value kind = .ok ids ↔
      value = .array (digestValues ids) ∧ ids.length ≤ kind.maximum ∧ ids.Pairwise (· < ·) := by
  cases value with
  | array values =>
    simp only [decodeDigestSet, bind_eq_ok, require_eq_ok, mapM_eq_ok, takeFixedBytes_eq_ok,
      Except.ok.injEq, forall₂_digestValues, decide_eq_true_eq, CanonicalValue.array.injEq]
    have hlength : ∀ ids, (digestValues ids).length = ids.length := fun ids => length_map _
    constructor
    · rintro ⟨-, hcount, decoded, rfl, -, hchain, rfl⟩
      rw [hlength] at hcount
      exact ⟨rfl, hcount, isChain_iff_pairwise.mp hchain⟩
    · rintro ⟨rfl, hcount, hascending⟩
      rw [hlength]
      exact ⟨(), hcount, ids, rfl, (), isChain_iff_pairwise.mpr hascending, rfl⟩
  | null | bool | integer | unsigned | float | bytes | text | map => simp [decodeDigestSet]

theorem takeSchema_eq_ok {schema : String} :
    takeSchema value = .ok schema ↔ value = .text schema := by
  cases value <;> simp [takeSchema, eq_comm]

theorem isText_iff {text : String} : isText text value = true ↔ value = .text text := by
  cases value <;> simp [isText]

theorem isUnsigned_iff {number : UInt64} :
    isUnsigned number value = true ↔ value = .unsigned number := by
  cases value <;> simp [isUnsigned]

-- A nonnegative time is written as an unsigned number, which is the form a
-- canonical value has.
theorem takeOccurredAt_eq_ok (hcanon : Canonical levels value) (htime : 0 ≤ time.toInt) :
    takeOccurredAt value = .ok time ↔ value = normalize (.integer time) := by
  have hhi := time.toInt_lt
  have hnat : (UInt64.ofNat time.toInt.toNat).toNat = time.toInt.toNat := by
    rw [UInt64.toNat_ofNat', Nat.mod_eq_of_lt (by omega)]
  rw [normalize, if_pos htime]
  cases value with
  | integer value =>
    have hneg : value.toInt < 0 := by
      obtain ⟨levels, rfl⟩ := hcanon.exists_succ
      exact hcanon
    refine iff_of_false ?_ (by simp)
    rw [takeOccurredAt, Except.ok.injEq]
    rintro rfl
    omega
  | unsigned value =>
    rw [takeOccurredAt, CanonicalValue.unsigned.injEq]
    split_ifs with hrange
    · have hint : (Int64.ofInt (value.toNat : Int)).toInt = value.toNat := by
        rw [Int64.toInt_ofInt_of_le (by omega) (by omega)]
      rw [Except.ok.injEq, ← UInt64.toNat_inj, ← Int64.toInt_inj, hint, hnat]
      omega
    · refine iff_of_false (by simp) ?_
      rintro rfl
      omega
  | null | bool | float | bytes | text | array | map => simp [takeOccurredAt]

-- The canonical value of a payload, with its parts in normal form.
theorem normalize_toValue (f : OperationFields) :
    normalize f.toValue = .array [
      .text OPERATION_DOMAIN, .unsigned OPERATION_PROTOCOL_VERSION, .bytes f.spaceId.bytes.bytes,
      .bytes f.actorId.bytes.bytes, .bytes f.entityId.bytes.bytes, .text f.schema,
      .array (digestValues f.causalParents), .array (digestValues f.authorization),
      normalize (.integer f.occurredAtUnixMs), .bytes f.nonce.bytes.bytes, normalize f.body] := by
  have hdigests : ∀ ids : List OperationId,
      normalize (.array (ids.map fun id => .bytes id.bytes.bytes)) =
        .array (digestValues ids) := by
    intro ids
    rw [normalize_array, map_map]
    rfl
  rw [OperationFields.toValue, normalize_array]
  simp only [map_cons, map_nil, hdigests]
  rfl

-- The body of an encoded operation is encoded itself.
theorem OperationFields.toCanonicalCbor_body {fields : OperationFields}
    (h : fields.canonicalBytes = .ok bytes) :
    toCanonicalCbor fields.body = .ok (encoding (normalize fields.body)) := by
  obtain ⟨hcanonical, rfl, hlen⟩ := toCanonicalCbor_eq_ok.mp (liftCbor_eq_ok.mp h)
  rw [normalize_toValue] at hcanonical hlen
  exact toCanonicalCbor_eq_ok.mpr ⟨(hcanonical.2 (normalize fields.body) (by simp)).succ, rfl,
    (length_encoding_le_of_mem (by simp)).trans hlen⟩

-- Decoding a canonical value gives fields whose canonical value it is. The
-- digest sets and the time must have passed the decoder's own checks.
theorem decodeOperationFields_eq_ok (hcanon : Canonical levels value)
    (htime : 0 ≤ f.occurredAtUnixMs.toInt) :
    decodeOperationFields value = .ok f ↔
      value = normalize f.toValue ∧ normalize f.body = f.body ∧
        (f.causalParents.length ≤ MAX_CAUSAL_PARENTS ∧ f.causalParents.Pairwise (· < ·)) ∧
        f.authorization.length ≤ MAX_AUTHORIZATION_REFERENCES ∧
        f.authorization.Pairwise (· < ·) := by
  rw [normalize_toValue]
  obtain ⟨levels, rfl⟩ := hcanon.exists_succ
  constructor
  · intro h
    unfold decodeOperationFields at h
    split at h
    · rename_i domain version space actor entity schema parents authorization occurred nonce
        body
      have hbody : Canonical levels body := hcanon.2 body (by simp)
      have hoccurred : Canonical levels occurred := hcanon.2 occurred (by simp)
      simp only [bind_eq_ok, require_eq_ok, isText_iff, isUnsigned_iff, takeFixedBytes_eq_ok,
        takeSchema_eq_ok, decodeDigestSet_eq_ok, Except.ok.injEq] at h
      obtain ⟨-, rfl, -, rfl, spaceId, rfl, actorId, rfl, entityId, rfl, schema, rfl, parents,
        ⟨rfl, hparents⟩, authorization, ⟨rfl, hauthorization⟩, time, htake, nonce, rfl,
        rfl⟩ := h
      rw [takeOccurredAt_eq_ok hoccurred htime] at htake
      subst htake
      have hnormal := normalize_eq_self hbody
      exact ⟨by rw [hnormal], hnormal, hparents, hauthorization⟩
    · cases h
    · cases h
  · rintro ⟨rfl, hbody, hparents, hauthorization⟩
    have hoccurred : Canonical levels (normalize (.integer f.occurredAtUnixMs)) :=
      hcanon.2 _ (by simp)
    simp only [decodeOperationFields, bind_eq_ok, require_eq_ok, isText_iff, isUnsigned_iff,
      takeFixedBytes_eq_ok, takeSchema_eq_ok, decodeDigestSet_eq_ok, Except.ok.injEq]
    exact ⟨(), trivial, (), trivial, _, rfl, _, rfl, _, rfl, _, rfl, _, ⟨rfl, hparents⟩, _,
      ⟨rfl, hauthorization⟩, _, (takeOccurredAt_eq_ok hoccurred htime).mpr rfl, _, rfl,
      by rw [hbody]⟩

-- A decoded payload is exactly one with these canonical bytes and a body in
-- normal form.
theorem fromCanonicalBytes_eq_ok :
    fromCanonicalBytes P bytes = .ok payload ↔
      payload.canonicalBytes = .ok bytes ∧ normalize payload.body = payload.body := by
  have hvalid := payload.valid
  unfold fromCanonicalBytes decodeOperationValue OperationFields.canonicalBytes
  simp only [bind_eq_ok, liftCbor_eq_ok, fromCanonicalCbor_eq_ok, toCanonicalCbor_eq_ok,
    OperationPayload.new_eq_ok]
  constructor
  · rintro ⟨value, ⟨hcanon, rfl, hlen⟩, fields, hfields, hcheck⟩
    have hsorted := (OperationFields.check_eq_ok.mp hcheck).1
    have htime : 0 ≤ fields.occurredAtUnixMs.toInt := by
      have htime := hvalid.occurredAt
      rwa [hsorted] at htime
    obtain ⟨rfl, hbody, ⟨-, hparents⟩, -, hauthorization⟩ :=
      (decodeOperationFields_eq_ok hcanon htime).mp hfields
    -- The sets were read in ascending order, so the check did not move them.
    rw [(hparents.imp (fun hlt => le_of_lt hlt)).insertionSort_eq,
      (hauthorization.imp (fun hlt => le_of_lt hlt)).insertionSort_eq] at hsorted
    rw [hsorted]
    exact ⟨⟨hcanon, rfl, hlen⟩, hbody⟩
  · rintro ⟨⟨hcanon, rfl, hlen⟩, hbody⟩
    refine ⟨_, ⟨hcanon, rfl, hlen⟩, payload.toOperationFields, ?_,
      OperationFields.check_of_valid hvalid⟩
    rw [decodeOperationFields_eq_ok hcanon hvalid.occurredAt]
    exact ⟨rfl, hbody, ⟨hvalid.parentCount, hvalid.parentsAscending⟩, hvalid.authorizationCount,
      hvalid.authorizationAscending⟩

-- The canonical bytes of any payload decode, to the same payload with its
-- body in normal form.
theorem exists_fromCanonicalBytes (h : payload.canonicalBytes = .ok bytes) :
    ∃ decoded : OperationPayload P, fromCanonicalBytes P bytes = .ok decoded ∧
      decoded.toOperationFields =
        { payload.toOperationFields with body := normalize payload.body } := by
  let f : OperationFields := { payload.toOperationFields with body := normalize payload.body }
  obtain ⟨hcanon, -⟩ := toCanonicalCbor_eq_ok.mp (liftCbor_eq_ok.mp h)
  have hbody : normalize f.body = f.body := by
    rw [normalize_toValue] at hcanon
    exact normalize_eq_self (hcanon.2 (normalize payload.body) (by simp))
  have hvalue : normalize f.toValue = normalize payload.toValue := by
    rw [normalize_toValue, normalize_toValue, hbody]
  have hbytes : f.canonicalBytes = .ok bytes := by
    rw [OperationFields.canonicalBytes, liftCbor_eq_ok, toCanonicalCbor_eq_ok, hvalue,
      ← toCanonicalCbor_eq_ok]
    exact liftCbor_eq_ok.mp h
  have hvalid : f.Valid P := { payload.valid with encodes := ⟨bytes, hbytes⟩ }
  exact ⟨⟨f, hvalid⟩, fromCanonicalBytes_eq_ok.mpr ⟨hbytes, hbody⟩, rfl⟩

end Decoding

section Cose

variable {bytes : List UInt8}

theorem expect_run {cursor : Cursor} :
    (expect c error).run cursor = .ok (u, cursor') ↔ c = true ∧ cursor = cursor' := by
  unfold expect
  cases c <;> simp

theorem takeCanonicalByteString_parses :
    Parser.Parses takeCanonicalByteString (fun bytes => bytes.length < USIZE)
      (fun bytes => head 2 bytes.length ++ bytes) := by
  intro cursor bytes cursor'
  simp only [takeCanonicalByteString, liftDecoder, Parser.bind_run, Parser.mapError_run, expect_run,
    Decoder.takeByte_parses _ _ _, Decoder.decodeLength_parses _ _ _ _,
    Decoder.take_parses _ _ _ _, true_and, id, decide_eq_true_eq]
  constructor
  · rintro ⟨lead, c₁, hlead, -, c₂, ⟨hmajor, rfl⟩, length, c₃, ⟨⟨hlt, hcode⟩, hlength⟩, rfl, hread⟩
    refine ⟨hlt, ?_⟩
    have hsplit := leadByte_split lead
    rw [hmajor, ← hcode] at hsplit
    rw [← hsplit] at hlead
    exact (hlead.append hlength).append hread
  · rintro ⟨hlt, hread⟩
    obtain ⟨c₃, hhead, hbytes⟩ := Cursor.reads_append.mp hread
    rw [head, ← singleton_append, Cursor.reads_append] at hhead
    obtain ⟨c₁, hlead, hlength⟩ := hhead
    have hcode := argumentCode_lt bytes.length
    refine ⟨_, c₁, hlead, (), c₁, ⟨major_leadByte (by decide) hcode, rfl⟩, _, c₃, ⟨⟨hlt, ?_⟩,
      hlength⟩,
      rfl, hbytes⟩
    rw [additional_leadByte (by decide) hcode]

-- The only COSE_Sign1 bytes of a payload and a signature.
def coseBytes (payload : List UInt8) (signature : FixedBytes 64) : List UInt8 :=
  [0xd2] ++ ([0x84] ++ ((head 2 COSE_PROTECTED_HEADER.length ++ COSE_PROTECTED_HEADER) ++
    ([0xa0] ++ ((head 2 payload.length ++ payload) ++
      (head 2 signature.bytes.length ++ signature.bytes)))))

theorem coseBody_parses :
    Parser.Parses coseBody (fun result => result.1.length < USIZE)
      (fun result => coseBytes result.1 result.2) := by
  intro cursor result cursor'
  obtain ⟨payload, signature⟩ := result
  simp only [coseBody, liftDecoder, Parser.bind_run, Parser.mapError_run, expect_run,
    Decoder.takeByte_parses _ _ _, takeCanonicalByteString_parses _ _ _, true_and,
    decide_eq_true_eq]
  constructor
  · rintro ⟨_, c₁, h₁, -, _, ⟨rfl, rfl⟩, _, c₂, h₂, -, _, ⟨rfl, rfl⟩, _, c₃, ⟨-, h₃⟩, -, _,
      ⟨rfl, rfl⟩, _, c₄, h₄, -, _, ⟨rfl, rfl⟩, found, c₅, ⟨hlt, h₅⟩, bytes, c₆, ⟨-, h₆⟩, hrun⟩
    cases hsignature : FixedBytes.ofList? 64 bytes with
    | none =>
      rw [hsignature] at hrun
      exact (Parser.throw_run.mp hrun).elim
    | some fixed =>
      rw [hsignature] at hrun
      obtain ⟨heq, rfl⟩ := Parser.pure_run.mp hrun
      cases heq
      rw [← FixedBytes.ofList?_eq_some.mp hsignature] at h₆
      exact ⟨hlt, h₁.append (h₂.append (h₃.append (h₄.append (h₅.append h₆))))⟩
  · rintro ⟨hlt, hread⟩
    obtain ⟨c₁, h₁, hread⟩ := Cursor.reads_append.mp hread
    obtain ⟨c₂, h₂, hread⟩ := Cursor.reads_append.mp hread
    obtain ⟨c₃, h₃, hread⟩ := Cursor.reads_append.mp hread
    obtain ⟨c₄, h₄, hread⟩ := Cursor.reads_append.mp hread
    obtain ⟨c₅, h₅, h₆⟩ := Cursor.reads_append.mp hread
    have hsize : signature.bytes.length < USIZE := by
      rw [signature.length_eq]
      decide
    refine ⟨_, c₁, h₁, (), c₁, ⟨rfl, rfl⟩, _, c₂, h₂, (), c₂, ⟨rfl, rfl⟩, _, c₃,
      ⟨by decide, h₃⟩, (), c₃, ⟨rfl, rfl⟩, _, c₄, h₄, (), c₄, ⟨rfl, rfl⟩, payload, c₅, ⟨hlt, h₅⟩,
      _, cursor', ⟨hsize, h₆⟩, ?_⟩
    rw [FixedBytes.ofList?_bytes]
    rfl

theorem decodeExactCoseSign1_eq_ok {payload : List UInt8} {signature : FixedBytes 64} :
    decodeExactCoseSign1 bytes = .ok (payload, signature) ↔
      bytes = coseBytes payload signature ∧ bytes.length ≤ MAX_CANONICAL_BYTES + 128 := by
  simp only [decodeExactCoseSign1, bind_eq_ok, require_eq_ok, decide_eq_true_eq]
  constructor
  · rintro ⟨-, hlen, ⟨result, cursor⟩, hrun, -, hend, heq⟩
    cases heq
    obtain ⟨-, hread⟩ := (coseBody_parses _ _ _).mp hrun
    exact ⟨((Cursor.reads_start_end hend).mp hread).1.symm, hlen⟩
  · rintro ⟨rfl, hlen⟩
    have hlt : payload.length < USIZE := by
      have hsize : MAX_CANONICAL_BYTES + 128 < USIZE := by decide
      simp only [coseBytes, length_append] at hlen
      omega
    refine ⟨(), hlen, ((payload, signature), ⟨(coseBytes payload signature).length, []⟩), ?_, (),
      rfl, rfl⟩
    rw [coseBody_parses]
    exact ⟨hlt, (Cursor.reads_start_end rfl).mpr ⟨rfl, rfl⟩⟩

theorem fromCoseSign1_eq_ok {signed : SignedOperation} :
    SignedOperation.fromCoseSign1 P bytes = .ok signed ↔
      bytes = coseBytes signed.payload signed.signature ∧
        bytes.length ≤ MAX_CANONICAL_BYTES + 128 ∧
        signed.operationId = hashOperationPayload P signed.payload ∧
        ∃ payload, fromCanonicalBytes P signed.payload = .ok payload := by
  obtain ⟨id, payload, signature⟩ := signed
  simp only [SignedOperation.fromCoseSign1, bind_eq_ok, Prod.exists, decodeExactCoseSign1_eq_ok,
    Except.ok.injEq, SignedOperation.mk.injEq]
  constructor
  · rintro ⟨_, _, ⟨rfl, hlen⟩, decoded, hdecoded, rfl, rfl, rfl⟩
    exact ⟨rfl, hlen, rfl, decoded, hdecoded⟩
  · rintro ⟨rfl, hlen, rfl, decoded, hdecoded⟩
    exact ⟨payload, signature, ⟨rfl, hlen⟩, decoded, hdecoded, rfl, rfl, rfl⟩

end Cose

end Fractonica.Trust
