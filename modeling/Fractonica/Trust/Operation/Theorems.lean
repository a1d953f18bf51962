import Fractonica.Trust.Operation.Lemmas

namespace Fractonica.Trust

open Lib List

section Sizes

variable {signed : SignedOperation} {bytes : List UInt8}

-- The head of a string above 64 KiB has five bytes, and a shorter string is
-- far below every limit.
theorem head_length_bound (major : UInt8) (hk : k + 5 + 0xffff ≤ MAX_CANONICAL_BYTES) :
    k + (head major n).length + n ≤ MAX_CANONICAL_BYTES ↔ n + (k + 5) ≤ MAX_CANONICAL_BYTES := by
  have hmax : MAX_CANONICAL_BYTES = 2097152 := rfl
  rw [length_head, length_argumentBytes]
  split_ifs <;> omega

theorem length_coseBytes (payload : List UInt8) (signature : FixedBytes 64) :
    (coseBytes payload signature).length =
      73 + (head 2 payload.length).length + payload.length := by
  have hsignature : (head 2 64).length = 2 := rfl
  have hheader : (head 2 3).length = 1 := rfl
  have hbytes : COSE_PROTECTED_HEADER.length = 3 := rfl
  simp only [coseBytes, length_append, length_singleton, signature.length_eq, hbytes,
    hsignature, hheader]
  omega

theorem encoding_coseValue (signed : SignedOperation) :
    0xd2 :: encoding (normalize signed.coseValue) = coseBytes signed.payload signed.signature := by
  have hnormal : normalize signed.coseValue = signed.coseValue := rfl
  have harray : head 4 4 = [0x84] := by decide
  have hmap : encoding (.map []) = [0xa0] := by decide
  rw [hnormal, SignedOperation.coseValue, encoding_array]
  simp only [flatMap_cons, flatMap_nil, append_nil, hmap]
  change 0xd2 :: (head 4 4 ++ _) = _
  rfl

theorem canonical_coseValue (h : signed.payload.length ≤ MAX_CANONICAL_BYTES) :
    Canonical (MAX_CANONICAL_DEPTH + 1) (normalize signed.coseValue) := by
  have hsize : MAX_CANONICAL_BYTES < USIZE := by decide
  have hsignature : signed.signature.bytes.length < USIZE := by
    rw [signed.signature.length_eq]
    decide
  have hnormal : normalize signed.coseValue = signed.coseValue := rfl
  rw [hnormal, SignedOperation.coseValue]
  refine ⟨by simp [MAX_CANONICAL_CONTAINER_ITEMS], ?_⟩
  simp only [forall_mem_cons, not_mem_nil, false_imp_iff, implies_true, and_true]
  have hheader : COSE_PROTECTED_HEADER.length < USIZE := by decide
  exact ⟨hheader, ⟨by decide, by simp, .nil⟩, lt_of_le_of_lt h hsize, hsignature⟩

theorem toCoseSign1_eq_ok :
    signed.toCoseSign1 = .ok bytes ↔
      bytes = coseBytes signed.payload signed.signature ∧
        bytes.length ≤ MAX_CANONICAL_BYTES + 1 := by
  have hbytes := encoding_coseValue signed
  simp only [SignedOperation.toCoseSign1, bind_eq_ok, liftCbor_eq_ok, toCanonicalCbor_eq_ok,
    Except.ok.injEq]
  constructor
  · rintro ⟨untagged, ⟨-, rfl, hlen⟩, rfl⟩
    exact ⟨hbytes, by simpa using hlen⟩
  · rintro ⟨rfl, hlen⟩
    rw [← hbytes] at hlen ⊢
    refine ⟨_, ⟨canonical_coseValue ?_, rfl, by simpa using hlen⟩, rfl⟩
    rw [hbytes, length_coseBytes] at hlen
    omega

theorem coseSignatureStructure_eq_ok {payload : List UInt8} :
    coseSignatureStructure payload = .ok bytes ↔
      bytes = encoding (signatureValue payload) ∧ payload.length + 22 ≤ MAX_CANONICAL_BYTES := by
  have hnormal : normalize (signatureValue payload) = signatureValue payload := rfl
  have hlength : (encoding (signatureValue payload)).length =
      17 + (head 2 payload.length).length + payload.length := by
    have hitems : (head 4 4).length = 1 ∧ (encoding (.text "Signature1")).length = 11 ∧
        (encoding (.bytes COSE_PROTECTED_HEADER)).length = 4 ∧
        (encoding (.bytes [])).length = 1 := by decide
    obtain ⟨harray, htext, hheader, hempty⟩ := hitems
    have hpayload : (encoding (.bytes payload)).length =
        (head 2 payload.length).length + payload.length := length_append
    rw [signatureValue, encoding_array]
    simp only [flatMap_cons, flatMap_nil, append_nil, length_append,
      length_cons, length_nil, Nat.zero_add, Nat.reduceAdd, harray, htext, hheader,
      hempty, hpayload]
    omega
  have hbound := head_length_bound (n := payload.length) (k := 17) 2 (by decide)
  rw [coseSignatureStructure, liftCbor_eq_ok, toCanonicalCbor_eq_ok, hnormal]
  constructor
  · rintro ⟨-, rfl, hlen⟩
    rw [hlength, hbound] at hlen
    exact ⟨rfl, hlen⟩
  · rintro ⟨rfl, hlen⟩
    have hsize : MAX_CANONICAL_BYTES < USIZE := by decide
    have htext : (utf8Bytes "Signature1").length < USIZE := by decide
    have hheader : COSE_PROTECTED_HEADER.length < USIZE := by decide
    have hpayload : payload.length < USIZE := by omega
    refine ⟨⟨by simp [MAX_CANONICAL_CONTAINER_ITEMS], ?_⟩, rfl, by rwa [hlength, hbound]⟩
    simp only [forall_mem_cons, not_mem_nil, false_imp_iff, implies_true, and_true]
    exact ⟨htext, hheader, Nat.two_pow_pos 64, hpayload⟩

-- The signed structure ends with the payload.
theorem signatureValue_injective {left right : List UInt8} (hleft : left.length < USIZE)
    (hright : right.length < USIZE)
    (h : encoding (signatureValue left) = encoding (signatureValue right)) : left = right := by
  simp only [signatureValue, encoding_array, flatMap_cons, flatMap_nil, append_nil,
    length_cons, length_nil] at h
  have hbytes : encoding (.bytes left) = encoding (.bytes right) :=
    append_cancel_left (append_cancel_left (append_cancel_left
      (append_cancel_left h)))
  have hcanonical : ∀ payload : List UInt8, payload.length < USIZE →
      Canonical 1 (.bytes payload) := fun _ hlength => hlength
  exact CanonicalValue.bytes.inj
    (encoding_injective (hcanonical left hleft) (hcanonical right hright) hbytes)

end Sizes

section Closure

variable {P : Primitives} {bytes : List UInt8} {key : Ed25519SigningKey} {signed : SignedOperation}
  {payload : OperationPayload P}

theorem signCanonical_eq_ok :
    SignedOperation.signCanonical P bytes key = .ok signed ↔
      (∃ payload, fromCanonicalBytes P bytes = .ok payload) ∧
        bytes.length + 22 ≤ MAX_CANONICAL_BYTES ∧
        signed = { operationId := hashOperationPayload P bytes, payload := bytes,
                   signature := P.sign key.seed (encoding (signatureValue bytes)) } := by
  simp only [SignedOperation.signCanonical, bind_eq_ok, coseSignatureStructure_eq_ok,
    Except.ok.injEq]
  constructor
  · rintro ⟨payload, hpayload, _, ⟨rfl, hlen⟩, rfl⟩
    exact ⟨⟨payload, hpayload⟩, hlen, rfl⟩
  · rintro ⟨⟨payload, hpayload⟩, hlen, rfl⟩
    exact ⟨payload, hpayload, _, ⟨rfl, hlen⟩, rfl⟩

theorem verify_eq_ok {verified : VerifiedOperation} :
    signed.verify P = .ok verified ↔
      hashOperationPayload P signed.payload = signed.operationId ∧
        ∃ payload : OperationPayload P, fromCanonicalBytes P signed.payload = .ok payload ∧
          signed.payload.length + 22 ≤ MAX_CANONICAL_BYTES ∧
          P.verifyStrict payload.actorId.bytes (encoding (signatureValue signed.payload))
            signed.signature = true ∧
          verified = { operationId := signed.operationId, actorId := payload.actorId,
                       spaceId := payload.spaceId } := by
  simp only [SignedOperation.verify, bind_eq_ok, require_eq_ok, decide_eq_true_eq, publicKey_eq_ok,
    keyValidate_eq_ok, coseSignatureStructure_eq_ok, Except.ok.injEq]
  constructor
  · rintro ⟨-, hid, payload, hpayload, _, ⟨-, rfl⟩, -, -, _, ⟨rfl, hlen⟩, -, hverify, rfl⟩
    exact ⟨hid, payload, hpayload, hlen, hverify, rfl⟩
  · rintro ⟨hid, payload, hpayload, hlen, hverify, rfl⟩
    have hkey := payload.valid.actor
    exact ⟨(), hid, payload, hpayload, _, ⟨hkey, rfl⟩, (), hkey, _, ⟨rfl, hlen⟩, (), hverify, rfl⟩

theorem sign_eq_ok (hkey : key.actorId P = payload.actorId)
    (hbytes : payload.canonicalBytes = .ok bytes) :
    payload.sign key = .ok signed ↔
      bytes.length + 22 ≤ MAX_CANONICAL_BYTES ∧
        signed = { operationId := hashOperationPayload P bytes, payload := bytes,
                   signature := P.sign key.seed (encoding (signatureValue bytes)) } := by
  obtain ⟨decoded, hdecoded, -⟩ := exists_fromCanonicalBytes hbytes
  simp only [OperationPayload.sign, hbytes, ok_bind, require_bind_eq_ok, hkey, decide_true,
    true_and,
    signCanonical_eq_ok]
  exact and_iff_right ⟨decoded, hdecoded⟩

-- What a key signs verifies.
theorem verify_of_sign (hP : P.Correct) (hsign : payload.sign key = .ok signed) :
    ∃ verified, signed.verify P = .ok verified := by
  obtain ⟨bytes, hbytes⟩ := payload.valid.encodes
  have hkey : key.actorId P = payload.actorId := by
    simp only [OperationPayload.sign, require_bind_eq_ok, decide_eq_true_eq] at hsign
    exact hsign.1
  obtain ⟨decoded, hdecoded, hfields⟩ := exists_fromCanonicalBytes hbytes
  obtain ⟨hlen, rfl⟩ := (sign_eq_ok hkey hbytes).mp hsign
  have hactor : decoded.actorId.bytes = P.verifyingKey key.seed := by
    rw [hfields]
    exact congrArg Identifier.bytes hkey.symm
  have hvalid := decoded.valid.actor
  refine ⟨_, verify_eq_ok.mpr ⟨rfl, decoded, hdecoded, hlen, ?_, rfl⟩⟩
  rw [hactor] at hvalid ⊢
  exact hP.verifyStrict_sign key.seed _ hvalid

theorem coseBytes_length_le_iff (payload : List UInt8) (signature : FixedBytes 64) :
    (coseBytes payload signature).length ≤ MAX_CANONICAL_BYTES + 1 ↔
      payload.length + 77 ≤ MAX_CANONICAL_BYTES := by
  rw [length_coseBytes, ← head_length_bound (k := 72) 2 (by decide)]
  omega

-- Signing, verifying and the COSE round trip work up to 77 bytes below the
-- payload limit, because both COSE structures are encoded under that limit.
-- In the same way the decoder accepts envelopes that cannot be written again.
theorem cose_closure_iff (hP : P.Correct) :
    (∀ (payload : OperationPayload P) (key : Ed25519SigningKey) (bytes : List UInt8),
      key.actorId P = payload.actorId → payload.canonicalBytes = .ok bytes →
        ((∃ signed cose, payload.sign key = .ok signed ∧
            (∃ verified, signed.verify P = .ok verified) ∧ signed.toCoseSign1 = .ok cose ∧
            SignedOperation.fromCoseSign1 P cose = .ok signed) ↔
          bytes.length + 77 ≤ MAX_CANONICAL_BYTES)) ∧
      ∀ (cose : List UInt8) (signed : SignedOperation),
        SignedOperation.fromCoseSign1 P cose = .ok signed →
          (signed.toCoseSign1 = .ok cose ↔ cose.length ≤ MAX_CANONICAL_BYTES + 1) := by
  refine ⟨?_, ?_⟩
  · intro payload key bytes hkey hbytes
    constructor
    · rintro ⟨signed, cose, hsign, -, hcose, -⟩
      obtain ⟨-, rfl⟩ := (sign_eq_ok hkey hbytes).mp hsign
      obtain ⟨rfl, hlen⟩ := toCoseSign1_eq_ok.mp hcose
      exact (coseBytes_length_le_iff _ _).mp hlen
    · intro hlen
      have hsign := (sign_eq_ok hkey hbytes).mpr ⟨by omega, rfl⟩
      have hcose := (coseBytes_length_le_iff bytes
        (P.sign key.seed (encoding (signatureValue bytes)))).mpr hlen
      obtain ⟨decoded, hdecoded, -⟩ := exists_fromCanonicalBytes hbytes
      refine ⟨_, _, hsign, verify_of_sign hP hsign, toCoseSign1_eq_ok.mpr ⟨rfl, hcose⟩, ?_⟩
      exact fromCoseSign1_eq_ok.mpr ⟨rfl, hcose.trans (by omega), rfl, decoded, hdecoded⟩
  · intro cose signed hdecode
    obtain ⟨hbytes, -⟩ := fromCoseSign1_eq_ok.mp hdecode
    rw [toCoseSign1_eq_ok]
    exact and_iff_right hbytes

end Closure

section Identity

variable {P : Primitives} {left right : List OperationId} {payload : OperationPayload P}

-- Sorting forgets the order in which the references were given.
theorem insertionSort_perm (h : left.Perm right) :
    left.insertionSort (· ≤ ·) = right.insertionSort (· ≤ ·) := by
  have hperm : (left.insertionSort (· ≤ ·)).Perm (right.insertionSort (· ≤ ·)) :=
    (perm_insertionSort _ left).trans (h.trans (perm_insertionSort _ right).symm)
  exact List.Perm.eq_of_pairwise' (pairwise_insertionSort _ left)
    (pairwise_insertionSort _ right) hperm

theorem normalizeDigestSet_perm (h : left.Perm right) :
    normalizeDigestSet left kind = normalizeDigestSet right kind := by
  rw [normalizeDigestSet, normalizeDigestSet, h.length_eq, insertionSort_perm h]

theorem nodup_of_normalizeDigestSet {sorted : List OperationId}
    (h : normalizeDigestSet values kind = .ok sorted) : values.Nodup := by
  obtain ⟨rfl, -, hascending⟩ := normalizeDigestSet_eq_ok.mp h
  have hnodup : (values.insertionSort (· ≤ ·)).Nodup := hascending.imp ne_of_lt
  exact (perm_insertionSort _ values).nodup_iff.mp hnodup

variable {f : OperationFields}

theorem check_perm {parents authorization : List OperationId}
    (hparents : parents.Perm f.causalParents)
    (hauthorization : authorization.Perm f.authorization) :
    OperationFields.check P { f with causalParents := parents, authorization } =
      f.check P := by
  simp only [OperationFields.check, normalizeDigestSet_perm hparents,
    normalizeDigestSet_perm hauthorization]

theorem new_congr (h : g.check P = f.check P) :
    OperationPayload.new P g = OperationPayload.new P f := by
  cases hnew : OperationPayload.new P f with
  | ok payload =>
    rw [OperationPayload.new_eq_ok, ← h, ← OperationPayload.new_eq_ok] at hnew
    exact hnew
  | error error =>
    rw [OperationPayload.new_eq_error, ← h, ← OperationPayload.new_eq_error] at hnew
    exact hnew

theorem nodup_of_new (h : OperationPayload.new P f = .ok payload) :
    f.causalParents.Nodup ∧ f.authorization.Nodup := by
  rw [OperationPayload.new_eq_ok] at h
  simp only [OperationFields.check, bind_eq_ok] at h
  obtain ⟨-, -, -, -, -, -, -, -, -, -, _, hparents, _, hauthorization, -⟩ := h
  exact ⟨nodup_of_normalizeDigestSet hparents, nodup_of_normalizeDigestSet hauthorization⟩

-- Equal bytes decode to one payload.
theorem fields_of_canonicalBytes {other : OperationPayload P}
    (h : payload.canonicalBytes = other.canonicalBytes) :
    { payload.toOperationFields with body := normalize payload.body } =
      { other.toOperationFields with body := normalize other.body } := by
  obtain ⟨bytes, hbytes⟩ := payload.valid.encodes
  obtain ⟨decoded, hdecoded, hfields⟩ := exists_fromCanonicalBytes hbytes
  obtain ⟨decoded', hdecoded', hfields'⟩ := exists_fromCanonicalBytes (h.symm.trans hbytes)
  rw [hdecoded, Except.ok.injEq] at hdecoded'
  rw [← hfields, ← hfields', hdecoded']

end Identity

-- The bytes of an operation and its payload determine each other.
theorem operation_id_canonical (P : Primitives) :
    (∀ (bytes : List UInt8) (payload : OperationPayload P),
      fromCanonicalBytes P bytes = .ok payload → payload.canonicalBytes = .ok bytes) ∧
      (∀ (f : OperationFields) (parents authorization : List OperationId),
        parents.Perm f.causalParents → authorization.Perm f.authorization →
          (OperationPayload.new P { f with causalParents := parents, authorization } =
              OperationPayload.new P f) ∧
            ∀ payload payload' : OperationPayload P, OperationPayload.new P f = .ok payload →
              OperationPayload.new P { f with causalParents := parents, authorization } =
                .ok payload' →
              payload'.canonicalBytes = payload.canonicalBytes ∧
                payload'.operationId = payload.operationId) ∧
      (∀ f : OperationFields, ¬ (f.causalParents.Nodup ∧ f.authorization.Nodup) →
        ∀ payload, OperationPayload.new P f ≠ .ok payload) ∧
      ∀ payload other : OperationPayload P, payload.canonicalBytes = other.canonicalBytes →
        { payload.toOperationFields with body := normalize payload.body } =
          { other.toOperationFields with body := normalize other.body } := by
  refine ⟨?_, ?_, ?_, ?_⟩
  · intro bytes payload hdecoded
    exact (fromCanonicalBytes_eq_ok.mp hdecoded).1
  · intro f parents authorization hparents hauthorization
    have hsame := new_congr (check_perm (P := P) hparents hauthorization)
    refine ⟨hsame, ?_⟩
    intro payload payload' hpayload hpayload'
    rw [hsame, hpayload, Except.ok.injEq] at hpayload'
    rw [hpayload']
    exact ⟨rfl, rfl⟩
  · intro f hduplicate payload hnew
    exact hduplicate (nodup_of_new hnew)
  · intro payload other hbytes
    exact fields_of_canonicalBytes hbytes

-- The conformance vector of the crate.
def fixtureKey : Ed25519SigningKey := ⟨FixedBytes.replicate 32 0⟩

def fixtureActor : FixedBytes 32 :=
  .ofNat 0x3b6a27bcceb6a42d62a3a8d02a6f0d73653215771de243a63ac048a18b59da29

def fixtureBytes : List UInt8 :=
    toBE 36 0x8b78186f72672e66726163746f6e6963612e6f7065726174696f6e015820111111111111 ++
    toBE 36 0x111111111111111111111111111111111111111111111111111158203b6a27bcceb6a42d ++
    toBE 36 0x62a3a8d02a6f0d73653215771de243a63ac048a18b59da2950018f3e7a5b6c7d8e9fab10 ++
    toBE 36 0x2030405060667265636f7264825820010101010101010101010101010101010101010101 ++
    toBE 36 0x01010101010101010101015820fefefefefefefefefefefefefefefefefefefefefefefe ++
    toBE 36 0xfefefefefefefefefe815820808080808080808080808080808080808080808080808080 ++
    toBE 36 0x80808080808080801b0000019077fd307b5022222222222222222222222222222222a200 ++
    toBE 8 0x00016568656c6c6f

def fixtureSignature : FixedBytes 64 :=
  ⟨toBE 32 0x790acf4bdf338aa37227662bc7cca1f4155d7cab142a0a054856760fa70050f7 ++
    toBE 32 0x6d98115c2f1961f2fbd5f66e7534f0cf5a6c82072ff06b87361bcba17b7be201, by decide⟩

def fixtureRecording : Recording where
  digests := [(fixtureBytes,
    .ofNat 0xdc4ccee60bfa12ad9e48b9375acaddc518908ffb20638092a75dc61e3c3e27dd)]
  keys := [(fixtureKey.seed, fixtureActor)]
  signatures := [((fixtureActor, encoding (signatureValue fixtureBytes)), fixtureSignature)]

def fixtureFields : OperationFields where
  spaceId := ⟨FixedBytes.replicate 32 0x11⟩
  actorId := ⟨fixtureActor⟩
  entityId := ⟨.ofNat 0x018f3e7a5b6c7d8e9fab102030405060⟩
  schema := "record"
  causalParents := [⟨FixedBytes.replicate 32 0x01⟩, ⟨FixedBytes.replicate 32 0xfe⟩]
  authorization := [⟨FixedBytes.replicate 32 0x80⟩]
  occurredAtUnixMs := 1720000000123
  nonce := ⟨FixedBytes.replicate 16 0x22⟩
  body := .map [(.unsigned 1, .text "hello"), (.unsigned 0, .unsigned 0)]

theorem fixtureFields_bytes : fixtureFields.canonicalBytes = .ok fixtureBytes := by
  decide +kernel

theorem fixture_valid : fixtureFields.Valid fixtureRecording.primitives where
  space := by decide
  actor := by decide
  entity := by decide
  schema := by decide
  occurredAt := by decide
  parentCount := by decide
  parentsAscending := by decide
  authorizationCount := by decide
  authorizationAscending := by decide
  encodes := ⟨fixtureBytes, fixtureFields_bytes⟩

def fixturePayload : OperationPayload fixtureRecording.primitives :=
  ⟨fixtureFields, fixture_valid⟩

-- The vector is read back, and its parents may come in the other order.
theorem operation_id_canonical_fixture :
    OperationPayload.new fixtureRecording.primitives
        { fixtureFields with causalParents := fixtureFields.causalParents.reverse } =
      .ok fixturePayload ∧
      ∃ decoded, fromCanonicalBytes fixtureRecording.primitives fixtureBytes = .ok decoded ∧
        decoded.canonicalBytes = .ok fixtureBytes := by
  obtain ⟨hbytes, hordered, -, -⟩ := operation_id_canonical fixtureRecording.primitives
  have hnew : OperationPayload.new fixtureRecording.primitives fixtureFields =
      .ok fixturePayload :=
    OperationPayload.new_eq_ok.mpr (OperationFields.check_of_valid fixture_valid)
  obtain ⟨decoded, hdecoded, -⟩ := exists_fromCanonicalBytes
    (show fixturePayload.canonicalBytes = .ok fixtureBytes from fixtureFields_bytes)
  refine ⟨?_, decoded, hdecoded, hbytes fixtureBytes decoded hdecoded⟩
  rw [← hnew]
  exact (hordered fixtureFields _ _ (reverse_perm _) (List.Perm.refl _)).1

-- The vector is signed, verified and read back.
theorem cose_closure_fixture :
    ∃ signed cose, fixturePayload.sign fixtureKey = .ok signed ∧
      (∃ verified, signed.verify fixtureRecording.primitives = .ok verified) ∧
      signed.toCoseSign1 = .ok cose ∧
      SignedOperation.fromCoseSign1 fixtureRecording.primitives cose = .ok signed := by
  have hkey : fixtureKey.actorId fixtureRecording.primitives = fixturePayload.actorId := by
    decide
  have hclosure := cose_closure_iff fixtureRecording.primitives_correct
  exact (hclosure.1 fixturePayload fixtureKey fixtureBytes hkey fixtureFields_bytes).mpr
    (by decide +kernel)

-- The same operation with a body of zeros that brings its canonical bytes to
-- the limit.
def oversizedFields : OperationFields :=
  { fixtureFields with body := .bytes (List.replicate 2096897 0) }

theorem length_oversized :
    (encoding (normalize oversizedFields.toValue)).length = MAX_CANONICAL_BYTES := by
  have hbody : (encoding (normalize oversizedFields.body)).length = 5 + 2096897 := by
    change (head 2 (List.replicate 2096897 (0 : UInt8)).length ++
      List.replicate 2096897 (0 : UInt8)).length = _
    rw [length_append, length_replicate, length_head, length_argumentBytes]
    simp
  rw [normalize_toValue, encoding_array]
  simp only [flatMap_cons, flatMap_nil, append_nil, length_append, hbody]
  decide

theorem canonical_oversized :
    Canonical (MAX_CANONICAL_DEPTH + 1) (normalize oversizedFields.toValue) := by
  obtain ⟨hcanon, -⟩ := toCanonicalCbor_eq_ok.mp (liftCbor_eq_ok.mp fixtureFields_bytes)
  rw [normalize_toValue] at hcanon ⊢
  obtain ⟨hcount, hmem⟩ := hcanon
  refine ⟨hcount, ?_⟩
  simp only [forall_mem_cons, not_mem_nil, false_imp_iff, implies_true, and_true]
    at hmem ⊢
  obtain ⟨h₁, h₂, h₃, h₄, h₅, h₆, h₇, h₈, h₉, h₁₀, -⟩ := hmem
  refine ⟨h₁, h₂, h₃, h₄, h₅, h₆, h₇, h₈, h₉, h₁₀, ?_⟩
  change (List.replicate 2096897 (0 : UInt8)).length < USIZE
  rw [length_replicate]
  decide

-- At the limit the payload has canonical bytes but cannot be signed.
theorem sign_fails_at_limit :
    ∃ (payload : OperationPayload fixtureRecording.primitives) (bytes : List UInt8),
      payload.toOperationFields = oversizedFields ∧
        fixtureKey.actorId fixtureRecording.primitives = payload.actorId ∧
        payload.canonicalBytes = .ok bytes ∧ bytes.length = MAX_CANONICAL_BYTES ∧
        ∀ signed, payload.sign fixtureKey ≠ .ok signed := by
  have hbytes : oversizedFields.canonicalBytes =
      .ok (encoding (normalize oversizedFields.toValue)) := by
    rw [OperationFields.canonicalBytes, liftCbor_eq_ok, toCanonicalCbor_eq_ok, length_oversized]
    exact ⟨canonical_oversized, rfl, Nat.le_refl _⟩
  have hvalid : oversizedFields.Valid fixtureRecording.primitives :=
    ⟨fixture_valid.space, fixture_valid.actor, fixture_valid.entity, fixture_valid.schema,
      fixture_valid.occurredAt, fixture_valid.parentCount, fixture_valid.parentsAscending,
      fixture_valid.authorizationCount, fixture_valid.authorizationAscending, ⟨_, hbytes⟩⟩
  have hkey : fixtureKey.actorId fixtureRecording.primitives = oversizedFields.actorId := by
    decide
  obtain ⟨payload, hfields⟩ : ∃ payload : OperationPayload fixtureRecording.primitives,
      payload.toOperationFields = oversizedFields := ⟨⟨oversizedFields, hvalid⟩, rfl⟩
  rw [← hfields] at hkey
  have hpayload : payload.canonicalBytes = .ok (encoding (normalize oversizedFields.toValue)) := by
    rw [hfields]
    exact hbytes
  refine ⟨payload, _, hfields, hkey, hpayload, length_oversized, ?_⟩
  intro signed hsign
  have hlen := ((sign_eq_ok hkey hpayload).mp hsign).1
  rw [length_oversized] at hlen
  omega

end Fractonica.Trust
