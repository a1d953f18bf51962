import Fractonica.DataModel.Envelope
import Fractonica.DataModel.Validation.Theorems

namespace Fractonica.DataModel

open Lib Trust List

namespace OperationEnvelope

variable {P : Primitives} {bytes : List UInt8} {e : OperationEnvelope} {signed : SignedOperation}
  {spaceId : SpaceId} {entityId : EntityId} {schema : EntitySchema}
  {causalParents authorization : List OperationId} {occurredAtUnixMs : Int64}
  {nonce : OperationNonce} {body : OperationBody} {key : Ed25519SigningKey}
  {encoded : CanonicalValue} {signature : FixedBytes 64}

-- What a verified envelope has in common with its signed payload.
structure Verified (P : Primitives) (e : OperationEnvelope) (signed : SignedOperation)
    (payload : OperationPayload P) : Prop where
  version : e.protocolVersion = PROTOCOL_VERSION
  notOwnParent : e.operationId ∉ e.causalParents
  read : SignedOperation.fromCoseSign1 P e.coseSign1 = .ok signed
  verified : ∃ verified, signed.verify P = .ok verified
  written : signed.toCoseSign1 = .ok e.coseSign1
  decoded : fromCanonicalBytes P signed.payload = .ok payload
  operationId : e.operationId = signed.operationId
  spaceId : e.spaceId = payload.spaceId
  actorId : e.actorId = payload.actorId
  entityId : e.entityId = ⟨payload.entityId⟩
  schema : payload.schema = e.schema.asStr
  causalParents : e.causalParents = payload.causalParents
  authorization : e.authorization = payload.authorization
  occurredAt : e.occurredAtUnixMs = payload.occurredAtUnixMs
  nonce : e.nonce = payload.nonce
  body : decodeBody e.schema P payload.body = .ok e.body
  valid : e.body.validateFor P e.schema e.actorId e.entityId e.causalParents e.authorization =
    .ok ()

-- Two values with the same canonical bytes have the same normal form.
theorem normalize_eq_of_bytes {left right : CanonicalValue}
    (hleft : toCanonicalCbor left = .ok bytes) (hright : toCanonicalCbor right = .ok bytes) :
    normalize left = normalize right := by
  obtain ⟨hcanonLeft, hbytesLeft, -⟩ := toCanonicalCbor_eq_ok.mp hleft
  obtain ⟨hcanonRight, hbytesRight, -⟩ := toCanonicalCbor_eq_ok.mp hright
  exact encoding_injective hcanonLeft hcanonRight (hbytesLeft.symm.trans hbytesRight)

-- The two bodies are compared as numbers, so the comparison alone would let
-- the zeros of either sign pass; the comparison of the bytes does not.
theorem verify_parts (h : e.verify P = .ok ()) :
    ∃ signed payload, Verified P e signed payload ∧ (e.body == e.body) = true := by
  simp only [verify, requireProjection, bind_eq_ok, require_eq_ok, liftTrust_eq_ok, liftCbor_eq_ok,
    decide_eq_true_eq, EntitySchema.parse_eq_ok] at h
  obtain ⟨-, hversion, -, -, -, -, -, -, -, hself, signed, hread, verified, hverified, cose, hcose,
    -, rfl, payload, hpayload, _, hschema, body, hdecoded, -, hid, -, hspace, -, hactor, -, hentity,
    -, rfl, -, hparents, -, hauthorization, -, hoccurred, -, hnonce, -, hsame, encoded, hencoded, _,
    hprojected, _, hsigned, -, rfl, hvalid⟩ := h
  obtain ⟨-, hnormal⟩ := fromCanonicalBytes_eq_ok.mp hpayload
  have hnormalized : normalize encoded = payload.body :=
    (normalize_eq_of_bytes hprojected hsigned).trans hnormal
  have hbody : decodeBody e.schema P payload.body = .ok e.body :=
    hnormalized ▸ decodeBody_encoded e.schema respells_normalize hvalid hencoded
  obtain rfl := Except.ok.inj (hdecoded.symm.trans hbody)
  exact ⟨signed, payload,
    { version := hversion
      notOwnParent := by simpa using hself
      read := hread
      verified := ⟨verified, hverified⟩
      written := hcose
      decoded := hpayload
      operationId := hid
      spaceId := hspace
      actorId := hactor
      entityId := congrArg EntityId.mk hentity
      schema := hschema
      causalParents := hparents
      authorization := hauthorization
      occurredAt := hoccurred
      nonce := hnonce
      body := hbody
      valid := hvalid }, hsame⟩

theorem verify_sound (h : e.verify P = .ok ()) :
    ∃ signed payload, Verified P e signed payload := by
  obtain ⟨signed, payload, hsound, -⟩ := verify_parts h
  exact ⟨signed, payload, hsound⟩

theorem validBody (h : e.verify P = .ok ()) : ValidBody P e.schema e.body := by
  obtain ⟨signed, payload, hsound⟩ := verify_sound h
  exact validBody_of_validateFor hsound.valid

-- The body of a verified envelope holds no number that differs from itself.
theorem body_reflexive (h : e.verify P = .ok ()) : (e.body == e.body) = true := by
  obtain ⟨-, -, -, hsame⟩ := verify_parts h
  exact hsame

theorem fromTrustSigned_verified {payload : OperationPayload P} (h : Verified P e signed payload) :
    fromTrustSigned P signed = (do
      e.verify P
      .ok e) := by
  obtain ⟨verified, hverified⟩ := h.verified
  have hschema := EntitySchema.parse_eq_ok.mpr h.schema
  have henvelope : e =
      { protocolVersion := PROTOCOL_VERSION, operationId := signed.operationId,
        spaceId := payload.spaceId, actorId := payload.actorId, entityId := ⟨payload.entityId⟩,
        schema := e.schema, causalParents := payload.causalParents,
        authorization := payload.authorization, occurredAtUnixMs := payload.occurredAtUnixMs,
        nonce := payload.nonce, body := e.body, coseSign1 := e.coseSign1 } := by
    rw [← h.version, ← h.operationId, ← h.spaceId, ← h.actorId, ← h.entityId, ← h.causalParents,
      ← h.authorization, ← h.occurredAt, ← h.nonce]
  simp [fromTrustSigned, liftTrust_eq_ok.mpr hverified, liftTrust_eq_ok.mpr h.decoded, hschema,
    h.body, liftTrust_eq_ok.mpr h.written, ← henvelope]

theorem fromCoseSign1_of_verify (h : e.verify P = .ok ()) :
    fromCoseSign1 P e.coseSign1 = .ok e := by
  obtain ⟨signed, payload, hverified⟩ := verify_sound h
  simp [fromCoseSign1, liftTrust_eq_ok.mpr hverified.read, fromTrustSigned_verified hverified, h]

-- An envelope that leaves the conversion has been verified.
theorem verify_of_fromTrustSigned (h : fromTrustSigned P signed = .ok e) : e.verify P = .ok () := by
  simp only [fromTrustSigned, bind_eq_ok, Except.ok.injEq] at h
  obtain ⟨_, -, payload, -, schema, -, body, -, cose, -, _, hverify, rfl⟩ := h
  exact hverify

theorem eq_of_verify {left right : OperationEnvelope} (hleft : left.verify P = .ok ())
    (hright : right.verify P = .ok ()) (hcose : left.coseSign1 = right.coseSign1) :
    left = right := by
  have hread := fromCoseSign1_of_verify hleft
  rw [hcose, fromCoseSign1_of_verify hright] at hread
  exact (Except.ok.inj hread).symm

theorem verify_of_sign
    (h : sign P spaceId entityId schema causalParents authorization occurredAtUnixMs nonce body
      key = .ok e) : e.verify P = .ok () := by
  simp only [sign, bind_eq_ok] at h
  obtain ⟨-, -, -, -, canonical, -, payload, -, signed, -, hsigned⟩ := h
  exact verify_of_fromTrustSigned hsigned

-- A signature says what was to be signed, with its sets in order.
theorem fields_of_sign
    (h : sign P spaceId entityId schema causalParents authorization occurredAtUnixMs nonce body
      key = .ok e) :
    e.spaceId = spaceId ∧ e.actorId = key.actorId P ∧ e.entityId = entityId ∧
      e.schema = schema ∧ e.body = body ∧
      e.causalParents = causalParents.insertionSort (· ≤ ·) ∧
      e.authorization = authorization.insertionSort (· ≤ ·) := by
  simp only [sign, bind_eq_ok, liftTrust_eq_ok] at h
  obtain ⟨-, -, _, hvalid, canonical, hencoded, payload, hpayload, signed, hsign, hsigned⟩ := h
  obtain ⟨hfields, -⟩ := OperationFields.check_eq_ok.mp (OperationPayload.new_eq_ok.mp hpayload)
  obtain ⟨bytes, hbytes⟩ := payload.valid.encodes
  have hkey : key.actorId P = payload.actorId := by
    rw [hfields]
  obtain ⟨-, rfl⟩ := (Trust.sign_eq_ok hkey hbytes).mp hsign
  obtain ⟨decoded, hdecoded, hdecodedFields⟩ := exists_fromCanonicalBytes hbytes
  rw [hfields] at hdecodedFields
  simp only [fromTrustSigned, bind_eq_ok, liftTrust_eq_ok, Except.ok.injEq] at hsigned
  obtain ⟨_, -, found, hfound, parsed, hparsed, decodedBody, hbody, cose, -, _, -, rfl⟩ := hsigned
  rw [hdecoded, Except.ok.injEq] at hfound
  subst hfound
  have hschema : parsed = schema := by
    rw [hdecodedFields] at hparsed
    exact EntitySchema.asStr_injective (EntitySchema.parse_eq_ok.mp hparsed).symm
  subst hschema
  rw [hdecodedFields, decodeBody_encoded parsed respells_normalize hvalid hencoded,
    Except.ok.injEq] at hbody
  exact ⟨congrArg OperationFields.spaceId hdecodedFields,
    congrArg OperationFields.actorId hdecodedFields,
    congrArg EntityId.mk (congrArg OperationFields.entityId hdecodedFields), rfl, hbody.symm,
    congrArg OperationFields.causalParents hdecodedFields,
    congrArg OperationFields.authorization hdecodedFields⟩

def fields (e : OperationEnvelope) (body : CanonicalValue) : OperationFields where
  spaceId := e.spaceId
  actorId := e.actorId
  entityId := e.entityId.uuid
  schema := e.schema.asStr
  causalParents := e.causalParents
  authorization := e.authorization
  occurredAtUnixMs := e.occurredAtUnixMs
  nonce := e.nonce
  body := body

-- What it takes to verify: valid fields, and a digest and a signature over
-- their canonical bytes.
structure Signed (P : Primitives) (e : OperationEnvelope) (encoded : CanonicalValue)
    (bytes : List UInt8) (signature : FixedBytes 64) : Prop where
  version : e.protocolVersion = PROTOCOL_VERSION
  notOwnParent : e.operationId ∉ e.causalParents
  fields : (e.fields encoded).Valid P
  valid : e.body.validateFor P e.schema e.actorId e.entityId e.causalParents e.authorization =
    .ok ()
  reflexive : (e.body == e.body) = true
  encodes : encodeBody P e.schema e.body = .ok encoded
  written : (e.fields encoded).canonicalBytes = .ok bytes
  size : bytes.length + 77 ≤ MAX_CANONICAL_BYTES
  operationId : hashOperationPayload P bytes = e.operationId
  verifies : P.verifyStrict e.actorId.bytes (encoding (signatureValue bytes)) signature = true
  cose : e.coseSign1 = coseBytes bytes signature

theorem Signed.read (h : Signed P e encoded bytes signature) :
    SignedOperation.fromCoseSign1 P e.coseSign1 = .ok ⟨e.operationId, bytes, signature⟩ := by
  have hvalid : ∃ payload : OperationPayload P, payload.toOperationFields = e.fields encoded :=
    ⟨⟨_, h.fields⟩, rfl⟩
  obtain ⟨valid, hvalid⟩ := hvalid
  have hbytes : valid.canonicalBytes = .ok bytes := by
    rw [hvalid]
    exact h.written
  obtain ⟨payload, hpayload, -⟩ := exists_fromCanonicalBytes hbytes
  have hlen := (coseBytes_length_le_iff bytes signature).mpr h.size
  rw [← h.cose] at hlen
  exact fromCoseSign1_eq_ok.mpr ⟨h.cose, hlen.trans (Nat.add_le_add_left (by decide) _),
    h.operationId.symm, payload, hpayload⟩

theorem Signed.verify (h : Signed P e encoded bytes signature) :
    e.verify P = .ok () := by
  have hvalid : ∃ payload : OperationPayload P, payload.toOperationFields = e.fields encoded :=
    ⟨⟨_, h.fields⟩, rfl⟩
  obtain ⟨valid, hvalid⟩ := hvalid
  have hbytes : valid.canonicalBytes = .ok bytes := by
    rw [hvalid]
    exact h.written
  obtain ⟨payload, hpayload, hfields⟩ := exists_fromCanonicalBytes hbytes
  rw [hvalid] at hfields
  have hlen := (coseBytes_length_le_iff bytes signature).mpr h.size
  rw [← h.cose] at hlen
  have hactor : payload.actorId = e.actorId := congrArg OperationFields.actorId hfields
  have hverified : SignedOperation.verify P ⟨e.operationId, bytes, signature⟩ =
      .ok ⟨e.operationId, payload.actorId, payload.spaceId⟩ :=
    verify_eq_ok.mpr ⟨h.operationId, payload, hpayload,
      (Nat.add_le_add_left (by decide) _).trans h.size, hactor ▸ h.verifies, rfl⟩
  have hwritten : SignedOperation.toCoseSign1 ⟨e.operationId, bytes, signature⟩ =
      .ok e.coseSign1 := toCoseSign1_eq_ok.mpr ⟨h.cose, hlen⟩
  have hschema : EntitySchema.parse payload.schema = .ok e.schema :=
    EntitySchema.parse_eq_ok.mpr (congrArg OperationFields.schema hfields)
  have hnormal : payload.body = normalize encoded := congrArg OperationFields.body hfields
  have hdecoded : decodeBody e.schema P payload.body = .ok e.body := by
    rw [hnormal]
    exact decodeBody_encoded e.schema respells_normalize h.valid h.encodes
  have hbody := OperationFields.toCanonicalCbor_body h.written
  have hsigned : toCanonicalCbor payload.body = .ok (encoding (normalize encoded)) := by
    obtain ⟨hcanonical, -, hsize⟩ := toCanonicalCbor_eq_ok.mp hbody
    rw [hnormal]
    exact toCanonicalCbor_of_canonical hcanonical hsize
  have hentity : (!e.entityId.uuid.isNil) = true := congrArg (!·) h.fields.entity
  simp only [OperationEnvelope.verify, requireProjection, bind_eq_ok, require_eq_ok,
    liftTrust_eq_ok, liftCbor_eq_ok, decide_eq_true_eq, validateSortedBy_eq_ok, map_id]
  exact ⟨(), h.version, (), hentity, (), h.fields.parentsAscending, (),
    h.fields.authorizationAscending, (), by simpa using h.notOwnParent, _, h.read, _, hverified, _,
    hwritten, (), rfl, payload, hpayload, _, hschema, _, hdecoded, (), rfl, (),
    (congrArg OperationFields.spaceId hfields).symm, (), hactor.symm, (),
    (congrArg OperationFields.entityId hfields).symm, (), rfl, (),
    (congrArg OperationFields.causalParents hfields).symm, (),
    (congrArg OperationFields.authorization hfields).symm, (),
    (congrArg OperationFields.occurredAtUnixMs hfields).symm, (),
    (congrArg OperationFields.nonce hfields).symm, (), h.reflexive, encoded, h.encodes, _, hbody,
    _, hsigned, (), rfl, h.valid⟩

-- The actor of an envelope signs it.
theorem Signed.sign (h : Signed P e encoded bytes signature) (hkey : key.actorId P = e.actorId)
    (hsignature : P.sign key.seed (encoding (signatureValue bytes)) = signature) :
    OperationEnvelope.sign P e.spaceId e.entityId e.schema e.causalParents e.authorization
      e.occurredAtUnixMs e.nonce e.body key = .ok e := by
  have hverify := h.verify
  obtain ⟨signed, payload, hsound⟩ := verify_sound hverify
  have hread := h.read
  rw [hsound.read, Except.ok.injEq] at hread
  subst hread
  have hfields : (e.fields encoded).check P = .ok (e.fields encoded) := by
    refine OperationFields.check_eq_ok.mpr ⟨?_, h.fields⟩
    have hparents := List.Pairwise.imp le_of_lt h.fields.parentsAscending
    have hauthorization := List.Pairwise.imp le_of_lt h.fields.authorizationAscending
    rw [List.Pairwise.insertionSort_eq hparents, List.Pairwise.insertionSort_eq hauthorization]
  have hnew : OperationPayload.new P (e.fields encoded) = .ok ⟨e.fields encoded, h.fields⟩ :=
    OperationPayload.new_eq_ok.mpr hfields
  have hwritten : (⟨e.fields encoded, h.fields⟩ : OperationPayload P).canonicalBytes = .ok bytes :=
    h.written
  have hsign : (⟨e.fields encoded, h.fields⟩ : OperationPayload P).sign key =
      .ok ⟨e.operationId, bytes, signature⟩ := by
    refine (Trust.sign_eq_ok hkey hwritten).mpr
      ⟨(Nat.add_le_add_left (by decide) _).trans h.size, ?_⟩
    rw [hsignature, h.operationId]
  have hentity : (!e.entityId.uuid.isNil) = true := congrArg (!·) h.fields.entity
  simp only [OperationEnvelope.sign, bind_eq_ok, require_eq_ok, liftTrust_eq_ok, hkey]
  refine ⟨(), hentity, (), h.valid, encoded, h.encodes, _, hnew, _, hsign, ?_⟩
  rw [fromTrustSigned_verified hsound, hverify]
  rfl

-- The projection is determined by the signed bytes.
theorem projection_determined (P : Primitives) :
    (∀ e : OperationEnvelope, e.verify P = .ok () → fromCoseSign1 P e.coseSign1 = .ok e) ∧
      (∀ left right : OperationEnvelope, left.verify P = .ok () → right.verify P = .ok () →
        left.coseSign1 = right.coseSign1 → left = right) ∧
      ∀ spaceId entityId schema causalParents authorization occurredAtUnixMs nonce body key e,
        sign P spaceId entityId schema causalParents authorization occurredAtUnixMs nonce body key =
          .ok e → e.verify P = .ok () :=
  ⟨fun _ => fromCoseSign1_of_verify, fun _ _ => eq_of_verify,
    fun _ _ _ _ _ _ _ _ _ _ => verify_of_sign⟩

end OperationEnvelope

section Samples

-- An operation of one space, with the digest and the signature that the
-- libraries return for its payload.
structure Sample where
  key : Ed25519SigningKey
  actorId : ActorId
  entityId : EntityId
  schema : EntitySchema
  authorization : List OperationId
  nonce : OperationNonce
  body : OperationBody
  operationId : OperationId
  signature : FixedBytes 64

namespace Sample

variable {s : Sample}

def spaceId : SpaceId := ⟨FixedBytes.replicate 32 0x11⟩

def occurredAtUnixMs : Int64 := 1720000000123

-- No sample holds a float, so the primitives do not matter here.
def payload (s : Sample) : List UInt8 :=
  let bytes : Except DataModelError (List UInt8) := do
    let body ← encodeBody fixtureRecording.primitives s.schema s.body
    liftTrust (OperationFields.canonicalBytes
      { spaceId, actorId := s.actorId, entityId := s.entityId.uuid, schema := s.schema.asStr,
        causalParents := [], authorization := s.authorization, occurredAtUnixMs,
        nonce := s.nonce, body })
  bytes.toOption.getD []

def recording (samples : List Sample) : Recording where
  digests := samples.map fun s => (s.payload, s.operationId.bytes)
  keys := samples.map fun s => (s.key.seed, s.actorId.bytes)
  signatures := samples.map fun s =>
    ((s.actorId.bytes, encoding (signatureValue s.payload)), s.signature)

def envelope (s : Sample) : OperationEnvelope where
  protocolVersion := PROTOCOL_VERSION
  operationId := s.operationId
  spaceId := spaceId
  actorId := s.actorId
  entityId := s.entityId
  schema := s.schema
  causalParents := []
  authorization := s.authorization
  occurredAtUnixMs := occurredAtUnixMs
  nonce := s.nonce
  body := s.body
  coseSign1 := coseBytes s.payload s.signature

def controllerKey : Ed25519SigningKey := ⟨FixedBytes.replicate 32 0⟩

def controller : ActorId := ⟨fixtureActor⟩

def writerKey : Ed25519SigningKey := ⟨FixedBytes.replicate 32 1⟩

def writer : ActorId := ⟨.ofNat 0x8a88e3dd7409f195fd52db2d3cba5d72ca6709bf1d94121bf3748801b40f6f5c⟩

def entity (n : UInt8) : EntityId :=
  ⟨⟨toBE 15 0x018f3e7a5b6c7d8e9fab0000000000 ++ [n], by
    rw [length_append, length_singleton]
    decide⟩⟩

def genesis : Sample where
  key := controllerKey
  actorId := controller
  entityId := entity 1
  schema := .spaceGenesis
  authorization := []
  nonce := ⟨FixedBytes.replicate 16 1⟩
  body := .spaceGenesis controller
  operationId := ⟨.ofNat 0xd38fb6962e6deaa625e6d055187a07ae79754eafddbb9cba5b3adc5f11466709⟩
  signature :=
    ⟨toBE 32 0xac8659683314f1e32906f97f3434572d42351a190605d31023133b32f3ee7952 ++
      toBE 32 0x065c334ef345ae6e80a52453e142cfe2cd0771fba4651f8091f592a10875290b, by decide⟩

def writerGrant : Sample where
  key := controllerKey
  actorId := controller
  entityId := entity 2
  schema := .capabilityGrant
  authorization := [genesis.operationId]
  nonce := ⟨FixedBytes.replicate 16 2⟩
  body := .capabilityGrant
    { subject := writer
      actions := [.appendOperation, .readSpace, .writeContent, .linkWorkspace]
      schemas := [.event, .profile, .record, .tag]
      visibilities := [.pub, .priv]
      contentRoles := ["record.media"]
      maxResourceByteLength := some 1073741824
      notBeforeUnixMs := none
      expiresAtUnixMs := none
      delegationDepth := 0
      label := "writer" }
  operationId := ⟨.ofNat 0x684cb769f1d99d9bbd2dbc775fcdb9fdc7456f6dd6a6b7e8b9453d64ca17f98b⟩
  signature :=
    ⟨toBE 32 0xeef45d023502c084b783aacf91c77b0c9c028a719e3b19c8a55bca6fb4e4d16d ++
      toBE 32 0x6bd0bb6e3762eb85f26384eaf3a173b7279c7e3cfd98e3cdfb5d267cec737c04, by decide⟩

def record : Sample where
  key := writerKey
  actorId := writer
  entityId := entity 3
  schema := .record
  authorization := [writerGrant.operationId]
  nonce := ⟨FixedBytes.replicate 16 3⟩
  body := .putRecord (.pub
    { startAtUnixMs := occurredAtUnixMs
      endAtUnixMs := none
      emoji := none
      text := some "hello"
      metadata := .empty
      resources := []
      references := [] })
  operationId := ⟨.ofNat 0xddc81da1586d34355104d21064364215b8c6016de84355512fb4059626163116⟩
  signature :=
    ⟨toBE 32 0xa400b1cb24b055ed3220615dc6214b5ee7468038682fd94f2c8cd5defbac212a ++
      toBE 32 0x6eea098e9d35acc73196259fd2ed44e141ce2116f114ba586b885f0f67002207, by decide⟩

-- The controller withdraws the grant of the writer.
def revocation : Sample where
  key := controllerKey
  actorId := controller
  entityId := entity 4
  schema := .capabilityRevoke
  authorization := [genesis.operationId]
  nonce := ⟨FixedBytes.replicate 16 4⟩
  body := .capabilityRevoke
    { grantId := writerGrant.operationId, reason := .keyRotated, detail := none }
  operationId := ⟨.ofNat 0x3dd31789f89877885f11c1c38bbee22bcd4d2f96bb15d0fd4a6650be679ce23a⟩
  signature :=
    ⟨toBE 32 0x4f21893c899a5a7fbb4045e706b632412e31b194cd33717616173052792a4a85 ++
      toBE 32 0x254069764c2e15561011b3de4e0f9b32f770e7cdd0e5955dc641a7c87e6c180e, by decide⟩

-- A grant of every action there is.
def adminGrant : Sample where
  key := controllerKey
  actorId := controller
  entityId := entity 5
  schema := .capabilityGrant
  authorization := [genesis.operationId]
  nonce := ⟨FixedBytes.replicate 16 5⟩
  body := .capabilityGrant
    { subject := writer
      actions := [.appendOperation, .issueCapability, .revokeCapability, .readSpace, .writeContent,
        .linkWorkspace]
      schemas := [.record]
      visibilities := [.pub]
      contentRoles := ["record.media"]
      maxResourceByteLength := some 1024
      notBeforeUnixMs := none
      expiresAtUnixMs := none
      delegationDepth := 1
      label := "admin" }
  operationId := ⟨.ofNat 0x39481591113b30fd20e5cbdd7fc44f8c4de580def0d992f25b7121048ce782cd⟩
  signature :=
    ⟨toBE 32 0x74189a57c167814819f1ddabe67eff344f315cc93963e7c742c37537868df1a0 ++
      toBE 32 0xf2e80958d0b05b436570e1fadce8878f37b02f83dab779a81ae8c10d36aca10b, by decide⟩

theorem spaceId_ne_zero : spaceId.bytes ≠ FixedBytes.replicate 32 0 := by decide

theorem occurredAtUnixMs_nonneg : 0 ≤ occurredAtUnixMs.toInt := by decide

theorem schemaIsValid_asStr (schema : EntitySchema) : schemaIsValid schema.asStr = true := by
  cases schema <;> decide +kernel

def samples : List Sample := [genesis, writerGrant, record, revocation, adminGrant]

def primitives : Primitives :=
  (recording [genesis, writerGrant, record, revocation, adminGrant]).primitives

theorem genesis_verifies : genesis.envelope.verify primitives = .ok () := by decide +kernel

theorem writerGrant_verifies : writerGrant.envelope.verify primitives = .ok () := by
  decide +kernel

theorem record_verifies : record.envelope.verify primitives = .ok () := by decide +kernel

theorem revocation_verifies : revocation.envelope.verify primitives = .ok () := by
  decide +kernel

theorem adminGrant_verifies : adminGrant.envelope.verify primitives = .ok () := by
  decide +kernel

theorem verifies : ∀ s ∈ samples, s.envelope.verify primitives = .ok () := by
  simp only [samples, forall_mem_cons]
  exact ⟨genesis_verifies, writerGrant_verifies, record_verifies, revocation_verifies,
    adminGrant_verifies, forall_mem_nil _⟩

end Sample

open Sample (recording)

-- The recorded record operation is signed, verifies and is read back.
theorem projection_determined_record :
    ∃ e, OperationEnvelope.sign (recording [Sample.record]).primitives Sample.spaceId
        Sample.record.entityId .record [] Sample.record.authorization Sample.occurredAtUnixMs
        Sample.record.nonce Sample.record.body Sample.writerKey = .ok e ∧
      e.verify (recording [Sample.record]).primitives = .ok () ∧
      OperationEnvelope.fromCoseSign1 (recording [Sample.record]).primitives e.coseSign1 =
        .ok e ∧
      ∀ other : OperationEnvelope,
        other.verify (recording [Sample.record]).primitives = .ok () →
          other.coseSign1 = e.coseSign1 → other = e := by
  obtain ⟨hread, hunique, hsigned⟩ := OperationEnvelope.projection_determined
    (recording [Sample.record]).primitives
  have hok : (OperationEnvelope.sign (recording [Sample.record]).primitives Sample.spaceId
      Sample.record.entityId .record [] Sample.record.authorization Sample.occurredAtUnixMs
      Sample.record.nonce Sample.record.body Sample.writerKey).isOk = true := by
    decide +kernel
  obtain ⟨e, hsign⟩ := isOk_iff.mp hok
  have hverify := hsigned _ _ _ _ _ _ _ _ _ _ hsign
  exact ⟨e, hsign, hverify, hread _ hverify,
    fun other ho hcose => hunique other _ ho hverify hcose⟩

end Samples

end Fractonica.DataModel
