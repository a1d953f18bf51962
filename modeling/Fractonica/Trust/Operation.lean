import Fractonica.Lib.SortedMap
import Fractonica.Trust.Identity

namespace Fractonica.Trust

open Lib List

def OPERATION_PROTOCOL_VERSION : UInt64 := 1
def OPERATION_DOMAIN : String := "org.fractonica.operation"
def MAX_CAUSAL_PARENTS : Nat := 64
def MAX_AUTHORIZATION_REFERENCES : Nat := 64
def MAX_SCHEMA_BYTES : Nat := 64
def COSE_PROTECTED_HEADER : List UInt8 := [0xa1, 0x01, 0x27]

def isAsciiLowercase (byte : UInt8) : Bool := 'a'.toNat ≤ byte.toNat && byte.toNat ≤ 'z'.toNat
def isAsciiDigit (byte : UInt8) : Bool := '0'.toNat ≤ byte.toNat && byte.toNat ≤ '9'.toNat

def isSchemaStart (byte : UInt8) : Bool := isAsciiLowercase byte || isAsciiDigit byte

def isSchemaByte (byte : UInt8) : Bool :=
  isSchemaStart byte || byte = 0x2e || byte = 0x5f || byte = 0x2d

def schemaIsValid (schema : String) : Bool :=
  match utf8Bytes schema with
  | [] => false
  | first :: rest =>
    (utf8Bytes schema).length ≤ MAX_SCHEMA_BYTES && isSchemaStart first && rest.all isSchemaByte

def validateSchema (schema : String) : Except TrustError Unit :=
  if schemaIsValid schema then .ok () else .error (.invalidSchema schema)

theorem validateSchema_eq_ok {schema : String} :
    validateSchema schema = .ok u ↔ schemaIsValid schema = true := by
  unfold validateSchema
  split_ifs with h <;> simp [h]

inductive DigestSet where
  | causalParents
  | authorization
deriving DecidableEq

namespace DigestSet

def maximum : DigestSet → Nat
  | .causalParents => MAX_CAUSAL_PARENTS
  | .authorization => MAX_AUTHORIZATION_REFERENCES

def tooMany (kind : DigestSet) (count : Nat) : TrustError :=
  match kind with
  | .causalParents => .tooManyCausalParents count MAX_CAUSAL_PARENTS
  | .authorization => .tooManyAuthorizationReferences count MAX_AUTHORIZATION_REFERENCES

def duplicate (kind : DigestSet) (id : OperationId) : TrustError :=
  match kind with
  | .causalParents => .duplicateCausalParent id
  | .authorization => .duplicateAuthorizationReference id

def notAscending : DigestSet → TrustError
  | .causalParents => .causalParentsNotStrictlyAscending
  | .authorization => .authorizationNotStrictlyAscending

def notAnArray : DigestSet → String
  | .causalParents => "causal parents must be an array"
  | .authorization => "authorization must be an array"

def field : DigestSet → String
  | .causalParents => "causal parent"
  | .authorization => "authorization reference"

end DigestSet

-- The first of two equal neighbours.
def firstDuplicate : List OperationId → Option OperationId
  | first :: second :: rest => if first = second then some first else firstDuplicate (second ::
    rest)
  | _ => none

def normalizeDigestSet (values : List OperationId) (kind : DigestSet) :
    Except TrustError (List OperationId) :=
  if values.length > kind.maximum then .error (kind.tooMany values.length)
  else
    let sorted := values.insertionSort (· ≤ ·)
    match firstDuplicate sorted with
    | some id => .error (kind.duplicate id)
    | none => .ok sorted

theorem firstDuplicate_eq_none : firstDuplicate values = none ↔ values.IsChain (· ≠ ·) := by
  induction values with
  | nil => simp [firstDuplicate]
  | cons first rest ih =>
    cases rest with
    | nil => simp [firstDuplicate]
    | cons second rest =>
      rw [firstDuplicate, isChain_cons_cons, ← ih]
      split_ifs with h <;> simp [h]

theorem normalizeDigestSet_eq_ok {sorted : List OperationId} :
    normalizeDigestSet values kind = .ok sorted ↔
      sorted = values.insertionSort (· ≤ ·) ∧ sorted.length ≤ kind.maximum ∧
        sorted.Pairwise (· < ·) := by
  have hlength := length_insertionSort (· ≤ ·) values
  have hle := pairwise_insertionSort (· ≤ ·) values
  have hascending : firstDuplicate (values.insertionSort (· ≤ ·)) = none ↔
      (values.insertionSort (· ≤ ·)).Pairwise (· < ·) := by
    rw [firstDuplicate_eq_none, isChain_ne_iff hle]
  unfold normalizeDigestSet
  split_ifs with hcount
  · refine iff_of_false (by simp) ?_
    rintro ⟨rfl, hmax, -⟩
    omega
  · dsimp only
    cases hdup : firstDuplicate (values.insertionSort (· ≤ ·)) with
    | some id =>
      refine iff_of_false (by simp) ?_
      rintro ⟨rfl, -, hlt⟩
      rw [hascending.mpr hlt] at hdup
      cases hdup
    | none =>
      rw [Except.ok.injEq]
      constructor
      · rintro rfl
        exact ⟨rfl, by omega, hascending.mp hdup⟩
      · rintro ⟨rfl, -⟩
        rfl

-- The fields of an operation before they are checked.
structure OperationFields where
  spaceId : SpaceId
  actorId : ActorId
  entityId : Uuid
  schema : String
  causalParents : List OperationId
  authorization : List OperationId
  occurredAtUnixMs : Int64
  nonce : OperationNonce
  body : CanonicalValue

namespace OperationFields

def toValue (f : OperationFields) : CanonicalValue :=
  .array [
    .text OPERATION_DOMAIN,
    .unsigned OPERATION_PROTOCOL_VERSION,
    .bytes f.spaceId.bytes.bytes,
    .bytes f.actorId.bytes.bytes,
    .bytes f.entityId.bytes.bytes,
    .text f.schema,
    .array (f.causalParents.map fun parent => .bytes parent.bytes.bytes),
    .array (f.authorization.map fun grant => .bytes grant.bytes.bytes),
    .integer f.occurredAtUnixMs,
    .bytes f.nonce.bytes.bytes,
    f.body]

def canonicalBytes (f : OperationFields) : Except TrustError (List UInt8) :=
  liftCbor (toCanonicalCbor f.toValue)

-- The body of `OperationPayload::new`: checks every field and sorts the sets.
def check (P : Primitives) (f : OperationFields) : Except TrustError OperationFields := do
  SpaceId.validate f.spaceId
  let _ ← ActorId.publicKey P f.actorId
  require (!f.entityId.isNil) .nilEntityId
  validateSchema f.schema
  require (0 ≤ f.occurredAtUnixMs.toInt) (.negativeOccurredAt f.occurredAtUnixMs)
  let causalParents ← normalizeDigestSet f.causalParents .causalParents
  let authorization ← normalizeDigestSet f.authorization .authorization
  let payload := { f with causalParents, authorization }
  let _ ← payload.canonicalBytes
  .ok payload

-- What the fields of a constructed payload satisfy.
structure Valid (P : Primitives) (f : OperationFields) : Prop where
  space : f.spaceId.bytes ≠ FixedBytes.replicate 32 0
  actor : P.validKey f.actorId.bytes = true
  entity : f.entityId.isNil = false
  schema : schemaIsValid f.schema = true
  occurredAt : 0 ≤ f.occurredAtUnixMs.toInt
  parentCount : f.causalParents.length ≤ MAX_CAUSAL_PARENTS
  parentsAscending : f.causalParents.Pairwise (· < ·)
  authorizationCount : f.authorization.length ≤ MAX_AUTHORIZATION_REFERENCES
  authorizationAscending : f.authorization.Pairwise (· < ·)
  encodes : ∃ bytes, f.canonicalBytes = .ok bytes

theorem check_eq_ok :
    check P f = .ok g ↔
      g = { f with
        causalParents := f.causalParents.insertionSort (· ≤ ·)
        authorization := f.authorization.insertionSort (· ≤ ·) } ∧ Valid P g := by
  unfold check
  simp only [bind_eq_ok, require_eq_ok, normalizeDigestSet_eq_ok, publicKey_eq_ok,
    validateSchema_eq_ok, validate_eq_ok, Except.ok.injEq]
  constructor
  · rintro ⟨-, hspace, -, ⟨hactor, -⟩, -, hentity, -, hschema, -, hoccurred, _,
      ⟨rfl, hparents, hparents'⟩, _, ⟨rfl, hauth, hauth'⟩, bytes, hbytes, rfl⟩
    exact ⟨rfl, hspace, hactor, by simpa using hentity, hschema, by simpa using hoccurred,
      hparents, hparents', hauth, hauth', ⟨bytes, hbytes⟩⟩
  · rintro ⟨rfl, hvalid⟩
    obtain ⟨bytes, hbytes⟩ := hvalid.encodes
    exact ⟨(), hvalid.space, _, ⟨hvalid.actor, rfl⟩, (), by simpa using hvalid.entity, (),
      hvalid.schema, (), by simpa using hvalid.occurredAt, _,
      ⟨rfl, hvalid.parentCount, hvalid.parentsAscending⟩, _,
      ⟨rfl, hvalid.authorizationCount, hvalid.authorizationAscending⟩, bytes, hbytes, rfl⟩

end OperationFields

-- A payload can only be built from fields that pass the checks.
structure OperationPayload (P : Primitives) extends OperationFields where
  valid : toOperationFields.Valid P

def OperationPayload.new (P : Primitives) (f : OperationFields) :
    Except TrustError (OperationPayload P) :=
  match h : f.check P with
  | .ok checked => .ok ⟨checked, (OperationFields.check_eq_ok.mp h).2⟩
  | .error error => .error error

def takeFixedBytes (n : Nat) (value : CanonicalValue) (field : String) :
    Except TrustError (FixedBytes n) :=
  match value with
  | .bytes bytes => okOr (FixedBytes.ofList? n bytes) (.invalidOperationPayload field)
  | _ => .error (.invalidOperationPayload field)

def decodeDigestSet (value : CanonicalValue) (kind : DigestSet) :
    Except TrustError (List OperationId) :=
  match value with
  | .array values => do
    require (values.length ≤ kind.maximum) (kind.tooMany values.length)
    let decoded ← values.mapM fun value => do
      let bytes ← takeFixedBytes 32 value kind.field
      .ok (⟨bytes⟩ : OperationId)
    require (decoded.IsChain (· < ·)) kind.notAscending
    .ok decoded
  | _ => .error (.invalidOperationPayload kind.notAnArray)

def isText (text : String) : CanonicalValue → Bool
  | .text found => found = text
  | _ => false

def isUnsigned (number : UInt64) : CanonicalValue → Bool
  | .unsigned found => found = number
  | _ => false

def takeSchema : CanonicalValue → Except TrustError String
  | .text schema => .ok schema
  | _ => .error (.invalidOperationPayload "schema must be text")

def takeOccurredAt : CanonicalValue → Except TrustError Int64
  | .integer value => .ok value
  | .unsigned value =>
    if value.toNat < 2 ^ 63 then .ok (Int64.ofInt value.toNat)
    else .error (.invalidOperationPayload "occurred-at is out of range")
  | _ => .error (.invalidOperationPayload "occurred-at must be an integer")

-- The fields of a decoded payload, before `OperationPayload::new` checks them.
def decodeOperationFields (value : CanonicalValue) : Except TrustError OperationFields :=
  match value with
  | .array [domain, version, space, actor, entity, schema, parents, authorization, occurred, nonce,
      body] => do
    require (isText OPERATION_DOMAIN domain) .wrongOperationDomain
    require (isUnsigned OPERATION_PROTOCOL_VERSION version) .unsupportedOperationVersion
    let spaceId ← takeFixedBytes 32 space "space ID"
    let actorId ← takeFixedBytes 32 actor "actor ID"
    let entityId ← takeFixedBytes 16 entity "entity ID"
    let schema ← takeSchema schema
    let causalParents ← decodeDigestSet parents .causalParents
    let authorization ← decodeDigestSet authorization .authorization
    let occurredAtUnixMs ← takeOccurredAt occurred
    let nonce ← takeFixedBytes 16 nonce "nonce"
    .ok { spaceId := ⟨spaceId⟩, actorId := ⟨actorId⟩, entityId := ⟨entityId⟩, schema,
          causalParents, authorization, occurredAtUnixMs, nonce := ⟨nonce⟩, body }
  | .array _ => .error (.invalidOperationPayload "expected exactly 11 fields")
  | _ => .error (.invalidOperationPayload "expected an array")

def decodeOperationValue (P : Primitives) (value : CanonicalValue) :
    Except TrustError (OperationPayload P) := do
  let fields ← decodeOperationFields value
  OperationPayload.new P fields

def fromCanonicalBytes (P : Primitives) (bytes : List UInt8) :
    Except TrustError (OperationPayload P) := do
  let value ← liftCbor (fromCanonicalCbor bytes)
  decodeOperationValue P value

def hashOperationPayload (P : Primitives) (payload : List UInt8) : OperationId :=
  ⟨P.sha256 payload⟩

def OperationPayload.operationId {P : Primitives} (payload : OperationPayload P) :
    Except TrustError OperationId := do
  let bytes ← payload.canonicalBytes
  .ok (hashOperationPayload P bytes)

-- The COSE Sig_structure of a payload.
def signatureValue (payload : List UInt8) : CanonicalValue :=
  .array [.text "Signature1", .bytes COSE_PROTECTED_HEADER, .bytes [], .bytes payload]

def coseSignatureStructure (payload : List UInt8) : Except TrustError (List UInt8) :=
  liftCbor (toCanonicalCbor (signatureValue payload))

structure SignedOperation where
  operationId : OperationId
  payload : List UInt8
  signature : FixedBytes 64
deriving DecidableEq

structure VerifiedOperation where
  operationId : OperationId
  actorId : ActorId
  spaceId : SpaceId
deriving DecidableEq

namespace SignedOperation

def signCanonical (P : Primitives) (payload : List UInt8) (key : Ed25519SigningKey) :
    Except TrustError SignedOperation := do
  let _ ← fromCanonicalBytes P payload
  let signatureInput ← coseSignatureStructure payload
  .ok { operationId := hashOperationPayload P payload, payload,
        signature := P.sign key.seed signatureInput }

def verify (P : Primitives) (signed : SignedOperation) : Except TrustError VerifiedOperation := do
  require (hashOperationPayload P signed.payload = signed.operationId) .operationIdMismatch
  let payload ← fromCanonicalBytes P signed.payload
  let key ← ActorId.publicKey P payload.actorId
  Ed25519PublicKey.validate P key
  let signatureInput ← coseSignatureStructure signed.payload
  require (P.verifyStrict key.bytes signatureInput signed.signature) .signatureVerificationFailed
  .ok { operationId := signed.operationId, actorId := payload.actorId,
        spaceId := payload.spaceId }

def coseValue (signed : SignedOperation) : CanonicalValue :=
  .array [.bytes COSE_PROTECTED_HEADER, .map [], .bytes signed.payload,
    .bytes signed.signature.bytes]

def toCoseSign1 (signed : SignedOperation) : Except TrustError (List UInt8) := do
  let untagged ← liftCbor (toCanonicalCbor signed.coseValue)
  .ok (0xd2 :: untagged)

end SignedOperation

-- The operation's signing method.
def OperationPayload.sign {P : Primitives} (payload : OperationPayload P)
    (key : Ed25519SigningKey) : Except TrustError SignedOperation := do
  require (key.actorId P = payload.actorId)
    (.signingActorMismatch payload.actorId (key.actorId P))
  let bytes ← payload.canonicalBytes
  SignedOperation.signCanonical P bytes key

abbrev CoseDecoder (α : Type) : Type := Parser TrustError α

def liftDecoder {α : Type} (p : Decoder α) : CoseDecoder α := Parser.mapError .canonicalCbor p

def expect (c : Bool) (error : TrustError) : CoseDecoder Unit :=
  if c then pure () else throw error

def takeCanonicalByteString : CoseDecoder (List UInt8) := do
  let lead ← liftDecoder Decoder.takeByte
  expect (lead >>> 5 = 2) .invalidCoseSign1
  let length ← liftDecoder (Decoder.decodeLength (lead &&& 0x1f))
  liftDecoder (Decoder.take length)

def coseBody : CoseDecoder (List UInt8 × FixedBytes 64) := do
  let tag ← liftDecoder Decoder.takeByte
  expect (tag = 0xd2) .invalidCoseSign1
  let array ← liftDecoder Decoder.takeByte
  expect (array = 0x84) .invalidCoseSign1
  let protectedHeader ← takeCanonicalByteString
  expect (protectedHeader = COSE_PROTECTED_HEADER) .wrongCoseProtectedHeader
  let unprotectedHeader ← liftDecoder Decoder.takeByte
  expect (unprotectedHeader = 0xa0) .nonEmptyCoseUnprotectedHeader
  let payload ← takeCanonicalByteString
  let signature ← takeCanonicalByteString
  match FixedBytes.ofList? 64 signature with
  | some signature => pure (payload, signature)
  | none => throw .invalidCoseSignatureLength

def decodeExactCoseSign1 (bytes : List UInt8) :
    Except TrustError (List UInt8 × FixedBytes 64) := do
  require (bytes.length ≤ MAX_CANONICAL_BYTES + 128) .invalidCoseSign1
  let (result, cursor) ← coseBody.run (Cursor.start bytes)
  require (cursor.rest = []) .invalidCoseSign1
  .ok result

def SignedOperation.fromCoseSign1 (P : Primitives) (bytes : List UInt8) :
    Except TrustError SignedOperation := do
  let (payload, signature) ← decodeExactCoseSign1 bytes
  let _ ← fromCanonicalBytes P payload
  .ok { operationId := hashOperationPayload P payload, payload, signature }

end Fractonica.Trust
