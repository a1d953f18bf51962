import Fractonica.DataModel.Projection
import Fractonica.Trust.Detached

namespace Fractonica.Pairing

open Lib Trust DataModel

def PAIRING_PROTOCOL_VERSION : UInt64 := 1
def INVITATION_VERSION : UInt64 := 1
def NOISE_PROTOCOL_NAME : String := "Noise_NKpsk0_25519_ChaChaPoly_BLAKE2s"
def QR_PREFIX : String := "fractonica-pairing:v1:"
def MAX_QR_CBOR_BYTES : Nat := 4 * 1024
def MAX_CANONICAL_MESSAGE_BYTES : Nat := 4 * 1024
def MAX_ENDPOINT_HINTS : Nat := 3
def MAX_ENDPOINT_HINT_BYTES : Nat := 256
def MIN_INVITATION_LIFETIME_MS : Int64 := 1000
def MAX_INVITATION_LIFETIME_MS : Int64 := 600000

structure InvitationId where
  bytes : FixedBytes 16
deriving DecidableEq

inductive PairingError where
  | qrTooLarge (bytes : Nat)
  | canonicalMessageTooLarge (bytes : Nat)
  | noiseFrameTooLarge (bytes : Nat)
  | unsupportedVersion (expected found : UInt64)
  | invalidField (field : String)
  | invalidMapSize (expected found : Nat)
  | missingCanonicalField (key : UInt64)
  | invalidInvitationLifetime (lifetime : Int64)
  | tooManyEndpointHints (count : Nat)
  | invalidEndpointHint
  | claimInvitationMismatch
  | acceptanceMismatch
  | canonical (error : CanonicalCborError)
  | trust (error : TrustError)
  | dataModel (error : DataModelError)
  | noise

def liftTrust {α : Type} (result : Except TrustError α) : Except PairingError α :=
  result.mapError .trust

@[simp] theorem liftTrust_eq_ok {result : Except TrustError α} {a : α} :
    liftTrust result = .ok a ↔ result = .ok a :=
  mapError_eq_ok

-- The canonical bytes of a message, which are at most 4096.
def encodeMessage (value : CanonicalValue) : Except PairingError (List UInt8) := do
  let bytes ← (toCanonicalCbor value).mapError .canonical
  require (bytes.length ≤ MAX_CANONICAL_MESSAGE_BYTES) (.canonicalMessageTooLarge bytes.length)
  .ok bytes

-- The fields of a message are numbered.
def numbered (values : List CanonicalValue) : CanonicalValue :=
  .map (values.mapIdx fun index value => (.unsigned (UInt64.ofNat index), value))

-- The capability of an invitation, before the joining actor is known.
structure CapabilityGrantTemplate where
  actions : List CapabilityAction
  schemas : List EntitySchema
  visibilities : List Visibility
  contentRoles : List String
  maxResourceByteLength : Option UInt64
  notBeforeUnixMs : Option Int64
  expiresAtUnixMs : Option Int64
  delegationDepth : UInt8
  label : String
deriving DecidableEq

namespace CapabilityGrantTemplate

def normalize (template : CapabilityGrantTemplate) : CapabilityGrantTemplate :=
  { template with
    actions := sortBy CapabilityAction.ctorIdx template.actions
    schemas := sortBy (fun schema => utf8Bytes schema.asStr) template.schemas
    visibilities := sortBy Visibility.ctorIdx template.visibilities
    contentRoles := sortBy utf8Bytes template.contentRoles }

-- The template with its subject.
def grantFor (template : CapabilityGrantTemplate) (subject : ActorId) : CapabilityGrant where
  subject := subject
  actions := template.actions
  schemas := template.schemas
  visibilities := template.visibilities
  contentRoles := template.contentRoles
  maxResourceByteLength := template.maxResourceByteLength
  notBeforeUnixMs := template.notBeforeUnixMs
  expiresAtUnixMs := template.expiresAtUnixMs
  delegationDepth := template.delegationDepth
  label := template.label

def toGrant (P : Primitives) (template : CapabilityGrantTemplate) (subject : ActorId) :
    Except PairingError CapabilityGrant := do
  let grant := template.grantFor subject
  (grant.validate P).mapError .dataModel
  .ok grant

def canonicalValue (template : CapabilityGrantTemplate) : CanonicalValue :=
  numbered [
    .array (template.actions.map fun action => .unsigned (actionCode action)),
    .array (template.schemas.map fun schema => .text schema.asStr),
    .array (template.visibilities.map fun visibility => .unsigned (visibilityCode visibility)),
    .array (template.contentRoles.map .text),
    optionalUnsigned template.maxResourceByteLength,
    template.notBeforeUnixMs.elim .null .integer,
    template.expiresAtUnixMs.elim .null .integer,
    .unsigned template.delegationDepth.toUInt64,
    .text template.label]

end CapabilityGrantTemplate

structure InvitationDescriptor where
  invitationId : InvitationId
  responderNodeId : NodeId
  responderNoiseStatic : FixedBytes 32
  spaceId : SpaceId
  genesisOperationId : OperationId
  expiresAtUnixMs : Int64
  endpointHints : List String
  capability : CapabilityGrantTemplate
  secretCommitment : FixedBytes 32
deriving DecidableEq

def validateEndpointHint (hint : String) : Except PairingError Unit :=
  let bytes := utf8Bytes hint
  require (!bytes.isEmpty && bytes.length ≤ MAX_ENDPOINT_HINT_BYTES && bytes.all (· < 0x80) &&
    ((utf8Bytes "http://").isPrefixOf bytes || (utf8Bytes "https://").isPrefixOf bytes))
    .invalidEndpointHint

def validateEndpointHints (hints : List String) : Except PairingError Unit := do
  require (hints.length ≤ MAX_ENDPOINT_HINTS) (.tooManyEndpointHints hints.length)
  checkAll validateEndpointHint hints

namespace InvitationDescriptor

def canonicalValue (descriptor : InvitationDescriptor) : CanonicalValue :=
  numbered [
    .unsigned PAIRING_PROTOCOL_VERSION,
    .unsigned INVITATION_VERSION,
    .bytes descriptor.invitationId.bytes.bytes,
    .text NOISE_PROTOCOL_NAME,
    .bytes descriptor.responderNodeId.bytes.bytes,
    .bytes descriptor.responderNoiseStatic.bytes,
    .bytes descriptor.spaceId.bytes.bytes,
    .bytes descriptor.genesisOperationId.bytes.bytes,
    .integer descriptor.expiresAtUnixMs,
    .array (descriptor.endpointHints.map .text),
    descriptor.capability.canonicalValue,
    .bytes descriptor.secretCommitment.bytes]

def canonicalBytes (descriptor : InvitationDescriptor) : Except PairingError (List UInt8) :=
  encodeMessage descriptor.canonicalValue

-- A descriptor that cannot be encoded has no digest; a validated one can.
def digest (P : Primitives) (descriptor : InvitationDescriptor) : FixedBytes 32 :=
  P.sha256 (descriptor.canonicalBytes.toOption.getD [])

def validate (P : Primitives) (descriptor : InvitationDescriptor) : Except PairingError Unit := do
  let _ ← liftTrust (NodeId.publicKey P descriptor.responderNodeId)
  (SpaceId.validate descriptor.spaceId).mapError fun _ => .invalidField "spaceId"
  require (descriptor.invitationId.bytes ≠ FixedBytes.replicate 16 0)
    (.invalidField "invitationId")
  require (descriptor.responderNoiseStatic ≠ FixedBytes.replicate 32 0)
    (.invalidField "responderNoiseStatic")
  require (0 ≤ descriptor.expiresAtUnixMs.toInt) (.invalidField "expiresAtUnixMs")
  validateEndpointHints descriptor.endpointHints
  let _ ← descriptor.capability.toGrant P ⟨descriptor.responderNodeId.bytes⟩
  let _ ← descriptor.canonicalBytes
  .ok ()

end InvitationDescriptor

-- The Noise library and the curve below it: the public key of a private one, and
-- the responder of a handshake, which reads the first frame with the pre-shared
-- secret, its private key and the prologue, and answers with an ephemeral key.
structure NoiseSession where
  payload : List UInt8
  responseFrame : List UInt8
  handshakeHash : FixedBytes 32
  writeMessage : List UInt8 → Option (List UInt8)

structure Noise where
  publicKey : FixedBytes 32 → FixedBytes 32
  respond : (secret privateKey prologue ephemeral : FixedBytes 32) → (firstFrame : List UInt8) →
    Option NoiseSession

structure InvitationParameters where
  spaceId : SpaceId
  genesisOperationId : OperationId
  nowUnixMs : Int64
  expiresAtUnixMs : Int64
  endpointHints : List String
  capability : CapabilityGrantTemplate

structure InvitationMaterial where
  invitationId : FixedBytes 16
  oneTimeSecret : FixedBytes 32
  noisePrivate : FixedBytes 32

structure PairingInvitation where
  descriptor : InvitationDescriptor
  signature : DetachedSignature
  oneTimeSecret : FixedBytes 32

structure ResponderInvitationSecret where
  invitationId : InvitationId
  descriptorDigest : FixedBytes 32
  oneTimeSecret : FixedBytes 32
  noiseStaticPrivate : FixedBytes 32
deriving DecidableEq

structure IssuedInvitation where
  invitation : PairingInvitation
  secret : ResponderInvitationSecret

def validateLifetime (now expires : Int64) : Except PairingError Unit := do
  require (0 ≤ now.toInt && 0 ≤ expires.toInt) (.invalidField "invitation time")
  let lifetime := expires - now
  require (MIN_INVITATION_LIFETIME_MS.toInt ≤ lifetime.toInt &&
    lifetime.toInt ≤ MAX_INVITATION_LIFETIME_MS.toInt) (.invalidInvitationLifetime lifetime)

namespace PairingInvitation

def descriptorOf (P : Primitives) (N : Noise) (key : Ed25519SigningKey)
    (parameters : InvitationParameters) (material : InvitationMaterial) :
    InvitationDescriptor where
  invitationId := ⟨material.invitationId⟩
  responderNodeId := key.nodeId P
  responderNoiseStatic := N.publicKey material.noisePrivate
  spaceId := parameters.spaceId
  genesisOperationId := parameters.genesisOperationId
  expiresAtUnixMs := parameters.expiresAtUnixMs
  endpointHints := parameters.endpointHints
  capability := parameters.capability.normalize
  secretCommitment := P.sha256 material.oneTimeSecret.bytes

def issueWithMaterial (P : Primitives) (N : Noise) (key : Ed25519SigningKey)
    (parameters : InvitationParameters) (material : InvitationMaterial) :
    Except PairingError IssuedInvitation := do
  validateLifetime parameters.nowUnixMs parameters.expiresAtUnixMs
  let descriptor := descriptorOf P N key parameters material
  descriptor.validate P
  let bytes ← descriptor.canonicalBytes
  let signature := key.signDetached P .pairingInvitationV1 bytes
  .ok { invitation := { descriptor, signature, oneTimeSecret := material.oneTimeSecret }
        secret := { invitationId := descriptor.invitationId
                    descriptorDigest := descriptor.digest P
                    oneTimeSecret := material.oneTimeSecret
                    noiseStaticPrivate := material.noisePrivate } }

def toQrString (invitation : PairingInvitation) : Except PairingError String := do
  let bytes ← (toCanonicalCbor (numbered [
    invitation.descriptor.canonicalValue,
    .bytes invitation.signature.bytes.bytes,
    .bytes invitation.oneTimeSecret.bytes])).mapError .canonical
  require (bytes.length ≤ MAX_QR_CBOR_BYTES) (.qrTooLarge bytes.length)
  .ok (QR_PREFIX ++ asciiText (Base64.encode bytes))

end PairingInvitation

section Theorems

variable {descriptor : InvitationDescriptor}

theorem toGrant_eq_ok {template : CapabilityGrantTemplate} {subject : ActorId}
    {grant : CapabilityGrant} :
    template.toGrant P subject = .ok grant ↔
      grant = template.grantFor subject ∧ grant.validate P = .ok () := by
  simp only [CapabilityGrantTemplate.toGrant, bind_eq_ok, mapError_eq_ok, Except.ok.injEq,
    exists_unit]
  constructor
  · rintro ⟨hvalid, rfl⟩
    exact ⟨rfl, hvalid⟩
  · rintro ⟨rfl, hvalid⟩
    exact ⟨hvalid, rfl⟩

theorem encodeMessage_eq_ok {value : CanonicalValue} {bytes : List UInt8} :
    encodeMessage value = .ok bytes ↔
      toCanonicalCbor value = .ok bytes ∧ bytes.length ≤ MAX_CANONICAL_MESSAGE_BYTES := by
  simp [encodeMessage, bind_eq_ok]

theorem issued_descriptor {key : Ed25519SigningKey} {parameters : InvitationParameters}
    {material : InvitationMaterial} {issued : IssuedInvitation}
    (h : PairingInvitation.issueWithMaterial P N key parameters material = .ok issued) :
    issued.invitation.descriptor = PairingInvitation.descriptorOf P N key parameters material ∧
      issued.invitation.descriptor.validate P = .ok () ∧
      issued.secret.invitationId = issued.invitation.descriptor.invitationId := by
  simp only [PairingInvitation.issueWithMaterial, bind_eq_ok, Except.ok.injEq] at h
  obtain ⟨_, -, _, hvalid, bytes, -, rfl⟩ := h
  exact ⟨rfl, hvalid, rfl⟩

end Theorems

end Fractonica.Pairing
