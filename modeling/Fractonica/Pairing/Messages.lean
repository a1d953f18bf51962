import Fractonica.Pairing.Invitation

namespace Fractonica.Pairing

open Lib Trust DataModel

def MAX_NOISE_FRAME_BYTES : Nat := 8 * 1024
def CONFIRMATION_DOMAIN : List UInt8 := utf8Bytes "org.fractonica.pairing.confirmation.v1"

def collectFields : List (UInt64 × CanonicalValue) → List (CanonicalValue × CanonicalValue) →
    Except PairingError (List (UInt64 × CanonicalValue))
  | fields, [] => .ok fields
  | fields, (.unsigned key, value) :: rest => do
    require (!fields.any (·.1 = key)) (.invalidField "duplicate canonical map key")
    collectFields (fields ++ [(key, value)]) rest
  | _, _ :: _ => .error (.invalidField "canonical map key")

def exactMap (value : CanonicalValue) (expected : Nat) :
    Except PairingError (List (UInt64 × CanonicalValue)) :=
  match value with
  | .map entries => do
    require (entries.length = expected) (.invalidMapSize expected entries.length)
    collectFields [] entries
  | _ => .error (.invalidField "canonical map")

-- Each field is taken once.
def takeField (fields : List (UInt64 × CanonicalValue)) (key : UInt64) :
    Except PairingError CanonicalValue :=
  okOr (fields.lookup key) (.missingCanonicalField key)

def unsignedField (fields : List (UInt64 × CanonicalValue)) (key : UInt64) :
    Except PairingError UInt64 := do
  match ← takeField fields key with
  | .unsigned value => .ok value
  | _ => .error (.invalidField "canonical unsigned integer")

def fixedBytesField (n : Nat) (fields : List (UInt64 × CanonicalValue)) (key : UInt64) :
    Except PairingError (FixedBytes n) := do
  match ← takeField fields key with
  | .bytes bytes => okOr (FixedBytes.ofList? n bytes) (.invalidField "fixed byte length")
  | _ => .error (.invalidField "canonical bytes")

def requireVersion (found expected : UInt64) : Except PairingError Unit :=
  require (found = expected) (.unsupportedVersion expected found)

-- The fields of a signed message, and its envelope with the signatures.
def decodeMessage (bytes : List UInt8) (signatures fields : Nat) :
    Except PairingError (List (UInt64 × CanonicalValue) × List (UInt64 × CanonicalValue)) := do
  require (bytes.length ≤ MAX_CANONICAL_MESSAGE_BYTES) (.canonicalMessageTooLarge bytes.length)
  let value ← (fromCanonicalCbor bytes).mapError .canonical
  let envelope ← exactMap value (signatures + 1)
  let inner ← takeField envelope 0
  let fields ← exactMap inner fields
  let version ← unsignedField fields 0
  requireVersion version PAIRING_PROTOCOL_VERSION
  .ok (envelope, fields)

-- Both keys of the joining device sign what it sends.
def verifyBoth (P : SignaturePrimitives) (domain : DetachedSignatureDomain) (nodeId : NodeId)
    (actorId : ActorId) (bytes : List UInt8) (nodeSignature actorSignature : DetachedSignature) :
    Except PairingError Unit := do
  liftTrust (NodeId.verifyDetached P nodeId domain bytes nodeSignature)
  liftTrust (ActorId.verifyDetached P actorId domain bytes actorSignature)

structure JoinerClaim where
  invitationId : InvitationId
  descriptorDigest : FixedBytes 32
  responderNodeId : NodeId
  spaceId : SpaceId
  genesisOperationId : OperationId
  joinerNodeId : NodeId
  subjectActorId : ActorId
  nonce : FixedBytes 32
  nodeSignature : DetachedSignature
  actorSignature : DetachedSignature
deriving DecidableEq

namespace JoinerClaim

def unsignedValue (claim : JoinerClaim) : CanonicalValue :=
  numbered [
    .unsigned PAIRING_PROTOCOL_VERSION,
    .bytes claim.invitationId.bytes.bytes,
    .bytes claim.descriptorDigest.bytes,
    .bytes claim.responderNodeId.bytes.bytes,
    .bytes claim.spaceId.bytes.bytes,
    .bytes claim.genesisOperationId.bytes.bytes,
    .bytes claim.joinerNodeId.bytes.bytes,
    .bytes claim.subjectActorId.bytes.bytes,
    .bytes claim.nonce.bytes]

def unsignedBytes (claim : JoinerClaim) : Except PairingError (List UInt8) :=
  encodeMessage claim.unsignedValue

def canonicalBytes (claim : JoinerClaim) : Except PairingError (List UInt8) :=
  encodeMessage (numbered [claim.unsignedValue, .bytes claim.nodeSignature.bytes.bytes,
    .bytes claim.actorSignature.bytes.bytes])

-- The fields have a fixed size, so a claim always has a digest.
def digest (P : Primitives) (claim : JoinerClaim) : FixedBytes 32 :=
  P.sha256 (claim.canonicalBytes.toOption.getD [])

def verifyFor (P : SignaturePrimitives) (claim : JoinerClaim)
    (descriptor : InvitationDescriptor) : Except PairingError Unit := do
  require (claim.invitationId = descriptor.invitationId &&
    claim.descriptorDigest = descriptor.digest P.toPrimitives &&
    claim.responderNodeId = descriptor.responderNodeId && claim.spaceId = descriptor.spaceId &&
    claim.genesisOperationId = descriptor.genesisOperationId) .claimInvitationMismatch
  require (claim.nonce ≠ FixedBytes.replicate 32 0) (.invalidField "claim nonce")
  let bytes ← claim.unsignedBytes
  verifyBoth P .pairingJoinerClaimV1 claim.joinerNodeId claim.subjectActorId bytes
    claim.nodeSignature claim.actorSignature

def fromCanonicalBytes (P : Primitives) (bytes : List UInt8) : Except PairingError JoinerClaim := do
  let (envelope, fields) ← decodeMessage bytes 2 9
  let invitationId ← fixedBytesField 16 fields 1
  let descriptorDigest ← fixedBytesField 32 fields 2
  let responderNodeId ← fixedBytesField 32 fields 3
  let spaceId ← fixedBytesField 32 fields 4
  let genesisOperationId ← fixedBytesField 32 fields 5
  let joinerNodeId ← fixedBytesField 32 fields 6
  let subjectActorId ← fixedBytesField 32 fields 7
  let nonce ← fixedBytesField 32 fields 8
  let nodeSignature ← fixedBytesField 64 envelope 1
  let actorSignature ← fixedBytesField 64 envelope 2
  let _ ← liftTrust (NodeId.publicKey P ⟨joinerNodeId⟩)
  let _ ← liftTrust (ActorId.publicKey P ⟨subjectActorId⟩)
  require (nonce ≠ FixedBytes.replicate 32 0) (.invalidField "claim nonce")
  .ok { invitationId := ⟨invitationId⟩, descriptorDigest, responderNodeId := ⟨responderNodeId⟩,
        spaceId := ⟨spaceId⟩, genesisOperationId := ⟨genesisOperationId⟩,
        joinerNodeId := ⟨joinerNodeId⟩, subjectActorId := ⟨subjectActorId⟩, nonce,
        nodeSignature := ⟨nodeSignature⟩, actorSignature := ⟨actorSignature⟩ }

end JoinerClaim

-- The responder's proof, bound to the transcript of the handshake.
structure PairingReceipt where
  invitationId : InvitationId
  descriptorDigest : FixedBytes 32
  claimDigest : FixedBytes 32
  handshakeHash : FixedBytes 32
  responderNodeId : NodeId
  joinerNodeId : NodeId
  peerAccessToken : FixedBytes 32
  signature : DetachedSignature

namespace PairingReceipt

def unsignedValue (receipt : PairingReceipt) : CanonicalValue :=
  numbered [
    .unsigned PAIRING_PROTOCOL_VERSION,
    .bytes receipt.invitationId.bytes.bytes,
    .bytes receipt.descriptorDigest.bytes,
    .bytes receipt.claimDigest.bytes,
    .bytes receipt.handshakeHash.bytes,
    .bytes receipt.responderNodeId.bytes.bytes,
    .bytes receipt.joinerNodeId.bytes.bytes,
    .bytes receipt.peerAccessToken.bytes]

def canonicalBytes (receipt : PairingReceipt) : Except PairingError (List UInt8) :=
  encodeMessage (numbered [receipt.unsignedValue, .bytes receipt.signature.bytes.bytes])

def unsigned (P : Primitives) (descriptor : InvitationDescriptor) (claim : JoinerClaim)
    (handshakeHash peerAccessToken : FixedBytes 32) (key : Ed25519SigningKey) :
    PairingReceipt where
  invitationId := descriptor.invitationId
  descriptorDigest := descriptor.digest P
  claimDigest := claim.digest P
  handshakeHash := handshakeHash
  responderNodeId := key.nodeId P
  joinerNodeId := claim.joinerNodeId
  peerAccessToken := peerAccessToken
  signature := ⟨FixedBytes.replicate 64 0⟩

-- The fields have a fixed size, so a receipt can always be signed.
def sign (P : Primitives) (descriptor : InvitationDescriptor) (claim : JoinerClaim)
    (handshakeHash peerAccessToken : FixedBytes 32) (key : Ed25519SigningKey) : PairingReceipt :=
  let receipt := unsigned P descriptor claim handshakeHash peerAccessToken key
  { receipt with
    signature := key.signDetached P .pairingReceiptV1
      ((encodeMessage receipt.unsignedValue).toOption.getD []) }

def fromCanonicalBytes (bytes : List UInt8) : Except PairingError PairingReceipt := do
  let (envelope, fields) ← decodeMessage bytes 1 8
  let invitationId ← fixedBytesField 16 fields 1
  let descriptorDigest ← fixedBytesField 32 fields 2
  let claimDigest ← fixedBytesField 32 fields 3
  let handshakeHash ← fixedBytesField 32 fields 4
  let responderNodeId ← fixedBytesField 32 fields 5
  let joinerNodeId ← fixedBytesField 32 fields 6
  let peerAccessToken ← fixedBytesField 32 fields 7
  let signature ← fixedBytesField 64 envelope 1
  .ok { invitationId := ⟨invitationId⟩, descriptorDigest, claimDigest, handshakeHash,
        responderNodeId := ⟨responderNodeId⟩, joinerNodeId := ⟨joinerNodeId⟩, peerAccessToken,
        signature := ⟨signature⟩ }

end PairingReceipt

-- The joining device accepts the transcript that both devices show.
structure PairingAcceptance where
  invitationId : InvitationId
  claimDigest : FixedBytes 32
  handshakeHash : FixedBytes 32
  responderNodeId : NodeId
  spaceId : SpaceId
  joinerNodeId : NodeId
  subjectActorId : ActorId
  grantOperationId : OperationId
  nonce : FixedBytes 32
  nodeSignature : DetachedSignature
  actorSignature : DetachedSignature

namespace PairingAcceptance

def unsignedValue (acceptance : PairingAcceptance) : CanonicalValue :=
  numbered [
    .unsigned PAIRING_PROTOCOL_VERSION,
    .bytes acceptance.invitationId.bytes.bytes,
    .bytes acceptance.claimDigest.bytes,
    .bytes acceptance.handshakeHash.bytes,
    .bytes acceptance.responderNodeId.bytes.bytes,
    .bytes acceptance.spaceId.bytes.bytes,
    .bytes acceptance.joinerNodeId.bytes.bytes,
    .bytes acceptance.subjectActorId.bytes.bytes,
    .bytes acceptance.grantOperationId.bytes.bytes,
    .bytes acceptance.nonce.bytes]

def unsignedBytes (acceptance : PairingAcceptance) : Except PairingError (List UInt8) :=
  encodeMessage acceptance.unsignedValue

def canonicalBytes (acceptance : PairingAcceptance) : Except PairingError (List UInt8) :=
  encodeMessage (numbered [acceptance.unsignedValue, .bytes acceptance.nodeSignature.bytes.bytes,
    .bytes acceptance.actorSignature.bytes.bytes])

def verifyFor (P : SignaturePrimitives) (acceptance : PairingAcceptance)
    (descriptor : InvitationDescriptor) (claimDigest handshakeHash : FixedBytes 32)
    (joinerNodeId : NodeId) (subjectActorId : ActorId) (grantOperationId : OperationId) :
    Except PairingError Unit := do
  require (acceptance.invitationId = descriptor.invitationId &&
    acceptance.claimDigest = claimDigest && acceptance.handshakeHash = handshakeHash &&
    acceptance.responderNodeId = descriptor.responderNodeId &&
    acceptance.spaceId = descriptor.spaceId && acceptance.joinerNodeId = joinerNodeId &&
    acceptance.subjectActorId = subjectActorId &&
    acceptance.grantOperationId = grantOperationId &&
    acceptance.nonce ≠ FixedBytes.replicate 32 0) .acceptanceMismatch
  let bytes ← acceptance.unsignedBytes
  verifyBoth P .pairingAcceptanceV1 acceptance.joinerNodeId acceptance.subjectActorId bytes
    acceptance.nodeSignature acceptance.actorSignature

def fromCanonicalBytes (P : Primitives) (bytes : List UInt8) :
    Except PairingError PairingAcceptance := do
  let (envelope, fields) ← decodeMessage bytes 2 10
  let invitationId ← fixedBytesField 16 fields 1
  let claimDigest ← fixedBytesField 32 fields 2
  let handshakeHash ← fixedBytesField 32 fields 3
  let responderNodeId ← fixedBytesField 32 fields 4
  let spaceId ← fixedBytesField 32 fields 5
  let joinerNodeId ← fixedBytesField 32 fields 6
  let subjectActorId ← fixedBytesField 32 fields 7
  let grantOperationId ← fixedBytesField 32 fields 8
  let nonce ← fixedBytesField 32 fields 9
  let nodeSignature ← fixedBytesField 64 envelope 1
  let actorSignature ← fixedBytesField 64 envelope 2
  let _ ← liftTrust (NodeId.publicKey P ⟨joinerNodeId⟩)
  let _ ← liftTrust (ActorId.publicKey P ⟨subjectActorId⟩)
  require (nonce ≠ FixedBytes.replicate 32 0) (.invalidField "acceptance nonce")
  .ok { invitationId := ⟨invitationId⟩, claimDigest, handshakeHash,
        responderNodeId := ⟨responderNodeId⟩, spaceId := ⟨spaceId⟩,
        joinerNodeId := ⟨joinerNodeId⟩, subjectActorId := ⟨subjectActorId⟩,
        grantOperationId := ⟨grantOperationId⟩, nonce, nodeSignature := ⟨nodeSignature⟩,
        actorSignature := ⟨actorSignature⟩ }

end PairingAcceptance

-- The responder of an invitation reads the first frame and answers it.
def ResponderInvitationSecret.respond (N : Noise) (secret : ResponderInvitationSecret)
    (ephemeral : FixedBytes 32) (firstFrame : List UInt8) : Except PairingError NoiseSession := do
  require (firstFrame.length ≤ MAX_NOISE_FRAME_BYTES) (.noiseFrameTooLarge firstFrame.length)
  let session ← okOr (N.respond secret.oneTimeSecret secret.noiseStaticPrivate
    secret.descriptorDigest ephemeral firstFrame) .noise
  require (session.payload.length ≤ MAX_CANONICAL_MESSAGE_BYTES)
    (.canonicalMessageTooLarge session.payload.length)
  require (session.responseFrame.length ≤ MAX_NOISE_FRAME_BYTES)
    (.noiseFrameTooLarge session.responseFrame.length)
  .ok session

-- `PairingTransport::write_message`.
def NoiseSession.write (session : NoiseSession) (payload : List UInt8) :
    Except PairingError (List UInt8) := do
  require (payload.length ≤ MAX_CANONICAL_MESSAGE_BYTES)
    (.canonicalMessageTooLarge payload.length)
  let frame ← okOr (session.writeMessage payload) .noise
  require (frame.length ≤ MAX_NOISE_FRAME_BYTES) (.noiseFrameTooLarge frame.length)
  .ok frame

def octalDigits : Nat → Nat → List Char
  | 0, _ => []
  | count + 1, value => octalDigits count (value / 8) ++ [Char.ofNat ('0'.toNat + value % 8)]

-- Thirty bits of a digest, as ten octal digits.
def confirmationOctal (P : Primitives) (handshakeHash : FixedBytes 32) : String :=
  let digest := P.sha256 (CONFIRMATION_DOMAIN ++ handshakeHash.bytes)
  String.ofList (octalDigits 10 (ofBE (digest.bytes.take 4) / 4))

end Fractonica.Pairing
