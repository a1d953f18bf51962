import Fractonica.Trust.Identity

namespace Fractonica.Trust

open Lib

-- Detached signatures are checked by the plain verification of the library.
structure SignaturePrimitives extends Primitives where
  verify : FixedBytes 32 → List UInt8 → FixedBytes 64 → Bool

structure SignaturePrimitives.Correct (P : SignaturePrimitives) : Prop where
  verify_sign : ∀ seed message, P.validKey (P.verifyingKey seed) = true →
    P.verify (P.verifyingKey seed) message (P.sign seed message) = true

def Recording.signaturePrimitives (r : Recording) : SignaturePrimitives where
  toPrimitives := r.primitives
  verify key message signature := signature = r.signature key message

inductive DetachedSignatureDomain where
  | pairingInvitationV1
  | pairingJoinerClaimV1
  | pairingReceiptV1
  | pairingAcceptanceV1
  | peerNodeRequestV1
  | peerActorRequestV1
deriving DecidableEq

def DetachedSignatureDomain.label : DetachedSignatureDomain → List UInt8
  | .pairingInvitationV1 => utf8Bytes "pairing-invitation-v1"
  | .pairingJoinerClaimV1 => utf8Bytes "pairing-joiner-claim-v1"
  | .pairingReceiptV1 => utf8Bytes "pairing-receipt-v1"
  | .pairingAcceptanceV1 => utf8Bytes "pairing-acceptance-v1"
  | .peerNodeRequestV1 => utf8Bytes "peer-node-request-v1"
  | .peerActorRequestV1 => utf8Bytes "peer-actor-request-v1"

structure DetachedSignature where
  bytes : FixedBytes 64
deriving DecidableEq

def DETACHED_SIGNATURE_CONTEXT : List UInt8 :=
  utf8Bytes "org.fractonica.detached-signature.v1" ++ [0]

def detachedSignatureMessage (domain : DetachedSignatureDomain) (message : List UInt8) :
    List UInt8 :=
  DETACHED_SIGNATURE_CONTEXT ++ domain.label ++ [0] ++
    toBE 8 (min message.length (2 ^ 64 - 1)) ++ message

def detachedSignatureDigest (P : Primitives) (domain : DetachedSignatureDomain)
    (message : List UInt8) : FixedBytes 32 :=
  P.sha256 (detachedSignatureMessage domain message)

section Verification

variable (P : SignaturePrimitives)

def Ed25519PublicKey.verifyDetached (key : Ed25519PublicKey) (domain : DetachedSignatureDomain)
    (message : List UInt8) (signature : DetachedSignature) : Except TrustError Unit := do
  let digest := detachedSignatureDigest P.toPrimitives domain message
  Ed25519PublicKey.validate P.toPrimitives key
  require (P.verify key.bytes digest.bytes signature.bytes) .signatureVerificationFailed

def NodeId.publicKey (P : Primitives) (id : NodeId) : Except TrustError Ed25519PublicKey := do
  Ed25519PublicKey.validate P ⟨id.bytes⟩
  .ok ⟨id.bytes⟩

def ActorId.verifyDetached (id : ActorId) (domain : DetachedSignatureDomain)
    (message : List UInt8) (signature : DetachedSignature) : Except TrustError Unit := do
  let key ← ActorId.publicKey P.toPrimitives id
  Ed25519PublicKey.verifyDetached P key domain message signature

def NodeId.verifyDetached (id : NodeId) (domain : DetachedSignatureDomain)
    (message : List UInt8) (signature : DetachedSignature) : Except TrustError Unit := do
  let key ← NodeId.publicKey P.toPrimitives id
  Ed25519PublicKey.verifyDetached P key domain message signature

def Ed25519SigningKey.signDetached (P : Primitives) (key : Ed25519SigningKey)
    (domain : DetachedSignatureDomain) (message : List UInt8) : DetachedSignature :=
  ⟨P.sign key.seed (detachedSignatureDigest P domain message).bytes⟩

end Verification

section Theorems

variable {signature : DetachedSignature}

theorem nodePublicKey_eq_ok {P : Primitives} {id : NodeId} {key : Ed25519PublicKey} :
    NodeId.publicKey P id = .ok key ↔ P.validKey id.bytes = true ∧ key = ⟨id.bytes⟩ := by
  simp [NodeId.publicKey, bind_eq_ok, keyValidate_eq_ok, @eq_comm _ key]

theorem verifyDetached_eq_ok {key : Ed25519PublicKey} :
    Ed25519PublicKey.verifyDetached P key domain message signature = .ok u ↔
      P.validKey key.bytes = true ∧ P.verify key.bytes
        (detachedSignatureDigest P.toPrimitives domain message).bytes signature.bytes = true := by
  simp [Ed25519PublicKey.verifyDetached, bind_eq_ok, keyValidate_eq_ok]

theorem actorVerifyDetached_eq_ok {id : ActorId} :
    ActorId.verifyDetached P id domain message signature = .ok u ↔
      P.validKey id.bytes = true ∧ P.verify id.bytes
        (detachedSignatureDigest P.toPrimitives domain message).bytes signature.bytes = true := by
  simp [ActorId.verifyDetached, bind_eq_ok, publicKey_eq_ok, verifyDetached_eq_ok, exists_only]

theorem nodeVerifyDetached_eq_ok {id : NodeId} :
    NodeId.verifyDetached P id domain message signature = .ok u ↔
      P.validKey id.bytes = true ∧ P.verify id.bytes
        (detachedSignatureDigest P.toPrimitives domain message).bytes signature.bytes = true := by
  simp [NodeId.verifyDetached, bind_eq_ok, nodePublicKey_eq_ok, verifyDetached_eq_ok, exists_only]

end Theorems

end Fractonica.Trust
