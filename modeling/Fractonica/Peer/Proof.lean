import Fractonica.Trust.Detached

namespace Fractonica.Peer

open Lib Trust

def PEER_PROTOCOL_VERSION : UInt8 := 1
def MAX_PROOF_BYTES : Nat := 4 * 1024
def MIN_REQUEST_LIFETIME_MS : Int := 1000
def MAX_REQUEST_LIFETIME_MS : Int := 30000
def MAX_FUTURE_SKEW_MS : Int64 := 5000
def MAX_PEER_CHANGE_LIMIT : Nat := 200
def READ_CHANGES_KIND : UInt64 := 0

structure PeerSessionId where
  bytes : FixedBytes 16
deriving DecidableEq

structure PeerRequestNonce where
  bytes : FixedBytes 16
deriving DecidableEq

structure PeerReadChangesProof where
  protocolVersion : UInt8
  sessionId : PeerSessionId
  spaceId : SpaceId
  nodeId : NodeId
  actorId : ActorId
  grantOperationId : OperationId
  after : UInt64
  limit : UInt16
  issuedAtUnixMs : Int64
  expiresAtUnixMs : Int64
  nonce : PeerRequestNonce
  nodeSignature : DetachedSignature
  actorSignature : DetachedSignature
deriving DecidableEq

structure PeerReadChangesFields where
  sessionId : PeerSessionId
  spaceId : SpaceId
  grantOperationId : OperationId
  after : UInt64
  limit : UInt16
  issuedAtUnixMs : Int64
  expiresAtUnixMs : Int64
  nonce : PeerRequestNonce

inductive PeerProofError where
  | unsupportedVersion (version : UInt8)
  | invalidPage
  | invalidTime
  | invalidLifetime (lifetime : Int64)
  | outsideRequestWindow
  | proofTooLarge (bytes : Nat)
  | trust (error : TrustError)
  | canonical (error : CanonicalCborError)
deriving DecidableEq

-- The difference of two words, if it is one.
def checkedSub (left right : Int64) : Option Int64 :=
  let difference := left.toInt - right.toInt
  if -2 ^ 63 ≤ difference ∧ difference < 2 ^ 63 then some (Int64.ofInt difference) else none

def liftTrust {α : Type} (result : Except TrustError α) : Except PeerProofError α :=
  result.mapError .trust

namespace PeerReadChangesProof

def validateUnsigned (P : Primitives) (proof : PeerReadChangesProof) :
    Except PeerProofError Unit := do
  require (proof.protocolVersion = PEER_PROTOCOL_VERSION)
    (.unsupportedVersion proof.protocolVersion)
  liftTrust (SpaceId.validate proof.spaceId)
  let _ ← liftTrust (NodeId.publicKey P proof.nodeId)
  let _ ← liftTrust (ActorId.publicKey P proof.actorId)
  require (proof.limit ≠ 0 && proof.limit.toNat ≤ MAX_PEER_CHANGE_LIMIT &&
    proof.after.toNat < 2 ^ 63) .invalidPage
  require (0 ≤ proof.issuedAtUnixMs.toInt && 0 ≤ proof.expiresAtUnixMs.toInt) .invalidTime
  let lifetime ← okOr (checkedSub proof.expiresAtUnixMs proof.issuedAtUnixMs) .invalidTime
  require (MIN_REQUEST_LIFETIME_MS ≤ lifetime.toInt && lifetime.toInt ≤ MAX_REQUEST_LIFETIME_MS)
    (.invalidLifetime lifetime)

def canonicalValue (proof : PeerReadChangesProof) : CanonicalValue :=
  .map [
    (.unsigned 0, .unsigned (UInt64.ofNat proof.protocolVersion.toNat)),
    (.unsigned 1, .unsigned READ_CHANGES_KIND),
    (.unsigned 2, .bytes proof.sessionId.bytes.bytes),
    (.unsigned 3, .bytes proof.spaceId.bytes.bytes),
    (.unsigned 4, .bytes proof.nodeId.bytes.bytes),
    (.unsigned 5, .bytes proof.actorId.bytes.bytes),
    (.unsigned 6, .bytes proof.grantOperationId.bytes.bytes),
    (.unsigned 7, .unsigned proof.after),
    (.unsigned 8, .unsigned (UInt64.ofNat proof.limit.toNat)),
    (.unsigned 9, .integer proof.issuedAtUnixMs),
    (.unsigned 10, .integer proof.expiresAtUnixMs),
    (.unsigned 11, .bytes proof.nonce.bytes.bytes)]

def canonicalBytes (proof : PeerReadChangesProof) : Except PeerProofError (List UInt8) := do
  let bytes ← (toCanonicalCbor proof.canonicalValue).mapError .canonical
  require (bytes.length ≤ MAX_PROOF_BYTES) (.proofTooLarge bytes.length)
  .ok bytes

def sign (P : Primitives) (fields : PeerReadChangesFields) (nodeKey actorKey : Ed25519SigningKey) :
    Except PeerProofError PeerReadChangesProof := do
  let proof : PeerReadChangesProof :=
    { protocolVersion := PEER_PROTOCOL_VERSION, sessionId := fields.sessionId,
      spaceId := fields.spaceId, nodeId := nodeKey.nodeId P, actorId := actorKey.actorId P,
      grantOperationId := fields.grantOperationId, after := fields.after, limit := fields.limit,
      issuedAtUnixMs := fields.issuedAtUnixMs, expiresAtUnixMs := fields.expiresAtUnixMs,
      nonce := fields.nonce, nodeSignature := ⟨FixedBytes.replicate 64 0⟩,
      actorSignature := ⟨FixedBytes.replicate 64 0⟩ }
  proof.validateUnsigned P
  let bytes ← proof.canonicalBytes
  .ok { proof with
    nodeSignature := nodeKey.signDetached P .peerNodeRequestV1 bytes
    actorSignature := actorKey.signDetached P .peerActorRequestV1 bytes }

def verify (P : SignaturePrimitives) (proof : PeerReadChangesProof) (receivingNowUnixMs : Int64) :
    Except PeerProofError Unit := do
  proof.validateUnsigned P.toPrimitives
  require (0 ≤ receivingNowUnixMs.toInt) .outsideRequestWindow
  let earliest ← okOr (checkedSub proof.issuedAtUnixMs MAX_FUTURE_SKEW_MS) .invalidTime
  require (earliest.toInt ≤ receivingNowUnixMs.toInt &&
    receivingNowUnixMs.toInt < proof.expiresAtUnixMs.toInt) .outsideRequestWindow
  let bytes ← proof.canonicalBytes
  liftTrust (NodeId.verifyDetached P proof.nodeId .peerNodeRequestV1 bytes proof.nodeSignature)
  liftTrust (ActorId.verifyDetached P proof.actorId .peerActorRequestV1 bytes
    proof.actorSignature)

end PeerReadChangesProof

section Theorems

variable {proof : PeerReadChangesProof} {now : Int64}

-- What the fields of a proof promise before it is signed.
structure WellFormed (P : Primitives) (proof : PeerReadChangesProof) : Prop where
  version : proof.protocolVersion = PEER_PROTOCOL_VERSION
  space : proof.spaceId.bytes ≠ FixedBytes.replicate 32 0
  nodeKey : P.validKey proof.nodeId.bytes = true
  actorKey : P.validKey proof.actorId.bytes = true
  limit : 1 ≤ proof.limit.toNat ∧ proof.limit.toNat ≤ MAX_PEER_CHANGE_LIMIT
  after : proof.after.toNat < 2 ^ 63
  issued : 0 ≤ proof.issuedAtUnixMs.toInt
  expires : 0 ≤ proof.expiresAtUnixMs.toInt
  lifetime : MIN_REQUEST_LIFETIME_MS ≤ proof.expiresAtUnixMs.toInt - proof.issuedAtUnixMs.toInt ∧
    proof.expiresAtUnixMs.toInt - proof.issuedAtUnixMs.toInt ≤ MAX_REQUEST_LIFETIME_MS

theorem checkedSub_eq_some {left right : Int64} :
    checkedSub left right = some difference ↔ difference.toInt = left.toInt - right.toInt := by
  have hlow := difference.le_toInt
  have hhigh := difference.toInt_lt
  dsimp only [checkedSub]
  split_ifs with hfits
  · rw [Option.some.injEq]
    constructor
    · rintro rfl
      exact Int64.toInt_ofInt_of_le (by omega) (by omega)
    · intro h
      rw [← h, Int64.ofInt_toInt]
  · simp only [false_iff]
    omega

theorem validateUnsigned_eq_ok : proof.validateUnsigned P = .ok u ↔ WellFormed P proof := by
  simp only [PeerReadChangesProof.validateUnsigned, liftTrust, bind_eq_ok, require_eq_ok,
    mapError_eq_ok, validate_eq_ok, nodePublicKey_eq_ok, publicKey_eq_ok, okOr_eq_ok,
    checkedSub_eq_some, decide_eq_true_eq, Bool.and_eq_true]
  constructor
  · rintro ⟨_, hversion, _, hspace, _, ⟨hnode, -⟩, _, ⟨hactor, -⟩, _, ⟨⟨hlimit, hmost⟩, hafter⟩, _,
      ⟨hissued, hexpires⟩, lifetime, hlifetime, hbounds⟩
    rw [hlifetime] at hbounds
    have hpositive : proof.limit.toNat ≠ 0 := by
      intro hzero
      exact hlimit (UInt16.toNat_inj.mp hzero)
    exact ⟨hversion, hspace, hnode, hactor, ⟨Nat.one_le_iff_ne_zero.mpr hpositive, hmost⟩, hafter,
      hissued, hexpires, hbounds⟩
  · rintro ⟨hversion, hspace, hnode, hactor, ⟨hpositive, hmost⟩, hafter, hissued, hexpires,
      hbounds⟩
    have hlimit : proof.limit ≠ 0 := by
      rintro hzero
      rw [hzero] at hpositive
      cases hpositive
    have hlow := proof.expiresAtUnixMs.toInt_lt
    have hlifetime : (Int64.ofInt (proof.expiresAtUnixMs.toInt - proof.issuedAtUnixMs.toInt)).toInt
        = proof.expiresAtUnixMs.toInt - proof.issuedAtUnixMs.toInt := by
      apply Int64.toInt_ofInt_of_le
      · unfold MIN_REQUEST_LIFETIME_MS at hbounds
        omega
      · omega
    exact ⟨(), hversion, (), hspace, _, ⟨hnode, rfl⟩, _, ⟨hactor, rfl⟩, (),
      ⟨⟨hlimit, hmost⟩, hafter⟩, (), ⟨hissued, hexpires⟩, _, hlifetime, by rwa [hlifetime]⟩

-- A verified proof is received in its window, and both keys signed its bytes.
structure Verified (P : SignaturePrimitives) (proof : PeerReadChangesProof) (now : Int64) :
    Prop where
  wellFormed : WellFormed P.toPrimitives proof
  received : 0 ≤ now.toInt
  notBefore : proof.issuedAtUnixMs.toInt - MAX_FUTURE_SKEW_MS.toInt ≤ now.toInt
  unexpired : now.toInt < proof.expiresAtUnixMs.toInt
  signed : ∃ bytes, proof.canonicalBytes = .ok bytes ∧
    P.verify proof.nodeId.bytes
      (detachedSignatureDigest P.toPrimitives .peerNodeRequestV1 bytes).bytes
      proof.nodeSignature.bytes = true ∧
    P.verify proof.actorId.bytes
      (detachedSignatureDigest P.toPrimitives .peerActorRequestV1 bytes).bytes
      proof.actorSignature.bytes = true

theorem verify_eq_ok : proof.verify P now = .ok u ↔ Verified P proof now := by
  simp only [PeerReadChangesProof.verify, liftTrust, bind_eq_ok, require_eq_ok, mapError_eq_ok,
    okOr_eq_ok, validateUnsigned_eq_ok, checkedSub_eq_some, nodeVerifyDetached_eq_ok,
    actorVerifyDetached_eq_ok, decide_eq_true_eq, Bool.and_eq_true]
  constructor
  · rintro ⟨_, hwell, _, hreceived, earliest, hearliest, _, ⟨hbefore, hunexpired⟩, bytes, hbytes,
      _, ⟨-, hnode⟩, -, hactor⟩
    rw [hearliest] at hbefore
    exact ⟨hwell, hreceived, hbefore, hunexpired, bytes, hbytes, hnode, hactor⟩
  · rintro ⟨hwell, hreceived, hbefore, hunexpired, bytes, hbytes, hnode, hactor⟩
    have hissued := hwell.issued
    have hhigh := proof.issuedAtUnixMs.toInt_lt
    have hskew : MAX_FUTURE_SKEW_MS.toInt = 5000 := by decide
    have hearliest : (Int64.ofInt (proof.issuedAtUnixMs.toInt - MAX_FUTURE_SKEW_MS.toInt)).toInt =
        proof.issuedAtUnixMs.toInt - MAX_FUTURE_SKEW_MS.toInt :=
      Int64.toInt_ofInt_of_le (by omega) (by omega)
    exact ⟨(), hwell, (), hreceived, _, hearliest, (), ⟨by rwa [hearliest], hunexpired⟩, bytes,
      hbytes, (), ⟨hwell.nodeKey, hnode⟩, hwell.actorKey, hactor⟩

end Theorems

end Fractonica.Peer
