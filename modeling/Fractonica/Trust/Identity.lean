import Fractonica.Lib.Result
import Fractonica.Trust.Cbor

namespace Fractonica.Trust

open Lib

-- The functions of the libraries below: hashing and signatures, and the text
-- that the JSON library prints for a float.
structure Primitives where
  sha256 : List UInt8 → FixedBytes 32
  -- The bytes are a curve point, and not one of small order.
  validKey : FixedBytes 32 → Bool
  -- The public key of an Ed25519 seed.
  verifyingKey : FixedBytes 32 → FixedBytes 32
  sign : FixedBytes 32 → List UInt8 → FixedBytes 64
  verifyStrict : FixedBytes 32 → List UInt8 → FixedBytes 64 → Bool
  -- The shortest decimal text of a finite double, given by its bits.
  floatText : UInt64 → List UInt8

-- Strict verification accepts what the holder of a valid key signs.
structure Primitives.Correct (P : Primitives) : Prop where
  verifyStrict_sign : ∀ seed message, P.validKey (P.verifyingKey seed) = true →
    P.verifyStrict (P.verifyingKey seed) message (P.sign seed message) = true

-- The results of recorded calls: digests by their input, public keys by their
-- seed, signatures by their public key and message, and texts by their float.
structure Recording where
  digests : List (List UInt8 × FixedBytes 32)
  keys : List (FixedBytes 32 × FixedBytes 32)
  signatures : List ((FixedBytes 32 × List UInt8) × FixedBytes 64)
  floats : List (UInt64 × List UInt8) := []

namespace Recording

def signature (r : Recording) (key : FixedBytes 32) (message : List UInt8) : FixedBytes 64 :=
  (r.signatures.lookup (key, message)).getD (FixedBytes.replicate 64 0)

-- Replays the recorded results. Only the recorded keys are valid, and the one
-- accepted signature of a message is the recorded one.
def primitives (r : Recording) : Primitives where
  sha256 message := (r.digests.lookup message).getD (FixedBytes.replicate 32 0)
  validKey key := r.keys.any (fun entry => entry.2 = key)
  verifyingKey seed := (r.keys.lookup seed).getD (FixedBytes.replicate 32 0)
  sign seed message :=
    r.signature ((r.keys.lookup seed).getD (FixedBytes.replicate 32 0)) message
  verifyStrict key message signature := signature = r.signature key message
  floatText bits := (r.floats.lookup bits).getD []

theorem primitives_correct (r : Recording) : r.primitives.Correct where
  verifyStrict_sign _ _ _ := decide_eq_true rfl

end Recording

-- The identifiers declared by `fixed_hex_id!`.
inductive IdentifierKind where
  | actor
  | node
  | space
  | operation
  | publicKey
deriving DecidableEq

def ACTOR_PREFIX : String := "actor:ed25519:"
def NODE_PREFIX : String := "node:ed25519:"
def SPACE_PREFIX : String := "space:"
def OPERATION_PREFIX : String := "sha-256:"
def PUBLIC_KEY_PREFIX : String := "ed25519:"

def IdentifierKind.label : IdentifierKind → String
  | .actor => ACTOR_PREFIX
  | .node => NODE_PREFIX
  | .space => SPACE_PREFIX
  | .operation => OPERATION_PREFIX
  | .publicKey => PUBLIC_KEY_PREFIX

structure Identifier (kind : IdentifierKind) where
  bytes : FixedBytes 32
deriving DecidableEq

abbrev ActorId : Type := Identifier .actor
abbrev NodeId : Type := Identifier .node
abbrev SpaceId : Type := Identifier .space
abbrev OperationId : Type := Identifier .operation
abbrev Ed25519PublicKey : Type := Identifier .publicKey

theorem Identifier.bytes_injective (kind : IdentifierKind) :
    Function.Injective (Identifier.bytes : Identifier kind → FixedBytes 32) := by
  intro left right h
  cases right
  cases h
  rfl

instance (kind : IdentifierKind) : LinearOrder (Identifier kind) :=
  LinearOrder.lift' Identifier.bytes (Identifier.bytes_injective kind)

def hexDigit (n : Nat) : Char :=
  Char.ofNat (if n < 10 then '0'.toNat + n else 'a'.toNat + (n - 10))

def lowerHex : List UInt8 → List Char
  | [] => []
  | byte :: rest => hexDigit (byte.toNat / 16) :: hexDigit (byte.toNat % 16) :: lowerHex rest

-- The displayed form, which is also the stored and the JSON form.
def Identifier.toText {kind : IdentifierKind} (id : Identifier kind) : String :=
  kind.label ++ String.ofList (lowerHex id.bytes.bytes)

structure Uuid where
  bytes : FixedBytes 16
deriving DecidableEq

def Uuid.isNil (id : Uuid) : Bool := id.bytes = FixedBytes.replicate 16 0

structure OperationNonce where
  bytes : FixedBytes 16
deriving DecidableEq

inductive TrustError where
  | canonicalCbor (error : CanonicalCborError)
  | invalidPublicKey
  | nilSpaceId
  | nilEntityId
  | invalidSchema (schema : String)
  | negativeOccurredAt (at_ : Int64)
  | tooManyCausalParents (count maximum : Nat)
  | tooManyAuthorizationReferences (count maximum : Nat)
  | duplicateCausalParent (id : OperationId)
  | duplicateAuthorizationReference (id : OperationId)
  | causalParentsNotStrictlyAscending
  | authorizationNotStrictlyAscending
  | signingActorMismatch (payload key : ActorId)
  | unexpectedActor (expected found : ActorId)
  | operationIdMismatch
  | signatureVerificationFailed
  | wrongOperationDomain
  | unsupportedOperationVersion
  | invalidOperationPayload (reason : String)
  | invalidCoseSign1
  | wrongCoseProtectedHeader
  | nonEmptyCoseUnprotectedHeader
  | invalidCoseSignatureLength
deriving DecidableEq

-- The `?` conversion from the codec's errors.
def liftCbor {α : Type} (result : Except CanonicalCborError α) : Except TrustError α :=
  result.mapError .canonicalCbor

@[simp] theorem liftCbor_eq_ok {result : Except CanonicalCborError α} {a : α} :
    liftCbor result = .ok a ↔ result = .ok a :=
  mapError_eq_ok

def SpaceId.validate (id : SpaceId) : Except TrustError Unit :=
  if id.bytes = FixedBytes.replicate 32 0 then .error .nilSpaceId else .ok ()

def Ed25519PublicKey.validate (P : Primitives) (key : Ed25519PublicKey) : Except TrustError Unit :=
  if P.validKey key.bytes then .ok () else .error .invalidPublicKey

def ActorId.publicKey (P : Primitives) (id : ActorId) : Except TrustError Ed25519PublicKey := do
  Ed25519PublicKey.validate P ⟨id.bytes⟩
  .ok ⟨id.bytes⟩

theorem keyValidate_eq_ok {key : Ed25519PublicKey} :
    Ed25519PublicKey.validate P key = .ok u ↔ P.validKey key.bytes = true := by
  unfold Ed25519PublicKey.validate
  split_ifs with h <;> simp [h]

theorem publicKey_eq_ok {id : ActorId} {key : Ed25519PublicKey} :
    ActorId.publicKey P id = .ok key ↔ P.validKey id.bytes = true ∧ key = ⟨id.bytes⟩ := by
  simp [ActorId.publicKey, bind_eq_ok, keyValidate_eq_ok, @eq_comm _ key]

theorem validate_eq_ok {id : SpaceId} :
    SpaceId.validate id = .ok u ↔ id.bytes ≠ FixedBytes.replicate 32 0 := by
  unfold SpaceId.validate
  split_ifs with h <;> simp [h]

-- A signing key is its seed.
structure Ed25519SigningKey where
  seed : FixedBytes 32
deriving DecidableEq

def Ed25519SigningKey.actorId (P : Primitives) (key : Ed25519SigningKey) : ActorId :=
  ⟨P.verifyingKey key.seed⟩

def Ed25519SigningKey.nodeId (P : Primitives) (key : Ed25519SigningKey) : NodeId :=
  ⟨P.verifyingKey key.seed⟩

end Fractonica.Trust
