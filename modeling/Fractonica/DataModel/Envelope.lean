import Fractonica.DataModel.Body.Theorems
import Fractonica.Trust.Operation.Theorems

namespace Fractonica.DataModel

open Lib Trust

def PROTOCOL_VERSION : UInt16 := OPERATION_PROTOCOL_VERSION.toUInt16

structure OperationEnvelope where
  protocolVersion : UInt16
  operationId : OperationId
  spaceId : SpaceId
  actorId : ActorId
  entityId : EntityId
  schema : EntitySchema
  causalParents : List OperationId
  authorization : List OperationId
  occurredAtUnixMs : Int64
  nonce : OperationNonce
  body : OperationBody
  coseSign1 : List UInt8
deriving BEq

def requireProjection (field : String) (agrees : Bool) : Except DataModelError Unit :=
  require agrees (.projectionMismatch field)

namespace OperationEnvelope

def verify (P : Primitives) (e : OperationEnvelope) : Except DataModelError Unit := do
  require (e.protocolVersion = PROTOCOL_VERSION)
    (.unsupportedProtocolVersion e.protocolVersion PROTOCOL_VERSION)
  require (!e.entityId.uuid.isNil) .nilEntityId
  validateSortedBy "causalParents" e.causalParents id
  validateSortedBy "authorization" e.authorization id
  require (!e.causalParents.contains e.operationId) (.selfCausalParent e.operationId)
  let signed ← liftTrust (SignedOperation.fromCoseSign1 P e.coseSign1)
  let _ ← liftTrust (signed.verify P)
  let cose ← liftTrust signed.toCoseSign1
  require (cose = e.coseSign1) .nonCanonicalCoseProjection
  let payload ← liftTrust (fromCanonicalBytes P signed.payload)
  let signedSchema ← EntitySchema.parse payload.schema
  let signedBody ← decodeBody signedSchema P payload.body
  requireProjection "operationId" (e.operationId = signed.operationId)
  requireProjection "spaceId" (e.spaceId = payload.spaceId)
  requireProjection "actorId" (e.actorId = payload.actorId)
  requireProjection "entityId" (e.entityId.uuid = payload.entityId)
  requireProjection "schema" (e.schema = signedSchema)
  requireProjection "causalParents" (e.causalParents = payload.causalParents)
  requireProjection "authorization" (e.authorization = payload.authorization)
  requireProjection "occurredAtUnixMs" (e.occurredAtUnixMs = payload.occurredAtUnixMs)
  requireProjection "nonce" (e.nonce = payload.nonce)
  requireProjection "body" (e.body == signedBody)
  let encodedBody ← encodeBody P e.schema e.body
  let projectedBody ← liftTrust (liftCbor (toCanonicalCbor encodedBody))
  let signedBodyBytes ← liftTrust (liftCbor (toCanonicalCbor payload.body))
  requireProjection "body" (projectedBody = signedBodyBytes)
  e.body.validateFor P e.schema e.actorId e.entityId e.causalParents e.authorization

def fromTrustSigned (P : Primitives) (signed : SignedOperation) :
    Except DataModelError OperationEnvelope := do
  let _ ← liftTrust (signed.verify P)
  let payload ← liftTrust (fromCanonicalBytes P signed.payload)
  let schema ← EntitySchema.parse payload.schema
  let body ← decodeBody schema P payload.body
  let coseSign1 ← liftTrust signed.toCoseSign1
  let envelope : OperationEnvelope :=
    { protocolVersion := PROTOCOL_VERSION, operationId := signed.operationId,
      spaceId := payload.spaceId, actorId := payload.actorId, entityId := ⟨payload.entityId⟩,
      schema, causalParents := payload.causalParents, authorization := payload.authorization,
      occurredAtUnixMs := payload.occurredAtUnixMs, nonce := payload.nonce, body, coseSign1 }
  envelope.verify P
  .ok envelope

def fromCoseSign1 (P : Primitives) (coseSign1 : List UInt8) :
    Except DataModelError OperationEnvelope := do
  let signed ← liftTrust (SignedOperation.fromCoseSign1 P coseSign1)
  fromTrustSigned P signed

def sign (P : Primitives) (spaceId : SpaceId) (entityId : EntityId) (schema : EntitySchema)
    (causalParents authorization : List OperationId) (occurredAtUnixMs : Int64)
    (nonce : OperationNonce) (body : OperationBody) (key : Ed25519SigningKey) :
    Except DataModelError OperationEnvelope := do
  require (!entityId.uuid.isNil) .nilEntityId
  body.validateFor P schema (key.actorId P) entityId causalParents authorization
  let canonicalBody ← encodeBody P schema body
  let payload ← liftTrust (OperationPayload.new P
    { spaceId, actorId := key.actorId P, entityId := entityId.uuid, schema := schema.asStr,
      causalParents, authorization, occurredAtUnixMs, nonce, body := canonicalBody })
  let signed ← liftTrust (payload.sign key)
  fromTrustSigned P signed

end OperationEnvelope

end Fractonica.DataModel
