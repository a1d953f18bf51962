import Fractonica.DataModel.Envelope
import Fractonica.Lib.Base64

namespace Fractonica.DataModel

open Lib Trust Content

abbrev Member : Type := JsonKey × Json

def field (name : String) (value : Json) : List Member := [(⟨name⟩, value)]

-- A field that is left out when it is absent.
def optionalField {α : Type} (name : String) (toJson : α → Json) : Option α → List Member
  | some value => field name (toJson value)
  | none => []

-- A list that is left out when it is empty.
def listField {α : Type} (name : String) (toJson : α → Json) : List α → List Member
  | [] => []
  | values => field name (.array (values.map toJson))

def Json.ofInt64 (value : Int64) : Json := .number (.ofInt64 value)

def Json.ofUInt64 (value : UInt64) : Json := .number (.posInt value)

def Json.ofIdentifier {kind : IdentifierKind} (id : Identifier kind) : Json := .string id.toText

def hexText (bytes : List UInt8) : String := String.ofList (lowerHex bytes)

def asciiText (bytes : List UInt8) : String :=
  String.ofList (bytes.map fun byte => Char.ofNat byte.toNat)

-- The five groups of the lowercase hyphenated form.
def EntityId.toText (id : EntityId) : String :=
  let bytes := id.uuid.bytes.bytes
  let group (start count : Nat) : List Char := lowerHex ((bytes.drop start).take count)
  String.ofList (group 0 4 ++ '-' :: group 4 2 ++ '-' :: group 6 2 ++ '-' :: group 8 2 ++
    '-' :: group 10 6)

def visibilityKey : Visibility → String
  | .pub => "public"
  | .priv => "private"

def actionKey : CapabilityAction → String
  | .appendOperation => "appendOperation"
  | .issueCapability => "issueCapability"
  | .revokeCapability => "revokeCapability"
  | .readSpace => "readSpace"
  | .writeContent => "writeContent"
  | .linkWorkspace => "linkWorkspace"

def revocationReasonKey : CapabilityRevocationReason → String
  | .keyCompromised => "keyCompromised"
  | .deviceLost => "deviceLost"
  | .keyRotated => "keyRotated"
  | .scopeChanged => "scopeChanged"
  | .administrative => "administrative"

def EncryptionAlgorithm.key : EncryptionAlgorithm → String
  | .aes256Gcm => "aes256-gcm"

def Metadata.toJson (metadata : Metadata) : Json := .object metadata.entries

def resourceToJson (resource : ResourceRef) : Json :=
  .object (field "contentId" (.string resource.contentId.toText) ++
    field "byteLength" (.ofUInt64 resource.byteLength) ++
    field "mediaType" (.string resource.mediaType) ++ field "role" (.string resource.role) ++
    optionalField "originalName" .string resource.originalName)

-- The renaming of the variants does not reach their fields.
def ReferenceTarget.toJson : ReferenceTarget → Json
  | .actor actorId =>
    .object (field "kind" (.string "actor") ++ field "actor_id" (.ofIdentifier actorId))
  | .entity spaceId entityId operationId =>
    .object (field "kind" (.string "entity") ++ field "space_id" (.ofIdentifier spaceId) ++
      field "entity_id" (.string entityId.toText) ++
      optionalField "operation_id" .ofIdentifier operationId)

def EntityReference.toJson (reference : EntityReference) : Json :=
  .object (field "relation" (.string reference.relation) ++
    field "target" reference.target.toJson)

def EncryptedPayload.toJson (payload : EncryptedPayload) : Json :=
  .object (field "algorithm" (.string payload.algorithm.key) ++
    field "keyId" (.string payload.keyId) ++
    field "nonceBase64url" (.string payload.nonceBase64url) ++
    field "ciphertextBase64url" (.string payload.ciphertextBase64url))

def ProtectedDocument.toJson {α : Type} (documentToJson : α → Json) :
    ProtectedDocument α → Json
  | .pub document =>
    .object (field "visibility" (.string "public") ++
      field "document" (documentToJson document))
  | .priv envelope resources =>
    .object (field "visibility" (.string "private") ++ field "envelope" envelope.toJson ++
      listField "resources" resourceToJson resources)

def RecordDocument.toJson (document : RecordDocument) : Json :=
  .object (field "startAtUnixMs" (.ofInt64 document.startAtUnixMs) ++
    optionalField "endAtUnixMs" .ofInt64 document.endAtUnixMs ++
    optionalField "emoji" .string document.emoji ++ optionalField "text" .string document.text ++
    field "metadata" document.metadata.toJson ++
    listField "resources" resourceToJson document.resources ++
    listField "references" EntityReference.toJson document.references)

def TagDocument.toJson (document : TagDocument) : Json :=
  .object (field "name" (.string document.name) ++ optionalField "emoji" .string document.emoji ++
    optionalField "notes" .string document.notes ++
    optionalField "colorHex" .string document.colorHex ++
    field "metadata" document.metadata.toJson ++
    listField "references" EntityReference.toJson document.references)

def EventDocument.toJson (document : EventDocument) : Json :=
  .object (field "startAtUnixMs" (.ofInt64 document.startAtUnixMs) ++
    optionalField "endAtUnixMs" .ofInt64 document.endAtUnixMs ++
    field "label" (.string document.label) ++ field "typeNumber" (.ofInt64 document.typeNumber) ++
    field "metadata" document.metadata.toJson ++
    listField "references" EntityReference.toJson document.references)

def ProfileDocument.toJson (document : ProfileDocument) : Json :=
  .object (field "handle" (.string document.handle) ++
    field "displayName" (.string document.displayName) ++
    field "sarosAnchor" (.ofUInt64 document.sarosAnchor.toUInt64) ++
    optionalField "avatar" resourceToJson document.avatar ++
    field "metadata" document.metadata.toJson)

def CapabilityGrant.toJson (grant : CapabilityGrant) : Json :=
  .object (field "subject" (.ofIdentifier grant.subject) ++
    field "actions" (.array (grant.actions.map fun action => .string (actionKey action))) ++
    field "schemas" (.array (grant.schemas.map fun schema => .string schema.asStr)) ++
    field "visibilities"
      (.array (grant.visibilities.map fun visibility => .string (visibilityKey visibility))) ++
    field "contentRoles" (.array (grant.contentRoles.map .string)) ++
    optionalField "maxResourceByteLength" .ofUInt64 grant.maxResourceByteLength ++
    optionalField "notBeforeUnixMs" .ofInt64 grant.notBeforeUnixMs ++
    optionalField "expiresAtUnixMs" .ofInt64 grant.expiresAtUnixMs ++
    field "delegationDepth" (.ofUInt64 grant.delegationDepth.toUInt64) ++
    field "label" (.string grant.label))

def CapabilityRevocation.toJson (revocation : CapabilityRevocation) : Json :=
  .object (field "grantId" (.ofIdentifier revocation.grantId) ++
    field "reason" (.string (revocationReasonKey revocation.reason)) ++
    optionalField "detail" .string revocation.detail)

def OperationBody.toJson : OperationBody → Json
  | .putRecord payload =>
    .object (field "kind" (.string "putRecord") ++
      field "payload" (payload.toJson RecordDocument.toJson))
  | .putTag payload =>
    .object (field "kind" (.string "putTag") ++
      field "payload" (payload.toJson TagDocument.toJson))
  | .putEvent payload =>
    .object (field "kind" (.string "putEvent") ++
      field "payload" (payload.toJson EventDocument.toJson))
  | .putProfile document =>
    .object (field "kind" (.string "putProfile") ++ field "document" document.toJson)
  | .tombstone => .object (field "kind" (.string "tombstone"))
  | .spaceGenesis controller =>
    .object (field "kind" (.string "spaceGenesis") ++
      field "controller" (.ofIdentifier controller))
  | .capabilityGrant grant =>
    .object (field "kind" (.string "capabilityGrant") ++ field "grant" grant.toJson)
  | .capabilityRevoke revocation =>
    .object (field "kind" (.string "capabilityRevoke") ++
      field "revocation" revocation.toJson)

def OperationEnvelope.toJson (e : OperationEnvelope) : Json :=
  .object (field "protocolVersion" (.ofUInt64 e.protocolVersion.toUInt64) ++
    field "operationId" (.ofIdentifier e.operationId) ++
    field "spaceId" (.ofIdentifier e.spaceId) ++ field "actorId" (.ofIdentifier e.actorId) ++
    field "entityId" (.string e.entityId.toText) ++ field "schema" (.string e.schema.asStr) ++
    field "causalParents" (.array (e.causalParents.map .ofIdentifier)) ++
    field "authorization" (.array (e.authorization.map .ofIdentifier)) ++
    field "occurredAtUnixMs" (.ofInt64 e.occurredAtUnixMs) ++
    field "nonce" (.string (hexText e.nonce.bytes.bytes)) ++ field "body" e.body.toJson ++
    field "coseSign1" (.string (asciiText (Base64.encode e.coseSign1))))

end Fractonica.DataModel
