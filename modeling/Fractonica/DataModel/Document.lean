import Fractonica.Content.Resource
import Fractonica.DataModel.Json

namespace Fractonica.DataModel

open Lib Trust Content

structure EntityId where
  uuid : Uuid
deriving DecidableEq

inductive EntitySchema where
  | event
  | profile
  | record
  | spaceGenesis
  | capabilityGrant
  | capabilityRevoke
  | tag
deriving DecidableEq

-- `public` and `private` are reserved words, so both are shortened.
inductive Visibility where
  | pub
  | priv
deriving DecidableEq

inductive ReferenceTarget where
  | actor (actorId : ActorId)
  | entity (spaceId : SpaceId) (entityId : EntityId) (operationId : Option OperationId)
deriving DecidableEq

structure EntityReference where
  relation : String
  target : ReferenceTarget
deriving DecidableEq

inductive EncryptionAlgorithm where
  | aes256Gcm
deriving DecidableEq

structure EncryptedPayload where
  algorithm : EncryptionAlgorithm
  keyId : String
  nonceBase64url : String
  ciphertextBase64url : String
deriving DecidableEq

inductive ProtectedDocument (α : Type) where
  | pub (document : α)
  | priv (envelope : EncryptedPayload) (resources : List ResourceRef)
deriving BEq

structure RecordDocument where
  startAtUnixMs : Int64
  endAtUnixMs : Option Int64
  emoji : Option String
  text : Option String
  metadata : Metadata
  resources : List ResourceRef
  references : List EntityReference
deriving BEq

structure TagDocument where
  name : String
  emoji : Option String
  notes : Option String
  colorHex : Option String
  metadata : Metadata
  references : List EntityReference
deriving BEq

structure EventDocument where
  startAtUnixMs : Int64
  endAtUnixMs : Option Int64
  label : String
  typeNumber : Int64
  metadata : Metadata
  references : List EntityReference
deriving BEq

structure ProfileDocument where
  handle : String
  displayName : String
  sarosAnchor : UInt16
  avatar : Option ResourceRef
  metadata : Metadata
deriving BEq

inductive CapabilityAction where
  | appendOperation
  | issueCapability
  | revokeCapability
  | readSpace
  | writeContent
  | linkWorkspace
deriving DecidableEq

structure CapabilityGrant where
  subject : ActorId
  actions : List CapabilityAction
  schemas : List EntitySchema
  visibilities : List Visibility
  contentRoles : List String
  maxResourceByteLength : Option UInt64
  notBeforeUnixMs : Option Int64
  expiresAtUnixMs : Option Int64
  delegationDepth : UInt8
  label : String
deriving DecidableEq

inductive CapabilityRevocationReason where
  | keyCompromised
  | deviceLost
  | keyRotated
  | scopeChanged
  | administrative
deriving DecidableEq

structure CapabilityRevocation where
  grantId : OperationId
  reason : CapabilityRevocationReason
  detail : Option String
deriving DecidableEq

inductive OperationBody where
  | putRecord (payload : ProtectedDocument RecordDocument)
  | putTag (payload : ProtectedDocument TagDocument)
  | putEvent (payload : ProtectedDocument EventDocument)
  | putProfile (document : ProfileDocument)
  | tombstone
  | spaceGenesis (controller : ActorId)
  | capabilityGrant (grant : CapabilityGrant)
  | capabilityRevoke (revocation : CapabilityRevocation)
deriving BEq

inductive DataModelError where
  | trust (error : TrustError)
  | unsupportedProtocolVersion (found supported : UInt16)
  | unsupportedSchema (value : String)
  | nilEntityId
  | projectionMismatch (field : String)
  | nonCanonicalCoseProjection
  | schemaBodyMismatch (schema : EntitySchema)
  | invalidCanonicalBody (schema : EntitySchema) (detail : String)
  | negativeOccurredAt (value : Int64)
  | negativeRecordStart (value : Int64)
  | recordEndBeforeStart (start finish : Int64)
  | textTooLong (length maximum : Nat)
  | selfCausalParent (id : OperationId)
  | tooManyMetadataEntries (count maximum : Nat)
  | invalidMetadataKey (key : String) (maximum : Nat)
  | metadataStringTooLong (length maximum : Nat)
  | unsupportedMetadataNumber (text : List UInt8)
  | metadataTooDeep (depth maximum : Nat)
  | metadataContainerTooLarge (count maximum : Nat)
  | metadataTooLarge (bytes maximum : Nat)
  | tooManyResources (count maximum : Nat)
  | invalidResource (index : Nat) (source : ContentValidationError)
  | duplicateResourceContentId (id : ContentId)
  | invalidClientDocument (reason : String)
  | invalidRelation (relation : String)
  | tooManyEntityReferences (count maximum : Nat)
  | duplicateEntityReference
  | invalidEncryptedPayload (reason : String)
  | profileEntityMismatch
  | emptyCapabilitySet (field : String)
  | capabilitySetNotStrictlySorted (field : String)
  | capabilitySetTooLarge (field : String) (count maximum : Nat)
  | capabilityScopeMismatch (reason : String)
  | invalidCapabilityContentRole (role : String)
  | capabilityResourceLimitTooLarge (found : UInt64) (maximum : Nat)
  | delegationTooDeep (found maximum : UInt8)
  | negativeCapabilityTime (field : String) (value : Int64)
  | invalidCapabilityWindow (start finish : Int64)
  | invalidBoundedLabel (field : String) (count maximum : Nat)
  | genesisControllerMismatch (controller actor : ActorId)
  | genesisMustBeRoot
  | missingAuthorization
  | duplicateOperationId (id : OperationId)
  | foreignSpace (expected found : SpaceId)
  | foreignEntity (expected found : EntityId)
  | foreignSchema (expected found : EntitySchema)
  | causalParentNotPreexisting (operationId parentId : OperationId)
  | foreignCausalParent (parentId : OperationId)
deriving DecidableEq

-- The `?` conversion from the trust layer's errors.
def liftTrust {α : Type} (result : Except TrustError α) : Except DataModelError α :=
  result.mapError .trust

@[simp] theorem liftTrust_eq_ok {result : Except TrustError α} {a : α} :
    liftTrust result = .ok a ↔ result = .ok a :=
  mapError_eq_ok

namespace EntitySchema

def asStr : EntitySchema → String
  | .event => "event"
  | .profile => "profile"
  | .record => "record"
  | .spaceGenesis => "space.genesis"
  | .capabilityGrant => "capability.grant"
  | .capabilityRevoke => "capability.revoke"
  | .tag => "tag"

def parse (value : String) : Except DataModelError EntitySchema :=
  match value with
  | "event" => .ok .event
  | "profile" => .ok .profile
  | "record" => .ok .record
  | "space.genesis" => .ok .spaceGenesis
  | "capability.grant" => .ok .capabilityGrant
  | "capability.revoke" => .ok .capabilityRevoke
  | "tag" => .ok .tag
  | _ => .error (.unsupportedSchema value)

-- The schemas of client documents, which carry a visibility.
def isClient : EntitySchema → Bool
  | .record | .tag | .event | .profile => true
  | .spaceGenesis | .capabilityGrant | .capabilityRevoke => false

theorem parse_eq_ok {value : String} {schema : EntitySchema} :
    parse value = .ok schema ↔ value = schema.asStr := by
  constructor
  · intro h
    unfold parse at h
    split at h <;> cases h <;> rfl
  · rintro rfl
    cases schema <;> rfl

theorem asStr_injective : Function.Injective asStr := by
  intro left right h
  have hleft := parse_eq_ok.mpr (Eq.refl left.asStr)
  rw [h, parse_eq_ok.mpr rfl] at hleft
  exact (Except.ok.inj hleft).symm

end EntitySchema

def ProtectedDocument.visibility {α : Type} : ProtectedDocument α → Visibility
  | .pub _ => .pub
  | .priv _ _ => .priv

namespace OperationBody

def declaredVisibility : OperationBody → Option Visibility
  | .putRecord payload => some payload.visibility
  | .putTag payload => some payload.visibility
  | .putEvent payload => some payload.visibility
  | .putProfile _ => some .pub
  | _ => none

-- The bodies of client documents.
def isClient : OperationBody → Bool
  | .putRecord _ | .putTag _ | .putEvent _ | .putProfile _ | .tombstone => true
  | .spaceGenesis _ | .capabilityGrant _ | .capabilityRevoke _ => false

def resources : OperationBody → List ResourceRef
  | .putRecord (.pub document) => document.resources
  | .putRecord (.priv _ resources) => resources
  | .putProfile document => document.avatar.toList
  | _ => []

end OperationBody

end Fractonica.DataModel
