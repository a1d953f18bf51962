import Fractonica.Peer.Proof
import Fractonica.Store.Repository

namespace Fractonica.Client

open Lib Trust Content DataModel Application Peer
open Store (Platform HeadRow SpaceDescriptor)

deriving instance DecidableEq for SpaceDescriptor

inductive TableName where
  | clientOperations
  | clientOperationParents
  | clientOperationAuthorizations
  | clientEntityHeads
  | clientEntityVisibility
  | clientProjections
  | clientOperationResources
  | clientWorkspaces
  | clientActiveWorkspace
deriving DecidableEq

inductive SqliteError where
  | check (table : TableName)
  | unique (table : TableName)
  | foreignKey (table : TableName)
  | noRows
  | full
deriving DecidableEq

inductive ClientStoreError where
  | sqlite (error : SqliteError)
  | invalidOperation (detail : Detail)
  | corrupt (detail : Detail)
  | operationConflict (operationId : OperationId)
  | missingParent (operationId : OperationId)
  | missingAuthorization (operationId : OperationId)
  | parentMismatch (operationId : OperationId)
  | entityAlreadyExists
  | initialTombstone
  | tooManyHeads
  | negativeTimestamp
  | invalidPeerEndpoint
  | unknownPeer (peerId : NodeId)
  | invalidOutboxLimit
  | invalidLeaseDuration
  | leaseMismatch
  | resourceLeaseMismatch
  | invalidResourceTransferLimit
  | resourceDescriptorConflict
  | invalidResourceProgress
  | deliveryErrorTooLong
  | invalidSyncTargetLimit
  | pullCursorMismatch
  | invalidPullCursor
  | invalidBootstrap (detail : Detail)
  | installationConflict

def ClientStoreError.corruption (text : String) : ClientStoreError := .corrupt (.message text)

-- The `?` conversion from the errors of the database.
def liftSqlite {α : Type} (result : Except SqliteError α) : Except ClientStoreError α :=
  result.mapError .sqlite

@[simp] theorem liftSqlite_eq_ok {result : Except SqliteError α} {a : α} :
    liftSqlite result = .ok a ↔ result = .ok a :=
  mapError_eq_ok

structure OperationRow where
  localSequence : Nat
  operationId : OperationId
  spaceId : SpaceId
  entityId : EntityId
  schema : EntitySchema
  actorId : ActorId
  occurredAtUnixMs : Int64
  storedAtUnixMs : Int64
  locallyAuthored : Bool
  projectionJson : List UInt8
deriving DecidableEq

structure ParentRow where
  operationId : OperationId
  parentOperationId : OperationId
  position : Nat
deriving DecidableEq

structure AuthorizationRow where
  operationId : OperationId
  authorizationOperationId : OperationId
  position : Nat
deriving DecidableEq

structure VisibilityRow where
  spaceId : SpaceId
  entityId : EntityId
  schema : EntitySchema
  visibility : Visibility
deriving DecidableEq

structure ProjectionRow where
  operationId : OperationId
  spaceId : SpaceId
  entityId : EntityId
  schema : EntitySchema
  visibility : Visibility
  tombstone : Bool
  startAtUnixMs : Option Int64
  endAtUnixMs : Option Int64
  sortText : Option String
  resourceCount : Nat
  mediaBytes : Int64
  previewEmoji : Option String
  previewText : Option String
  previewTruncated : Bool
deriving DecidableEq

structure ResourceRow where
  contentId : ContentId
  byteLength : Int64
  mediaType : String
  role : String
  originalName : Option String
  locallyAvailable : Bool
  localExpected : Bool
  discoveredAtUnixMs : Int64
  localVerifiedAtUnixMs : Option Int64
deriving DecidableEq

structure OperationResourceRow where
  operationId : OperationId
  position : Nat
  contentId : ContentId
deriving DecidableEq

structure PeerConfig where
  peerId : NodeId
  endpoint : String
  enabled : Bool
  pushEnabled : Bool
  contentReadEnabled : Bool
  peerTransportCredential : Option String
  addedAtUnixMs : Int64
deriving DecidableEq

inductive PeerReadMode where
  | supervisorBearer
  | paired (sessionId : PeerSessionId) (grantOperationId : OperationId)
deriving DecidableEq

structure PeerSpaceRow where
  peerId : NodeId
  spaceId : SpaceId
  readMode : PeerReadMode
  pullAfter : Nat
  nextPullAtUnixMs : Int64
  pullFailureCount : Nat
  lastPullError : Option String
  lastPullAtUnixMs : Option Int64
deriving DecidableEq

structure DeliveryLeaseId where
  uuid : Uuid
deriving DecidableEq

structure ResourceTransferLeaseId where
  uuid : Uuid
deriving DecidableEq

-- The state of a delivery, with the columns that are set in that state only.
inductive DeliveryState where
  | pending
  | leased (leaseId : DeliveryLeaseId) (expiresAtUnixMs : Int64)
  | acknowledged (atUnixMs : Int64)
  | rejected
deriving DecidableEq

structure DeliveryRow where
  peerId : NodeId
  operationId : OperationId
  state : DeliveryState
  attemptCount : Nat
  nextAttemptAtUnixMs : Int64
  lastError : Option String
deriving DecidableEq

inductive ResourceTransferDirection where
  | upload
  | download
deriving DecidableEq

inductive TransferState where
  | waitingLocal
  | pending
  | leased (leaseId : ResourceTransferLeaseId) (expiresAtUnixMs : Int64)
  | complete (atUnixMs : Int64)
  | rejected
deriving DecidableEq

structure TransferRow where
  peerId : NodeId
  contentId : ContentId
  direction : ResourceTransferDirection
  state : TransferState
  attemptCount : Nat
  nextAttemptAtUnixMs : Int64
  remoteUploadUrl : Option String
  transferredBytes : Int64
  lastError : Option String
deriving DecidableEq

structure ActiveWorkspace where
  spaceId : SpaceId
  authorizationOperationId : OperationId
  peerId : Option NodeId
  activatedAtUnixMs : Int64
deriving DecidableEq

-- The operations with what is derived from them. `lastSequence` is the counter
-- behind the automatically assigned sequence numbers.
structure GraphTables where
  operations : List OperationRow
  lastSequence : Nat
  parents : List ParentRow
  authorizations : List AuthorizationRow
  heads : List HeadRow
  visibility : List VisibilityRow
  projections : List ProjectionRow

structure PeerTables where
  peers : List PeerConfig
  spaces : List PeerSpaceRow
  deliveries : List DeliveryRow

structure MediaTables where
  resources : List ResourceRow
  operationResources : List OperationResourceRow
  transfers : List TransferRow

structure Tables where
  graph : GraphTables
  peering : PeerTables
  media : MediaTables
  workspaces : List SpaceDescriptor
  activeWorkspace : Option ActiveWorkspace

def GraphTables.empty : GraphTables where
  operations := []
  lastSequence := 0
  parents := []
  authorizations := []
  heads := []
  visibility := []
  projections := []

def Tables.empty : Tables where
  graph := .empty
  peering := { peers := [], spaces := [], deliveries := [] }
  media := { resources := [], operationResources := [], transfers := [] }
  workspaces := []
  activeWorkspace := none

section Constraints

variable (P : Platform) (operations : List OperationRow) (resources : List ResourceRow)

def hasOperation (operationId : OperationId) : Bool :=
  operations.any fun row => row.operationId = operationId

def hasEntityOperation (spaceId : SpaceId) (entityId : EntityId) (schema : EntitySchema)
    (operationId : OperationId) : Bool :=
  operations.any fun row => row.spaceId = spaceId && row.entityId = entityId &&
    row.schema = schema && row.operationId = operationId

def operationConstraints : Table.Constraints SqliteError OperationRow where
  admits row := require (0 ≤ row.occurredAtUnixMs.toInt && 0 ≤ row.storedAtUnixMs.toInt &&
    P.jsonValid row.projectionJson) (.check .clientOperations)
  clash row other := row.operationId = other.operationId
  duplicate := .unique .clientOperations
  refers _ := true
  dangling := .foreignKey .clientOperations

def parentConstraints : Table.Constraints SqliteError ParentRow where
  admits row := require (row.operationId ≠ row.parentOperationId)
    (.check .clientOperationParents)
  clash row other := row.operationId = other.operationId &&
    (row.parentOperationId = other.parentOperationId || row.position = other.position)
  duplicate := .unique .clientOperationParents
  refers row := hasOperation operations row.operationId &&
    hasOperation operations row.parentOperationId
  dangling := .foreignKey .clientOperationParents

def authorizationConstraints : Table.Constraints SqliteError AuthorizationRow where
  admits _ := .ok ()
  clash row other := row.operationId = other.operationId &&
    (row.authorizationOperationId = other.authorizationOperationId ||
      row.position = other.position)
  duplicate := .unique .clientOperationAuthorizations
  refers row := hasOperation operations row.operationId &&
    hasOperation operations row.authorizationOperationId
  dangling := .foreignKey .clientOperationAuthorizations

def headConstraints : Table.Constraints SqliteError HeadRow where
  admits _ := .ok ()
  clash row other := row.operationId = other.operationId
  duplicate := .unique .clientEntityHeads
  refers row := hasEntityOperation operations row.spaceId row.entityId row.schema row.operationId
  dangling := .foreignKey .clientEntityHeads

def visibilityConstraints : Table.Constraints SqliteError VisibilityRow where
  admits _ := .ok ()
  clash row other := row.spaceId = other.spaceId && row.entityId = other.entityId
  duplicate := .unique .clientEntityVisibility
  refers _ := true
  dangling := .foreignKey .clientEntityVisibility

def projectionConstraints : Table.Constraints SqliteError ProjectionRow where
  admits row := require (row.schema.isClient && 0 ≤ row.mediaBytes.toInt)
    (.check .clientProjections)
  clash row other := row.operationId = other.operationId
  duplicate := .unique .clientProjections
  refers row := hasEntityOperation operations row.spaceId row.entityId row.schema row.operationId
  dangling := .foreignKey .clientProjections

def operationResourceConstraints : Table.Constraints SqliteError OperationResourceRow where
  admits _ := .ok ()
  clash row other := row.operationId = other.operationId &&
    (row.position = other.position || row.contentId = other.contentId)
  duplicate := .unique .clientOperationResources
  refers row := hasOperation operations row.operationId &&
    resources.any fun resource => resource.contentId = row.contentId
  dangling := .foreignKey .clientOperationResources

def workspaceConstraints : Table.Constraints SqliteError SpaceDescriptor where
  admits row := require (0 ≤ row.createdAtUnixMs.toInt) (.check .clientWorkspaces)
  clash row other := row.spaceId = other.spaceId ||
    row.genesisOperationId = other.genesisOperationId ||
    row.initialGrantOperationId = other.initialGrantOperationId
  duplicate := .unique .clientWorkspaces
  refers row := hasOperation operations row.genesisOperationId &&
    hasOperation operations row.initialGrantOperationId
  dangling := .foreignKey .clientWorkspaces

end Constraints

end Fractonica.Client
