import Fractonica.Client.Schema

namespace Fractonica.Client

open Lib Trust Content DataModel Application
open Store (Platform HeadRow SpaceDescriptor TrustedSpaceBootstrapRequest headRow
  isTombstone isDisplayName isWriterGrant projectionText)

def MAX_RECORD_PREVIEW_TEXT_CHARS : Nat := 192

inductive CommitSource where
  | ofLocal
  | ofRemote
  | ofPeer (peerId : NodeId)
deriving DecidableEq

structure CommitResult where
  localSequence : Nat
  operationId : OperationId
  replayed : Bool
  queuedPeers : Nat

section Reading

variable (P : Platform) (g : GraphTables)

def decodeOperation (json : List UInt8) : Except ClientStoreError OperationEnvelope := do
  let operation ← (P.readEnvelope json).mapError fun error =>
    .corrupt (.nested "invalid stored operation JSON: " (.message error))
  (operation.verify P.toPrimitives).mapError fun error =>
    .corrupt (.dataModel "stored operation failed verification: " error)
  .ok operation

def operationRow? (operationId : OperationId) : Option OperationRow :=
  g.operations.find? fun row => row.operationId = operationId

def loadOperationRow (operationId : OperationId) :
    Except ClientStoreError (Option (Nat × OperationEnvelope)) :=
  match operationRow? g operationId with
  | none => .ok none
  | some row => do
    require (0 < row.localSequence) (.corruption "expected positive SQLite integer")
    let operation ← decodeOperation P row.projectionJson
    .ok (some (row.localSequence, operation))

def operationMatches (expected : OperationEnvelope) : Except ClientStoreError Bool := do
  let found ← loadOperationRow P g expected.operationId
  .ok (found.any fun stored => stored.2 == expected)

end Reading

section Validation

variable (P : Platform) (g : GraphTables)

-- The two lists of references are checked alike, with errors of their own.
def validateReference (missing : OperationId → ClientStoreError) (reference : OperationId) :
    Except ClientStoreError Unit := do
  let found ← loadOperationRow P g reference
  require found.isSome (missing reference)

def validateReferences (operation : OperationEnvelope) : Except ClientStoreError Unit := do
  checkAll (validateReference P g .missingParent) operation.causalParents
  checkAll (validateReference P g .missingAuthorization) operation.authorization

def validateParent (operation : OperationEnvelope) (parent : OperationId) :
    Except ClientStoreError Unit := do
  let row ← okOr (operationRow? g parent) (.sqlite .noRows)
  require (row.entityId = operation.entityId && row.schema = operation.schema)
    (.parentMismatch parent)

def entityOperations (spaceId : SpaceId) (entityId : EntityId) : List OperationRow :=
  g.operations.filter fun row => row.spaceId = spaceId && row.entityId = entityId

def entityHeads (spaceId : SpaceId) (entityId : EntityId) : List HeadRow :=
  g.heads.filter fun row => row.spaceId = spaceId && row.entityId = entityId

-- The heads among the parents are counted by their identifiers alone.
def consumedHeads (parents : List OperationId) : Nat :=
  (parents.map fun parent => (g.heads.filter fun row => row.operationId = parent).length).sum

def validateTopology (operation : OperationEnvelope) : Except ClientStoreError Unit := do
  checkAll (validateParent g operation) operation.causalParents
  let history := (entityOperations g operation.spaceId operation.entityId).length
  let heads := (entityHeads g operation.spaceId operation.entityId).length
  require (!(0 < history && heads = 0)) (.corruption "entity history has no current heads")
  require (!(0 < history && operation.causalParents.isEmpty)) .entityAlreadyExists
  require (!(history = 0 && isTombstone operation.body)) .initialTombstone
  require ((heads : Int) - consumedHeads g operation.causalParents + 1 ≤ MAX_CAUSAL_PARENTS)
    .tooManyHeads

end Validation

section Insertion

variable (P : Platform)

def operationRow (operation : OperationEnvelope) (localSequence : Nat) (storedAtUnixMs : Int64)
    (locallyAuthored : Bool) : OperationRow where
  localSequence := localSequence
  operationId := operation.operationId
  spaceId := operation.spaceId
  entityId := operation.entityId
  schema := operation.schema
  actorId := operation.actorId
  occurredAtUnixMs := operation.occurredAtUnixMs
  storedAtUnixMs := storedAtUnixMs
  locallyAuthored := locallyAuthored
  projectionJson := projectionText P operation

-- A sequence number is never assigned twice, so the last one is the end.
def insertOperationRow (g : GraphTables) (operation : OperationEnvelope) (storedAtUnixMs : Int64)
    (locallyAuthored : Bool) : Except ClientStoreError GraphTables := do
  liftSqlite (require (g.lastSequence + 1 < 2 ^ 63) .full)
  let operations ← liftSqlite (Table.insert (operationConstraints P) g.operations
    (operationRow P operation (g.lastSequence + 1) storedAtUnixMs locallyAuthored))
  .ok { g with operations, lastSequence := g.lastSequence + 1 }

def parentRow (operation : OperationEnvelope) (position : Nat) (parent : OperationId) :
    ParentRow where
  operationId := operation.operationId
  parentOperationId := parent
  position := position

-- Each parent is recorded and stops being a head, in whatever space it is one.
def insertParents (operation : OperationEnvelope) :
    Nat → List OperationId → GraphTables → Except ClientStoreError GraphTables
  | _, [], g => .ok g
  | position, parent :: rest, g => do
    let parents ← liftSqlite (Table.insert (parentConstraints g.operations) g.parents
      (parentRow operation position parent))
    let heads := g.heads.filter fun row => row.operationId ≠ parent
    insertParents operation (position + 1) rest { g with parents, heads }

def authorizationRows (operation : OperationEnvelope) : List AuthorizationRow :=
  operation.authorization.mapIdx fun position reference =>
    { operationId := operation.operationId, authorizationOperationId := reference, position }

def insertGraph (g : GraphTables) (operation : OperationEnvelope) :
    Except ClientStoreError GraphTables := do
  let g ← insertParents operation 0 operation.causalParents g
  let authorizations ← liftSqlite (Table.insertAll (authorizationConstraints g.operations)
    g.authorizations (authorizationRows operation))
  let heads ← liftSqlite (Table.insert (headConstraints g.operations) g.heads
    (headRow operation))
  .ok { g with authorizations, heads }

-- The columns that depend on the body.
structure ProjectionColumns where
  startAtUnixMs : Option Int64
  endAtUnixMs : Option Int64
  sortText : Option String
  previewEmoji : Option String
  previewText : Option String
  previewTruncated : Bool

def boundedRecordPreview : Option String → Option String × Bool
  | none => (none, false)
  | some text =>
    if MAX_RECORD_PREVIEW_TEXT_CHARS < text.toList.length then
      (some (String.ofList (text.toList.take MAX_RECORD_PREVIEW_TEXT_CHARS)), true)
    else (some text, false)

def projectionColumns (operation : OperationEnvelope) : Option ProjectionColumns :=
  match operation.body with
  | .putRecord (.pub document) =>
    let (previewText, previewTruncated) := boundedRecordPreview document.text
    some ⟨some document.startAtUnixMs, document.endAtUnixMs, none, document.emoji, previewText,
      previewTruncated⟩
  | .putEvent (.pub document) =>
    some ⟨some document.startAtUnixMs, document.endAtUnixMs, some (P.lowercase document.label),
      none, none, false⟩
  | .putTag (.pub document) =>
    some ⟨none, none, some (P.lowercase document.name), none, none, false⟩
  | .putProfile document => some ⟨none, none, some document.handle, none, none, false⟩
  | .putRecord (.priv _ _) | .putTag (.priv _ _) | .putEvent (.priv _ _) | .tombstone =>
    if operation.schema.isClient then some ⟨none, none, none, none, none, false⟩ else none
  | .spaceGenesis _ | .capabilityGrant _ | .capabilityRevoke _ => none

def visibilityOf (g : GraphTables) (operation : OperationEnvelope) :
    Except ClientStoreError Visibility :=
  okOr ((g.visibility.find? fun row => row.spaceId = operation.spaceId &&
    row.entityId = operation.entityId).map (·.visibility)) (.sqlite .noRows)

-- Only the first operation of an entity fixes its visibility.
def insertVisibility (g : GraphTables) (operation : OperationEnvelope) :
    Except ClientStoreError (GraphTables × Visibility) :=
  match operation.body.declaredVisibility with
  | some value =>
    if operation.causalParents.isEmpty then do
      let visibility ← liftSqlite (Table.insert visibilityConstraints g.visibility
        { spaceId := operation.spaceId, entityId := operation.entityId,
          schema := operation.schema, visibility := value })
      .ok ({ g with visibility }, value)
    else do
      let existing ← visibilityOf g operation
      require (existing = value)
        (.invalidOperation (.message "entity visibility is immutable"))
      .ok (g, value)
  | none => do
    let existing ← visibilityOf g operation
    .ok (g, existing)

def i64OfU64 (value : UInt64) (error : ClientStoreError) : Except ClientStoreError Int64 :=
  if value.toNat < 2 ^ 63 then .ok (Int64.ofInt value.toNat) else .error error

def mediaBytesFrom : Int64 → List ResourceRef → Except ClientStoreError Int64
  | total, [] => .ok total
  | total, resource :: rest => do
    let bytes ← i64OfU64 resource.byteLength (.corruption "media byte count overflow")
    require (total.toInt + bytes.toInt < 2 ^ 63) (.corruption "media byte total overflow")
    mediaBytesFrom (total + bytes) rest

def projectionRow (operation : OperationEnvelope) (columns : ProjectionColumns)
    (visibility : Visibility) (mediaBytes : Int64) : ProjectionRow where
  operationId := operation.operationId
  spaceId := operation.spaceId
  entityId := operation.entityId
  schema := operation.schema
  visibility := visibility
  tombstone := isTombstone operation.body
  startAtUnixMs := columns.startAtUnixMs
  endAtUnixMs := columns.endAtUnixMs
  sortText := columns.sortText
  resourceCount := operation.body.resources.length
  mediaBytes := mediaBytes
  previewEmoji := columns.previewEmoji
  previewText := columns.previewText
  previewTruncated := columns.previewTruncated

def insertProjection (g : GraphTables) (operation : OperationEnvelope) :
    Except ClientStoreError GraphTables :=
  match projectionColumns P operation with
  | none => .ok g
  | some columns => do
    let (g, visibility) ← insertVisibility g operation
    let mediaBytes ← mediaBytesFrom 0 operation.body.resources
    let projections ← liftSqlite (Table.insert (projectionConstraints g.operations)
      g.projections (projectionRow operation columns visibility mediaBytes))
    .ok { g with projections }

def resourceRow (resource : ResourceRef) (byteLength discoveredAtUnixMs : Int64) :
    ResourceRow where
  contentId := resource.contentId
  byteLength := byteLength
  mediaType := resource.mediaType
  role := resource.role
  originalName := resource.originalName
  locallyAvailable := false
  localExpected := false
  discoveredAtUnixMs := discoveredAtUnixMs
  localVerifiedAtUnixMs := none

def resourceRow? (m : MediaTables) (contentId : ContentId) : Option ResourceRow :=
  m.resources.find? fun row => row.contentId = contentId

def insertResources (g : GraphTables) (operation : OperationEnvelope)
    (discoveredAtUnixMs : Int64) :
    Nat → List ResourceRef → MediaTables → Except ClientStoreError MediaTables
  | _, [], m => .ok m
  | position, resource :: rest, m => do
    let byteLength ← i64OfU64 resource.byteLength .invalidResourceProgress
    let m := { m with
      resources := Table.insertOrIgnore (fun row other => row.contentId = other.contentId)
        m.resources (resourceRow resource byteLength discoveredAtUnixMs) }
    let existing ← okOr (resourceRow? m resource.contentId) (.sqlite .noRows)
    require (existing.byteLength = byteLength) .resourceDescriptorConflict
    let operationResources ← liftSqlite (Table.insert
      (operationResourceConstraints g.operations m.resources) m.operationResources
      { operationId := operation.operationId, position, contentId := resource.contentId })
    insertResources g operation discoveredAtUnixMs (position + 1) rest
      { m with operationResources }

def insertOperationResources (g : GraphTables) (m : MediaTables) (operation : OperationEnvelope)
    (discoveredAtUnixMs : Int64) : Except ClientStoreError MediaTables :=
  insertResources g operation discoveredAtUnixMs 0 operation.body.resources m

end Insertion

section Sources

variable (g : GraphTables)

-- A peer without a credential and without spaces of its own gets everything,
-- any other peer what belongs to its spaces.
def receives (p : PeerTables) (peer : PeerConfig) (inSpace : SpaceId → Bool) : Bool :=
  (peer.peerTransportCredential.isNone &&
      !p.spaces.any fun space => space.peerId = peer.peerId) ||
    p.spaces.any fun space => space.peerId = peer.peerId && inSpace space.spaceId

def operationIn (operationId : OperationId) (spaceId : SpaceId) : Bool :=
  g.operations.any fun row => row.operationId = operationId && row.spaceId = spaceId

def contentIn (m : MediaTables) (contentId : ContentId) (spaceId : SpaceId) : Bool :=
  m.operationResources.any fun link =>
    link.contentId = contentId && operationIn g link.operationId spaceId

def peer? (p : PeerTables) (peerId : NodeId) : Option PeerConfig :=
  p.peers.find? fun peer => peer.peerId = peerId

def deliveryClash (row other : DeliveryRow) : Bool :=
  row.peerId = other.peerId && row.operationId = other.operationId

def pendingDelivery (peerId : NodeId) (operationId : OperationId) (atUnixMs : Int64) :
    DeliveryRow where
  peerId := peerId
  operationId := operationId
  state := .pending
  attemptCount := 0
  nextAttemptAtUnixMs := atUnixMs
  lastError := none

-- The source of an operation has it, so its delivery counts as acknowledged.
def recordSource (deliveries : List DeliveryRow) (peerId : NodeId) (operationId : OperationId)
    (atUnixMs : Int64) : List DeliveryRow :=
  if deliveries.any fun row => row.peerId = peerId && row.operationId = operationId then
    deliveries.map fun row =>
      if row.peerId = peerId && row.operationId = operationId then
        { row with state := .acknowledged atUnixMs, lastError := none }
      else row
  else
    deliveries ++ [{ pendingDelivery peerId operationId atUnixMs with
      state := .acknowledged atUnixMs }]

-- The peers that an operation is queued for, except its source.
def deliveryPeers (p : PeerTables) (operationId : OperationId) (excluded : Option NodeId) :
    List PeerConfig :=
  p.peers.filter fun peer => peer.enabled && peer.pushEnabled &&
    receives p peer (operationIn g operationId) && excluded.all fun source => peer.peerId ≠ source

def queueDeliveries (p : PeerTables) (operationId : OperationId) (atUnixMs : Int64)
    (excluded : Option NodeId) : List DeliveryRow :=
  Table.insertAllOrIgnore deliveryClash p.deliveries
    ((deliveryPeers g p operationId excluded).map fun peer =>
      pendingDelivery peer.peerId operationId atUnixMs)

def applyDeliverySource (p : PeerTables) (operationId : OperationId) (atUnixMs : Int64) :
    CommitSource → Except ClientStoreError PeerTables
  | .ofRemote => .ok p
  | .ofLocal => .ok { p with deliveries := queueDeliveries g p operationId atUnixMs none }
  | .ofPeer peerId => do
    require (peer? p peerId).isSome (.unknownPeer peerId)
    let deliveries := queueDeliveries g p operationId atUnixMs (some peerId)
    .ok { p with deliveries := recordSource deliveries peerId operationId atUnixMs }

def transferClash (row other : TransferRow) : Bool :=
  row.peerId = other.peerId && row.contentId = other.contentId && row.direction = other.direction

def uploadTransfer (peerId : NodeId) (resource : ResourceRow) (atUnixMs : Int64) :
    TransferRow where
  peerId := peerId
  contentId := resource.contentId
  direction := .upload
  state := if resource.locallyAvailable then .pending else .waitingLocal
  attemptCount := 0
  nextAttemptAtUnixMs := atUnixMs
  remoteUploadUrl := none
  transferredBytes := 0
  lastError := none

def downloadTransfer (peerId : NodeId) (resource : ResourceRow) (atUnixMs : Int64) :
    TransferRow where
  peerId := peerId
  contentId := resource.contentId
  direction := .download
  state := if resource.locallyAvailable then .complete atUnixMs else .pending
  attemptCount := 0
  nextAttemptAtUnixMs := atUnixMs
  remoteUploadUrl := none
  transferredBytes := if resource.locallyAvailable then resource.byteLength else 0
  lastError := none

def queueResourceUploads (p : PeerTables) (m : MediaTables) (contentId : ContentId)
    (atUnixMs : Int64) (excluded : Option NodeId) : MediaTables :=
  let peers := p.peers.filter fun peer => peer.enabled && peer.pushEnabled &&
    receives p peer (contentIn g m contentId) && excluded.all fun source => peer.peerId ≠ source
  let resources := m.resources.filter fun resource => resource.contentId = contentId
  { m with
    transfers := Table.insertAllOrIgnore transferClash m.transfers
      (peers.flatMap fun peer => resources.map fun resource =>
        uploadTransfer peer.peerId resource atUnixMs) }

def applyResource (p : PeerTables) (m : MediaTables) (contentId : ContentId)
    (atUnixMs : Int64) : CommitSource → Except ClientStoreError MediaTables
  | .ofRemote => .ok m
  | .ofLocal =>
    let m := { m with
      resources := m.resources.map fun row =>
        if row.contentId = contentId then { row with localExpected := true } else row }
    .ok (queueResourceUploads g p m contentId atUnixMs none)
  | .ofPeer peerId => do
    let resource ← okOr (resourceRow? m contentId) (.sqlite .noRows)
    let peer ← okOr (peer? p peerId) (.sqlite .noRows)
    let m := if peer.contentReadEnabled then
        { m with
          transfers := Table.insertOrIgnore transferClash m.transfers
            (downloadTransfer peerId resource atUnixMs) }
      else m
    .ok (queueResourceUploads g p m contentId atUnixMs (some peerId))

def applyResourceSource (p : PeerTables) (m : MediaTables) (operation : OperationEnvelope)
    (atUnixMs : Int64) (source : CommitSource) : Except ClientStoreError MediaTables :=
  operation.body.resources.foldlM
    (fun m resource => applyResource g p m resource.contentId atUnixMs source) m

def deliveryCount (p : PeerTables) (operationId : OperationId) : Nat :=
  (p.deliveries.filter fun row => row.operationId = operationId).length

end Sources

section Transactions

variable (P : Platform)

-- What the commit of an operation does besides storing it.
def applySource (g : GraphTables) (p : PeerTables) (m : MediaTables)
    (operation : OperationEnvelope) (storedAtUnixMs : Int64) (source : CommitSource) :
    Except ClientStoreError (PeerTables × MediaTables) := do
  let p ← applyDeliverySource g p operation.operationId storedAtUnixMs source
  let m ← applyResourceSource g p m operation storedAtUnixMs source
  .ok (p, m)

def insertOperation (g : GraphTables) (operation : OperationEnvelope) (storedAtUnixMs : Int64)
    (source : CommitSource) : Except ClientStoreError GraphTables := do
  validateReferences P g operation
  validateTopology g operation
  let g ← insertOperationRow P g operation storedAtUnixMs (source = .ofLocal)
  let g ← insertGraph g operation
  insertProjection P g operation

def commitTransaction (t : Tables) (operation : OperationEnvelope) (storedAtUnixMs : Int64)
    (source : CommitSource) : Except ClientStoreError (Tables × CommitResult) := do
  (operation.verify P.toPrimitives).mapError fun error => .invalidOperation (.dataModel "" error)
  require (0 ≤ storedAtUnixMs.toInt) .negativeTimestamp
  let found ← loadOperationRow P t.graph operation.operationId
  match found with
  | some (localSequence, existing) => do
    require (existing == operation) (.operationConflict operation.operationId)
    let (peering, media) ← applySource t.graph t.peering t.media operation storedAtUnixMs source
    .ok ({ t with peering, media },
      { localSequence, operationId := operation.operationId, replayed := true,
        queuedPeers := deliveryCount peering operation.operationId })
  | none => do
    let graph ← insertOperation P t.graph operation storedAtUnixMs source
    let media ← insertOperationResources graph t.media operation storedAtUnixMs
    let (peering, media) ← applySource graph t.peering media operation storedAtUnixMs source
    .ok ({ t with graph, peering, media },
      { localSequence := graph.lastSequence, operationId := operation.operationId,
        replayed := false, queuedPeers := deliveryCount peering operation.operationId })

def bootstrapError (text : String) : Detail :=
  .nested "trusted bootstrap is invalid: " (.message text)

def requireBootstrap (agrees : Bool) (text : String) : Except Detail Unit :=
  require agrees (bootstrapError text)

def genesisController : OperationBody → Except Detail ActorId
  | .spaceGenesis controller => .ok controller
  | _ => .error (bootstrapError "genesis body has the wrong kind")

def initialWriterGrant : OperationBody → Except Detail CapabilityGrant
  | .capabilityGrant grant => .ok grant
  | _ => .error (bootstrapError "initial grant body has the wrong kind")

def validateTrustedSpaceBootstrap (request : TrustedSpaceBootstrapRequest) :
    Except Detail Unit := do
  require (0 ≤ request.receivedAtUnixMs.toInt)
    (.message ("node receipt time must be nonnegative, got " ++
      toString request.receivedAtUnixMs.toInt))
  (request.genesis.verify P.toPrimitives).mapError (.dataModel "")
  (request.initialGrant.verify P.toPrimitives).mapError (.dataModel "")
  requireBootstrap (isDisplayName request.displayName)
    "display name must be a bounded non-control label"
  requireBootstrap (request.genesis.schema = .spaceGenesis)
    "genesis operation has the wrong schema"
  requireBootstrap (request.initialGrant.schema = .capabilityGrant)
    "initial grant operation has the wrong schema"
  requireBootstrap (request.genesis.spaceId = request.initialGrant.spaceId)
    "genesis and initial grant belong to different spaces"
  let controller ← genesisController request.genesis.body
  let grant ← initialWriterGrant request.initialGrant.body
  requireBootstrap (request.genesis.actorId = controller)
    "genesis must be signed by the controller named in its body"
  requireBootstrap (request.genesis.causalParents.isEmpty && request.genesis.authorization.isEmpty)
    "genesis cannot have causal parents or authorization references"
  requireBootstrap (request.initialGrant.actorId = controller)
    "initial grant must be signed by the genesis controller"
  requireBootstrap (grant.subject ≠ controller)
    "initial grant must target a distinct local writer actor"
  requireBootstrap (isWriterGrant controller grant)
    "initial writer grant must have the exact bounded local-writer scope"
  requireBootstrap (request.initialGrant.authorization = [request.genesis.operationId])
    "initial grant must rely only on the genesis operation"
  requireBootstrap request.initialGrant.causalParents.isEmpty
    "initial grant must start its entity history"
  requireBootstrap (request.genesis.entityId ≠ request.initialGrant.entityId)
    "genesis and initial grant must use distinct entity IDs"

def workspaceDescriptor (request : TrustedSpaceBootstrapRequest) :
    Except Detail SpaceDescriptor := do
  let controller ← genesisController request.genesis.body
  let grant ← initialWriterGrant request.initialGrant.body
  .ok { spaceId := request.genesis.spaceId, displayName := request.displayName,
        genesisOperationId := request.genesis.operationId,
        initialGrantOperationId := request.initialGrant.operationId,
        controllerActorId := controller, localWriterActorId := grant.subject,
        createdAtUnixMs := request.receivedAtUnixMs }

def storeWorkspace (t : Tables) (request : TrustedSpaceBootstrapRequest) :
    Except ClientStoreError (Tables × SpaceDescriptor) := do
  (validateTrustedSpaceBootstrap P request).mapError .invalidBootstrap
  let descriptor ← (workspaceDescriptor request).mapError .invalidBootstrap
  match t.workspaces.find? fun row => row.spaceId = descriptor.spaceId with
  | some existing => do
    require (existing = descriptor) .installationConflict
    let genesisMatches ← operationMatches P t.graph request.genesis
    require genesisMatches .installationConflict
    let grantMatches ← operationMatches P t.graph request.initialGrant
    require grantMatches .installationConflict
    .ok (t, existing)
  | none => do
    let (t, _) ← commitTransaction P t request.genesis request.receivedAtUnixMs .ofRemote
    let (t, _) ← commitTransaction P t request.initialGrant request.receivedAtUnixMs .ofRemote
    let workspaces ← liftSqlite (Table.insert (workspaceConstraints t.graph.operations)
      t.workspaces descriptor)
    .ok ({ t with workspaces }, descriptor)

end Transactions

def setActiveWorkspace (t : Tables) (workspace : ActiveWorkspace) :
    Except ClientStoreError Tables := do
  require (0 ≤ workspace.activatedAtUnixMs.toInt) .negativeTimestamp
  liftSqlite (require (hasOperation t.graph.operations workspace.authorizationOperationId &&
    workspace.peerId.all fun peerId => (peer? t.peering peerId).isSome)
    (.foreignKey .clientActiveWorkspace))
  .ok { t with activeWorkspace := some workspace }

def clearActiveWorkspace (t : Tables) : Tables := { t with activeWorkspace := none }

def GraphTables.withoutSpace (g : GraphTables) (spaceId : SpaceId) : GraphTables where
  operations := g.operations.filter (·.spaceId ≠ spaceId)
  lastSequence := g.lastSequence
  parents := g.parents.filter fun row => !operationIn g row.operationId spaceId
  authorizations := g.authorizations.filter fun row => !operationIn g row.operationId spaceId
  heads := g.heads.filter (·.spaceId ≠ spaceId)
  visibility := g.visibility.filter (·.spaceId ≠ spaceId)
  projections := g.projections.filter (·.spaceId ≠ spaceId)

def Tables.withoutSpace (t : Tables) (spaceId : SpaceId) : Tables where
  graph := t.graph.withoutSpace spaceId
  peering := { t.peering with
    spaces := t.peering.spaces.filter (·.spaceId ≠ spaceId)
    deliveries := t.peering.deliveries.filter fun row =>
      !operationIn t.graph row.operationId spaceId }
  media := { t.media with
    operationResources := t.media.operationResources.filter fun row =>
      !operationIn t.graph row.operationId spaceId }
  workspaces := t.workspaces.filter (·.spaceId ≠ spaceId)
  activeWorkspace := t.activeWorkspace.filter (·.spaceId ≠ spaceId)

-- The keys that still refer to an operation of the space restrict its deletion.
def refersToSpace (t : Tables) (spaceId : SpaceId) : Bool :=
  let rest := t.withoutSpace spaceId
  let deleted := fun operationId => operationIn t.graph operationId spaceId
  rest.graph.parents.any (fun row => deleted row.parentOperationId) ||
    rest.graph.authorizations.any (fun row => deleted row.authorizationOperationId) ||
    rest.workspaces.any (fun row => deleted row.genesisOperationId ||
      deleted row.initialGrantOperationId) ||
    rest.activeWorkspace.any fun active => deleted active.authorizationOperationId

def deleteWorkspace (t : Tables) (spaceId : SpaceId) : Except ClientStoreError Tables := do
  liftSqlite (require (!refersToSpace t spaceId) (.foreignKey .clientOperations))
  .ok (t.withoutSpace spaceId)

end Fractonica.Client
