import Fractonica.Client.Store

namespace Fractonica.Client

open Lib Trust Content DataModel
open Store (Platform)

def MAX_OUTBOX_BATCH : Nat := 100
def MAX_ERROR_BYTES : Nat := 2048
def MAX_ENDPOINT_BYTES : Nat := 2048
def MAX_CREDENTIAL_BYTES : Nat := 256

structure PeerSpaceConfig where
  peerId : NodeId
  spaceId : SpaceId
  readMode : PeerReadMode
  startAfter : Nat
  nextPullAtUnixMs : Int64

structure SyncTarget where
  peerId : NodeId
  endpoint : String
  spaceId : SpaceId
  readMode : PeerReadMode
  after : Nat
  pullFailureCount : Nat

structure DeliveryItem where
  operation : OperationEnvelope
  attemptCount : Nat

def requireNonnegative (atUnixMs : Int64) : Except ClientStoreError Unit :=
  require (0 ≤ atUnixMs.toInt) .negativeTimestamp

def isWhitespace (c : Char) : Bool := c.toNat = 0x20 || (0x09 ≤ c.toNat && c.toNat ≤ 0x0d)

-- Only ASCII is accepted, so the ASCII whitespace is all there is.
def isCredential (value : String) : Bool :=
  !(utf8Bytes value).isEmpty && (utf8Bytes value).length ≤ MAX_CREDENTIAL_BYTES &&
    value.toList.all fun c => c.toNat < 0x80 && !isWhitespace c

def validatePeer (peer : PeerConfig) : Except ClientStoreError Unit := do
  requireNonnegative peer.addedAtUnixMs
  require (!(utf8Bytes peer.endpoint).isEmpty &&
    (utf8Bytes peer.endpoint).length ≤ MAX_ENDPOINT_BYTES) .invalidPeerEndpoint
  require (peer.peerTransportCredential.all isCredential) .invalidPeerEndpoint

-- An existing peer keeps the time at which it was added.
def upsertPeerRow (peers : List PeerConfig) (peer : PeerConfig) : List PeerConfig :=
  if peers.any fun row => row.peerId = peer.peerId then
    peers.map fun row =>
      if row.peerId = peer.peerId then { peer with addedAtUnixMs := row.addedAtUnixMs } else row
  else peers ++ [peer]

-- The deliveries of a peer for the stored operations that `select` picks.
def queueStored (g : GraphTables) (p : PeerTables) (peerId : NodeId)
    (select : OperationRow → Bool) (dueAt : OperationRow → Int64) : PeerTables :=
  { p with
    deliveries := Table.insertAllOrIgnore deliveryClash p.deliveries
      ((g.operations.filter select).map fun row =>
        pendingDelivery peerId row.operationId (dueAt row)) }

def laterOf (left right : Int64) : Int64 := if left.toInt < right.toInt then right else left

-- The uploads to a peer for the known resources that `select` picks.
def queueKnownResources (m : MediaTables) (peerId : NodeId) (select : ResourceRow → Bool)
    (fallbackAtUnixMs : Int64) : MediaTables :=
  { m with
    transfers := Table.insertAllOrIgnore transferClash m.transfers
      ((m.resources.filter select).map fun resource =>
        uploadTransfer peerId resource (laterOf resource.discoveredAtUnixMs fallbackAtUnixMs)) }

def queueKnownResourcesForPeer (t : Tables) (peer : PeerConfig) (fallbackAtUnixMs : Int64) :
    MediaTables :=
  queueKnownResources t.media peer.peerId (fun resource =>
    receives t.peering peer (contentIn t.graph t.media resource.contentId)) fallbackAtUnixMs

def queueKnownResourcesForPeerSpace (t : Tables) (peerId : NodeId) (spaceId : SpaceId)
    (fallbackAtUnixMs : Int64) : MediaTables :=
  queueKnownResources t.media peerId
    (fun resource => contentIn t.graph t.media resource.contentId spaceId) fallbackAtUnixMs

def upsertPeer (t : Tables) (peer : PeerConfig) : Except ClientStoreError Tables := do
  validatePeer peer
  let t := { t with peering := { t.peering with peers := upsertPeerRow t.peering.peers peer } }
  if peer.enabled && peer.pushEnabled then
    let select := fun row : OperationRow =>
      row.schema.isClient && receives t.peering peer fun space => row.spaceId = space
    .ok { t with
      peering := queueStored t.graph t.peering peer.peerId select fun _ => peer.addedAtUnixMs
      media := queueKnownResourcesForPeer t peer peer.addedAtUnixMs }
  else .ok t

def setPeerEnabled (t : Tables) (peerId : NodeId) (enabled : Bool) :
    Except ClientStoreError Tables := do
  let peer ← okOr (peer? t.peering peerId) (.unknownPeer peerId)
  let t := { t with
    peering := { t.peering with
      peers := t.peering.peers.map fun row =>
        if row.peerId = peerId then { row with enabled } else row } }
  if enabled && peer.pushEnabled then
    let select := fun row : OperationRow => receives t.peering peer fun space => row.spaceId = space
    .ok { t with
      peering := queueStored t.graph t.peering peerId select (·.storedAtUnixMs)
      media := queueKnownResourcesForPeer t peer 0 }
  else .ok t

-- A configured space keeps its cursor.
def upsertPeerSpace (spaces : List PeerSpaceRow) (config : PeerSpaceConfig) :
    List PeerSpaceRow :=
  if spaces.any fun row => row.peerId = config.peerId && row.spaceId = config.spaceId then
    spaces.map fun row =>
      if row.peerId = config.peerId && row.spaceId = config.spaceId then
        { row with readMode := config.readMode }
      else row
  else
    spaces ++ [{ peerId := config.peerId, spaceId := config.spaceId, readMode := config.readMode,
                 pullAfter := config.startAfter, nextPullAtUnixMs := config.nextPullAtUnixMs,
                 pullFailureCount := 0, lastPullError := none, lastPullAtUnixMs := none }]

def configurePeerSpace (t : Tables) (config : PeerSpaceConfig) :
    Except ClientStoreError Tables := do
  require (0 ≤ config.nextPullAtUnixMs.toInt && config.startAfter < 2 ^ 63) .invalidPullCursor
  let peer ← okOr (peer? t.peering config.peerId) (.unknownPeer config.peerId)
  let t := { t with
    peering := { t.peering with spaces := upsertPeerSpace t.peering.spaces config } }
  if peer.enabled && peer.pushEnabled then
    let select := fun row : OperationRow => row.spaceId = config.spaceId &&
      match config.readMode with
      | .supervisorBearer => row.schema.isClient
      | .paired _ _ => true
    .ok { t with
      peering := queueStored t.graph t.peering config.peerId select
        fun _ => config.nextPullAtUnixMs
      media := queueKnownResourcesForPeerSpace t config.peerId config.spaceId
        config.nextPullAtUnixMs }
  else .ok t

def DeliveryState.isAcknowledged : DeliveryState → Bool
  | .acknowledged _ => true
  | _ => false

def TransferState.isComplete : TransferState → Bool
  | .complete _ => true
  | _ => false

def reopenDelivery (atUnixMs : Int64) (row : DeliveryRow) : DeliveryRow :=
  { row with state := .pending, attemptCount := 0, nextAttemptAtUnixMs := atUnixMs,
             lastError := none }

def reopenTransfer (m : MediaTables) (atUnixMs : Int64) (row : TransferRow) : TransferRow :=
  let available := (resourceRow? m row.contentId).any (·.locallyAvailable)
  { row with state := if available then .pending else .waitingLocal, attemptCount := 0,
             nextAttemptAtUnixMs := atUnixMs, remoteUploadUrl := none, transferredBytes := 0,
             lastError := none }

def requeueUnacknowledgedPeerSpace (t : Tables) (peerId : NodeId) (spaceId : SpaceId)
    (nowUnixMs : Int64) : Except ClientStoreError Tables := do
  requireNonnegative nowUnixMs
  require (t.peering.spaces.any fun row => row.peerId = peerId && row.spaceId = spaceId)
    (.unknownPeer peerId)
  let peering := queueStored t.graph t.peering peerId
    (fun row => row.spaceId = spaceId && row.schema.isClient) fun _ => nowUnixMs
  let deliveries := peering.deliveries.map fun row =>
    if row.peerId = peerId && !row.state.isAcknowledged &&
        operationIn t.graph row.operationId spaceId then reopenDelivery nowUnixMs row
    else row
  let media := queueKnownResourcesForPeerSpace t peerId spaceId nowUnixMs
  let transfers := media.transfers.map fun row =>
    if row.peerId = peerId && row.direction = .upload && !row.state.isComplete &&
        contentIn t.graph media row.contentId spaceId then reopenTransfer media nowUnixMs row
    else row
  .ok { t with
    peering := { peering with deliveries }
    media := { media with transfers } }

section Deliveries

variable (P : Platform)

-- The sum of a time and a duration, if it is a time.
def checkedAdd (timeUnixMs : Int64) (durationMs : Nat) : Option Int64 :=
  if timeUnixMs.toInt + durationMs < 2 ^ 63 then
    some (Int64.ofInt (timeUnixMs.toInt + durationMs))
  else none

def leaseExpiry (nowUnixMs : Int64) (leaseMs : Nat) : Except ClientStoreError Int64 := do
  require (0 < leaseMs && leaseMs < 2 ^ 63) .invalidLeaseDuration
  okOr (checkedAdd nowUnixMs leaseMs) .invalidLeaseDuration

def DeliveryRow.isDue (row : DeliveryRow) (nowUnixMs : Int64) : Bool :=
  match row.state with
  | .pending => row.nextAttemptAtUnixMs.toInt ≤ nowUnixMs.toInt
  | .leased _ expiresAtUnixMs => expiresAtUnixMs.toInt ≤ nowUnixMs.toInt
  | _ => false

-- The operations with a due delivery to an enabled peer, oldest first.
def dueOperations (t : Tables) (peerId : NodeId) (nowUnixMs : Int64) (limit : Nat) :
    List OperationRow :=
  ((t.graph.operations.filter fun operation =>
      t.peering.peers.any (fun peer => peer.peerId = peerId && peer.enabled) &&
        t.peering.deliveries.any fun row => row.peerId = peerId &&
          row.operationId = operation.operationId && row.isDue nowUnixMs).mergeSort
    fun left right => left.localSequence ≤ right.localSequence).take limit

def leaseRow (leaseId : DeliveryLeaseId) (expiresAtUnixMs : Int64) (row : DeliveryRow) :
    DeliveryRow :=
  { row with state := .leased leaseId expiresAtUnixMs, attemptCount := row.attemptCount + 1 }

def deliveryRow? (p : PeerTables) (peerId : NodeId) (operationId : OperationId) :
    Option DeliveryRow :=
  p.deliveries.find? fun row => row.peerId = peerId && row.operationId = operationId

def updateDelivery (p : PeerTables) (peerId : NodeId) (operationId : OperationId)
    (update : DeliveryRow → DeliveryRow) : PeerTables :=
  { p with
    deliveries := p.deliveries.map fun row =>
      if row.peerId = peerId && row.operationId = operationId then update row else row }

def leaseOperation (peerId : NodeId) (leaseId : DeliveryLeaseId) (expiresAtUnixMs : Int64)
    (t : Tables) (operationId : OperationId) : Except ClientStoreError (Tables × DeliveryItem) := do
  let row ← okOr (deliveryRow? t.peering peerId operationId)
    (.corruption "selected delivery disappeared")
  let t := { t with
    peering := updateDelivery t.peering peerId operationId (leaseRow leaseId expiresAtUnixMs) }
  let found ← loadOperationRow P t.graph operationId
  let stored ← okOr found (.corruption "delivery references a missing operation")
  require (row.attemptCount + 1 < 2 ^ 32) (.corruption "attempt count overflow")
  .ok (t, { operation := stored.2, attemptCount := row.attemptCount + 1 })

def leaseOperations (peerId : NodeId) (leaseId : DeliveryLeaseId) (expiresAtUnixMs : Int64) :
    Tables → List OperationId → Except ClientStoreError (Tables × List DeliveryItem)
  | t, [] => .ok (t, [])
  | t, operationId :: rest => do
    let (t, item) ← leaseOperation P peerId leaseId expiresAtUnixMs t operationId
    let (t, items) ← leaseOperations peerId leaseId expiresAtUnixMs t rest
    .ok (t, item :: items)

def leaseDue (t : Tables) (peerId : NodeId) (nowUnixMs : Int64) (leaseMs limit : Nat)
    (leaseId : DeliveryLeaseId) : Except ClientStoreError (Tables × List DeliveryItem) := do
  requireNonnegative nowUnixMs
  require (1 ≤ limit && limit ≤ MAX_OUTBOX_BATCH) .invalidOutboxLimit
  let expires ← leaseExpiry nowUnixMs leaseMs
  leaseOperations P peerId leaseId expires t
    ((dueOperations t peerId nowUnixMs limit).map (·.operationId))

def DeliveryState.isLeasedBy (leaseId : DeliveryLeaseId) : DeliveryState → Bool
  | .leased holder _ => holder = leaseId
  | _ => false

-- The outcomes of an attempt, with the time that each of them records.
inductive DeliveryOutcome where
  | acknowledged
  | pending
  | rejected
deriving DecidableEq

def DeliveryOutcome.state (atUnixMs : Int64) : DeliveryOutcome → DeliveryState
  | .acknowledged => .acknowledged atUnixMs
  | .pending => .pending
  | .rejected => .rejected

def finishDelivery (t : Tables) (peerId : NodeId) (operationId : OperationId)
    (leaseId : DeliveryLeaseId) (outcome : DeliveryOutcome) (atUnixMs : Int64)
    (error : Option String) : Except ClientStoreError Tables := do
  requireNonnegative atUnixMs
  require (error.all fun text => (utf8Bytes text).length ≤ MAX_ERROR_BYTES) .deliveryErrorTooLong
  require ((deliveryRow? t.peering peerId operationId).any (·.state.isLeasedBy leaseId))
    .leaseMismatch
  .ok { t with
    peering := updateDelivery t.peering peerId operationId fun row =>
      { row with state := outcome.state atUnixMs, nextAttemptAtUnixMs := atUnixMs,
                 lastError := error } }

def acknowledge (t : Tables) (peerId : NodeId) (operationId : OperationId)
    (leaseId : DeliveryLeaseId) (acknowledgedAtUnixMs : Int64) : Except ClientStoreError Tables :=
  finishDelivery t peerId operationId leaseId .acknowledged acknowledgedAtUnixMs none

def retry (t : Tables) (peerId : NodeId) (operationId : OperationId) (leaseId : DeliveryLeaseId)
    (nextAttemptAtUnixMs : Int64) (error : String) : Except ClientStoreError Tables :=
  finishDelivery t peerId operationId leaseId .pending nextAttemptAtUnixMs (some error)

def reject (t : Tables) (peerId : NodeId) (operationId : OperationId) (leaseId : DeliveryLeaseId)
    (rejectedAtUnixMs : Int64) (error : String) : Except ClientStoreError Tables :=
  finishDelivery t peerId operationId leaseId .rejected rejectedAtUnixMs (some error)

def releaseLease (t : Tables) (peerId : NodeId) (leaseId : DeliveryLeaseId) : Tables :=
  { t with
    peering := { t.peering with
      deliveries := t.peering.deliveries.map fun row =>
        if row.peerId = peerId && row.state.isLeasedBy leaseId then { row with state := .pending }
        else row } }

end Deliveries

def requireTargetLimit (limit : Nat) : Except ClientStoreError Unit :=
  require (1 ≤ limit && limit ≤ 100) .invalidSyncTargetLimit

def enabledPeers (p : PeerTables) (limit : Nat) : Except ClientStoreError (List PeerConfig) := do
  requireTargetLimit limit
  .ok (((p.peers.filter (·.enabled)).mergeSort fun left right =>
    left.peerId ≤ right.peerId).take limit)

-- The order of due targets: by time, then by peer, then by space.
def dueBefore (left right : PeerSpaceRow) : Bool :=
  if left.nextPullAtUnixMs ≠ right.nextPullAtUnixMs then
    left.nextPullAtUnixMs.toInt < right.nextPullAtUnixMs.toInt
  else if left.peerId ≠ right.peerId then left.peerId < right.peerId
  else left.spaceId ≤ right.spaceId

def syncTarget (peer : PeerConfig) (row : PeerSpaceRow) : SyncTarget where
  peerId := peer.peerId
  endpoint := peer.endpoint
  spaceId := row.spaceId
  readMode := row.readMode
  after := row.pullAfter
  pullFailureCount := row.pullFailureCount

def dueSyncTargets (p : PeerTables) (nowUnixMs : Int64) (limit : Nat) :
    Except ClientStoreError (List SyncTarget) := do
  requireNonnegative nowUnixMs
  requireTargetLimit limit
  let due := (p.spaces.filter fun row =>
    (peer? p row.peerId).any (·.enabled) && row.nextPullAtUnixMs.toInt ≤ nowUnixMs.toInt).mergeSort
      dueBefore
  .ok ((due.take limit).filterMap fun row => (peer? p row.peerId).map fun peer =>
    syncTarget peer row)

-- The cursor moves only if it still is where the caller saw it.
def updateCursor (t : Tables) (peerId : NodeId) (spaceId : SpaceId) (expectedAfter : Nat)
    (update : PeerSpaceRow → PeerSpaceRow) : Except ClientStoreError Tables := do
  let isTarget := fun row : PeerSpaceRow =>
    row.peerId = peerId && row.spaceId = spaceId && row.pullAfter = expectedAfter
  require (t.peering.spaces.any isTarget) .pullCursorMismatch
  .ok { t with
    peering := { t.peering with
      spaces := t.peering.spaces.map fun row => if isTarget row then update row else row } }

def advancePullCursor (t : Tables) (peerId : NodeId) (spaceId : SpaceId)
    (expectedAfter nextAfter : Nat) (pulledAtUnixMs nextPullAtUnixMs : Int64) :
    Except ClientStoreError Tables := do
  require (0 ≤ pulledAtUnixMs.toInt && 0 ≤ nextPullAtUnixMs.toInt && expectedAfter < 2 ^ 63 &&
    nextAfter < 2 ^ 63 && expectedAfter ≤ nextAfter) .invalidPullCursor
  updateCursor t peerId spaceId expectedAfter fun row =>
    { row with pullAfter := nextAfter, nextPullAtUnixMs, pullFailureCount := 0,
               lastPullError := none, lastPullAtUnixMs := some pulledAtUnixMs }

def recordPullFailure (t : Tables) (peerId : NodeId) (spaceId : SpaceId) (expectedAfter : Nat)
    (nextPullAtUnixMs : Int64) (error : String) : Except ClientStoreError Tables := do
  require (0 ≤ nextPullAtUnixMs.toInt && expectedAfter < 2 ^ 63) .invalidPullCursor
  require ((utf8Bytes error).length ≤ MAX_ERROR_BYTES) .deliveryErrorTooLong
  updateCursor t peerId spaceId expectedAfter fun row =>
    { row with nextPullAtUnixMs, pullFailureCount := row.pullFailureCount + 1,
               lastPullError := some error }

end Fractonica.Client
