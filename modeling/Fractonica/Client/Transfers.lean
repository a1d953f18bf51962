import Fractonica.Client.Deliveries

namespace Fractonica.Client

open Lib Trust Content
open Store (Platform)

def MAX_RESOURCE_TRANSFER_BATCH : Nat := 100

structure ResourceTransferItem where
  peer : PeerConfig
  resource : ResourceRef
  direction : ResourceTransferDirection
  attemptCount : Nat
  remoteUploadUrl : Option String
  transferredBytes : Nat

-- The key of a transfer and the lease under which it is held.
structure LeasedResourceTransfer where
  peerId : NodeId
  contentId : ContentId
  direction : ResourceTransferDirection
  leaseId : ResourceTransferLeaseId

def requireResourceLimit (limit : Nat) : Except ClientStoreError Unit :=
  require (1 ≤ limit && limit ≤ MAX_RESOURCE_TRANSFER_BATCH) .invalidResourceTransferLimit

def isDownloadOf (contentId : ContentId) (row : TransferRow) : Bool :=
  row.contentId = contentId && row.direction = .download && !row.state.isComplete

def isWaitingUploadOf (contentId : ContentId) (row : TransferRow) : Bool :=
  row.contentId = contentId && row.direction = .upload && row.state = .waitingLocal

-- Once the bytes are here, every download of them is done and the uploads that
-- waited for them can start.
def settleTransfers (contentId : ContentId) (byteLength atUnixMs : Int64)
    (transfers : List TransferRow) : List TransferRow :=
  transfers.map fun row =>
    if isDownloadOf contentId row then
      { row with state := .complete atUnixMs, transferredBytes := byteLength, lastError := none }
    else if isWaitingUploadOf contentId row then
      { row with state := .pending, nextAttemptAtUnixMs := atUnixMs, lastError := none }
    else row

def markAvailable (contentId : ContentId) (atUnixMs : Int64) (resources : List ResourceRow) :
    List ResourceRow :=
  resources.map fun row =>
    if row.contentId = contentId then
      { row with locallyAvailable := true, localVerifiedAtUnixMs := some atUnixMs }
    else row

def markResourceLocal (t : Tables) (descriptor : ContentDescriptor) (verifiedAtUnixMs : Int64) :
    Except ClientStoreError Tables := do
  requireNonnegative verifiedAtUnixMs
  let byteLength ← i64OfU64 descriptor.byteLength .invalidResourceProgress
  require ((resourceRow? t.media descriptor.contentId).any fun row =>
    row.byteLength = byteLength) .resourceDescriptorConflict
  .ok { t with
    media := { t.media with
      resources := markAvailable descriptor.contentId verifiedAtUnixMs t.media.resources
      transfers := settleTransfers descriptor.contentId byteLength verifiedAtUnixMs
        t.media.transfers } }

def descriptorOf (row : ResourceRow) : ContentDescriptor where
  contentId := row.contentId
  byteLength := row.byteLength.toUInt64

def candidateBefore (left right : ResourceRow) : Bool :=
  if left.discoveredAtUnixMs ≠ right.discoveredAtUnixMs then
    left.discoveredAtUnixMs.toInt < right.discoveredAtUnixMs.toInt
  else left.contentId.bytes ≤ right.contentId.bytes

-- What should be here but has not been verified yet.
def resourceScanCandidates (m : MediaTables) (limit : Nat) :
    Except ClientStoreError (List ContentDescriptor) := do
  requireResourceLimit limit
  let candidates := m.resources.filter fun row => !row.locallyAvailable && row.localExpected
  .ok (((candidates.mergeSort candidateBefore).take limit).map descriptorOf)

def TransferRow.isDue (row : TransferRow) (nowUnixMs : Int64) : Bool :=
  match row.state with
  | .pending => row.nextAttemptAtUnixMs.toInt ≤ nowUnixMs.toInt
  | .leased _ expiresAtUnixMs => expiresAtUnixMs.toInt ≤ nowUnixMs.toInt
  | _ => false

def ResourceTransferDirection.rank : ResourceTransferDirection → Nat
  | .download => 0
  | .upload => 1

-- Downloads first, then by time, peer and content.
def transferBefore (left right : TransferRow) : Bool :=
  if left.direction ≠ right.direction then left.direction.rank < right.direction.rank
  else if left.nextAttemptAtUnixMs ≠ right.nextAttemptAtUnixMs then
    left.nextAttemptAtUnixMs.toInt < right.nextAttemptAtUnixMs.toInt
  else if left.peerId ≠ right.peerId then left.peerId < right.peerId
  else left.contentId.bytes ≤ right.contentId.bytes

def dueTransfers (t : Tables) (nowUnixMs : Int64) (limit : Nat) : List TransferRow :=
  ((t.media.transfers.filter fun row =>
    (peer? t.peering row.peerId).any (·.enabled) && row.isDue nowUnixMs).mergeSort
      transferBefore).take limit

def transferItem (peer : PeerConfig) (resource : ResourceRow) (row : TransferRow) :
    ResourceTransferItem where
  peer := peer
  resource := { contentId := resource.contentId, byteLength := resource.byteLength.toUInt64,
                mediaType := resource.mediaType, role := resource.role,
                originalName := resource.originalName }
  direction := row.direction
  attemptCount := row.attemptCount
  remoteUploadUrl := row.remoteUploadUrl
  transferredBytes := row.transferredBytes.toInt.toNat

def updateTransfers (t : Tables) (select : TransferRow → Bool)
    (update : TransferRow → TransferRow) : Tables :=
  { t with
    media := { t.media with
      transfers := t.media.transfers.map fun row => if select row then update row else row } }

def leaseTransfer (leaseId : ResourceTransferLeaseId) (expiresAtUnixMs : Int64) (t : Tables)
    (row : TransferRow) : Except ClientStoreError (Tables × ResourceTransferItem) := do
  let leased := { row with state := .leased leaseId expiresAtUnixMs,
                           attemptCount := row.attemptCount + 1 }
  let t := updateTransfers t (transferClash row) fun _ => leased
  let peer ← okOr (peer? t.peering row.peerId) (.sqlite .noRows)
  let resource ← okOr (resourceRow? t.media row.contentId) (.sqlite .noRows)
  require (0 ≤ resource.byteLength.toInt) (.corruption "expected nonnegative SQLite integer")
  require (leased.attemptCount < 2 ^ 32) (.corruption "resource attempt count overflow")
  .ok (t, transferItem peer resource leased)

def leaseTransfers (leaseId : ResourceTransferLeaseId) (expiresAtUnixMs : Int64) :
    Tables → List TransferRow → Except ClientStoreError (Tables × List ResourceTransferItem)
  | t, [] => .ok (t, [])
  | t, row :: rest => do
    let (t, item) ← leaseTransfer leaseId expiresAtUnixMs t row
    let (t, items) ← leaseTransfers leaseId expiresAtUnixMs t rest
    .ok (t, item :: items)

def leaseDueResources (t : Tables) (nowUnixMs : Int64) (leaseMs limit : Nat)
    (leaseId : ResourceTransferLeaseId) :
    Except ClientStoreError (Tables × List ResourceTransferItem) := do
  requireNonnegative nowUnixMs
  requireResourceLimit limit
  let expires ← leaseExpiry nowUnixMs leaseMs
  leaseTransfers leaseId expires t (dueTransfers t nowUnixMs limit)

section Outcomes

variable (t : Tables) (transfer : LeasedResourceTransfer)

def TransferState.isLeasedBy (leaseId : ResourceTransferLeaseId) : TransferState → Bool
  | .leased holder _ => holder = leaseId
  | _ => false

def isHeld (row : TransferRow) : Bool :=
  row.peerId = transfer.peerId && row.contentId = transfer.contentId &&
    row.direction = transfer.direction && row.state.isLeasedBy transfer.leaseId

def requireHeld : Except ClientStoreError Unit :=
  require (t.media.transfers.any (isHeld transfer)) .resourceLeaseMismatch

def recordResourceProgress (transferredBytes : UInt64) (remoteUploadUrl : Option String) :
    Except ClientStoreError Tables := do
  let transferred ← i64OfU64 transferredBytes .invalidResourceProgress
  requireHeld t transfer
  require ((resourceRow? t.media transfer.contentId).any fun row =>
    transferred.toInt ≤ row.byteLength.toInt) .resourceLeaseMismatch
  .ok (updateTransfers t (isHeld transfer) fun row =>
    { row with transferredBytes := transferred,
               remoteUploadUrl := if row.direction = .upload then remoteUploadUrl else none })

inductive TransferOutcome where
  | complete
  | pending
  | rejected
deriving DecidableEq

def TransferOutcome.state (atUnixMs : Int64) : TransferOutcome → TransferState
  | .complete => .complete atUnixMs
  | .pending => .pending
  | .rejected => .rejected

def finishResourceTransfer (outcome : TransferOutcome) (atUnixMs : Int64)
    (error : Option String) : Except ClientStoreError Tables := do
  requireNonnegative atUnixMs
  require (error.all fun text => (utf8Bytes text).length ≤ MAX_ERROR_BYTES) .deliveryErrorTooLong
  requireHeld t transfer
  -- The key of a transfer refers to its resource.
  let resource ← okOr (resourceRow? t.media transfer.contentId) (.sqlite .noRows)
  let t := updateTransfers t (isHeld transfer) fun row =>
    { row with state := outcome.state atUnixMs, nextAttemptAtUnixMs := atUnixMs,
               transferredBytes :=
                if outcome = .complete then resource.byteLength else row.transferredBytes,
               lastError := error }
  -- A completed download makes the resource available.
  if outcome = .complete && transfer.direction = .download then
    .ok { t with
      media := { t.media with
        resources := markAvailable transfer.contentId atUnixMs t.media.resources
        transfers := settleTransfers transfer.contentId resource.byteLength atUnixMs
          t.media.transfers } }
  else .ok t

def completeResourceTransfer (completedAtUnixMs : Int64) : Except ClientStoreError Tables :=
  finishResourceTransfer t transfer .complete completedAtUnixMs none

def retryResourceTransfer (nextAttemptAtUnixMs : Int64) (error : String) :
    Except ClientStoreError Tables :=
  finishResourceTransfer t transfer .pending nextAttemptAtUnixMs (some error)

def rejectResourceTransfer (rejectedAtUnixMs : Int64) (error : String) :
    Except ClientStoreError Tables :=
  finishResourceTransfer t transfer .rejected rejectedAtUnixMs (some error)

def continueResourceTransfer (nextAttemptAtUnixMs : Int64) : Except ClientStoreError Tables := do
  requireNonnegative nextAttemptAtUnixMs
  requireHeld t transfer
  .ok (updateTransfers t (isHeld transfer) fun row =>
    { row with state := .pending, attemptCount := 0, nextAttemptAtUnixMs, lastError := none })

def waitForLocalResource (peerId : NodeId) (contentId : ContentId)
    (leaseId : ResourceTransferLeaseId) (nextCheckAtUnixMs : Int64) (error : String) :
    Except ClientStoreError Tables := do
  requireNonnegative nextCheckAtUnixMs
  require ((utf8Bytes error).length ≤ MAX_ERROR_BYTES) .deliveryErrorTooLong
  let transfer := { peerId, contentId, direction := .upload, leaseId }
  requireHeld t transfer
  let t := updateTransfers t (isHeld transfer) fun row =>
    { row with state := .waitingLocal, nextAttemptAtUnixMs := nextCheckAtUnixMs,
               lastError := some error }
  .ok { t with
    media := { t.media with
      resources := t.media.resources.map fun row =>
        if row.contentId = contentId then
          { row with locallyAvailable := false, localExpected := true,
                     localVerifiedAtUnixMs := none }
        else row } }

end Outcomes

end Fractonica.Client
