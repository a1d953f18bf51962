import Fractonica.Pairing.Messages
import Fractonica.Store.PeerReads

namespace Fractonica.Store

open Lib Trust DataModel Pairing

inductive SessionConstraint where
  | check
  | foreignKey
deriving DecidableEq

inductive PairingStoreError where
  | notFound
  | unavailable
  | conflict
  | invalidTime
  | corrupt (detail : String)
  | invalidGrantPlan
  | protocol (error : PairingError)
  | sqlite (violation : SessionConstraint)

-- A row of `pairing_sessions`. The descriptor and the planned grant are kept as
-- what their stored bytes and text denote.
structure PairingSession where
  invitationId : InvitationId
  descriptor : InvitationDescriptor
  state : PairingState
  createdAtUnixMs : Int64
  claimedAtUnixMs : Option Int64
  claimedExpiresAtUnixMs : Option Int64
  confirmedAtUnixMs : Option Int64
  completedAtUnixMs : Option Int64
  terminalAtUnixMs : Option Int64
  claimDigest : Option (FixedBytes 32)
  handshakeHash : Option (FixedBytes 32)
  joinerNodeId : Option NodeId
  subjectActorId : Option ActorId
  plannedGrantOperationId : Option OperationId
  plannedGrant : Option OperationEnvelope
  grantPlannedAtUnixMs : Option Int64
  grantOperationId : Option OperationId
  peerTokenDigest : Option (FixedBytes 32)
  lastSeenAtUnixMs : Option Int64
  firstFrameDigest : Option (FixedBytes 32)
  responseFrame : Option (List UInt8)
  receiptFrame : Option (List UInt8)

namespace PairingSession

def isTerminal (row : PairingSession) : Bool :=
  row.state = .completed || row.state = .cancelled || row.state = .expired

def isActive (row : PairingSession) : Bool :=
  row.state = .created || row.state = .claimed || row.state = .confirmed

def isUnclaimed (row : PairingSession) : Bool :=
  row.claimedAtUnixMs.isNone && row.claimedExpiresAtUnixMs.isNone && row.claimDigest.isNone &&
    row.handshakeHash.isNone && row.joinerNodeId.isNone && row.subjectActorId.isNone

def isClaimed (row : PairingSession) : Bool :=
  row.claimedAtUnixMs.isSome && row.claimedExpiresAtUnixMs.isSome && row.claimDigest.isSome &&
    row.handshakeHash.isSome && row.joinerNodeId.isSome && row.subjectActorId.isSome

def isFrame (frame : List UInt8) : Bool := 1 ≤ frame.length && frame.length ≤ 16384

def isPlan (P : Platform) (operation : OperationEnvelope) : Bool :=
  let text := projectionText P operation
  2 ≤ text.length && text.length ≤ 262144 && P.jsonValid text && P.jsonIsObject text

def isDescriptor (descriptor : InvitationDescriptor) : Bool :=
  match descriptor.canonicalBytes with
  | .ok bytes => 1 ≤ bytes.length && bytes.length ≤ 4096
  | .error _ => false

-- The CHECKs of the table. A comparison with a missing value holds.
def checks (P : Platform) (row : PairingSession) : Bool :=
  isDescriptor row.descriptor && 0 ≤ row.descriptor.expiresAtUnixMs.toInt &&
    0 ≤ row.createdAtUnixMs.toInt &&
    row.createdAtUnixMs.toInt < row.descriptor.expiresAtUnixMs.toInt &&
    (row.state = .created && row.isUnclaimed ||
      (row.state = .claimed || row.state = .confirmed || row.state = .completed) &&
        row.isClaimed ||
      row.state = .cancelled || row.state = .expired) &&
    (row.state = .confirmed || row.state = .completed) = row.confirmedAtUnixMs.isSome &&
    row.claimedExpiresAtUnixMs.all (·.toInt ≤ row.descriptor.expiresAtUnixMs.toInt) &&
    decide (row.state = .completed) = row.completedAtUnixMs.isSome &&
    decide (row.state = .completed) = row.grantOperationId.isSome &&
    row.plannedGrantOperationId.isNone = row.plannedGrant.isNone &&
    row.plannedGrantOperationId.isNone = row.grantPlannedAtUnixMs.isNone &&
    (row.state ≠ .completed || row.grantOperationId.all fun grant =>
      row.plannedGrantOperationId.all fun planned => grant = planned) &&
    row.isTerminal = row.terminalAtUnixMs.isSome &&
    row.plannedGrant.all (isPlan P) && row.lastSeenAtUnixMs.all (0 ≤ ·.toInt) &&
    row.responseFrame.all isFrame && row.receiptFrame.all isFrame

def create (descriptor : InvitationDescriptor) (now : Int64) : PairingSession where
  invitationId := descriptor.invitationId
  descriptor := descriptor
  state := .created
  createdAtUnixMs := now
  claimedAtUnixMs := none
  claimedExpiresAtUnixMs := none
  confirmedAtUnixMs := none
  completedAtUnixMs := none
  terminalAtUnixMs := none
  claimDigest := none
  handshakeHash := none
  joinerNodeId := none
  subjectActorId := none
  plannedGrantOperationId := none
  plannedGrant := none
  grantPlannedAtUnixMs := none
  grantOperationId := none
  peerTokenDigest := none
  lastSeenAtUnixMs := none
  firstFrameDigest := none
  responseFrame := none
  receiptFrame := none

end PairingSession

section Statements

variable (P : PeerPlatform) (sessions : List PairingSession)

def session? (id : InvitationId) : Option PairingSession :=
  sessions.find? fun row => row.invitationId = id

-- `UPDATE`, with the number of rows it changes.
def updateSessions (selects : PairingSession → Bool) (set : PairingSession → PairingSession) :
    Except PairingStoreError (List PairingSession × Nat) := do
  let updated := sessions.map fun row => if selects row then set row else row
  require (updated.all (·.checks P.toPlatform)) (.sqlite .check)
  .ok (updated, (sessions.filter selects).length)

-- An update of the one session with the given name.
def transition (id : InvitationId) (selects : PairingSession → Bool)
    (set : PairingSession → PairingSession) :
    Except PairingStoreError (List PairingSession × PairingSession) := do
  let (sessions, changed) ← updateSessions P sessions
    (fun row => row.invitationId = id && selects row) set
  require (changed = 1) .unavailable
  let session ← okOr (session? sessions id) (.corrupt "transition disappeared")
  .ok (sessions, session)

-- A failed statement changes nothing.
def settle {α : Type} (result : Except PairingStoreError (List PairingSession × α)) :
    List PairingSession × Except PairingStoreError α :=
  match result with
  | .error error => (sessions, .error error)
  | .ok (sessions, value) => (sessions, .ok value)

end Statements

section Repository

variable (P : PeerPlatform) (sessions : List PairingSession)

def sameSession (row other : PairingSession) : Bool :=
  row.invitationId = other.invitationId ||
    row.descriptor.digest P.toPrimitives = other.descriptor.digest P.toPrimitives

-- `INSERT OR IGNORE` drops a row that breaks a CHECK or whose key is taken; a
-- foreign key still fails.
def createPairingSession (spaces : List SpaceRow) (descriptor : InvitationDescriptor)
    (now : Int64) : Except PairingStoreError (List PairingSession × PairingSession) := do
  require (0 ≤ now.toInt && now.toInt < descriptor.expiresAtUnixMs.toInt) .invalidTime
  let _ ← descriptor.canonicalBytes.mapError .protocol
  let row := PairingSession.create descriptor now
  let inserted := row.checks P.toPlatform && !sessions.any (sameSession P row)
  require (!inserted || spaces.any (·.spaceId = descriptor.spaceId)) (.sqlite .foreignKey)
  let sessions := if inserted then sessions ++ [row] else sessions
  let session ← okOr (session? sessions descriptor.invitationId) (.corrupt "insert disappeared")
  require (inserted || session.descriptor = descriptor) .conflict
  .ok (sessions, session)

structure ClaimArguments where
  descriptor : InvitationDescriptor
  claim : JoinerClaim
  handshakeHash : FixedBytes 32
  peerTokenDigest : FixedBytes 32
  firstFrameDigest : FixedBytes 32
  responseFrame : List UInt8
  receiptFrame : List UInt8
deriving DecidableEq

-- A claim lasts two minutes, and no longer than its invitation.
def claimDeadline (expires claimedAt : Int64) : Int64 :=
  Int64.ofInt (min expires.toInt (claimedAt.toInt + 120000))

def PairingSession.claim (P : Primitives) (arguments : ClaimArguments) (now : Int64)
    (row : PairingSession) : PairingSession :=
  { row with
    state := .claimed
    claimedAtUnixMs := some now
    claimedExpiresAtUnixMs := some (claimDeadline row.descriptor.expiresAtUnixMs now)
    claimDigest := some (arguments.claim.digest P)
    handshakeHash := some arguments.handshakeHash
    joinerNodeId := some arguments.claim.joinerNodeId
    subjectActorId := some arguments.claim.subjectActorId
    peerTokenDigest := some arguments.peerTokenDigest
    firstFrameDigest := some arguments.firstFrameDigest
    responseFrame := some arguments.responseFrame
    receiptFrame := some arguments.receiptFrame }

def PairingSession.expire (now : Int64) (row : PairingSession) : PairingSession :=
  { row with state := .expired, terminalAtUnixMs := some now }

def PairingSession.confirm (now : Int64) (row : PairingSession) : PairingSession :=
  { row with state := .confirmed, confirmedAtUnixMs := some now }

def PairingSession.complete (grant : OperationId) (now : Int64) (row : PairingSession) :
    PairingSession :=
  { row with
    state := .completed
    completedAtUnixMs := some now
    terminalAtUnixMs := some now
    grantOperationId := some grant }

def PairingSession.cancel (now : Int64) (row : PairingSession) : PairingSession :=
  { row with state := .cancelled, terminalAtUnixMs := some now }

def PairingSession.touch (now : Int64) (row : PairingSession) : PairingSession :=
  { row with lastSeenAtUnixMs := some (laterOf (row.lastSeenAtUnixMs.getD 0) now) }

def validateClaim (arguments : ClaimArguments) (now : Int64) :
    Except PairingStoreError PairingSession := do
  (arguments.claim.verifyFor P.toSignaturePrimitives arguments.descriptor).mapError .protocol
  require (0 ≤ now.toInt && arguments.handshakeHash ≠ FixedBytes.replicate 32 0 &&
    arguments.peerTokenDigest ≠ FixedBytes.replicate 32 0 &&
    PairingSession.isFrame arguments.responseFrame &&
    PairingSession.isFrame arguments.receiptFrame) .invalidTime
  let current ← okOr (session? sessions arguments.descriptor.invitationId) .notFound
  require (current.descriptor = arguments.descriptor) .conflict
  .ok current

-- A claim that comes too late closes the invitation, and this is kept.
def expireUnclaimed (id : InvitationId) (now : Int64) :
    List PairingSession × Except PairingStoreError PairingSession :=
  match updateSessions P sessions
    (fun row => row.invitationId = id && row.state = .created) (PairingSession.expire now) with
  | .error error => (sessions, .error error)
  | .ok (sessions, _) => (sessions, .error .unavailable)

def claimPairingSession (arguments : ClaimArguments) (now : Int64) :
    List PairingSession × Except PairingStoreError PairingSession :=
  let descriptor := arguments.descriptor
  match validateClaim P sessions arguments now with
  | .error error => (sessions, .error error)
  | .ok current =>
    if descriptor.expiresAtUnixMs.toInt ≤ now.toInt then
      if current.state = .created then expireUnclaimed P sessions descriptor.invitationId now
      else (sessions, .error .unavailable)
    else settle sessions (transition P sessions descriptor.invitationId
      (fun row => row.state = .created) (PairingSession.claim P.toPrimitives arguments now))

def confirmPairingSession (id : InvitationId) (hash : FixedBytes 32) (now : Int64) :
    Except PairingStoreError (List PairingSession × PairingSession) := do
  require (0 ≤ now.toInt) .invalidTime
  transition P sessions id (fun row => row.state = .claimed && row.handshakeHash = some hash)
    (PairingSession.confirm now)

-- The grant must have been planned and admitted.
def completePairingSession (grants : List GrantRow) (id : InvitationId) (grant : OperationId)
    (now : Int64) : Except PairingStoreError (List PairingSession × PairingSession) := do
  require (0 ≤ now.toInt) .invalidTime
  transition P sessions id
    (fun row => row.state = .confirmed && row.plannedGrantOperationId = some grant &&
      grants.any fun admitted => admitted.spaceId = row.descriptor.spaceId &&
        admitted.grantOperationId = grant && row.subjectActorId = some admitted.subjectActorId)
    (PairingSession.complete grant now)

def cancelPairingSession (id : InvitationId) (now : Int64) :
    Except PairingStoreError (List PairingSession × PairingSession) := do
  require (0 ≤ now.toInt) .invalidTime
  transition P sessions id (fun row => row.state = .created || row.state = .claimed)
    (PairingSession.cancel now)

def plannedGrantBody : OperationBody → Except PairingStoreError CapabilityGrant
  | .capabilityGrant grant => .ok grant
  | _ => .error .invalidGrantPlan

def PairingSession.awaitsGrant (row : PairingSession) : Bool :=
  row.state = .claimed || row.state = .confirmed

def PairingSession.plan (operation : OperationEnvelope) (now : Int64) (row : PairingSession) :
    PairingSession :=
  { row with
    plannedGrantOperationId := some operation.operationId
    plannedGrant := some operation
    grantPlannedAtUnixMs := some now }

def planPairingGrant (id : InvitationId) (operation : OperationEnvelope) (now : Int64) :
    Except PairingStoreError (List PairingSession × PairingSession) := do
  (operation.verify P.toPrimitives).mapError fun error => .protocol (.dataModel error)
  require (0 ≤ now.toInt && operation.schema = .capabilityGrant) .invalidGrantPlan
  let grant ← plannedGrantBody operation.body
  let current ← okOr (session? sessions id) .notFound
  require (current.awaitsGrant && current.descriptor.spaceId = operation.spaceId &&
    current.subjectActorId = some grant.subject) .invalidGrantPlan
  match current.plannedGrant with
  | some existing => do
    require (existing == operation) .conflict
    .ok (sessions, current)
  | none =>
    transition P sessions id (fun row => row.awaitsGrant && row.plannedGrantOperationId.isNone)
      (PairingSession.plan operation now)

def activePairingSessions : Except PairingStoreError (List PairingSession) := do
  let active := sessions.filter PairingSession.isActive
  require (active.length ≤ 1024) (.corrupt "too many active pairings")
  .ok active

def PairingSession.isStale (now : Int64) (row : PairingSession) : Bool :=
  row.state = .created && row.descriptor.expiresAtUnixMs.toInt ≤ now.toInt ||
    row.state = .claimed && row.claimedExpiresAtUnixMs.any (·.toInt ≤ now.toInt)

def expirePairingSessions (now : Int64) :
    Except PairingStoreError (List PairingSession × Nat) := do
  require (0 ≤ now.toInt) .invalidTime
  updateSessions P sessions (PairingSession.isStale now) (PairingSession.expire now)

def touchPairingSession (id : InvitationId) (now : Int64) :
    Except PairingStoreError (List PairingSession × Unit) := do
  require (0 ≤ now.toInt) .invalidTime
  let (sessions, changed) ← updateSessions P sessions
    (fun row => row.invitationId = id && row.state = .completed) (PairingSession.touch now)
  require (changed = 1) .unavailable
  .ok (sessions, ())

end Repository

section Entities

variable (P : Platform) (t : Tables)

-- Whether `entity_state` finds an entity.
def hasEntityState (spaceId : SpaceId) (entityId : EntityId) : Except RepositoryError Bool := do
  requireSpace P t spaceId
  match ((entityOperations t spaceId entityId).map (·.schema)).dedup with
  | [] => .ok false
  | [schema] => do
    let heads := (currentHeads t spaceId entityId).filter fun row => row.schema = schema
    checkAll (fun row => liftCorrupt (do
      let _ ← loadStored P t row.operationId
      .ok ())) heads
    require (!heads.isEmpty)
      (.corruption ("entity " ++ entityId.toText ++ " has history but no heads"))
    require (heads.length ≤ MAX_ENTITY_HEADS)
      (.corruption ("entity " ++ entityId.toText ++ " exceeds the 64-head limit"))
    .ok true
  | schemas => .error (.corruption ("entity " ++ entityId.toText ++ " has " ++
      toString schemas.length ++ " stored schemas"))

end Entities

end Fractonica.Store
