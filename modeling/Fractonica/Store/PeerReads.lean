import Fractonica.Peer.Proof
import Fractonica.Store.Changes

namespace Fractonica.Store

open Lib Trust DataModel Application Peer List

def MAX_ACTIVE_PEER_NONCES_PER_SESSION : Nat := 4096
def PEER_NONCE_CLEANUP_BATCH : Nat := 1024

structure PeerPlatform extends Platform, SignaturePrimitives

structure PeerReadChangesRequest where
  proof : PeerReadChangesProof
  receivedAtUnixMs : Int64

inductive PairingState where
  | created
  | claimed
  | confirmed
  | completed
  | cancelled
  | expired
deriving DecidableEq

-- The columns of `pairing_sessions` that a read compares.
structure PairingRow where
  invitationId : PeerSessionId
  state : PairingState
  spaceId : SpaceId
  joinerNodeId : Option NodeId
  subjectActorId : Option ActorId
  grantOperationId : Option OperationId

structure NonceRow where
  invitationId : PeerSessionId
  nonce : PeerRequestNonce
  expiresAtUnixMs : Int64
  consumedAtUnixMs : Int64
deriving DecidableEq

def NonceRow.key (row : NonceRow) : PeerSessionId × PeerRequestNonce :=
  (row.invitationId, row.nonce)

-- `peer_request_nonces`, with its primary key.
structure NonceTable where
  rows : List NonceRow
  keys : (rows.map NonceRow.key).Nodup

namespace NonceTable

def empty : NonceTable := ⟨[], List.nodup_nil⟩

-- The expired rows that one request removes, oldest first.
def expired (nonces : NonceTable) (now : Int64) : List NonceRow :=
  ((nonces.rows.filter fun row => row.expiresAtUnixMs.toInt ≤ now.toInt).mergeSort
    fun left right => left.expiresAtUnixMs.toInt ≤ right.expiresAtUnixMs.toInt).take
      PEER_NONCE_CLEANUP_BATCH

def clean (nonces : NonceTable) (now : Int64) : NonceTable where
  rows := nonces.rows.filter fun row => !((nonces.expired now).map NonceRow.key).contains row.key
  keys := nonces.keys.sublist (filter_sublist.map _)

def contains (nonces : NonceTable) (key : PeerSessionId × PeerRequestNonce) : Bool :=
  (nonces.rows.map NonceRow.key).contains key

def active (nonces : NonceTable) (invitationId : PeerSessionId) (now : Int64) : Nat :=
  (nonces.rows.filter fun row =>
    row.invitationId = invitationId && now.toInt < row.expiresAtUnixMs.toInt).length

def insert (nonces : NonceTable) (sessions : List PairingRow) (row : NonceRow) :
    Except StorageError NonceTable :=
  if !(0 ≤ row.expiresAtUnixMs.toInt && 0 ≤ row.consumedAtUnixMs.toInt) then
    .error (.check .peerRequestNonces)
  else if h : nonces.contains row.key = true then .error (.unique .peerRequestNonces)
  else if !sessions.any (·.invitationId = row.invitationId) then
    .error (.foreignKey .peerRequestNonces)
  else
    .ok { rows := nonces.rows ++ [row]
          keys := by
            rw [map_append, map_singleton, ← concat_eq_append]
            refine List.Nodup.concat ?_ nonces.keys
            rwa [contains, contains_iff_mem] at h }

end NonceTable

structure Node where
  database : Database
  pairingSessions : List PairingRow
  peerRequestNonces : NonceTable

def Node.empty : Node where
  database := .empty
  pairingSessions := []
  peerRequestNonces := .empty

section Reads

variable (P : PeerPlatform) (node : Node) (request : PeerReadChangesRequest)

def pairingMatches (sessions : List PairingRow) (proof : PeerReadChangesProof) : Bool :=
  sessions.any fun row => row.invitationId = proof.sessionId && row.state = .completed &&
    row.spaceId = proof.spaceId && row.joinerNodeId = some proof.nodeId &&
    row.subjectActorId = some proof.actorId &&
    row.grantOperationId = some proof.grantOperationId

def nonceRow : NonceRow where
  invitationId := request.proof.sessionId
  nonce := request.proof.nonce
  expiresAtUnixMs := request.proof.expiresAtUnixMs
  consumedAtUnixMs := request.receivedAtUnixMs

-- The transaction of a read. The time is the sample of the caller, not the
-- admission clock.
def readPeerChanges : Except RepositoryError (NonceTable × OperationChangePage) := do
  let proof := request.proof
  let now := request.receivedAtUnixMs
  (proof.verify P.toSignaturePrimitives now).mapError fun _ => .peerUnauthorized
  require (pairingMatches node.pairingSessions proof) .peerUnauthorized
  (authorizeCapabilityAction P.toPrimitives proof.spaceId proof.actorId [proof.grantOperationId]
    .readSpace now (capabilityView P.toPlatform node.database.tables)).mapError
      fun _ => .peerUnauthorized
  let nonces := node.peerRequestNonces.clean now
  require (!nonces.contains (proof.sessionId, proof.nonce)) .peerReplay
  require (nonces.active proof.sessionId now < MAX_ACTIVE_PEER_NONCES_PER_SESSION)
    .peerUnauthorized
  let nonces ← liftStorage (nonces.insert node.pairingSessions (nonceRow request))
  let page ← loadChanges P.toPlatform node.database.tables proof.spaceId proof.after.toNat
    proof.limit.toNat
  .ok (nonces, page)

def peerChanges : Node × Except RepositoryError OperationChangePage :=
  match readPeerChanges P node request with
  | .error error => (node, .error error)
  | .ok (nonces, page) => ({ node with peerRequestNonces := nonces }, .ok page)

end Reads

-- What else happens at a node: the calls of its store, and the changes of the
-- pairing sessions, which are not modelled.
inductive NodeStep (P : PeerPlatform) (node : Node) : Node → Prop
  | call {database : Database} (step : Step P.toPlatform node.database database) :
      NodeStep P node { node with database }
  | pair (pairingSessions : List PairingRow) : NodeStep P node { node with pairingSessions }

-- A run of a node, with the reads that it accepted.
inductive NodeRun (P : PeerPlatform) (start : Node) : List PeerReadChangesRequest → Node → Prop
  | refl : NodeRun P start [] start
  | step {accepted : List PeerReadChangesRequest} {node node' : Node}
      (run : NodeRun P start accepted node) (step : NodeStep P node node') :
      NodeRun P start accepted node'
  | refused {accepted : List PeerReadChangesRequest} {node : Node}
      (run : NodeRun P start accepted node) (request : PeerReadChangesRequest)
      (refused : (peerChanges P node request).2.isOk = false) :
      NodeRun P start accepted (peerChanges P node request).1
  | accepted {accepted : List PeerReadChangesRequest} {node : Node}
      (run : NodeRun P start accepted node) (request : PeerReadChangesRequest)
      (ok : (peerChanges P node request).2.isOk = true) :
      NodeRun P start (accepted ++ [request]) (peerChanges P node request).1

end Fractonica.Store
