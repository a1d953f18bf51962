import Fractonica.Lib.Tasks
import Fractonica.Store.Sessions

namespace Fractonica.Node

open Lib Trust DataModel Application Pairing Store

-- The libraries and the keys of a node.
structure NodePlatform extends PeerPlatform, Noise where
  -- `Url::parse` and the address of a hint on the local network.
  isSafePairingEndpoint : String → Bool

structure IdentityBundle where
  spaceControllerKey : Ed25519SigningKey
  localWriterKey : Ed25519SigningKey
  nodeTransportKey : Ed25519SigningKey

-- The durable state: the database and the vault of the secrets.
structure NodeState where
  database : Database
  sessions : List PairingSession
  secrets : List ResponderInvitationSecret

section Vault

inductive VaultError where
  | conflict (id : InvitationId)
  | corrupt (id : InvitationId)

variable (secrets : List ResponderInvitationSecret)

def secret? (id : InvitationId) : Option ResponderInvitationSecret :=
  secrets.find? fun secret => secret.invitationId = id

-- True only for the replay of an equal secret.
def storeSecret (secret : ResponderInvitationSecret) :
    List ResponderInvitationSecret × Except VaultError Bool :=
  match secret? secrets secret.invitationId with
  | some existing =>
    if existing = secret then (secrets, .ok true)
    else (secrets, .error (.conflict secret.invitationId))
  | none => (secrets ++ [secret], .ok false)

def loadSecret (id : InvitationId) : Except VaultError (Option ResponderInvitationSecret) :=
  match secret? secrets id with
  | none => .ok none
  | some secret =>
    if secret.invitationId.bytes = FixedBytes.replicate 16 0 ||
        secret.oneTimeSecret = FixedBytes.replicate 32 0 ||
        secret.noiseStaticPrivate = FixedBytes.replicate 32 0 then .error (.corrupt id)
    else .ok (some secret)

def removeSecret (id : InvitationId) : List ResponderInvitationSecret × Bool :=
  (secrets.filter fun secret => secret.invitationId ≠ id, (secret? secrets id).isSome)

end Vault

section Effects

-- Each reads or changes the database in one transaction, or the vault under its
-- lock.
inductive Effect where
  | space (spaceId : SpaceId)
  | entityState (spaceId : SpaceId) (entityId : EntityId)
  | submitOperation (spaceId : SpaceId) (request : SubmitOperationRequest)
  | authorize (spaceId : SpaceId) (actorId : ActorId) (grantOperationId : OperationId)
      (action : CapabilityAction) (now : Int64)
  | pairingSession (id : InvitationId)
  | createPairingSession (descriptor : InvitationDescriptor) (now : Int64)
  | claimPairingSession (arguments : ClaimArguments) (now : Int64)
  | confirmPairingSession (id : InvitationId) (hash : FixedBytes 32) (now : Int64)
  | completePairingSession (id : InvitationId) (grant : OperationId) (now : Int64)
  | cancelPairingSession (id : InvitationId) (now : Int64)
  | planPairingGrant (id : InvitationId) (operation : OperationEnvelope) (now : Int64)
  | activePairingSessions
  | expirePairingSessions (now : Int64)
  | touchPairingSession (id : InvitationId) (now : Int64)
  | storeSecret (secret : ResponderInvitationSecret)
  | loadSecret (id : InvitationId)
  | removeSecret (id : InvitationId)
  | invitationIds

def Answer : Effect → Type
  | .space _ => Except RepositoryError (Option SpaceDescriptor)
  | .entityState _ _ => Except RepositoryError Bool
  | .submitOperation _ _ => Except RepositoryError SubmitOperationResult
  | .authorize _ _ _ _ _ => Except RepositoryError Unit
  | .pairingSession _ => Option PairingSession
  | .createPairingSession _ _ => Except PairingStoreError PairingSession
  | .claimPairingSession _ _ => Except PairingStoreError PairingSession
  | .confirmPairingSession _ _ _ => Except PairingStoreError PairingSession
  | .completePairingSession _ _ _ => Except PairingStoreError PairingSession
  | .cancelPairingSession _ _ => Except PairingStoreError PairingSession
  | .planPairingGrant _ _ _ => Except PairingStoreError PairingSession
  | .activePairingSessions => Except PairingStoreError (List PairingSession)
  | .expirePairingSessions _ => Except PairingStoreError Nat
  | .touchPairingSession _ _ => Except PairingStoreError Unit
  | .storeSecret _ => Except VaultError Bool
  | .loadSecret _ => Except VaultError (Option ResponderInvitationSecret)
  | .removeSecret _ => Bool
  | .invitationIds => List InvitationId

variable (P : NodePlatform) (s : NodeState)

def onSessions {α : Type} (result : List PairingSession × α) : α × NodeState :=
  (result.2, { s with sessions := result.1 })

def handle (effect : Effect) : Answer effect × NodeState :=
  match effect with
  | .space spaceId => (loadSpace P.toPlatform s.database.tables spaceId, s)
  | .entityState spaceId entityId =>
    (hasEntityState P.toPlatform s.database.tables spaceId entityId, s)
  | .submitOperation spaceId request =>
    let (database, answer) := Store.submitOperation P.toPlatform s.database spaceId request
    (answer, { s with database })
  | .authorize spaceId actorId grantOperationId action now =>
    ((authorizeCapabilityAction P.toPrimitives spaceId actorId [grantOperationId] action now
      (capabilityView P.toPlatform s.database.tables)).mapError fun _ => .peerUnauthorized, s)
  | .pairingSession id => (session? s.sessions id, s)
  | .createPairingSession descriptor now => onSessions s (settle s.sessions
      (Store.createPairingSession P.toPeerPlatform s.sessions s.database.tables.spaces descriptor
        now))
  | .claimPairingSession arguments now =>
    onSessions s (Store.claimPairingSession P.toPeerPlatform s.sessions arguments now)
  | .confirmPairingSession id hash now => onSessions s (settle s.sessions
      (Store.confirmPairingSession P.toPeerPlatform s.sessions id hash now))
  | .completePairingSession id grant now => onSessions s (settle s.sessions
      (Store.completePairingSession P.toPeerPlatform s.sessions
        s.database.tables.capabilityGrants id grant now))
  | .cancelPairingSession id now => onSessions s (settle s.sessions
      (Store.cancelPairingSession P.toPeerPlatform s.sessions id now))
  | .planPairingGrant id operation now => onSessions s (settle s.sessions
      (Store.planPairingGrant P.toPeerPlatform s.sessions id operation now))
  | .activePairingSessions => (Store.activePairingSessions s.sessions, s)
  | .expirePairingSessions now => onSessions s (settle s.sessions
      (Store.expirePairingSessions P.toPeerPlatform s.sessions now))
  | .touchPairingSession id now => onSessions s (settle s.sessions
      (Store.touchPairingSession P.toPeerPlatform s.sessions id now))
  | .storeSecret secret =>
    let (secrets, answer) := Node.storeSecret s.secrets secret
    (answer, { s with secrets })
  | .loadSecret id => (Node.loadSecret s.secrets id, s)
  | .removeSecret id =>
    let (secrets, answer) := Node.removeSecret s.secrets id
    (answer, { s with secrets })
  | .invitationIds => (s.secrets.map (·.invitationId), s)

end Effects

-- The text of an invalid request is that of the error it comes from.
inductive InvalidRequest where
  | message (text : String)
  | protocol (error : PairingError)
  | store (error : PairingStoreError)
  | dataModel (error : DataModelError)

inductive PairingControlError where
  | notFound
  | unavailable
  | invalid (request : InvalidRequest)
  | confirmationMismatch
  | storage

inductive DurablePairingError where
  | missingActiveSecret (id : InvitationId)
  | secrets (error : VaultError)
  | database (error : PairingStoreError)

def protocolError (error : PairingError) : PairingControlError := .invalid (.protocol error)

def storeError : PairingStoreError → PairingControlError
  | .notFound => .notFound
  | .unavailable => .unavailable
  | .corrupt _ | .sqlite _ => .storage
  | error => .invalid (.store error)

def durableError : DurablePairingError → PairingControlError
  | .database error => storeError error
  | .missingActiveSecret _ | .secrets _ => .storage

def ask {ε : Type} (effect : Effect) : Program Effect Answer ε (Answer effect) := .ask effect

abbrev Control (α : Type) : Type := Program Effect Answer PairingControlError α

abbrev Durable (α : Type) : Type := Program Effect Answer DurablePairingError α

-- The `?` on a result of the database, and on one of the vault.
def database {α : Type} (result : Except PairingStoreError α) : Durable α :=
  .done (result.mapError .database)

def vault {α : Type} (result : Except VaultError α) : Durable α :=
  .done (result.mapError .secrets)

def removeSecrets : List InvitationId → Nat → Durable Nat
  | [], removed => .done (.ok removed)
  | id :: rest, removed => do
    let found : Bool ← ask (.removeSecret id)
    removeSecrets rest (removed + if found then 1 else 0)

structure ReconcileResult where
  expiredSessions : Nat
  removedSecrets : Nat
  activeSessions : Nat

namespace DurablePairingStore

-- The secret comes first, so a crash leaves at most a secret too many.
def create (issued : IssuedInvitation) (now : Int64) : Durable PairingSession := do
  let replayed : Except VaultError Bool ← ask (.storeSecret issued.secret)
  let replayed ← vault replayed
  let created : Except PairingStoreError PairingSession ←
    ask (.createPairingSession issued.invitation.descriptor now)
  match created with
  | .ok session => .done (.ok session)
  | .error error => do
    if !replayed then
      let _ ← ask (.removeSecret issued.secret.invitationId)
    .done (.error (.database error))

def reconcile (now : Int64) : Durable ReconcileResult := do
  let expired : Except PairingStoreError Nat ← ask (.expirePairingSessions now)
  let expired ← database expired
  let active : Except PairingStoreError (List PairingSession) ← ask .activePairingSessions
  let active ← database active
  let activeIds := active.map PairingSession.invitationId
  let secretIds : List InvitationId ← ask .invitationIds
  match activeIds.find? fun id => !secretIds.contains id with
  | some missing => .done (.error (.missingActiveSecret missing))
  | none => do
    let removed ← removeSecrets (secretIds.filter fun id => !activeIds.contains id) 0
    .done (.ok { expiredSessions := expired, removedSecrets := removed,
                 activeSessions := active.length })

def cancel (id : InvitationId) (now : Int64) : Durable PairingSession := do
  let session : Except PairingStoreError PairingSession ← ask (.cancelPairingSession id now)
  let session ← database session
  let _ ← ask (.removeSecret id)
  .done (.ok session)

def complete (id : InvitationId) (grant : OperationId) (now : Int64) : Durable PairingSession := do
  let session : Except PairingStoreError PairingSession ←
    ask (.completePairingSession id grant now)
  let session ← database session
  let _ ← ask (.removeSecret id)
  .done (.ok session)

def invitationSecret (id : InvitationId) : Durable ResponderInvitationSecret := do
  let secret : Except VaultError (Option ResponderInvitationSecret) ← ask (.loadSecret id)
  let secret ← vault secret
  .done (okOr secret (.missingActiveSecret id))

end DurablePairingStore

-- The `map_err` of a call of the durable store.
def Durable.lift {α : Type} : Durable α → Control α
  | .done result => .done (result.mapError durableError)
  | .perform effect next => .perform effect fun answer => Durable.lift (next answer)

section PairingControl

structure PairingSessionView where
  invitationId : InvitationId
  spaceId : SpaceId
  state : PairingState
  expiresAtUnixMs : Int64
  joinerNodeId : Option NodeId
  subjectActorId : Option ActorId
  confirmationOctal : Option String
  grantOperationId : Option OperationId
deriving DecidableEq

structure PairingCreateCommand where
  spaceId : SpaceId
  expiresInMs : Int64
  endpointHints : List String
  capability : CapabilityGrantTemplate

structure PairingInvitationCreated where
  qr : String
  session : PairingSessionView

structure PairingHandshakeResult where
  responseFrame : List UInt8
  receiptFrame : List UInt8
  session : PairingSessionView

inductive PeerTransportAction where
  | appendOperation
  | readContent
  | writeContent
deriving DecidableEq

structure PeerTransportPrincipal where
  invitationId : InvitationId
  spaceId : SpaceId
  actorId : ActorId
  grantOperationId : OperationId
deriving DecidableEq

-- What a call draws from the random source: one entry for each attempt at an
-- entity, and the keys of a handshake.
structure PlanDraw where
  random : FixedBytes 10
  nonce : FixedBytes 16

structure HandshakeDraw where
  ephemeral : FixedBytes 32
  peerAccessToken : FixedBytes 32
  plans : List PlanDraw

-- `Builder::from_unix_timestamp_millis`: version 7 and the variant are set.
def uuidV7 (timestamp : Nat) (random : FixedBytes 10) : Uuid where
  bytes := {
    bytes := toBE 6 timestamp ++ (random.bytes.mapIdx fun index byte =>
      if index = 0 then byte &&& 0x0f ||| 0x70
      else if index = 2 then byte &&& 0x3f ||| 0x80 else byte)
    length_eq := by simp [toBE, random.length_eq] }

variable (P : NodePlatform) (identity : IdentityBundle)

def view (session : PairingSession) : PairingSessionView where
  invitationId := session.invitationId
  spaceId := session.descriptor.spaceId
  state := session.state
  expiresAtUnixMs := session.descriptor.expiresAtUnixMs
  joinerNodeId := session.joinerNodeId
  subjectActorId := session.subjectActorId
  confirmationOctal := session.handshakeHash.map (confirmationOctal P.toPrimitives)
  grantOperationId := session.grantOperationId.or (session.plannedGrant.map (·.operationId))

-- The session, or an error where it is missing.
def session (id : InvitationId) (missing : PairingControlError) : Control PairingSession := do
  let found : Option PairingSession ← ask (.pairingSession id)
  .done (okOr found missing)

def present {α : Type} (value : Option α) : Control α := .done (okOr value .unavailable)

def demand (condition : Bool) (error : PairingControlError) : Control Unit :=
  .done (require condition error)

def MAX_GRANT_ATTEMPTS : Nat := 16

def signPlan (session : PairingSession) (grant : CapabilityGrant) (entityId : EntityId)
    (nonce : FixedBytes 16) (now : Int64) : Except DataModelError OperationEnvelope :=
  OperationEnvelope.sign P.toPrimitives session.descriptor.spaceId entityId .capabilityGrant []
    [session.descriptor.genesisOperationId] now ⟨nonce⟩ (.capabilityGrant grant)
    identity.spaceControllerKey

-- Draws entities until one is not in use.
def planGrant (session : PairingSession) (grant : CapabilityGrant) (now : Int64) :
    List PlanDraw → Control OperationEnvelope
  | [] => .done (.error .storage)
  | draw :: rest => do
    let entityId : EntityId := ⟨uuidV7 now.toInt.toNat draw.random⟩
    let state : Except RepositoryError Bool ←
      ask (.entityState session.descriptor.spaceId entityId)
    let taken ← .done (state.mapError fun _ => .storage)
    if taken then planGrant session grant now rest
    else do
      let operation ← .done ((signPlan P identity session grant entityId draw.nonce now).mapError
        fun error => .invalid (.dataModel error))
      let planned : Except PairingStoreError PairingSession ←
        ask (.planPairingGrant session.invitationId operation now)
      let planned ← .done (planned.mapError storeError)
      .done (okOr planned.plannedGrant .storage)

def plannedOrNewGrant (session : PairingSession) (now : Int64) (draws : List PlanDraw) :
    Control OperationEnvelope :=
  match session.plannedGrant with
  | some operation => .done (.ok operation)
  | none => do
    let subject ← present session.subjectActorId
    let grant ← .done ((session.descriptor.capability.toGrant P.toPrimitives subject).mapError
      protocolError)
    demand (0 ≤ now.toInt) (.invalid (.message "invalid grant time"))
    demand (now.toInt < 2 ^ 48) (.invalid (.message "grant time exceeds UUIDv7 range"))
    planGrant P identity session grant now (draws.take MAX_GRANT_ATTEMPTS)

-- The frames of a claim are repeated to the device that sent the first frame.
def replayHandshake (found : PairingSession) (firstFrameDigest : FixedBytes 32) (now : Int64)
    (draws : List PlanDraw) : Control PairingHandshakeResult := do
  let claimedAt ← present found.claimedAtUnixMs
  let deadline := claimDeadline found.descriptor.expiresAtUnixMs claimedAt
  let expected ← present found.firstFrameDigest
  demand (found.state = .claimed && claimedAt.toInt ≤ now.toInt && now.toInt < deadline.toInt &&
    expected = firstFrameDigest) .unavailable
  let responseFrame ← present found.responseFrame
  let receiptFrame ← present found.receiptFrame
  let _ ← plannedOrNewGrant P identity found now draws
  let current ← session found.invitationId .storage
  .done (.ok { responseFrame, receiptFrame, session := view P current })

-- The answer of the responder to a first frame, before anything is stored.
def claimOf (found : PairingSession) (secret : ResponderInvitationSecret)
    (firstFrame : List UInt8) (draw : HandshakeDraw) :
    Except PairingControlError ClaimArguments := do
  let noise ← (secret.respond P.toNoise draw.ephemeral firstFrame).mapError fun _ => .unavailable
  let claim ← (JoinerClaim.fromCanonicalBytes P.toPrimitives noise.payload).mapError
    fun _ => .unavailable
  (claim.verifyFor P.toSignaturePrimitives found.descriptor).mapError fun _ => .unavailable
  let receipt := PairingReceipt.sign P.toPrimitives found.descriptor claim noise.handshakeHash
    draw.peerAccessToken identity.nodeTransportKey
  let bytes ← receipt.canonicalBytes.mapError protocolError
  let receiptFrame ← (noise.write bytes).mapError protocolError
  .ok { descriptor := found.descriptor
        claim
        handshakeHash := noise.handshakeHash
        peerTokenDigest := P.sha256 draw.peerAccessToken.bytes
        firstFrameDigest := P.sha256 firstFrame
        responseFrame := noise.responseFrame
        receiptFrame }

namespace NodePairingControl

def createInvitation (request : PairingCreateCommand) (material : InvitationMaterial)
    (now : Int64) : Control PairingInvitationCreated := do
  let found : Except RepositoryError (Option SpaceDescriptor) ← ask (.space request.spaceId)
  let found ← .done (found.mapError fun _ => .storage)
  let space ← .done (okOr found (.invalid (.message "workspace was not found")))
  demand (space.controllerActorId = identity.spaceControllerKey.actorId P.toPrimitives &&
    space.localWriterActorId = identity.localWriterKey.actorId P.toPrimitives &&
    MIN_INVITATION_LIFETIME_MS.toInt ≤ request.expiresInMs.toInt &&
    request.expiresInMs.toInt ≤ MAX_INVITATION_LIFETIME_MS.toInt &&
    request.endpointHints.all P.isSafePairingEndpoint)
    (.invalid (.message "invalid invitation scope"))
  demand (now.toInt + request.expiresInMs.toInt < 2 ^ 63) (.invalid (.message "invalid expiry"))
  let issued ← .done ((PairingInvitation.issueWithMaterial P.toPrimitives P.toNoise
    identity.nodeTransportKey
    { spaceId := request.spaceId, genesisOperationId := space.genesisOperationId,
      nowUnixMs := now, expiresAtUnixMs := now + request.expiresInMs,
      endpointHints := request.endpointHints, capability := request.capability }
    material).mapError protocolError)
  let qr ← .done (issued.invitation.toQrString.mapError protocolError)
  let session ← Durable.lift (DurablePairingStore.create issued now)
  .done (.ok { qr, session := view P session })

def handshake (id : InvitationId) (firstFrame : List UInt8) (draw : HandshakeDraw) (now : Int64) :
    Control PairingHandshakeResult := do
  let found ← session id .notFound
  let firstFrameDigest := P.sha256 firstFrame
  if found.state = .claimed then
    replayHandshake P identity found firstFrameDigest now draw.plans
  else do
    demand (found.state = .created) .unavailable
    let secret ← Durable.lift (DurablePairingStore.invitationSecret id)
    let arguments ← .done (claimOf P identity found secret firstFrame draw)
    let claimed : Except PairingStoreError PairingSession ←
      ask (.claimPairingSession arguments now)
    match claimed with
    | .error .unavailable => do
      let current ← session id .storage
      replayHandshake P identity current firstFrameDigest now draw.plans
    | .error error => .done (.error (storeError error))
    | .ok claimed => do
      let _ ← plannedOrNewGrant P identity claimed now draw.plans
      let current ← session id .storage
      .done (.ok { responseFrame := arguments.responseFrame
                   receiptFrame := arguments.receiptFrame
                   session := view P current })

-- Admits the grant of a confirmed session and completes it.
def admitGrant (id : InvitationId) (confirmed : PairingSession) (draws : List PlanDraw)
    (now : Int64) : Control PairingSessionView := do
  let operation ← plannedOrNewGrant P identity confirmed now draws
  let submitted : Except RepositoryError SubmitOperationResult ←
    ask (.submitOperation confirmed.descriptor.spaceId ⟨operation, now⟩)
  let _ ← .done (submitted.mapError fun _ => .storage)
  let completed ← Durable.lift (DurablePairingStore.complete id operation.operationId now)
  .done (.ok (view P completed))

def confirm (id : InvitationId) (supplied : String) (draws : List PlanDraw) (now : Int64) :
    Control PairingSessionView := do
  let found ← session id .notFound
  let hash ← present found.handshakeHash
  demand (supplied = confirmationOctal P.toPrimitives hash) .confirmationMismatch
  match found.state with
  | .completed => do
    let _ ← ask (.removeSecret id)
    .done (.ok (view P found))
  | .claimed => do
    let confirmed : Except PairingStoreError PairingSession ←
      ask (.confirmPairingSession id hash now)
    let confirmed ← .done (confirmed.mapError storeError)
    admitGrant P identity id confirmed draws now
  | .confirmed => admitGrant P identity id found draws now
  | _ => .done (.error .unavailable)

def accept (id : InvitationId) (acceptance : List UInt8) (draws : List PlanDraw) (now : Int64) :
    Control PairingSessionView := do
  let found ← session id .notFound
  demand (0 ≤ now.toInt && now.toInt < found.descriptor.expiresAtUnixMs.toInt) .unavailable
  let claimDigest ← present found.claimDigest
  let handshakeHash ← present found.handshakeHash
  let joinerNodeId ← present found.joinerNodeId
  let subjectActorId ← present found.subjectActorId
  let grantOperationId ← present
    (found.grantOperationId.or (found.plannedGrant.map (·.operationId)))
  let acceptance ← .done ((PairingAcceptance.fromCanonicalBytes P.toPrimitives acceptance).mapError
    fun _ => .unavailable)
  .done ((acceptance.verifyFor P.toSignaturePrimitives found.descriptor claimDigest handshakeHash
    joinerNodeId subjectActorId grantOperationId).mapError fun _ => .unavailable)
  confirm P identity id (confirmationOctal P.toPrimitives handshakeHash) draws now

def cancel (id : InvitationId) (now : Int64) : Control PairingSessionView := do
  let session ← Durable.lift (DurablePairingStore.cancel id now)
  .done (.ok (view P session))

def capabilityOf : PeerTransportAction → CapabilityAction
  | .appendOperation => .appendOperation
  | .readContent => .readSpace
  | .writeContent => .writeContent

def authenticatePeerTransport (id : InvitationId) (token : FixedBytes 32)
    (action : PeerTransportAction) (now : Int64) : Control PeerTransportPrincipal := do
  let found ← session id .unavailable
  demand (found.state = .completed) .unavailable
  let expected ← present found.peerTokenDigest
  demand (P.sha256 token.bytes = expected) .unavailable
  let actorId ← present found.subjectActorId
  let grantOperationId ← present found.grantOperationId
  let authorized : Except RepositoryError Unit ← ask (.authorize found.descriptor.spaceId actorId
    grantOperationId (capabilityOf action) now)
  .done (authorized.mapError fun _ => .unavailable)
  let touched : Except PairingStoreError Unit ← ask (.touchPairingSession id now)
  .done (touched.mapError storeError)
  .done (.ok { invitationId := id, spaceId := found.descriptor.spaceId, actorId,
               grantOperationId })

end NodePairingControl

end PairingControl

section Service

inductive Call where
  | reconcile (now : Int64)
  | createInvitation (request : PairingCreateCommand) (material : InvitationMaterial)
      (now : Int64)
  | handshake (id : InvitationId) (firstFrame : List UInt8) (draw : HandshakeDraw) (now : Int64)
  | confirm (id : InvitationId) (supplied : String) (draws : List PlanDraw) (now : Int64)
  | accept (id : InvitationId) (acceptance : List UInt8) (draws : List PlanDraw) (now : Int64)
  | cancel (id : InvitationId) (now : Int64)
  | authenticatePeerTransport (id : InvitationId) (token : FixedBytes 32)
      (action : PeerTransportAction) (now : Int64)

inductive Reply where
  | reconciled (result : ReconcileResult)
  | created (invitation : PairingInvitationCreated)
  | handshake (result : PairingHandshakeResult)
  | session (view : PairingSessionView)
  | principal (principal : PeerTransportPrincipal)

def reply {α : Type} (wrap : α → Reply) (control : Control α) : Control Reply := do
  let value ← control
  .done (.ok (wrap value))

variable (P : NodePlatform) (identity : IdentityBundle)

def body : Call → Control Reply
  | .reconcile now => reply .reconciled (Durable.lift (DurablePairingStore.reconcile now))
  | .createInvitation request material now =>
    reply .created (NodePairingControl.createInvitation P identity request material now)
  | .handshake id firstFrame draw now =>
    reply .handshake (NodePairingControl.handshake P identity id firstFrame draw now)
  | .confirm id supplied draws now =>
    reply .session (NodePairingControl.confirm P identity id supplied draws now)
  | .accept id acceptance draws now =>
    reply .session (NodePairingControl.accept P identity id acceptance draws now)
  | .cancel id now => reply .session (NodePairingControl.cancel P id now)
  | .authenticatePeerTransport id token action now =>
    reply .principal (NodePairingControl.authenticatePeerTransport P id token action now)

def Call.recovers : Call → Bool
  | .reconcile _ => true
  | _ => false

-- What the other parts of the node do: they establish spaces and admit
-- operations.
inductive Outside (P : NodePlatform) : NodeState → NodeState → Prop
  | bootstrap (s : NodeState) (request : TrustedSpaceBootstrapRequest) :
      Outside P s { s with database := (bootstrapTrustedSpace P.toPlatform s.database request).1 }
  | submit (s : NodeState) (spaceId : SpaceId) (request : SubmitOperationRequest) :
      Outside P s { s with database := (submitOperation P.toPlatform s.database spaceId request).1 }

def service : Service Call Effect Answer PairingControlError Reply NodeState where
  handle effect s := handle P s effect
  body := body P identity
  recovers := Call.recovers
  outside := Outside P

abbrev PairingSystem : Type := System Call Effect Answer PairingControlError Reply NodeState

-- A node that was just installed.
def fresh : PairingSystem where
  state := { database := .empty, sessions := [], secrets := [] }
  serving := false
  tasks := []
  answers := []

end Service

end Fractonica.Node
