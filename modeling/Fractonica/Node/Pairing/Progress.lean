import Fractonica.Node.Pairing.Admission
import Fractonica.Pairing.Messages.Theorems

namespace Fractonica.Node

open Lib Trust DataModel Application Pairing Store List

section Progress

variable {identity : IdentityBundle} {id : InvitationId} {claimed planned : PairingSession}
  {operation : OperationEnvelope} {hash : FixedBytes 32} {now : Int64}
  {secret : ResponderInvitationSecret}

theorem runAlone_session (hrow : session? s.sessions id = some row)
    (missing : PairingControlError) :
    runAlone P identity (session id missing) s = (.ok row, s) := by
  change (okOr (session? s.sessions id) missing, s) = _
  rw [hrow]
  rfl

theorem runAlone_planned (hplanned : row.plannedGrant = some operation) :
    runAlone P identity (plannedOrNewGrant P identity row now draws) s = (.ok operation, s) := by
  simp only [plannedOrNewGrant, hplanned]
  rfl

theorem NodeInv.confirm_claimed (h : NodeInv P identity s)
    (hrow : session? s.sessions id = some row) (hstate : row.state = .claimed)
    (hhash : row.handshakeHash = some hash) (hnow : 0 ≤ now.toInt) :
    handle P s (.confirmPairingSession id hash now) =
      (.ok (row.confirm now), { s with
        sessions := replaceSession s.sessions (row.confirm now) }) := by
  have hchecked := checks_iff.mp (h.sessions.checks row (session?_eq_some hrow).1)
  have hconfirm := h.sessions.confirm_eq_ok.mpr ⟨hnow, row, hrow, hstate, hhash,
    checks_iff.mpr (hchecked.confirm hstate now), rfl, rfl⟩
  simp only [handle, onSessions, settle_ok hconfirm]

theorem runAlone_invitationSecret (hfound : secret? s.secrets id = some secret)
    (hvalid : secret.invitationId.bytes ≠ FixedBytes.replicate 16 0 ∧
      secret.oneTimeSecret ≠ FixedBytes.replicate 32 0 ∧
      secret.noiseStaticPrivate ≠ FixedBytes.replicate 32 0) :
    runAlone P identity (Durable.lift (DurablePairingStore.invitationSecret id)) s =
      (.ok secret, s) := by
  have hload : handle P s (.loadSecret id) = (.ok (some secret), s) := by
    simp [handle, loadSecret, hfound, decide_eq_false hvalid.1, decide_eq_false hvalid.2.1,
      decide_eq_false hvalid.2.2]
  apply runAlone_lift_ask.mpr
  rw [hload]
  rfl

-- The first entity that is drawn is free.
theorem runAlone_planGrant {grant : CapabilityGrant} {draw : PlanDraw} {rest : List PlanDraw}
    (hfree : hasEntityState P.toPlatform s.database.tables row.descriptor.spaceId
      ⟨uuidV7 now.toInt.toNat draw.random⟩ = .ok false)
    (hsigned : signPlan P identity row grant ⟨uuidV7 now.toInt.toNat draw.random⟩ draw.nonce now =
      .ok operation)
    (hplanned : handle P s (.planPairingGrant row.invitationId operation now) = (.ok planned, s₁))
    (hgrant : planned.plannedGrant = some operation) :
    runAlone P identity (planGrant P identity row grant now (draw :: rest)) s =
      (.ok operation, s₁) := by
  have hstate : handle P s (.entityState row.descriptor.spaceId
      ⟨uuidV7 now.toInt.toNat draw.random⟩) = (.ok false, s) := Prod.ext hfree rfl
  apply runAlone_ask.mpr
  rw [hstate]
  simp only [Except.mapError, Program.done_ok_bind, Bool.false_eq_true, if_false, hsigned]
  apply runAlone_ask.mpr
  rw [hplanned]
  simp only [Program.done_ok_bind, hgrant, okOr]
  rfl

-- The first handshake of a session claims it and plans its grant.
theorem runAlone_handshake {firstFrame : List UInt8} {draw : HandshakeDraw}
    {arguments : ClaimArguments} (hrow : session? s.sessions id = some row)
    (hstate : row.state = .created)
    (hsecret : runAlone P identity (Durable.lift (DurablePairingStore.invitationSecret id)) s =
      (.ok secret, s)) (harguments : claimOf P identity row secret firstFrame draw = .ok arguments)
    (hclaimed : handle P s (.claimPairingSession arguments now) = (.ok claimed, s₁))
    (hplanned : runAlone P identity (plannedOrNewGrant P identity claimed now draw.plans) s₁ =
      (.ok operation, s₂)) (hcurrent : session? s₂.sessions id = some current) :
    runAlone P identity (NodePairingControl.handshake P identity id firstFrame draw now) s =
      (.ok ⟨arguments.responseFrame, arguments.receiptFrame, view P current⟩, s₂) := by
  unfold NodePairingControl.handshake
  rw [runAlone_bind_ok (runAlone_session hrow _)]
  simp only [hstate, reduceCtorEq, if_false, demand, decide_true, require, if_true,
    Program.done_ok_bind]
  rw [runAlone_bind_ok hsecret]
  simp only [harguments, Program.done_ok_bind]
  apply runAlone_ask.mpr
  rw [hclaimed]
  rw [runAlone_bind_ok hplanned, runAlone_bind_ok (runAlone_session hcurrent _)]
  rfl

end Progress

section Histories

variable (P : NodePlatform) (identity : IdentityBundle) {now : Int64}

-- The calls of any number of devices and of the operator, in any interleaving of
-- their effects, with crashes in between.
def Runs : PairingSystem → PairingSystem → Prop :=
  Relation.ReflTransGen fun y z => ∃ event, (service P identity).Step y event z

variable {P identity}

theorem Runs.contract (h : Runs P identity y z) :
    (pairingContract P identity False).Run (service P identity) y z := by
  refine Relation.ReflTransGen.mono ?_ _ _ h
  rintro y z ⟨event, hstep⟩
  refine ⟨event, hstep, ?_⟩
  cases event <;> first | exact trivial | exact fun hfalse => hfalse.elim

theorem Runs.good (h : Runs P identity fresh y) :
    (pairingContract P identity False).Good (service P identity) y :=
  ((pairingContract_holds P identity False).good_run (good_fresh P identity False) h.contract).1

theorem Runs.invariant (h : Runs P identity fresh y) : NodeInv P identity y.state :=
  h.good.invariant

theorem Runs.later (h : Runs P identity fresh y) (hmore : Runs P identity y z) :
    Later P y.state z.state :=
  ((pairingContract_holds P identity False).good_run h.good hmore.contract).2

theorem Runs.serve (h : Runs P identity y z) (hserving : z.serving = true) (hidle : z.tasks = [])
    (hordinary : call.recovers = false)
    (hbody : runAlone P identity (body P identity call) z.state = (result, s)) :
    Runs P identity y ((service P identity).after z call (result, s)) := by
  have hserved := Service.serves (S := service P identity) hserving hidle hordinary
  rw [← hbody]
  exact h.trans hserved

theorem Runs.restart (h : Runs P identity y z) (hrecovers : call.recovers = true)
    (hbody : runAlone P identity (body P identity call) z.state = (result, s)) :
    Runs P identity y
      ((service P identity).after { z with serving := false } call (result, s)) := by
  have hserved := Service.restarts (S := service P identity) (y := z) hrecovers
  rw [← hbody]
  exact h.trans hserved

theorem runAlone_reconcile (hnow : 0 ≤ now.toInt) (hkept : WellKept P.toPeerPlatform s.sessions)
    (hcount : s.sessions.length ≤ 1024)
    (hactive : ∀ row ∈ s.sessions, row.isActive = true ∧ row.isStale now = false)
    (hsecrets : s.secrets.map (·.invitationId) = s.sessions.map (·.invitationId)) :
    runAlone P identity (Durable.lift (DurablePairingStore.reconcile now)) s =
      (.ok ⟨0, 0, s.sessions.length⟩, s) := by
  have hexpire : handle P s (.expirePairingSessions now) = (.ok 0, s) := by
    have hsame : s.sessions.map (fun row =>
        if row.isStale now = true then row.expire now else row) = s.sessions := by
      conv_rhs => rw [← map_id s.sessions]
      refine map_congr_left fun row hrow => ?_
      rw [(hactive row hrow).2]
      rfl
    have hnone : s.sessions.filter (PairingSession.isStale now) = [] :=
      filter_eq_nil_iff.mpr fun row hrow => by simp [(hactive row hrow).2]
    have hupdate : updateSessions P.toPeerPlatform s.sessions (PairingSession.isStale now)
        (PairingSession.expire now) = .ok (s.sessions, 0) :=
      updateSessions_eq_ok.mpr ⟨hsame.symm, hkept.checks, by rw [hnone]; rfl⟩
    simp [handle, onSessions, expirePairingSessions, decide_eq_true hnow, require,
      settle_ok hupdate]
  have hall : handle P s .activePairingSessions = (.ok s.sessions, s) := by
    have hfilter : s.sessions.filter PairingSession.isActive = s.sessions :=
      filter_eq_self.mpr fun row hrow => (hactive row hrow).1
    simp [handle, activePairingSessions, hfilter, decide_eq_true hcount, require]
  have hids : handle P s .invitationIds = (s.sessions.map (·.invitationId), s) :=
    Prod.ext hsecrets rfl
  have hheld : ∀ id ∈ s.sessions.map (·.invitationId),
      ¬ (!(s.sessions.map (·.invitationId)).contains id) = true := by simp
  apply runAlone_lift_ask.mpr
  rw [hexpire]
  apply runAlone_lift_ask.mpr
  rw [hall]
  apply runAlone_lift_ask.mpr
  rw [hids]
  simp only [find?_eq_none.mpr hheld, filter_eq_nil_iff.mpr hheld]
  rfl

-- The node is about to admit the grant of a session that it just confirmed.
theorem Runs.confirmed {id : InvitationId} {hash : FixedBytes 32} (h : Runs P identity fresh y)
    (hserving : y.serving = true) (hidle : y.tasks = [])
    (hrow : session? y.state.sessions id = some row) (hstate : row.state = .claimed)
    (hhash : row.handshakeHash = some hash) (hnow : 0 ≤ now.toInt) :
    ∃ z, Runs P identity fresh z ∧ z.state =
      { y.state with sessions := replaceSession y.state.sessions (row.confirm now) } := by
  let confirming := Call.confirm id (confirmationOctal P.toPrimitives hash) [] now
  have hbegins : ∃ next, body P identity confirming = .perform (.pairingSession id) next ∧
      ∃ next', next (some row) = .perform (.confirmPairingSession id hash now) next' := by
    refine ⟨_, rfl, ?_⟩
    simp only [Program.bind, okOr, present, hhash, hstate, demand, decide_true, require, if_true,
      Program.done_ok_bind]
    exact ⟨_, rfl⟩
  obtain ⟨next, hbody, next', hnext⟩ := hbegins
  have hstarted : Runs P identity fresh { y with
      tasks := [⟨confirming, .perform (.pairingSession id) next⟩] } := by
    have hordinary : (service P identity).recovers confirming = false := rfl
    have hstep := Service.Step.start hserving hordinary
    rw [hidle] at hstep
    rw [← hbody]
    exact h.tail ⟨_, hstep⟩
  have hfound : Runs P identity fresh { y with
      tasks := [⟨confirming, .perform (.confirmPairingSession id hash now) next'⟩] } := by
    have hstep : (service P identity).Step
        { y with tasks := [⟨confirming, .perform (.pairingSession id) next⟩] }
        (.performed confirming (.pairingSession id))
        { y with tasks := [⟨confirming, next (session? y.state.sessions id)⟩] } :=
      Service.performs rfl
    rw [hrow, hnext] at hstep
    exact hstarted.tail ⟨_, hstep⟩
  have hhandle := h.invariant.confirm_claimed hrow hstate hhash hnow
  exact ⟨_, hfound.tail ⟨_, Service.performs rfl⟩, congrArg Prod.snd hhandle⟩

end Histories

namespace Sample

open DataModel.Sample (controller controllerKey genesis spaceId writer writerGrant writerKey)
open Store.Sample (admitted_created created readEnvelope_text spaceOf)

-- One pairing at a node, with what the libraries return on the way.
structure Exchange where
  capability : CapabilityGrantTemplate
  descriptorDigest : FixedBytes 32
  invitationDigest : FixedBytes 32
  invitationSignature : FixedBytes 64
  claimMessageDigest : FixedBytes 32
  nodeSignature : FixedBytes 64
  actorSignature : FixedBytes 64
  claimDigest : FixedBytes 32
  receiptDigest : FixedBytes 32
  receiptSignature : FixedBytes 64
  firstFrame : List UInt8
  firstFrameDigest : FixedBytes 32
  responseFrame : List UInt8
  handshakeHash : FixedBytes 32
  receiptFrame : List UInt8
  confirmationDigest : FixedBytes 32
  grantOperationId : OperationId
  grantSignature : FixedBytes 64

def nodeTransportKey : Ed25519SigningKey := ⟨FixedBytes.replicate 32 2⟩

def node : NodeId := ⟨.ofNat 0x8139770ea87d175f56a35466c34c7ecccb8d8a91b4ee37a25df60f5b8fc9b394⟩

def joinerNodeKey : Ed25519SigningKey := ⟨FixedBytes.replicate 32 3⟩

def joinerNode : NodeId :=
  ⟨.ofNat 0xed4928c628d1c2c6eae90338905995612959273a5c63f93636c14614ac8737d1⟩

def joinerActorKey : Ed25519SigningKey := ⟨FixedBytes.replicate 32 4⟩

def joinerActor : ActorId :=
  ⟨.ofNat 0xca93ac1705187071d67b83c7ff0efe8108e8ec4530575d7726879333dbdabe7c⟩

def identity : IdentityBundle where
  spaceControllerKey := controllerKey
  localWriterKey := writerKey
  nodeTransportKey := nodeTransportKey

def material : InvitationMaterial where
  invitationId := FixedBytes.replicate 16 7
  oneTimeSecret := FixedBytes.replicate 32 8
  noisePrivate := FixedBytes.replicate 32 9

def noiseStatic : FixedBytes 32 :=
  .ofNat 0x57db4b359f23ae5e146e4e2512056704722506348c150c14753d0c933d04d421

def secretCommitment : FixedBytes 32 :=
  .ofNat 0x2578ccf8645b2d1dc10c465eff843585970f3a7e22296a92cad55d489a272072

def draw : HandshakeDraw where
  ephemeral := FixedBytes.replicate 32 0x0b
  peerAccessToken := FixedBytes.replicate 32 0x0c
  plans := [⟨FixedBytes.replicate 10 0x0e, FixedBytes.replicate 16 0x0f⟩]

def peerTokenDigest : FixedBytes 32 :=
  .ofNat 0x308c1cf897a05c3584d7186e30bb80ba686ce171f54cb380b20fab93799f7341

def now : Int64 := DataModel.Sample.occurredAtUnixMs

def keys : List (FixedBytes 32 × FixedBytes 32) :=
  [(controllerKey.seed, controller.bytes), (writerKey.seed, writer.bytes),
    (nodeTransportKey.seed, node.bytes), (joinerNodeKey.seed, joinerNode.bytes),
    (joinerActorKey.seed, joinerActor.bytes)]

def grantEntity : EntityId := ⟨uuidV7 1720000000123 (FixedBytes.replicate 10 0x0e)⟩

namespace Exchange

variable (x : Exchange)

def descriptor : InvitationDescriptor where
  invitationId := ⟨material.invitationId⟩
  responderNodeId := node
  responderNoiseStatic := noiseStatic
  spaceId := spaceId
  genesisOperationId := genesis.operationId
  expiresAtUnixMs := now + 600000
  endpointHints := []
  capability := x.capability
  secretCommitment := secretCommitment

def secret : ResponderInvitationSecret where
  invitationId := ⟨material.invitationId⟩
  descriptorDigest := x.descriptorDigest
  oneTimeSecret := material.oneTimeSecret
  noiseStaticPrivate := material.noisePrivate

def claim : JoinerClaim where
  invitationId := ⟨material.invitationId⟩
  descriptorDigest := x.descriptorDigest
  responderNodeId := node
  spaceId := spaceId
  genesisOperationId := genesis.operationId
  joinerNodeId := joinerNode
  subjectActorId := joinerActor
  nonce := FixedBytes.replicate 32 0x0d
  nodeSignature := ⟨x.nodeSignature⟩
  actorSignature := ⟨x.actorSignature⟩

def receipt : PairingReceipt where
  invitationId := ⟨material.invitationId⟩
  descriptorDigest := x.descriptorDigest
  claimDigest := x.claimDigest
  handshakeHash := x.handshakeHash
  responderNodeId := node
  joinerNodeId := joinerNode
  peerAccessToken := draw.peerAccessToken
  signature := ⟨x.receiptSignature⟩

def grant : DataModel.Sample where
  key := controllerKey
  actorId := controller
  entityId := grantEntity
  schema := .capabilityGrant
  authorization := [genesis.operationId]
  nonce := ⟨FixedBytes.replicate 16 0x0f⟩
  body := .capabilityGrant (x.capability.grantFor joinerActor)
  operationId := x.grantOperationId
  signature := x.grantSignature

def operations : List DataModel.Sample := [genesis, writerGrant, x.grant]

def descriptorBytes : List UInt8 := encoding (normalize x.descriptor.canonicalValue)

def claimBytes : List UInt8 :=
  encoding (numbered [x.claim.unsignedValue, .bytes x.nodeSignature.bytes,
    .bytes x.actorSignature.bytes])

-- What the proofs ask for comes first.
def recording : Recording :=
  let operations := DataModel.Sample.recording x.operations
  { digests :=
      (x.descriptorBytes, x.descriptorDigest) ::
      (detachedSignatureMessage .pairingJoinerClaimV1 (encoding x.claim.unsignedValue),
        x.claimMessageDigest) ::
      (material.oneTimeSecret.bytes, secretCommitment) ::
      (draw.peerAccessToken.bytes, peerTokenDigest) ::
      (x.firstFrame, x.firstFrameDigest) ::
      (x.claimBytes, x.claimDigest) ::
      (detachedSignatureMessage .pairingInvitationV1 x.descriptorBytes, x.invitationDigest) ::
      (detachedSignatureMessage .pairingReceiptV1 (encoding x.receipt.unsignedValue),
        x.receiptDigest) ::
      (CONFIRMATION_DOMAIN ++ x.handshakeHash.bytes, x.confirmationDigest) ::
      operations.digests
    keys := keys
    signatures :=
      ((joinerNode.bytes, x.claimMessageDigest.bytes), x.nodeSignature) ::
      ((joinerActor.bytes, x.claimMessageDigest.bytes), x.actorSignature) ::
      ((node.bytes, x.invitationDigest.bytes), x.invitationSignature) ::
      ((node.bytes, x.receiptDigest.bytes), x.receiptSignature) :: operations.signatures }

-- Only the recorded operations have a strict signature.
def primitives : Primitives :=
  { x.recording.primitives with
    verifyStrict := fun key message signature =>
      (DataModel.Sample.recording x.operations).signatures.lookup (key, message) =
        some signature }

def session : NoiseSession where
  payload := x.claimBytes
  responseFrame := x.responseFrame
  handshakeHash := x.handshakeHash
  writeMessage _ := some x.receiptFrame

def platform : NodePlatform where
  toPlatform := Store.Sample.reading x.primitives (x.operations.map DataModel.Sample.envelope)
  verify := x.recording.signaturePrimitives.verify
  publicKey key := if key = material.noisePrivate then noiseStatic else FixedBytes.replicate 32 0
  respond secret privateKey prologue ephemeral firstFrame :=
    if secret = material.oneTimeSecret && privateKey = material.noisePrivate &&
        prologue = x.descriptorDigest && ephemeral = draw.ephemeral &&
        firstFrame = x.firstFrame then some x.session else none
  isSafePairingEndpoint _ := false

abbrev database : Database := created x.platform.toPlatform

abbrev parameters : InvitationParameters where
  spaceId := spaceId
  genesisOperationId := genesis.operationId
  nowUnixMs := now
  expiresAtUnixMs := now + 600000
  endpointHints := []
  capability := x.capability

def request : PairingCreateCommand where
  spaceId := spaceId
  expiresInMs := 600000
  endpointHints := []
  capability := x.capability

end Exchange

def admin : Exchange where
  capability :=
    { actions := [.appendOperation, .issueCapability, .revokeCapability, .readSpace, .writeContent,
        .linkWorkspace]
      schemas := [.record]
      visibilities := [.pub]
      contentRoles := ["record.media"]
      maxResourceByteLength := some 1024
      notBeforeUnixMs := none
      expiresAtUnixMs := none
      delegationDepth := 1
      label := "admin" }
  descriptorDigest := .ofNat 0x7307835ec5366c05f3c3060b5194a6c4a01c6e5053af04ac71b69c9be090aeea
  invitationDigest := .ofNat 0x04964217f15976a16d60abb8a3befc89a2f816d4737d3d620be9331218a9fc88
  invitationSignature :=
    ⟨toBE 32 0x9c72e55031ead971f34729c73562bf3ba65e28d3bf6ce669e81563e6a3e7c51a ++
      toBE 32 0x8eca47c72b621fa4fb917e1054a889010539cb3acc05f0f29b69b326c8cb1f0d, by decide⟩
  claimMessageDigest := .ofNat 0x37d89eb2c742a7174f600a76a8fc0dd1ba5257b6746839c0c259666d918bdc14
  nodeSignature :=
    ⟨toBE 32 0x44b9cbbd388c6afc1f4472a312d092edf118acd13e5f2374298e4d18ca5bcd5e ++
      toBE 32 0x6c6f4657bb02d5fc7de034c56bb003f7b8968330a80e7c021a196f5434667c05, by decide⟩
  actorSignature :=
    ⟨toBE 32 0x23e79c8764c4ebc10cd2156cd9f552d9b43f414856e9ca48a8cd406f1edef704 ++
      toBE 32 0x3207dc37a293585e632e21fbb68136154a6c4e5f26f3ebd71b22ce8a462cac0a, by decide⟩
  claimDigest := .ofNat 0x1def4b1cea8e3ce20189493033d9da96f7912242168b769bdd444bf8533ffb15
  receiptDigest := .ofNat 0x60ac993a62b2654a9891e408ad5c0d42944991a706f2cc8b84239eeed220bc56
  receiptSignature :=
    ⟨toBE 32 0x7116185af8ff586e6c96c7098208d246caef331ef4100a40a4632d2c40b2582d ++
      toBE 32 0x6400a249b24d3ffeb88a453de2248c2505284077315a6a4467b7e71fdc4fad04, by decide⟩
  firstFrame :=
    [0xf77ff4b10788bfdca62ca0bb160d427cf5762d85f2b5cad6807ec9c3febbde09,
      0x0c33e670177e4cd261064e56cfd67486052f7e32d4cea932420124f1dbb14ac4,
      0xd0a0d7de7ecafc10126162f77186056d8bc800dd361d91ed9ff9cdb2497f5635,
      0x036f7cee18452e081ff776fd0cf6dfe33b8f465414184e6d4b8f982f6dd8998b,
      0x8b38edeffdeb38b664a73bf0142696732b25c927ac082822939e72312d56fe50,
      0xadcea41aeff67d505e8314dfc7698cd3ba1cb3f0efe50146d0bf3372d1158e86,
      0xba8dd7f02fbe800fab325382b3e58cd3bb2af66c3877c0e6376bac826129d1d7,
      0xfa89ace94886cb36392944f53df0757066b930d4eaffce4e20e17cb379da1644,
      0x2de8ca8a0eca880ea47aec6447738f766aca8ec4722f1dc159fea712dc3ecea9,
      0xa7f17f3e5c2d93cf730ae503f0d54a1b8bc70dc30617d456cb01b58ee001f2a3,
      0xd587d813c672a16aaa70352262e9d9b53007f3473a7ed466579f9e578c6fca59,
      0x6c1f5fd9eb1e898dca10bd3ea15a21a3113bb8b7fbaaa5cd59bb46b0ae3ecdd1,
      0x2681de481ee3aab14ed6a9a80c34114d6d81d08bdfa3413abf8e08d717f5d8bd,
      0x472a156b9b6fd5e03bfc18f991a821beaffaf5c32ba87ebf3dff4f3ab7cdf6a2].flatMap (toBE 32) ++
      toBE 2 0xdadc
  firstFrameDigest := .ofNat 0x70f7fe3d193c7d82be28d128a4339b0e8e0d81cd73d1afaaae66408547e3b053
  responseFrame :=
    [0x73b2d8b76aa9b53660032bc8f5d8bee3a3ae4e3b3a7fd49ade81f7347a34aa68].flatMap (toBE 32) ++
      toBE 16 0x1e24888d5c43d6f176a34d464f819dd9
  handshakeHash := .ofNat 0xfec0978d335aacf03c0f3b1b9d9ec1e49cb7293a95b3e0dc96432e2ed3681e98
  receiptFrame :=
    [0x16ac4c37788e59afa5fc956c6597814246da996c003af30b2153e5f61d342a91,
      0x3826591779906ab7ca969a9b4a83f00f1508a4de1be656f4aad44dd7701a65fd,
      0xdb55f8e129f59afe52a70be63bc08ee68868125af69f4a9cd6bee463d03e554a,
      0xf219a5f9d1ef40f21094e42ec2c07eb6f31c90659adb6a9ffac918966615e160,
      0x3423525e8c1f41b3f7a2a2caab34313198519c0d9b3e0a970f75566f196b8955,
      0x935de8402ac386d132f1a6123aaa3338a23cae6594e5419cd44afa469943a7e5,
      0x56cd1df428869e620a9cd7259c4351890ad787af2cbd17f61a42406a84d076f9,
      0x5458c0e7da4e142b91a7f8df9cd230e55eb8215953411534838bf93cfa7d0153,
      0xe70cdc734e2e36becb723852aa2788297449e4db1f41fc78f81647d617ccaaa9].flatMap (toBE 32) ++
      toBE 28 0xef6f1ff297d2c6aa90446f501575a09579a05792debbc625f69add7b
  confirmationDigest := .ofNat 0x88d8fd72fdb9d6cf3de599e853c83df21ef73033a9f83b3f37769f217714bd1c
  grantOperationId := ⟨.ofNat 0x56c765842230fa80b397714844640e64bed0ac94aaecdaddd8c98f0a59e477ba⟩
  grantSignature :=
    ⟨toBE 32 0x7f57b2e0e0c78b62b9c62daa469b9dbc189b7bfffb85b4bfa46f8648a998b5d5 ++
      toBE 32 0x480a1e968f6488edc3e9e1c792d51f8499e198c8975b309307cc6253de21d00d, by decide⟩

def guest : Exchange where
  capability :=
    { actions := [.appendOperation, .readSpace]
      schemas := [.record]
      visibilities := [.pub]
      contentRoles := []
      maxResourceByteLength := none
      notBeforeUnixMs := none
      expiresAtUnixMs := none
      delegationDepth := 0
      label := "guest" }
  descriptorDigest := .ofNat 0x8b817e32c7dad148273a1e796554bc7b2b9e8d9322251f8d8301f27804801642
  invitationDigest := .ofNat 0x1df038737d64ecaac71d6ca12d6cfd35974a958ffb060bd2c2accecf9d8a77ce
  invitationSignature :=
    ⟨toBE 32 0x4015ba0183a835c645f76112b398c74df8f98dcd4f10cd45d7f7fd3f20e279e5 ++
      toBE 32 0x87afd99076a0ff2770264738d2dc22fec134f7bbae840ef10f93369cecf4d60e, by decide⟩
  claimMessageDigest := .ofNat 0x037bfad2935f70972773dde5b588e013bf9289ceafc5b506df89a817d5db104a
  nodeSignature :=
    ⟨toBE 32 0x76c3a935cb9a35117e847cbca69a3a5aef08d4144699c20df578726fda530740 ++
      toBE 32 0x2fa0685f4d87b6a7122493d6e89f9d9be1149cf797fe06addd328bdc0eb39b02, by decide⟩
  actorSignature :=
    ⟨toBE 32 0x47628f5cefef928c1f5ab286253879b7239f5103f2f95ca13e86481e0ed626ad ++
      toBE 32 0x34eba2fd0bdab94b232eb6868e95993d78d8fdf465e6ce64dfc0a1438fc59500, by decide⟩
  claimDigest := .ofNat 0xb9f8f99139c5694325424af3f4009b509be4a483d2777bc538d72aac9c6fe006
  receiptDigest := .ofNat 0x20859cc760d4d0cee8479abe008a1f92e7a6cc7b957e8a7c040201b84c54d3ce
  receiptSignature :=
    ⟨toBE 32 0x70abe17dc1f831a8502ea2fc51898fa22620291b1086acce3c6320cce2e48f49 ++
      toBE 32 0x0abca98094a7a12938a8a013216b32fb9d816455ce4a4e0307f8eff137ecc903, by decide⟩
  firstFrame :=
    [0xf77ff4b10788bfdca62ca0bb160d427cf5762d85f2b5cad6807ec9c3febbde09,
      0x0c33e670177e4cd261064e56cfd67486052f7e32d4cea9324201dc7726dd4828,
      0x6ded032766b8c8d008dee975924574e790e9f26a58fe75fd2751cdb2497f5635,
      0x036f7cee18452e081ff776fd0cf6dfe33b8f465414184e6d4b8f982f6dd8998b,
      0x8b38edeffdeb38b664a73bf0142696732b25c927ac082822939e72312d56fe50,
      0xadcea41aeff67d505e8314dfc7698cd3ba1cb3f0efe50146d0bf3372d1158e86,
      0xba8dd7f02fbe800fab325382b3e58cd3bb2af66c3877c0e6376bac826129d1d7,
      0xfa89ace94886cb36392944f53df0757066b930d4eaffce4e20e17cb379da1644,
      0x2de8ca8a0eca880ea47aec6447738f766aca8ec4722f1dc159fea712dc3ecea9,
      0xa7f17f3e5c2d93cf730ae503f0d54a29f1a58530104839370b0faa3aaaa945bd,
      0xc5ff1d6b0093d8b65c4f42326a23c7f6ff29fbb1bf1d8f0993388dd4a3f1a600,
      0xee0098e61b64264ae1f4350474bd26a3113bdc32e8712ee620f6553809d4311c,
      0x0def49e80ea80ea1d83f3fe304450145bc28d667a169e8735e9b48d78088e0a9,
      0xe80227df28c496f51e4fdc1bfe61e85796f0a860710d50a289820ce6b3ad13e6].flatMap (toBE 32) ++
      toBE 2 0x3394
  firstFrameDigest := .ofNat 0x0b8faedc3ff12ab98a4f427b918248e80ade1dfba02376a2fa0364d92fd6a53e
  responseFrame :=
    [0x73b2d8b76aa9b53660032bc8f5d8bee3a3ae4e3b3a7fd49ade81f7347a34aa68].flatMap (toBE 32) ++
      toBE 16 0xad4533b3f696d74193b904cc0de450e0
  handshakeHash := .ofNat 0x0088b95c116ea01d9e0e310366164bfea2e2c4181770df165fb76dfa0361709c
  receiptFrame :=
    [0x16ac4c37788e59afa5fc956c6597814246da996c003af30b21531d70e058287d,
      0x856b8dee61e25e77d0291119a94081850e2956697505b2e4127c4dd770be724f,
      0x5686b3b488d151fd9160d2a7fdacfb6049acee57a87ad9fd8271b478c33e554a,
      0x0c518b28f3db4c1fb295ee363948f4accd497d4718185555333d5b42b61c8f64,
      0x3423525e8c1f41b3f7a2a2caab34313198519c0d9b3e0a970f75566f196b8955,
      0x935de8402ac386d132f1a6123aaa3338a23cae6594e5419cd44afa469943a7e5,
      0x56cd1df428869e620a9cd7259c4351890ad787af2cbd17f61a42406a84d076f9,
      0x5458c0e7da4e142b91a7f8df9d6fc9c267bf489f6ff970c1500aa4d816b21b56,
      0x039a7afdd62e3b5e6924ef36c49b83e052a37a0c9f6319563b59f9088f658e8b].flatMap (toBE 32) ++
      toBE 28 0x107f3bb5f79dce447be70b574e9728fe9080765328317da603c173f0
  confirmationDigest := .ofNat 0x5a34eebd15d14796fea403f7a8a134b023da84b9de3f7134d573ff81d240966b
  grantOperationId := ⟨.ofNat 0x8e19c317ba1e2737937737fee8776b0ef9c8b91a3828683530c58118adc64645⟩
  grantSignature :=
    ⟨toBE 32 0x46b7df06d1f02e919fa36cf03c11892a92045190f914b28cfcf75e72e35d5163 ++
      toBE 32 0xf9e4d8c075e91070d47ef65be78c6e203b5560816a49d33b818a1f75cf607901, by decide⟩

namespace Exchange.Faithful

def arguments (x : Exchange) : ClaimArguments where
  descriptor := x.descriptor
  claim := x.claim
  handshakeHash := x.handshakeHash
  peerTokenDigest := peerTokenDigest
  firstFrameDigest := x.platform.sha256 x.firstFrame
  responseFrame := x.responseFrame
  receiptFrame := x.receiptFrame

end Exchange.Faithful

-- What the libraries make of an exchange that can be played through.
structure Exchange.Faithful (x : Exchange) : Prop where
  normal : x.capability.normalize = x.capability
  verified : ∀ s ∈ [genesis, writerGrant], s.envelope.verify x.platform.toPrimitives = .ok ()
  secret : x.platform.sha256 material.oneTimeSecret.bytes = secretCommitment
  descriptor : (x.descriptor.validate x.platform.toPrimitives).toOption = some ()
  bytes : x.descriptor.canonicalBytes.toOption = some x.descriptorBytes
  digest : x.descriptor.digest x.platform.toPrimitives = x.descriptorDigest
  qr : (PairingInvitation.toQrString ⟨x.descriptor, nodeTransportKey.signDetached
    x.platform.toPrimitives .pairingInvitationV1 x.descriptorBytes, material.oneTimeSecret⟩).isOk =
      true
  created : (PairingSession.create x.descriptor now).checks x.platform.toPlatform = true
  verifyFor : (x.claim.verifyFor x.platform.toSignaturePrimitives x.descriptor).toOption = some ()
  claim : (claimOf x.platform identity (PairingSession.create x.descriptor now) x.secret
    x.firstFrame draw).toOption = some (Exchange.Faithful.arguments x)
  frames : PairingSession.isFrame x.responseFrame = true ∧
    PairingSession.isFrame x.receiptFrame = true
  hash : x.handshakeHash ≠ FixedBytes.replicate 32 0
  subject : (x.capability.grantFor joinerActor).validate x.platform.toPrimitives = .ok ()
  signed : ((OperationEnvelope.sign x.platform.toPrimitives spaceId grantEntity .capabilityGrant []
    [genesis.operationId] now ⟨FixedBytes.replicate 16 0x0f⟩
    (.capabilityGrant (x.capability.grantFor joinerActor)) controllerKey).toOption.map
      fun e => (e.protocolVersion, e.operationId, e.occurredAtUnixMs, e.nonce, e.coseSign1)) =
        some (PROTOCOL_VERSION, x.grantOperationId, now, x.grant.nonce, x.grant.envelope.coseSign1)
  small : x.grant.envelope.coseSign1.length ≤ 60000

namespace Exchange.Faithful

variable {x : Exchange} (h : x.Faithful)

theorem verifyingKey_eq {key : FixedBytes 32} (hkey : keys.lookup seed = some key) :
    x.platform.verifyingKey seed = key := by
  change (keys.lookup seed).getD (FixedBytes.replicate 32 0) = key
  rw [hkey, Option.getD_some]

theorem actorId_controller : controllerKey.actorId x.platform.toPrimitives = controller :=
  congrArg Identifier.mk (verifyingKey_eq (by decide))

theorem actorId_writer : writerKey.actorId x.platform.toPrimitives = writer :=
  congrArg Identifier.mk (verifyingKey_eq (by decide))

theorem now_nonneg : 0 ≤ now.toInt := by decide

theorem now_lt_expires : now.toInt < (now + 600000).toInt := by decide

theorem invitationId_ne : material.invitationId ≠ FixedBytes.replicate 16 0 := by decide

theorem oneTimeSecret_ne : material.oneTimeSecret ≠ FixedBytes.replicate 32 0 := by decide

theorem noisePrivate_ne : material.noisePrivate ≠ FixedBytes.replicate 32 0 := by decide

theorem session?_single (row : PairingSession) : session? [row] row.invitationId = some row :=
  find?_cons_of_pos (decide_eq_true rfl)

theorem json : x.platform.toPlatform.AcceptsJson := Store.Sample.acceptsJson _ _

include h

theorem sign_grant : OperationEnvelope.sign x.platform.toPrimitives spaceId grantEntity
    .capabilityGrant [] [genesis.operationId] now
    ⟨FixedBytes.replicate 16 0x0f⟩ (.capabilityGrant (x.capability.grantFor joinerActor))
    controllerKey = .ok x.grant.envelope := by
  obtain ⟨e, hok, hshown⟩ := Option.map_eq_some_iff.mp h.signed
  have hsign := toOption_eq_some.mp hok
  obtain ⟨hspace, hactor, hentity, hschema, hbody, hparents, hauthorization⟩ :=
    OperationEnvelope.fields_of_sign hsign
  simp only [Prod.mk.injEq] at hshown
  obtain ⟨hversion, hid, htime, hnonce, hcose⟩ := hshown
  rw [actorId_controller] at hactor
  rw [hsign]
  cases e
  subst hspace hactor hentity hschema hbody hparents hauthorization hversion hid htime hnonce hcose
  rfl

theorem grant_verifies : x.grant.envelope.verify x.platform.toPrimitives = .ok () :=
  OperationEnvelope.verify_of_sign h.sign_grant

theorem operations_verify : ∀ e ∈ x.operations.map DataModel.Sample.envelope,
    e.verify x.platform.toPrimitives = .ok () := by
  simp only [Exchange.operations, map_cons, map_nil, forall_mem_cons]
  exact ⟨h.verified _ mem_cons_self, h.verified _ (mem_cons_of_mem _ mem_cons_self),
    h.grant_verifies, forall_mem_nil _⟩

-- No other envelope verifies, so each that does can be read.
theorem listed (he : e.verify x.platform.toPrimitives = .ok ()) :
    e ∈ x.operations.map DataModel.Sample.envelope :=
  Store.Sample.listed (fun _ _ _ => of_decide_eq_true) h.operations_verify he

theorem reads : ReadsCapabilities x.platform.toPlatform :=
  fun _ he _ => readEnvelope_text h.operations_verify (h.listed he)

theorem supports : Store.Sample.Supports x.platform.toPlatform where
  json := json
  genesisVerifies := h.verified _ mem_cons_self
  grantVerifies := h.verified _ (mem_cons_of_mem _ mem_cons_self)
  genesisReads := readEnvelope_text h.operations_verify mem_cons_self
  grantReads := readEnvelope_text h.operations_verify
    (mem_cons_of_mem _ mem_cons_self)

theorem sound_created : Store.Sound x.platform.toPlatform x.database :=
  (Store.Sample.reachable_created h.supports).sound

theorem loadSpace_created : loadSpace x.platform.toPlatform x.database.tables spaceId =
    .ok (some (spaceDescriptor spaceOf)) := by
  have hrow : spaceOf ∈ x.database.tables.spaces := mem_cons_self
  have hfound : spaceRow? x.database.tables spaceId = some spaceOf :=
    Table.find?_key h.sound_created.consistent.coherent.spaceIds hrow
  simp [loadSpace, hfound, h.sound_created.spaces _ hrow]

theorem canonicalBytes_descriptor : x.descriptor.canonicalBytes = .ok x.descriptorBytes :=
  toOption_eq_some.mp h.bytes

theorem descriptorOf_eq : PairingInvitation.descriptorOf x.platform.toPrimitives x.platform.toNoise
    identity.nodeTransportKey x.parameters material = x.descriptor := by
  have hnode : nodeTransportKey.nodeId x.platform.toPrimitives = node :=
    congrArg Identifier.mk (verifyingKey_eq (by decide))
  simp only [PairingInvitation.descriptorOf, h.normal, identity, hnode, h.secret]
  rfl

theorem issued : PairingInvitation.issueWithMaterial x.platform.toPrimitives
    x.platform.toNoise identity.nodeTransportKey x.parameters material =
      .ok ⟨⟨x.descriptor, nodeTransportKey.signDetached x.platform.toPrimitives
        .pairingInvitationV1 x.descriptorBytes, material.oneTimeSecret⟩, x.secret⟩ := by
  have hlifetime : validateLifetime now (now + 600000) = .ok () := by rfl
  simp only [PairingInvitation.issueWithMaterial, h.descriptorOf_eq, hlifetime,
    toOption_eq_some.mp h.descriptor, h.canonicalBytes_descriptor, ok_bind, h.digest]
  rfl

theorem createPairingSession_eq : createPairingSession x.platform.toPeerPlatform []
    x.database.tables.spaces x.descriptor now =
      .ok ([PairingSession.create x.descriptor now], PairingSession.create x.descriptor now) := by
  have htime : (decide (0 ≤ now.toInt) && decide (now.toInt < (now + 600000).toInt)) = true := by
    rfl
  have hspaces : x.database.tables.spaces.any (·.spaceId = spaceId) = true := rfl
  have hfound : session? [PairingSession.create x.descriptor now] x.descriptor.invitationId =
      some (PairingSession.create x.descriptor now) := session?_single _
  simp only [createPairingSession, bind_eq_ok, mapError_eq_ok, require_eq_ok, okOr_eq_ok, h.created,
    any_nil, Bool.not_false, Bool.and_self, Bool.not_true, Bool.false_or, if_true,
    nil_append, Bool.true_or, hfound]
  exact ⟨(), htime, _, h.canonicalBytes_descriptor, (), hspaces, _, rfl, (), trivial, rfl⟩

def bootstrapped (x : Exchange) : NodeState where
  database := x.database
  sessions := []
  secrets := []

def invited (x : Exchange) : NodeState where
  database := x.database
  sessions := [PairingSession.create x.descriptor now]
  secrets := [x.secret]

theorem run_createInvitation : ∃ reply, runAlone x.platform identity
    (NodePairingControl.createInvitation x.platform identity x.request material now)
    (bootstrapped x) = (.ok reply, invited x) := by
  obtain ⟨qr, hqr⟩ := isOk_iff.mp h.qr
  have hspace : handle x.platform (bootstrapped x) (.space spaceId) =
      (.ok (some (spaceDescriptor spaceOf)), bootstrapped x) :=
    Prod.ext h.loadSpace_created rfl
  have hcreate : runAlone x.platform identity (Durable.lift (DurablePairingStore.create
      ⟨⟨x.descriptor, nodeTransportKey.signDetached x.platform.toPrimitives .pairingInvitationV1
        x.descriptorBytes, material.oneTimeSecret⟩, x.secret⟩ now)) (bootstrapped x) =
      (.ok (PairingSession.create x.descriptor now), invited x) := by
    have hstored : handle x.platform { bootstrapped x with secrets := [x.secret] }
        (.createPairingSession x.descriptor now) =
        (.ok (PairingSession.create x.descriptor now), invited x) := by
      simp only [handle, bootstrapped, onSessions, settle_ok h.createPairingSession_eq]
      rfl
    exact runAlone_create rfl hstored
  have hcontroller : identity.spaceControllerKey.actorId x.platform.toPrimitives = controller :=
    actorId_controller
  have hwriter : identity.localWriterKey.actorId x.platform.toPrimitives = writer :=
    actorId_writer
  refine ⟨⟨qr, view x.platform (PairingSession.create x.descriptor now)⟩, ?_⟩
  unfold NodePairingControl.createInvitation Exchange.request
  apply runAlone_ask.mpr
  rw [hspace]
  simp only [Except.mapError, okOr, Program.done_ok_bind, demand, hcontroller, hwriter]
  have hexpiry : decide (now.toInt + (600000 : Int64).toInt < 2 ^ 63) = true := by decide
  have hgenesis : (spaceDescriptor spaceOf).genesisOperationId = genesis.operationId := rfl
  simp only [hexpiry, require, if_true, Program.done_ok_bind, hgenesis, h.issued, hqr]
  exact runAlone_bind_ok hcreate

theorem claimOf_eq : claimOf x.platform identity (PairingSession.create x.descriptor now) x.secret
    x.firstFrame draw = .ok (arguments x) :=
  toOption_eq_some.mp h.claim

def claimedRow (x : Exchange) : PairingSession :=
  (PairingSession.create x.descriptor now).claim x.platform.toPrimitives (arguments x) now

def plannedRow (x : Exchange) : PairingSession := (claimedRow x).plan x.grant.envelope now

def claimed (x : Exchange) : NodeState := { invited x with sessions := [claimedRow x] }

def planned (x : Exchange) : NodeState := { invited x with sessions := [plannedRow x] }

omit h in
theorem replaceSession_single
    (hname : row.invitationId = row'.invitationId) : replaceSession [row] row' = [row'] := by
  simp [replaceSession, hname]

omit h in
theorem wellKept_single (hrow : Checked x.platform.toPlatform row) :
    WellKept x.platform.toPeerPlatform [row] where
  names := nodup_singleton _
  checks := forall_mem_singleton.mpr (checks_iff.mpr hrow)

theorem checked_claimed : Checked x.platform.toPlatform (claimedRow x) :=
  (checks_iff.mp h.created).claim_created rfl h.frames.1 h.frames.2 now_nonneg

theorem handle_claim : handle x.platform (invited x) (.claimPairingSession (arguments x) now) =
    (.ok (claimedRow x), claimed x) := by
  have htoken : peerTokenDigest ≠ FixedBytes.replicate 32 0 := by decide
  have hreplaced : replaceSession (invited x).sessions (claimedRow x) = [claimedRow x] :=
    replaceSession_single rfl
  have hclaim : claimPairingSession x.platform.toPeerPlatform (invited x).sessions (arguments x)
      now = (replaceSession (invited x).sessions (claimedRow x), .ok (claimedRow x)) :=
    (wellKept_single (checks_iff.mp h.created)).claims (toOption_eq_some.mp h.verifyFor)
      (session?_single _) rfl rfl h.hash htoken h.frames.1 h.frames.2 now_nonneg now_lt_expires
  simp only [handle, onSessions, hclaim]
  rfl

theorem isPlan_grant : PairingSession.isPlan x.platform.toPlatform x.grant.envelope = true := by
  have hfits := OperationEnvelope.fits_of_grant h.grant_verifies rfl h.small
  have hwide : Fits x.platform.toPrimitives x.grant.envelope.toJson 1000000000 1000 :=
    hfits.weaken (by decide) (by decide)
  have htwo : 2 ≤ (projectionText x.platform.toPlatform x.grant.envelope).length := by
    simp [projectionText, OperationEnvelope.toJson, Json.render]
  simp only [PairingSession.isPlan, Bool.and_eq_true, decide_eq_true_eq]
  exact ⟨⟨⟨htwo, hfits.size⟩, json.valid _ hwide⟩, json.isObject _ hwide⟩

theorem entity_fresh : ∀ a ∈ admitted x.platform.toPlatform x.database.tables,
    a.operation.entityId ≠ x.grant.envelope.entityId := by
  rw [admitted_created h.supports, forall_mem_cons, forall_mem_singleton]
  change genesis.entityId ≠ grantEntity ∧ writerGrant.entityId ≠ grantEntity
  decide

theorem free_grantEntity :
    hasEntityState x.platform.toPlatform x.database.tables spaceId grantEntity = .ok false := by
  have hrow : spaceOf ∈ x.database.tables.spaces := mem_cons_self
  have hspace : requireSpace x.platform.toPlatform x.database.tables spaceId = .ok () :=
    h.sound_created.requireSpace_ok hrow
  have hempty : entityOperations x.database.tables spaceId grantEntity = [] :=
    (entity_eq_nil h.sound_created.consistent.coherent.represents
      fun a ha _ => h.entity_fresh a ha).1
  rfl

theorem handle_plan : handle x.platform (claimed x)
    (.planPairingGrant (claimedRow x).invitationId x.grant.envelope now) =
      (.ok (plannedRow x), planned x) := by
  have hreplaced : replaceSession (claimed x).sessions (plannedRow x) = [plannedRow x] :=
    replaceSession_single rfl
  have hplan : planPairingGrant x.platform.toPeerPlatform (claimed x).sessions
      (claimedRow x).invitationId x.grant.envelope now =
      .ok (replaceSession (claimed x).sessions (plannedRow x), plannedRow x) :=
    (wellKept_single h.checked_claimed).plans h.grant_verifies rfl rfl (session?_single _) rfl rfl
      rfl rfl h.isPlan_grant now_nonneg
  simp only [handle, onSessions, settle_ok hplan]
  rfl

theorem run_plan : runAlone x.platform identity
    (plannedOrNewGrant x.platform identity (claimedRow x) now draw.plans) (claimed x) =
      (.ok x.grant.envelope, planned x) := by
  have hgrant : x.capability.toGrant x.platform.toPrimitives joinerActor =
      .ok (x.capability.grantFor joinerActor) :=
    toGrant_eq_ok.mpr ⟨rfl, h.subject⟩
  have hunplanned : (claimedRow x).plannedGrant = none := rfl
  have hsubject : (claimedRow x).subjectActorId = some joinerActor := rfl
  have htemplate : (claimedRow x).descriptor.capability = x.capability := rfl
  have hrange : decide (now.toInt < 2 ^ 48) = true := by decide
  have hdraws : draw.plans.take MAX_GRANT_ATTEMPTS =
      [⟨FixedBytes.replicate 10 0x0e, FixedBytes.replicate 16 0x0f⟩] := rfl
  simp only [plannedOrNewGrant, hunplanned, hsubject, present, okOr, Program.done_ok_bind,
    htemplate, hgrant, Except.mapError, demand, require, decide_eq_true now_nonneg, hrange, if_true,
    hdraws]
  exact runAlone_planGrant h.free_grantEntity h.sign_grant h.handle_plan rfl

theorem run_handshake : ∃ reply, runAlone x.platform identity
    (NodePairingControl.handshake x.platform identity ⟨material.invitationId⟩ x.firstFrame draw now)
    (invited x) = (.ok reply, planned x) := by
  have hsecret : runAlone x.platform identity
      (Durable.lift (DurablePairingStore.invitationSecret ⟨material.invitationId⟩)) (invited x) =
      (.ok x.secret, invited x) :=
    runAlone_invitationSecret (find?_cons_of_pos (decide_eq_true rfl))
      ⟨invitationId_ne, oneTimeSecret_ne, noisePrivate_ne⟩
  exact ⟨_, runAlone_handshake (session?_single _) rfl hsecret h.claimOf_eq h.handle_claim
    h.run_plan (session?_single (plannedRow x))⟩

-- The node has served the invitation and the handshake.
theorem runs_planned : ∃ y : PairingSystem, Runs x.platform identity fresh y ∧
    y.state = planned x ∧ y.serving = true ∧ y.tasks = [] := by
  have hbootstrap : Runs x.platform identity fresh { fresh with state := bootstrapped x } := by
    have hstep : Outside x.platform fresh.state (bootstrapped x) := by
      have hbootstrap : Outside x.platform fresh.state { fresh.state with
          database := (bootstrapTrustedSpace x.platform.toPlatform Database.empty
            Store.Sample.bootstrap).1 } := .bootstrap fresh.state Store.Sample.bootstrap
      rw [Store.Sample.bootstrap_created h.supports] at hbootstrap
      exact hbootstrap
    exact .single ⟨_, .outside hstep⟩
  have hreconcile : runAlone x.platform identity
      (Durable.lift (DurablePairingStore.reconcile now)) (bootstrapped x) =
      (.ok ⟨0, 0, 0⟩, bootstrapped x) :=
    runAlone_reconcile now_nonneg ⟨nodup_nil, forall_mem_nil _⟩ (Nat.zero_le _)
      (forall_mem_nil _) rfl
  have hstarted := hbootstrap.restart (rfl : (Call.reconcile now).recovers = true)
    (runAlone_bind_ok hreconcile)
  obtain ⟨invitation, hcreate⟩ := h.run_createInvitation
  have hinvited := hstarted.serve rfl rfl
    (rfl : (Call.createInvitation x.request material now).recovers = false)
    (runAlone_bind_ok hcreate)
  obtain ⟨result, hhandshake⟩ := h.run_handshake
  have hplanned := hinvited.serve rfl rfl
    (rfl : (Call.handshake ⟨material.invitationId⟩ x.firstFrame draw now).recovers = false)
    (runAlone_bind_ok hhandshake)
  exact ⟨_, hplanned, rfl, rfl, rfl⟩

def confirmed (x : Exchange) : NodeState :=
  { invited x with sessions := [(plannedRow x).confirm now] }

-- The node ends after the confirmation and starts again.
theorem runs_confirmed : ∃ y : PairingSystem, Runs x.platform identity fresh y ∧
    y.state = confirmed x ∧ y.serving = true ∧ y.tasks = [] := by
  obtain ⟨y, hrun, hstate, hserving, hidle⟩ := h.runs_planned
  have hrow : session? y.state.sessions (plannedRow x).invitationId = some (plannedRow x) := by
    rw [hstate]
    exact session?_single (plannedRow x)
  obtain ⟨z, hconfirmed, hlater⟩ := hrun.confirmed hserving hidle hrow rfl rfl now_nonneg
  have hsame : z.state = confirmed x := by
    rw [hlater, hstate]
    have hreplaced : replaceSession (planned x).sessions ((plannedRow x).confirm now) =
        [(plannedRow x).confirm now] := replaceSession_single rfl
    rfl
  have hkept := hconfirmed.invariant.sessions
  rw [hsame] at hkept
  have hcount : 1 ≤ 1024 := by decide
  have hreconcile : runAlone x.platform identity
      (Durable.lift (DurablePairingStore.reconcile now)) z.state =
      (.ok ⟨0, 0, 1⟩, confirmed x) := by
    rw [hsame]
    exact runAlone_reconcile now_nonneg hkept hcount
      (forall_mem_singleton.mpr ⟨rfl, rfl⟩) rfl
  have hstarted := hconfirmed.restart (rfl : (Call.reconcile now).recovers = true)
    (runAlone_bind_ok hreconcile)
  exact ⟨_, hstarted, rfl, rfl, rfl⟩

theorem not_isAdmitted : ¬ IsAdmitted x.platform x.database x.grant.envelope := by
  rintro ⟨a, ha, hpayload⟩
  have hverified := h.sound_created.consistent.coherent.causal.verified a ha
  have hsame := eq_of_payload h.grant_verifies hverified hpayload.symm
  exact h.entity_fresh a ha (by rw [hsame])

theorem admissible (hfresh : x.grantOperationId ∉ [genesis.operationId, writerGrant.operationId])
    (hactions : x.capability.actions.length ≤ 5) :
    Admissible x.platform x.database x.grant.envelope := by
  refine .inr ⟨?_, ?_, fun a ha _ => h.entity_fresh a ha, ?_⟩
  · simp only [mem_cons, not_mem_nil, or_false, not_or] at hfresh
    rw [admitted_created h.supports, forall_mem_cons, forall_mem_singleton]
    exact ⟨fun hsame => hfresh.1 hsame.symm, fun hsame => hfresh.2 hsame.symm⟩
  · intro grant hgrant
    obtain rfl := Option.some.inj hgrant
    exact hactions
  · change 2 + 1 < 2 ^ 63
    decide

theorem not_admissible (hactions : ¬ x.capability.actions.length ≤ 5) :
    ¬ Admissible x.platform x.database x.grant.envelope := by
  rintro (hadmitted | ⟨-, hfit, -⟩)
  · exact h.not_isAdmitted hadmitted
  · exact hactions (hfit _ rfl)

end Exchange.Faithful

theorem sortBy_of_sorted {α β : Type} [LinearOrder β] {key : α → β} {values : List α}
    (h : values.Pairwise fun left right => key left ≤ key right) : sortBy key values = values :=
  mergeSort_of_pairwise (h.imp fun hle => decide_eq_true hle)

theorem normalize_of_sorted {template : CapabilityGrantTemplate}
    (hactions : template.actions.Pairwise fun left right => left.ctorIdx ≤ right.ctorIdx)
    (hschemas : template.schemas.Pairwise fun left right =>
      utf8Bytes left.asStr ≤ utf8Bytes right.asStr)
    (hvisibilities : template.visibilities.Pairwise fun left right =>
      left.ctorIdx ≤ right.ctorIdx) (hroles : template.contentRoles.Pairwise fun left right =>
      utf8Bytes left ≤ utf8Bytes right) : template.normalize = template := by
  rw [CapabilityGrantTemplate.normalize, sortBy_of_sorted hactions, sortBy_of_sorted hschemas,
    sortBy_of_sorted hvisibilities, sortBy_of_sorted hroles]

theorem admin_faithful : admin.Faithful := by
  refine ⟨normalize_of_sorted (by decide) (by decide) (by decide) (by decide),
    ?_, ?_, ?_, ?_, ?_, ?_, ?_, ?_, ?_, ?_, ?_, ?_, ?_, ?_⟩ <;> decide +kernel

theorem guest_faithful : guest.Faithful := by
  refine ⟨normalize_of_sorted (by decide) (by decide) (by decide) (by decide),
    ?_, ?_, ?_, ?_, ?_, ?_, ?_, ?_, ?_, ?_, ?_, ?_, ?_, ?_⟩ <;> decide +kernel

theorem guest_admissible : Admissible guest.platform guest.database guest.grant.envelope :=
  guest_faithful.admissible (by decide) (by decide)

end Sample

end Fractonica.Node
