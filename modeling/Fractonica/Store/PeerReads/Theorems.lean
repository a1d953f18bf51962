import Fractonica.Lib.ReplayCache
import Fractonica.Store.Completeness
import Fractonica.Store.PeerReads

namespace Fractonica.Store

open Lib Trust DataModel Application Peer List

variable {P : PeerPlatform}

section Nonces

variable {nonces : NonceTable}

theorem NonceTable.contains_iff {key : PeerSessionId × PeerRequestNonce} :
    nonces.contains key = true ↔ ∃ row ∈ nonces.rows, row.key = key := by
  rw [contains, contains_iff_mem, mem_map]

-- Only expired rows are removed.
theorem NonceTable.mem_clean (now : Int64) (h : row ∈ nonces.rows) :
    row ∈ (nonces.clean now).rows ∨ row.expiresAtUnixMs.toInt ≤ now.toInt := by
  by_cases hexpired : row.expiresAtUnixMs.toInt ≤ now.toInt
  · exact .inr hexpired
  · refine .inl (mem_filter.mpr ⟨h, ?_⟩)
    rw [Bool.not_eq_eq_eq_not, Bool.not_true, ← Bool.not_eq_true, contains_iff_mem,
      mem_map]
    rintro ⟨other, hother, hkey⟩
    have hmem := mem_filter.mp (mem_mergeSort.mp (mem_of_mem_take hother))
    obtain rfl := inj_on_of_nodup_map nonces.keys hmem.1 h hkey
    exact hexpired (of_decide_eq_true hmem.2)

theorem NonceTable.insert_eq_ok :
    nonces.insert sessions row = .ok nonces' ↔
      (0 ≤ row.expiresAtUnixMs.toInt ∧ 0 ≤ row.consumedAtUnixMs.toInt) ∧
      nonces.contains row.key = false ∧ sessions.any (·.invitationId = row.invitationId) = true ∧
      nonces'.rows = nonces.rows ++ [row] := by
  unfold NonceTable.insert
  split_ifs with hchecks hclash hsession
  · simp only [false_iff, not_and]
    intro hvalid
    simp [hvalid.1, hvalid.2] at hchecks
  · simp [hclash]
  · simp only [false_iff, not_and]
    intro _ _ hfound
    simp [hfound] at hsession
  · simp only [Bool.not_eq_eq_eq_not, Bool.not_true, Bool.not_eq_false, Bool.and_eq_true,
      decide_eq_true_eq] at hchecks hsession
    simp only [Except.ok.injEq, hchecks, hclash, hsession, true_and, and_self]
    constructor
    · rintro rfl
      rfl
    · intro hrows
      cases nonces'
      cases hrows
      rfl

end Nonces

section Reads

variable {node : Node} {request : PeerReadChangesRequest} {nonces : NonceTable}
  {page : OperationChangePage}

-- What an accepted read has passed, and what it leaves.
structure AcceptedRead (P : PeerPlatform) (node : Node) (request : PeerReadChangesRequest)
    (nonces : NonceTable) (page : OperationChangePage) : Prop where
  verified : Verified P.toSignaturePrimitives request.proof request.receivedAtUnixMs
  paired : pairingMatches node.pairingSessions request.proof = true
  authorized : authorizeCapabilityAction P.toPrimitives request.proof.spaceId
    request.proof.actorId [request.proof.grantOperationId] .readSpace request.receivedAtUnixMs
    (capabilityView P.toPlatform node.database.tables) = .ok ()
  fresh : (node.peerRequestNonces.clean request.receivedAtUnixMs).contains
    (request.proof.sessionId, request.proof.nonce) = false
  room : (node.peerRequestNonces.clean request.receivedAtUnixMs).active request.proof.sessionId
    request.receivedAtUnixMs < MAX_ACTIVE_PEER_NONCES_PER_SESSION
  nonces : nonces.rows = (node.peerRequestNonces.clean request.receivedAtUnixMs).rows ++
    [nonceRow request]
  page : loadChanges P.toPlatform node.database.tables request.proof.spaceId
    request.proof.after.toNat request.proof.limit.toNat = .ok page

theorem readPeerChanges_eq_ok :
    readPeerChanges P node request = .ok (nonces, page) ↔
      AcceptedRead P node request nonces page := by
  simp only [readPeerChanges, bind_eq_ok, mapError_eq_ok, require_eq_ok, Peer.verify_eq_ok,
    liftStorage_eq_ok, NonceTable.insert_eq_ok, decide_eq_true_eq, Bool.not_eq_eq_eq_not,
    Bool.not_true, Except.ok.injEq, Prod.mk.injEq]
  constructor
  · rintro ⟨_, hverified, _, hpaired, _, hauthorized, _, hfresh, _, hroom, _, ⟨-, -, -, hnonces⟩,
      _, hpage, rfl, rfl⟩
    exact ⟨hverified, hpaired, hauthorized, hfresh, hroom, hnonces, hpage⟩
  · rintro ⟨hverified, hpaired, hauthorized, hfresh, hroom, hnonces, hpage⟩
    have hsession : node.pairingSessions.any
        (·.invitationId = (nonceRow request).invitationId) = true := by
      obtain ⟨row, hrow, hmatches⟩ := any_eq_true.mp hpaired
      simp only [Bool.and_eq_true] at hmatches
      exact any_eq_true.mpr ⟨row, hrow, hmatches.1.1.1.1.1⟩
    exact ⟨(), hverified, (), hpaired, (), hauthorized, (), hfresh, (), hroom, nonces,
      ⟨⟨hverified.wellFormed.expires, hverified.received⟩, hfresh, hsession, hnonces⟩, page, hpage,
      rfl, rfl⟩

theorem peerChanges_isOk (h : (peerChanges P node request).2.isOk = true) :
    ∃ nonces page, AcceptedRead P node request nonces page ∧
      peerChanges P node request = ({ node with peerRequestNonces := nonces }, .ok page) := by
  unfold peerChanges at h ⊢
  cases hread : readPeerChanges P node request with
  | error error =>
    rw [hread] at h
    cases h
  | ok result =>
    exact ⟨result.1, result.2, readPeerChanges_eq_ok.mp hread, rfl⟩

theorem AcceptedRead.peerChanges_eq (h : AcceptedRead P node request nonces page) :
    peerChanges P node request = ({ node with peerRequestNonces := nonces }, .ok page) := by
  rw [peerChanges, readPeerChanges_eq_ok.mpr h]

theorem peerChanges_refused (h : (peerChanges P node request).2.isOk = false) :
    (peerChanges P node request).1 = node := by
  unfold peerChanges at h ⊢
  cases hread : readPeerChanges P node request with
  | error error => rfl
  | ok result =>
    rw [hread] at h
    cases h

theorem NodeRun.read {start : Node} {accepted : List PeerReadChangesRequest}
    (run : NodeRun P start accepted node) (h : AcceptedRead P node request nonces page) :
    NodeRun P start (accepted ++ [request]) { node with peerRequestNonces := nonces } := by
  have hok : (peerChanges P node request).2.isOk = true := by
    rw [h.peerChanges_eq]
    rfl
  have hrun := run.accepted request hok
  rwa [h.peerChanges_eq] at hrun

end Reads

section SingleUse

abbrev Key : Type := PeerSessionId × PeerRequestNonce

def cacheEntry (row : NonceRow) : ReplayCache.Entry Key Int :=
  ⟨row.key, row.expiresAtUnixMs.toInt⟩

def Node.cache (node : Node) : List (ReplayCache.Entry Key Int) :=
  node.peerRequestNonces.rows.map cacheEntry

def cacheRequest (request : PeerReadChangesRequest) : ReplayCache.Request Key Int :=
  ⟨cacheEntry (nonceRow request), request.receivedAtUnixMs.toInt⟩

variable {start node : Node} {request : PeerReadChangesRequest}
  {accepted : List PeerReadChangesRequest}

theorem AcceptedRead.accepts {nonces : NonceTable} {page : OperationChangePage}
    (h : AcceptedRead P node request nonces page) :
    ReplayCache.Accepts node.cache (Node.cache { node with peerRequestNonces := nonces })
      (cacheRequest request) := by
  have hrows : nonces.rows.map cacheEntry =
      (node.peerRequestNonces.clean request.receivedAtUnixMs).rows.map cacheEntry ++
        [cacheEntry (nonceRow request)] := by
    rw [h.nonces, map_append, map_singleton]
  refine ⟨?_, ?_, ?_⟩
  · intro e he
    obtain ⟨row, hrow, rfl⟩ := mem_map.mp he
    rcases NonceTable.mem_clean request.receivedAtUnixMs hrow with hkept | hexpired
    · refine .inl ?_
      rw [Node.cache, hrows]
      exact mem_append_left _ (mem_map_of_mem hkept)
    · exact .inr hexpired
  · intro e he hkey
    obtain ⟨row, hrow, rfl⟩ := mem_map.mp he
    rcases NonceTable.mem_clean request.receivedAtUnixMs hrow with hkept | hexpired
    · have hfound := NonceTable.contains_iff.mpr ⟨row, hkept, hkey⟩
      exact absurd (hfound.symm.trans h.fresh) (by decide)
    · exact hexpired
  · rw [Node.cache, hrows]
    exact mem_append_right _ mem_cons_self

-- The reads of a run use the cache of the nonces.
theorem NodeRun.cache (h : NodeRun P start accepted node) :
    ReplayCache.Run start.cache (accepted.map cacheRequest) node.cache := by
  induction h with
  | refl => rfl
  | step run step ih =>
    cases step with
    | call => exact ih
    | pair => exact ih
  | refused run request hrefused ih =>
    rw [peerChanges_refused hrefused]
    exact ih
  | accepted run request hok ih =>
    obtain ⟨nonces, page, hread, heq⟩ := peerChanges_isOk hok
    rw [heq, map_append, map_singleton]
    exact ih.snoc hread.accepts

-- A read is accepted before the expiry of its proof.
theorem NodeRun.unexpired (h : NodeRun P start accepted node) :
    ∀ request ∈ accepted, request.receivedAtUnixMs.toInt < request.proof.expiresAtUnixMs.toInt := by
  induction h with
  | refl =>
    intro request hrequest
    cases hrequest
  | step run step ih => exact ih
  | refused run request hrefused ih => exact ih
  | accepted run request hok ih =>
    obtain ⟨nonces, page, hread, -⟩ := peerChanges_isOk hok
    rw [forall_mem_append, forall_mem_singleton]
    exact ⟨ih, hread.verified.unexpired⟩

theorem NodeRun.split {between later : List PeerReadChangesRequest}
    (h : NodeRun P start (earlier ++ first :: (between ++ second :: later)) node) :
    ReplayCache.Run start.cache (earlier.map cacheRequest ++ cacheRequest first ::
      (between.map cacheRequest ++ cacheRequest second :: later.map cacheRequest)) node.cache := by
  have hcache := h.cache
  rwa [map_append, map_cons, map_append, map_cons] at hcache

theorem cacheRequest_key (hsession : first.proof.sessionId = second.proof.sessionId)
    (hnonce : first.proof.nonce = second.proof.nonce) :
    (cacheRequest first).entry.key = (cacheRequest second).entry.key :=
  Prod.ext hsession hnonce

-- With samples that do not go back, every proof is accepted once.
theorem NodeRun.nodup (h : NodeRun P start accepted node) (hsorted : accepted.Pairwise
      fun a b => a.receivedAtUnixMs.toInt ≤ b.receivedAtUnixMs.toInt) :
    (accepted.map PeerReadChangesRequest.proof).Nodup := by
  have hpairs := h.cache.pairwise_of_sorted (pairwise_map.mpr hsorted)
  have hunexpired := h.unexpired
  rw [List.Nodup, pairwise_map]
  apply (pairwise_map.mp hpairs).imp_of_mem
  intro first second _ hsecond hreuse hproof
  have hexpired : first.proof.expiresAtUnixMs.toInt ≤ second.receivedAtUnixMs.toInt :=
    hreuse (cacheRequest_key (congrArg _ hproof) (congrArg _ hproof))
  have hreceived := hunexpired second hsecond
  rw [hproof] at hexpired
  omega

end SingleUse

section Expiry

variable {start node : Node} {accepted : List PeerReadChangesRequest}

theorem Transition.clock {P : Platform} (h : Transition P db db') :
    db.admissionClock.toInt ≤ db'.admissionClock.toInt := by
  cases h with
  | idle later => exact later
  | insert later => exact later
  | create later => exact later
  | delete => exact le_rfl

theorem NodeRun.clock (h : NodeRun P start accepted node) :
    start.database.admissionClock.toInt ≤ node.database.admissionClock.toInt := by
  induction h with
  | refl => exact le_rfl
  | step run step ih =>
    cases step with
    | call step => exact ih.trans (transition_of_step step).clock
    | pair => exact ih
  | refused run request hrefused ih =>
    rw [peerChanges_refused hrefused]
    exact ih
  | accepted run request hok ih =>
    obtain ⟨nonces, page, -, heq⟩ := peerChanges_isOk hok
    rw [heq]
    exact ih

-- The grants behind a request that is authorized at a time are not expired by
-- any earlier time.
theorem unexpired_throughout {P : Primitives} {view : CapabilityView} {now time : Int64}
    {spaceId : SpaceId} (h : Throughout P view now spaceId references holds)
    (htime : time.toInt ≤ now.toInt) :
    Throughout P view now spaceId references
      (fun grant => ∀ expires ∈ grant.expiresAtUnixMs, time.toInt < expires.toInt) := by
  intro reference hreference node hpath
  rcases h reference hreference node hpath with hroot | ⟨operation, grant, hactive, -⟩
  · exact .inl hroot
  · refine .inr ⟨operation, grant, hactive, ?_⟩
    intro expires hexpires
    have hwindow := hactive.active
    rw [windowContains, Bool.and_eq_true, Option.mem_def.mp hexpires] at hwindow
    exact lt_of_le_of_lt htime (of_decide_eq_true hwindow.2)

end Expiry

namespace Sample

open DataModel.Sample (spaceId writer)

-- A read that the node and the actor signed.
structure SignedRead where
  issuedAtUnixMs : Int64
  expiresAtUnixMs : Int64
  nonce : UInt8
  nodeDigest : FixedBytes 32
  nodeSignature : FixedBytes 64
  actorDigest : FixedBytes 32
  actorSignature : FixedBytes 64

def joinerKey : Ed25519SigningKey := ⟨FixedBytes.replicate 32 2⟩

def joiner : NodeId := ⟨.ofNat 0x8139770ea87d175f56a35466c34c7ecccb8d8a91b4ee37a25df60f5b8fc9b394⟩

namespace SignedRead

def proof (r : SignedRead) : PeerReadChangesProof where
  protocolVersion := PEER_PROTOCOL_VERSION
  sessionId := ⟨FixedBytes.replicate 16 7⟩
  spaceId := spaceId
  nodeId := joiner
  actorId := writer
  grantOperationId := DataModel.Sample.writerGrant.operationId
  after := 0
  limit := 200
  issuedAtUnixMs := r.issuedAtUnixMs
  expiresAtUnixMs := r.expiresAtUnixMs
  nonce := ⟨FixedBytes.replicate 16 r.nonce⟩
  nodeSignature := ⟨r.nodeSignature⟩
  actorSignature := ⟨r.actorSignature⟩

def bytes (r : SignedRead) : List UInt8 := r.proof.canonicalBytes.toOption.getD []

def at_ (r : SignedRead) (receivedAtUnixMs : Int64) : PeerReadChangesRequest where
  proof := r.proof
  receivedAtUnixMs := receivedAtUnixMs

end SignedRead

def firstRead : SignedRead where
  issuedAtUnixMs := 1720000000123
  expiresAtUnixMs := 1720000001123
  nonce := 1
  nodeDigest := .ofNat 0xfdc819a08d719c4eb543498b4b595662ab678590675f2767b37f2fd9a6e04cc9
  nodeSignature :=
    ⟨toBE 32 0x16c498533449e87ebf9825c19b72fc99bed36a948b3816e9c59c1e6ccba2bc6f ++
      toBE 32 0x5ca64185c18474a758b560494187dc4160bca39d45ba8b3747147a92a39b630d, by decide⟩
  actorDigest := .ofNat 0x8adad6b6536901cf1bd8331cf21ba4aea1bf29079962ad098657c6c4b653054c
  actorSignature :=
    ⟨toBE 32 0x6b32d9eadb2d719d5f5be8af455cfb5e5d4180c80654c554b7625ba2e41df11e ++
      toBE 32 0xd121ba337ed53cf40d31789088818c99c6ef0736ae6f9b42cac4d5fb643a070a, by decide⟩

-- Issued when the first one expires.
def secondRead : SignedRead where
  issuedAtUnixMs := 1720000001123
  expiresAtUnixMs := 1720000002123
  nonce := 2
  nodeDigest := .ofNat 0x70d256597aab7ebe2ae27dfea94ce1e3326367b71d43be3432d01a1ddcef02d2
  nodeSignature :=
    ⟨toBE 32 0x3d18165dace05a22b10eb7b9fd2435f556ed217bdec5e3d7535488d8c838d63d ++
      toBE 32 0x308a33c14e648e2f1cf74fc92e320405b44a42e84ae3d3477d5bd57866618509, by decide⟩
  actorDigest := .ofNat 0x65c92dedb5df0a24adcfd974d0aa4b72b99a3ec305bd78e8fdcbbf1e79c283b7
  actorSignature :=
    ⟨toBE 32 0x6e245b8da47360a7d64ada7fe6f9db5dc5fa738e1530c8067b07c0cf39a929a6 ++
      toBE 32 0xb075f71bf373304ab9abb597938aaf5034c8b1efa09bc2606076deb5c0f2280e, by decide⟩

def peerRecording : Recording :=
  let operations := DataModel.Sample.recording
    [DataModel.Sample.genesis, DataModel.Sample.writerGrant]
  let reads := [firstRead, secondRead]
  { digests := operations.digests ++ reads.flatMap fun r =>
      [(detachedSignatureMessage .peerNodeRequestV1 r.bytes, r.nodeDigest),
        (detachedSignatureMessage .peerActorRequestV1 r.bytes, r.actorDigest)]
    keys := operations.keys ++
      [(joinerKey.seed, joiner.bytes),
        (DataModel.Sample.writerKey.seed, writer.bytes)]
    signatures := operations.signatures ++ reads.flatMap fun r =>
      [((joiner.bytes, r.nodeDigest.bytes), r.nodeSignature),
        ((writer.bytes, r.actorDigest.bytes), r.actorSignature)] }

def peerEnvelopes : List OperationEnvelope :=
  [DataModel.Sample.genesis.envelope, DataModel.Sample.writerGrant.envelope]

def peerPlatform : PeerPlatform where
  toPlatform := reading peerRecording.primitives peerEnvelopes
  verify := peerRecording.signaturePrimitives.verify

theorem firstRead_verifies :
    firstRead.proof.verify peerPlatform.toSignaturePrimitives 1720000000123 = .ok () := by
  decide +kernel

theorem secondRead_verifies :
    secondRead.proof.verify peerPlatform.toSignaturePrimitives 1720000001123 = .ok () := by
  decide +kernel

theorem peerVerified : ∀ e ∈ peerEnvelopes, e.verify peerPlatform.toPrimitives = .ok () := by
  decide +kernel

theorem peerSupports : Supports peerPlatform.toPlatform where
  json := acceptsJson _ _
  genesisVerifies := peerVerified _ mem_cons_self
  grantVerifies := peerVerified _ (mem_cons_of_mem _ mem_cons_self)
  genesisReads := readEnvelope_text peerVerified mem_cons_self
  grantReads := readEnvelope_text peerVerified (mem_cons_of_mem _ mem_cons_self)

def session : PairingRow where
  invitationId := ⟨FixedBytes.replicate 16 7⟩
  state := .completed
  spaceId := spaceId
  joinerNodeId := some joiner
  subjectActorId := some writer
  grantOperationId := some DataModel.Sample.writerGrant.operationId

-- The node after the bootstrap and a completed pairing.
def paired (nonces : NonceTable) : Node where
  database := created peerPlatform.toPlatform
  pairingSessions := [session]
  peerRequestNonces := nonces

theorem readable_created : Readable peerPlatform.toPlatform [genesis, writerGrant] spaceId := by
  intro a ha
  have hmem := (Log.mem_ofSpace.mp ha).1
  rw [mem_cons, mem_singleton] at hmem
  rcases hmem with rfl | rfl
  · exact peerSupports.genesisReads
  · exact peerSupports.grantReads

theorem acceptedRead {r : SignedRead} {now : Int64}
    (hverify : r.proof.verify peerPlatform.toSignaturePrimitives now = .ok ())
    (hfresh : (nonces.clean now).contains (r.proof.sessionId, r.proof.nonce) = false)
    (hroom : (nonces.clean now).active r.proof.sessionId now < MAX_ACTIVE_PEER_NONCES_PER_SESSION)
    (hrows : nonces'.rows = (nonces.clean now).rows ++ [nonceRow (r.at_ now)]) :
    ∃ page, AcceptedRead peerPlatform (paired nonces) (r.at_ now) nonces' page := by
  have hcoherent := (consistent_created peerSupports).coherent
  have hrow : spaceOf ∈ (created peerPlatform.toPlatform).tables.spaces := mem_cons_self
  have hspace := (reachable_created peerSupports).sound.requireSpace_ok hrow
  have hlimit : r.proof.limit.toNat ≤ MAX_CHANGE_LIMIT := by
    change (200 : UInt16).toNat ≤ MAX_CHANGE_LIMIT
    decide
  obtain ⟨page, hpage⟩ := hcoherent.loadChanges_isOk (Peer.verify_eq_ok.mp
    hverify).wellFormed.limit.1
    hlimit hspace readable_created
  have hpaired : pairingMatches [session] r.proof = true := by
    simp [pairingMatches, session, SignedRead.proof]
  obtain ⟨grant, hsubject, -, hread, hactive⟩ := activeGrant_created peerSupports now
  have haction := action_of_grant hactive (trustedRoot_created peerSupports) rfl rfl
    (by decide) hread
  rw [hsubject] at haction
  exact ⟨page, Peer.verify_eq_ok.mp hverify, hpaired, haction, hfresh, hroom, hrows, hpage⟩

def firstNonces : NonceTable :=
  ⟨[nonceRow (firstRead.at_ 1720000000123)], nodup_singleton _⟩

def secondNonces : NonceTable :=
  ⟨[nonceRow (secondRead.at_ 1720000001123)], nodup_singleton _⟩

theorem firstRead_accepted :
    ∃ page, AcceptedRead peerPlatform (paired .empty) (firstRead.at_ 1720000000123) firstNonces
      page :=
  acceptedRead firstRead_verifies (by decide) (by decide) (by decide)

-- The cleanup of the second read removes the nonce of the first.
theorem secondRead_accepted :
    ∃ page, AcceptedRead peerPlatform (paired firstNonces) (secondRead.at_ 1720000001123)
      secondNonces page :=
  acceptedRead secondRead_verifies (by decide +kernel) (by decide +kernel) (by decide +kernel)

theorem run_paired : NodeRun peerPlatform .empty [] (paired .empty) := by
  have hstep : Step peerPlatform.toPlatform Database.empty (created peerPlatform.toPlatform) := by
    rw [← bootstrap_created peerSupports]
    exact .bootstrap _ _
  exact (NodeRun.refl.step (.call hstep)).step (.pair [session])

theorem run_reads :
    NodeRun peerPlatform .empty
      [firstRead.at_ 1720000000123, secondRead.at_ 1720000001123] (paired secondNonces) := by
  obtain ⟨first, hfirst⟩ := firstRead_accepted
  obtain ⟨second, hsecond⟩ := secondRead_accepted
  exact (run_paired.read hfirst).read hsecond

end Sample

open Sample (firstRead paired peerPlatform run_reads secondRead)

end Fractonica.Store
