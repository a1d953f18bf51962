import Fractonica.Client.Stored
import Fractonica.Store.Completeness

namespace Fractonica.Client

open Lib Trust DataModel List
open Store (Platform HeadRow headRow TrustedSpaceBootstrapRequest)

-- The call stores no operation that takes a head away from another space.
def Call.Confined (t : Tables) : Call → Prop
  | .commit operation _ _ =>
    hasOperation t.graph.operations operation.operationId = true ∨
      Client.Confined t.graph operation
  | _ => True

inductive ConfinedRun (P : Platform) : Tables → Prop
  | start : ConfinedRun P .empty
  | call {t : Tables} (h : ConfinedRun P t) (call : Call) (confined : call.Confined t) :
      ConfinedRun P (call.apply P t)

-- The heads of every entity are the operations without a child in their space,
-- and there is one as soon as there is an operation.
structure HeadsSound (P : Platform) (g : GraphTables) (log : Log) : Prop where
  rows : Represents P g log
  heads : ∀ spaceId entityId row, row ∈ entityHeads g spaceId entityId ↔
    ∃ a ∈ log.ofEntity spaceId entityId,
      (∀ b ∈ log, b.space = spaceId → a.key ∉ b.parents) ∧ row = headRow a.operation
  nonempty : ∀ spaceId entityId, entityOperations g spaceId entityId ≠ [] →
    entityHeads g spaceId entityId ≠ []

-- The heads, the parent edges and the projections of the other spaces stay.
structure OthersUntouched (g g' : GraphTables) (spaceId : SpaceId) : Prop where
  heads : g'.heads.filter (·.spaceId ≠ spaceId) = g.heads.filter (·.spaceId ≠ spaceId)
  parents : g'.parents.filter (fun row => !operationIn g' row.operationId spaceId) =
    g.parents.filter fun row => !operationIn g row.operationId spaceId
  projections : g'.projections.filter (·.spaceId ≠ spaceId) =
    g.projections.filter (·.spaceId ≠ spaceId)

section Invariant

variable {P : Platform} {g : GraphTables} {log : Log}

theorem HeadsExact.mem_entityHeads (hheads : HeadsExact g log) {spaceId : SpaceId}
    {entityId : EntityId} :
    row ∈ entityHeads g spaceId entityId ↔ ∃ a ∈ log.ofEntity spaceId entityId,
      (∀ b ∈ log, b.space = spaceId → a.key ∉ b.parents) ∧ row = headRow a.operation := by
  rw [entityHeads, hheads, mem_filter, mem_map]
  simp only [Bool.and_eq_true, decide_eq_true_eq, Log.mem_ofEntity, Log.mem_heads]
  constructor
  · rintro ⟨⟨a, ⟨ha, hhead⟩, rfl⟩, hspace, hentity⟩
    exact ⟨a, ⟨ha, hspace, hentity⟩, fun b hb hsame => hhead b hb (hsame.trans hspace.symm), rfl⟩
  · rintro ⟨a, ⟨ha, hspace, hentity⟩, hhead, rfl⟩
    exact ⟨⟨a, ⟨ha, fun b hb hsame => hhead b hb (hsame.trans hspace)⟩, rfl⟩, hspace, hentity⟩

theorem Represents.entityOperations_eq (h : Represents P g log) (spaceId : SpaceId)
    (entityId : EntityId) :
    entityOperations g spaceId entityId = (log.ofEntity spaceId entityId).map (storedRow P) := by
  rw [entityOperations, h.operations, filter_map]
  rfl

theorem Coherent.headsSound (h : Coherent P g log) (hheads : HeadsExact g log) :
    HeadsSound P g log := by
  refine ⟨h.represents, fun _ _ _ => hheads.mem_entityHeads, ?_⟩
  intro spaceId entityId hne
  rw [h.represents.entityOperations_eq] at hne
  obtain ⟨a, ha⟩ := h.causal.exists_entityHead fun hnil => hne (by rw [hnil, map_nil])
  rw [h.causal.heads_ofEntity, mem_filter] at ha
  have hrow : headRow a.operation ∈ entityHeads g spaceId entityId := by
    rw [entityHeads, hheads, mem_filter]
    exact ⟨mem_map.mpr ⟨a, ha.1, rfl⟩, ha.2⟩
  exact ne_nil_of_mem hrow

theorem coherent_empty : Coherent P .empty [] :=
  ⟨⟨rfl, rfl, rfl⟩,
    ⟨nodup_nil, .nil, forall_mem_nil _, forall_mem_nil _⟩, forall_mem_nil _⟩

-- The invariant of the confined runs.
def Kept (P : Platform) (g : GraphTables) : Prop :=
  ∃ log, Coherent P g log ∧ HeadsExact g log

theorem Kept.commit {operation : OperationEnvelope} {storedAtUnixMs : Int64} (h : Kept P t.graph)
    (hcommit : Commit P t operation storedAtUnixMs source t' result)
    (hconfined : hasOperation t.graph.operations operation.operationId = true ∨
      Client.Confined t.graph operation) : Kept P t'.graph := by
  cases hcommit with
  | replayed hgraph hstored hflag =>
    rw [hgraph]
    exact h
  | inserted hins hflag =>
    obtain ⟨log, hcoherent, hheads⟩ := h
    have hfresh : ¬ hasOperation t.graph.operations operation.operationId = true := by
      simpa [hasOperation] using hins.fresh
    exact ⟨_, hcoherent.insert hins,
      hheads.insert hcoherent hins (hconfined.resolve_left hfresh)⟩

theorem confined_of_root {operation : OperationEnvelope} (h : operation.causalParents = []) :
    Client.Confined g operation := by
  intro row _ hparent
  rw [h] at hparent
  cases hparent

theorem Kept.call (h : Kept P t.graph) (call : Call) (hconfined : call.Confined t)
    (hrun : call.run P t = .ok t') : Kept P t'.graph := by
  refine Call.induction (fun s => Kept P s.graph) (fun s => Kept P s.graph) h hrun ?_ ?_ ?_ ?_
  · exact fun s workspaces hs => hs
  · intro s s' operation storedAtUnixMs source result hcase hs hcommit
    rcases hcase with ⟨rfl, rfl⟩ | hroot
    · exact hs.commit (commit_cases hcommit) hconfined
    · exact hs.commit (commit_cases hcommit) (.inr (confined_of_root hroot))
  · intro spaceId _ hfree
    obtain ⟨log, hcoherent, hheads⟩ := h
    exact ⟨_, hcoherent.delete hfree, hheads.delete⟩
  · intro hstores
    rw [call.graph_eq hstores hrun]
    exact h

theorem ConfinedRun.kept (h : ConfinedRun P t) : Kept P t.graph := by
  induction h with
  | start => exact ⟨[], coherent_empty, rfl⟩
  | @call t _ call hconfined ih =>
    unfold Call.apply
    cases hrun : call.run P t with
    | error error => exact ih
    | ok next => exact ih.call call hconfined hrun

theorem ConfinedRun.reachable (h : ConfinedRun P t) : Reachable P t := by
  induction h with
  | start => exact .start
  | call _ call _ ih => exact ih.call call

theorem Inserted.othersUntouched_iff (h : Coherent P g log) (hins : Inserted P g a g') :
    OthersUntouched g g' a.space ↔ Client.Confined g a.operation := by
  constructor
  · intro hothers row hrow hparent
    by_contra hspace
    have hbefore : row ∈ g.heads.filter (·.spaceId ≠ a.space) :=
      mem_filter.mpr ⟨hrow, decide_eq_true hspace⟩
    rw [← hothers.heads, hins.heads] at hbefore
    obtain ⟨hafter, hkept⟩ := mem_filter.mp hbefore
    rcases mem_append.mp hafter with hold | hnew
    · have hgone := (mem_filter.mp hold).2
      rw [contains_iff_mem.mpr hparent] at hgone
      cases hgone
    · rw [mem_singleton.mp hnew] at hspace
      exact hspace rfl
  · intro hconfined
    obtain ⟨rows, hrows, hspace⟩ := hins.projections
    have hnew : (log ++ [a]).filter (·.space ≠ a.space) = log.filter (·.space ≠ a.space) := by
      simp [filter_append]
    refine ⟨?_, ?_, ?_⟩
    · rw [hins.heads, filter_append, keptHeads, filter_filter]
      have hhead : [headRow a.operation].filter (·.spaceId ≠ a.space) = [] := by
        simp [headRow]
      rw [hhead, append_nil]
      apply filter_congr
      intro row hrow
      by_cases hsame : row.spaceId = a.space
      · simp [hsame]
      · have hparent : row.operationId ∉ a.parents := fun hparent =>
          hsame (hconfined row hrow hparent)
        simp [hsame, hparent]
    · rw [(h.insert hins).represents.parents, h.represents.parents,
        (h.insert hins).filter_rows fun a => owner_parentRows,
        h.filter_rows fun a => owner_parentRows, hnew]
    · have hnone : rows.filter (·.spaceId ≠ a.space) = [] := by
        apply filter_eq_nil_iff.mpr
        intro row hrow
        simp [hspace row hrow]
      rw [hrows, filter_append, hnone, append_nil]

end Invariant

-- In a run whose commits take no head away from another space the heads are
-- what they should be, and the next commit keeps this and leaves the other
-- spaces alone exactly if it takes none away either.
theorem client_heads_iff_confined (P : Platform) (t : Tables) (h : ConfinedRun P t) :
    (∃ log, HeadsSound P t.graph log) ∧
      ∀ operation storedAtUnixMs source t' result,
        commitTransaction P t operation storedAtUnixMs source = .ok (t', result) →
          ((∃ log, HeadsSound P t'.graph log) ∧
              OthersUntouched t.graph t'.graph operation.spaceId ↔
            result.replayed = true ∨ Client.Confined t.graph operation) := by
  have hkept := h.kept
  obtain ⟨log, hcoherent, hheads⟩ := hkept
  refine ⟨⟨log, hcoherent.headsSound hheads⟩, ?_⟩
  intro operation storedAtUnixMs source t' result hcommit
  cases commit_cases hcommit with
  | replayed hgraph hstored hflag =>
    rw [hgraph]
    exact ⟨fun _ => .inl hflag,
      fun _ => ⟨⟨log, hcoherent.headsSound hheads⟩, rfl, rfl, rfl⟩⟩
  | inserted hins hflag =>
    have hiff := hins.othersUntouched_iff hcoherent
    constructor
    · rintro ⟨-, hothers⟩
      exact .inr (hiff.mp hothers)
    · intro hor
      have hconfined := hor.resolve_left (by rw [hflag]; exact Bool.false_ne_true)
      exact ⟨⟨_, (hcoherent.insert hins).headsSound (hheads.insert hcoherent hins hconfined)⟩,
        hiff.mpr hconfined⟩

namespace Sample

open DataModel.Sample (controller occurredAtUnixMs writer)

def otherSpace : SpaceId := ⟨FixedBytes.replicate 32 0x22⟩

def intruderPayload : List UInt8 :=
    toBE 36 0x8b78186f72672e66726163746f6e6963612e6f7065726174696f6e015820222222222222 ++
    toBE 36 0x222222222222222222222222222222222222222222222222222258203b6a27bcceb6a42d ++
    toBE 36 0x62a3a8d02a6f0d73653215771de243a63ac048a18b59da2950018f3e7a5b6c7d8e9fab00 ++
    toBE 36 0x0000000002706361706162696c6974792e6772616e74815820684cb769f1d99d9bbd2dbc ++
    toBE 36 0x775fcdb9fdc7456f6dd6a6b7e8b9453d64ca17f98b815820d38fb6962e6deaa625e6d055 ++
    toBE 36 0x187a07ae79754eafddbb9cba5b3adc5f114667091b0000019077fd307b50060606060606 ++
    toBE 36 0x060606060606060606068b0658208a88e3dd7409f195fd52db2d3cba5d72ca6709bf1d94 ++
    toBE 26 0x121bf3748801b40f6f5c8103808080f6f6f60066726561646572

def intruderId : OperationId :=
  ⟨.ofNat 0xb3d33e98d8f5dfbbb89233ccf6e0a3ad0820214d9e508a552d57cb4fd59c30ac⟩

def intruderSignature : FixedBytes 64 :=
  ⟨toBE 32 0x0d3290c8baa8f872756c456b2f8a8071812b6821731256c4a2fa091bc702caf0 ++
    toBE 32 0x9bec4249eeba45a84a721bc26a8245f551f828931dac76f951aff8166a4d4b03, by decide⟩

def intruder : OperationEnvelope where
  protocolVersion := PROTOCOL_VERSION
  operationId := intruderId
  spaceId := otherSpace
  actorId := controller
  entityId := DataModel.Sample.entity 2
  schema := .capabilityGrant
  causalParents := [DataModel.Sample.writerGrant.operationId]
  authorization := [DataModel.Sample.genesis.operationId]
  occurredAtUnixMs := occurredAtUnixMs
  nonce := ⟨FixedBytes.replicate 16 6⟩
  body := .capabilityGrant
    { subject := writer
      actions := [.readSpace]
      schemas := []
      visibilities := []
      contentRoles := []
      maxResourceByteLength := none
      notBeforeUnixMs := none
      expiresAtUnixMs := none
      delegationDepth := 0
      label := "reader" }
  coseSign1 := coseBytes intruderPayload intruderSignature

def recording : Recording :=
  let samples := DataModel.Sample.recording
    [DataModel.Sample.genesis, DataModel.Sample.writerGrant]
  { digests := (intruderPayload, intruderId.bytes) :: samples.digests
    keys := samples.keys ++ [(DataModel.Sample.writerKey.seed, writer.bytes)]
    signatures := ((controller.bytes, encoding (signatureValue intruderPayload)),
      intruderSignature) :: samples.signatures }

def envelopes : List OperationEnvelope :=
  [DataModel.Sample.genesis.envelope, DataModel.Sample.writerGrant.envelope, intruder]

def platform : Platform := Store.Sample.reading recording.primitives envelopes

theorem genesis_verifies :
    DataModel.Sample.genesis.envelope.verify platform.toPrimitives = .ok () := by
  decide +kernel

theorem writerGrant_verifies :
    DataModel.Sample.writerGrant.envelope.verify platform.toPrimitives = .ok () := by
  decide +kernel

theorem intruder_verifies : intruder.verify platform.toPrimitives = .ok () := by
  decide +kernel

theorem verified : ∀ e ∈ envelopes, e.verify platform.toPrimitives = .ok () := by
  rw [envelopes, forall_mem_cons, forall_mem_cons, forall_mem_singleton]
  exact ⟨genesis_verifies, writerGrant_verifies, intruder_verifies⟩

def genesis : StoredOperation :=
  ⟨1, occurredAtUnixMs, false, DataModel.Sample.genesis.envelope⟩

def writerGrant : StoredOperation :=
  ⟨2, occurredAtUnixMs, false, DataModel.Sample.writerGrant.envelope⟩

def child : StoredOperation := ⟨3, occurredAtUnixMs, false, intruder⟩

-- The tables with the given operations and heads, none of them of a client
-- document.
def graph (P : Platform) (log : Log) (heads : List HeadRow) : GraphTables where
  operations := log.map (storedRow P)
  lastSequence := log.length
  parents := log.flatMap fun a => parentRows a.operation
  authorizations := log.flatMap fun a => authorizationRows a.operation
  heads := heads
  visibility := []
  projections := []

def created (P : Platform) : GraphTables := graph P [genesis] [headRow genesis.operation]

def granted (P : Platform) : GraphTables :=
  graph P [genesis, writerGrant] [headRow genesis.operation, headRow writerGrant.operation]

def orphaned (P : Platform) : GraphTables :=
  graph P [genesis, writerGrant, child] [headRow genesis.operation, headRow child.operation]

theorem insert_genesis : insertOperation platform .empty genesis.operation
    genesis.storedAtUnixMs .ofRemote = .ok (created platform) := by
  rfl

theorem load_genesis (hrow : operationRow? g genesis.key = some (storedRow platform genesis)) :
    ∃ stored, loadOperationRow platform g genesis.key = .ok (some stored) :=
  ⟨_, loadOperationRow_stored genesis_verifies
    (Store.Sample.readEnvelope_text verified mem_cons_self) Nat.one_pos hrow⟩

theorem load_writerGrant
    (hrow : operationRow? g writerGrant.key = some (storedRow platform writerGrant)) :
    ∃ stored, loadOperationRow platform g writerGrant.key = .ok (some stored) :=
  ⟨_, loadOperationRow_stored writerGrant_verifies
    (Store.Sample.readEnvelope_text verified (mem_cons_of_mem _ mem_cons_self))
    Nat.two_pos hrow⟩

theorem insert_writerGrant : insertOperation platform (created platform) writerGrant.operation
    writerGrant.storedAtUnixMs .ofRemote = .ok (granted platform) := by
  have hreferences : validateReferences platform (created platform) writerGrant.operation =
      .ok () := by
    apply validateReferences_of_loaded (forall_mem_nil _)
    exact forall_mem_singleton.mpr (load_genesis rfl)
  rw [insertOperation, hreferences]
  rfl

theorem insert_child : insertOperation platform (granted platform) child.operation
    child.storedAtUnixMs .ofRemote = .ok (orphaned platform) := by
  have hreferences : validateReferences platform (granted platform) child.operation = .ok () := by
    apply validateReferences_of_loaded
    · exact forall_mem_singleton.mpr (load_writerGrant rfl)
    · exact forall_mem_singleton.mpr (load_genesis rfl)
  rw [insertOperation, hreferences]
  rfl

def tables (g : GraphTables) : Tables := { Tables.empty with graph := g }

-- A remote commit without resources stores the operation and does nothing else.
theorem commit_remote {a : StoredOperation} (hverified : a.operation.verify P.toPrimitives = .ok ())
    (htime : 0 ≤ a.storedAtUnixMs.toInt) (hfresh : ∀ row ∈ g.operations, row.operationId ≠ a.key)
    (hresources : a.operation.body.resources = [])
    (hinsert : insertOperation P g a.operation a.storedAtUnixMs .ofRemote = .ok g') :
    ∃ result, commitTransaction P (tables g) a.operation a.storedAtUnixMs .ofRemote =
      .ok (tables g', result) ∧ result.replayed = false := by
  have habsent : loadOperationRow P g a.key = .ok none := loadOperationRow_eq_none.mpr hfresh
  have hgraph : (tables g).graph = g := rfl
  refine ⟨⟨g'.lastSequence, a.key, false, 0⟩, ?_, rfl⟩
  rw [commitTransaction, hverified, hgraph, habsent]
  simp only [Except.mapError, ok_bind, require, htime, decide_true, if_true, hinsert,
    insertOperationResources, applySource, applyResourceSource, hresources]
  rfl

theorem commit_genesis : ∃ result, commitTransaction platform .empty genesis.operation
    genesis.storedAtUnixMs .ofRemote = .ok (tables (created platform), result) ∧
      result.replayed = false :=
  commit_remote genesis_verifies (by decide) (forall_mem_nil _) rfl insert_genesis

theorem commit_writerGrant : ∃ result, commitTransaction platform (tables (created platform))
    writerGrant.operation writerGrant.storedAtUnixMs .ofRemote =
      .ok (tables (granted platform), result) ∧ result.replayed = false := by
  refine commit_remote writerGrant_verifies (by decide) ?_ rfl insert_writerGrant
  exact forall_mem_singleton.mpr (by decide)

theorem commit_child : ∃ result, commitTransaction platform (tables (granted platform))
    child.operation child.storedAtUnixMs .ofRemote =
      .ok (tables (orphaned platform), result) ∧ result.replayed = false := by
  refine commit_remote intruder_verifies (by decide) ?_ rfl insert_child
  exact forall_mem_cons.mpr ⟨by decide, forall_mem_singleton.mpr (by decide)⟩

theorem confinedRun : ConfinedRun platform (tables (granted platform)) := by
  obtain ⟨_, hgenesis, -⟩ := commit_genesis
  obtain ⟨_, hgrant, -⟩ := commit_writerGrant
  have hstart : ConfinedRun platform .empty := .start
  have hfirst := hstart.call
    (.commit genesis.operation genesis.storedAtUnixMs .ofRemote) (.inr (confined_of_root rfl))
  rw [Call.apply_commit hgenesis] at hfirst
  have hsecond := hfirst.call
    (.commit writerGrant.operation writerGrant.storedAtUnixMs .ofRemote)
    (.inr (confined_of_root rfl))
  rw [Call.apply_commit hgrant] at hsecond
  exact hsecond

end Sample

open Sample (confinedRun granted intruder platform tables)

-- The run that creates a space.
theorem client_heads_granted :
    ConfinedRun platform (tables (granted platform)) ∧
      ∃ log, HeadsSound platform (granted platform) log :=
  ⟨confinedRun, (client_heads_iff_confined _ _ confinedRun).1⟩

open DataModel.Sample (spaceId writerGrant)

-- The child in another space takes the only head of the entity away.
theorem foreign_child_orphans_entity :
    Reachable platform (tables (granted platform)) ∧
      intruder.spaceId ≠ spaceId ∧
      ∃ t' result, commitTransaction platform
          (tables (granted platform)) intruder
          DataModel.Sample.occurredAtUnixMs .ofRemote = .ok (t', result) ∧
        entityHeads (granted platform) spaceId
          (DataModel.Sample.entity 2) = [headRow writerGrant.envelope] ∧
        entityOperations t'.graph spaceId (DataModel.Sample.entity 2) ≠ [] ∧
        entityHeads t'.graph spaceId (DataModel.Sample.entity 2) = [] := by
  obtain ⟨result, hcommit, -⟩ := Sample.commit_child
  refine ⟨confinedRun.reachable, by decide, _, result, hcommit, by decide, ?_,
    by decide⟩
  intro hnil
  have hlength := congrArg List.length hnil
  revert hlength
  decide

end Fractonica.Client
