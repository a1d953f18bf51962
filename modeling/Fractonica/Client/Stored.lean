import Fractonica.Client.Runs

namespace Fractonica.Client

open Lib Trust Content DataModel List
open Store (Platform TrustedSpaceBootstrapRequest projectionText)

-- What a commit that succeeds has checked, and what it does to each part of the
-- store.
structure Committed (P : Platform) (t : Tables) (operation : OperationEnvelope)
    (storedAtUnixMs : Int64) (source : CommitSource) (t' : Tables) (result : CommitResult) :
    Prop where
  verified : operation.verify P.toPrimitives = .ok ()
  time : 0 ≤ storedAtUnixMs.toInt
  outcome : Commit P t operation storedAtUnixMs source t' result
  stored : hasOperation t'.graph.operations operation.operationId = true
  sources : ∃ media, (result.replayed = true ∧ media = t.media ∨ result.replayed = false ∧
      insertOperationResources t'.graph t.media operation storedAtUnixMs = .ok media) ∧
    applySource t'.graph t.peering media operation storedAtUnixMs source =
      .ok (t'.peering, t'.media)

-- The log behind the tables, as every run leaves it.
structure Stored (P : Platform) (g : GraphTables) (log : Log) : Prop where
  coherent : Coherent P g log
  verified : ∀ a ∈ log, a.operation.verify P.toPrimitives = .ok ()
  times : ∀ a ∈ log, 0 ≤ a.storedAtUnixMs.toInt
  numbers : ∀ a ∈ log, 0 < a.localSequence

-- The JSON reader reads back what the writer has written for an operation.
def ReadsBack (P : Platform) : Prop :=
  ∀ operation : OperationEnvelope, operation.verify P.toPrimitives = .ok () →
    P.readEnvelope (projectionText P operation) = .ok operation

section Commits

variable {P : Platform} {t t' : Tables} {operation : OperationEnvelope} {storedAtUnixMs : Int64}
  {request : TrustedSpaceBootstrapRequest}

theorem Inserted.hasOperation {g g' : GraphTables} {a : StoredOperation}
    (h : Inserted P g a g') : hasOperation g'.operations a.key = true := by
  rw [Client.hasOperation, h.operations]
  exact any_eq_true.mpr ⟨storedRow P a, by simp, decide_eq_true rfl⟩

theorem hasOperation_of_mem {operations : List OperationRow}
    (h : row ∈ operations) : hasOperation operations row.operationId = true :=
  any_eq_true.mpr ⟨row, h, decide_eq_true rfl⟩

theorem committed_of_ok
    (h : commitTransaction P t operation storedAtUnixMs source = .ok (t', result)) :
    Committed P t operation storedAtUnixMs source t' result := by
  have houtcome := commit_cases h
  simp only [commitTransaction, bind_eq_ok, mapError_eq_ok, require_eq_ok,
    decide_eq_true_eq] at h
  obtain ⟨_, hverified, _, htime, found, hfound, h⟩ := h
  cases found with
  | some stored =>
    simp only [bind_eq_ok, Except.ok.injEq, Prod.mk.injEq] at h
    obtain ⟨-, -, ⟨peering, media⟩, hsource, rfl, rfl⟩ := h
    obtain ⟨row, hrow, hkey⟩ := find_of_loadOperationRow hfound
    refine ⟨hverified, htime, houtcome, ?_, t.media, .inl ⟨rfl, rfl⟩, hsource⟩
    rw [← hkey]
    exact hasOperation_of_mem hrow
  | none =>
    simp only [bind_eq_ok, Except.ok.injEq, Prod.mk.injEq] at h
    obtain ⟨graph, hgraph, media, hmedia, ⟨peering, media'⟩, hsource, rfl, rfl⟩ := h
    exact ⟨hverified, htime, houtcome, (inserted_of_ok hgraph).hasOperation, media,
      .inr ⟨rfl, hmedia⟩, hsource⟩

theorem validateTrustedSpaceBootstrap_roots (h : validateTrustedSpaceBootstrap P request = .ok u) :
    request.genesis.causalParents = [] ∧ request.initialGrant.causalParents = [] := by
  simp only [validateTrustedSpaceBootstrap, requireBootstrap, bind_eq_ok, require_eq_ok,
    Bool.and_eq_true, List.isEmpty_iff] at h
  obtain ⟨-, -, -, -, -, -, -, -, -, -, -, -, -, -, controller, -, grant, -, -, -, -, ⟨hgenesis, -⟩,
    -, -, -, -, -, -, -, -, -, hgrant, -⟩ := h
  exact ⟨hgenesis, hgrant⟩

-- A new workspace is two commits of first operations and the row of the workspace.
structure Founded (P : Platform) (t t' : Tables) (request : TrustedSpaceBootstrapRequest) :
    Prop where
  roots : request.genesis.causalParents = [] ∧ request.initialGrant.causalParents = []
  commits : ∃ middle last first second workspaces,
    commitTransaction P t request.genesis request.receivedAtUnixMs .ofRemote =
      .ok (middle, first) ∧
    commitTransaction P middle request.initialGrant request.receivedAtUnixMs .ofRemote =
      .ok (last, second) ∧ t' = { last with workspaces }

theorem storeWorkspace_cases {descriptor : Store.SpaceDescriptor}
    (h : storeWorkspace P t request = .ok (t', descriptor)) : t' = t ∨ Founded P t t' request := by
  simp only [storeWorkspace, bind_eq_ok, mapError_eq_ok] at h
  obtain ⟨_, hvalid, _, -, h⟩ := h
  split at h
  · simp only [bind_eq_ok, Except.ok.injEq, Prod.mk.injEq] at h
    obtain ⟨-, -, -, -, -, -, -, -, -, -, rfl, -⟩ := h
    exact .inl rfl
  · simp only [bind_eq_ok, Except.ok.injEq, Prod.mk.injEq] at h
    obtain ⟨⟨middle, first⟩, hfirst, ⟨last, second⟩, hsecond, workspaces, -, rfl, -⟩ := h
    exact .inr ⟨validateTrustedSpaceBootstrap_roots hvalid, middle, last, first, second,
      workspaces, hfirst, hsecond, rfl⟩

theorem deleteWorkspace_cases {spaceId : SpaceId} (h : deleteWorkspace t spaceId = .ok t') :
    refersToSpace t spaceId = false ∧ t' = t.withoutSpace spaceId := by
  simp only [deleteWorkspace, bind_eq_ok, liftSqlite_eq_ok, require_eq_ok,
    Bool.not_eq_eq_eq_not, Bool.not_true, Except.ok.injEq] at h
  obtain ⟨_, hdelete, rfl⟩ := h
  exact ⟨hdelete, rfl⟩

end Commits

section Invariants

variable {operation : OperationEnvelope} {storedAtUnixMs : Int64}

-- What a call does to a property: commits keep it, those of a workspace store first
-- operations, and at the end whether a workspace is recorded must not matter.
theorem Call.induction {call : Call} (good final : Tables → Prop) (ht : good t)
    (hrun : call.run P t = .ok t') (hfinal : ∀ s workspaces, good s → final { s with workspaces })
    (hcommit : ∀ s s' operation storedAtUnixMs source result,
      call = .commit operation storedAtUnixMs source ∧ s = t ∨ operation.causalParents = [] →
        good s → commitTransaction P s operation storedAtUnixMs source = .ok (s', result) →
          good s')
    (hdelete : ∀ spaceId, call = .deleteWorkspace spaceId → refersToSpace t spaceId = false →
      final (t.withoutSpace spaceId))
    (hcall : call.storesOperations = false → final t') : final t' := by
  by_cases hstores : call.storesOperations = false
  · exact hcall hstores
  · cases call with
    | commit operation storedAtUnixMs source =>
      obtain ⟨result, hok⟩ := map_fst_eq_ok.mp hrun
      exact hfinal t' _ (hcommit t t' _ _ _ result (.inl ⟨rfl, rfl⟩) ht hok)
    | storeWorkspace request =>
      obtain ⟨descriptor, hok⟩ := map_fst_eq_ok.mp hrun
      rcases storeWorkspace_cases hok with rfl | ⟨⟨hgenesis, hgrant⟩, hcommits⟩
      · exact hfinal t' _ ht
      · obtain ⟨middle, last, first, second, workspaces, hfirst, hsecond, rfl⟩ := hcommits
        have hmiddle := hcommit t middle _ _ _ first (.inr hgenesis) ht hfirst
        have hlast := hcommit middle last _ _ _ second (.inr hgrant) hmiddle hsecond
        exact hfinal last workspaces hlast
    | deleteWorkspace spaceId =>
      obtain ⟨hfree, rfl⟩ := deleteWorkspace_cases hrun
      exact hdelete spaceId rfl hfree
    | _ => exact absurd rfl hstores

theorem Reachable.commit (h : Reachable P t)
    (hcommit : commitTransaction P t operation storedAtUnixMs source = .ok (t', result)) :
    Reachable P t' := by
  rw [← Call.apply_commit hcommit]
  exact h.call _

-- A property of the store holds in every reachable state if commits, deletions and
-- the remaining calls keep it.
theorem Reachable.induction (good : Tables → Prop) (hstart : good .empty)
    (hcommit : ∀ t t' operation storedAtUnixMs source result, Reachable P t → good t →
      commitTransaction P t operation storedAtUnixMs source = .ok (t', result) → good t')
    (hworkspaces : ∀ t workspaces, good t → good { t with workspaces })
    (hdelete : ∀ t spaceId, good t → refersToSpace t spaceId = false →
      good (t.withoutSpace spaceId))
    (hcall : ∀ t t' call, Reachable P t → good t → Call.storesOperations call = false →
      call.run P t = .ok t' → good t') (h : Reachable P t) : good t := by
  induction h with
  | start => exact hstart
  | @call t ht call ih =>
    unfold Call.apply
    cases hrun : call.run P t with
    | error error => exact ih
    | ok next =>
      refine Call.induction (fun s => Reachable P s ∧ good s) good ⟨ht, ih⟩ hrun ?_ ?_ ?_ ?_
      · exact fun s workspaces hs => hworkspaces s workspaces hs.2
      · intro s s' operation storedAtUnixMs source result _ hs hok
        exact ⟨hs.1.commit hok, hcommit s s' _ _ _ result hs.1 hs.2 hok⟩
      · exact fun spaceId _ hfree => hdelete t spaceId ih hfree
      · exact fun hstores => hcall t next call ht ih hstores hrun

theorem Stored.empty : Stored P .empty [] :=
  ⟨⟨⟨rfl, rfl, rfl⟩, ⟨nodup_nil, .nil, forall_mem_nil _, forall_mem_nil _⟩,
    forall_mem_nil _⟩, forall_mem_nil _, forall_mem_nil _, forall_mem_nil _⟩

theorem Stored.insert (h : Stored P g log) (hins : Inserted P g a g')
    (hverified : a.operation.verify P.toPrimitives = .ok ())
    (htime : 0 ≤ a.storedAtUnixMs.toInt) : Stored P g' (log ++ [a]) := by
  refine ⟨h.coherent.insert hins, ?_, ?_, ?_⟩
  · exact forall_mem_append.mpr ⟨h.verified, forall_mem_singleton.mpr hverified⟩
  · exact forall_mem_append.mpr ⟨h.times, forall_mem_singleton.mpr htime⟩
  · refine forall_mem_append.mpr ⟨h.numbers, forall_mem_singleton.mpr ?_⟩
    rw [hins.sequence]
    exact Nat.succ_pos _

theorem Stored.commit (h : Stored P t.graph log)
    (hcommit : Committed P t operation storedAtUnixMs source t' result) :
    ∃ log', Stored P t'.graph log' := by
  cases hcommit.outcome with
  | replayed hgraph hstored hflag =>
    rw [hgraph]
    exact ⟨log, h⟩
  | inserted hins hflag => exact ⟨_, h.insert hins hcommit.verified hcommit.time⟩

theorem Stored.delete {spaceId : SpaceId} (h : Stored P t.graph log)
    (hfree : refersToSpace t spaceId = false) :
    Stored P (t.withoutSpace spaceId).graph (log.filter (·.space ≠ spaceId)) :=
  ⟨h.coherent.delete hfree, fun a ha => h.verified a (mem_of_mem_filter ha),
    fun a ha => h.times a (mem_of_mem_filter ha),
    fun a ha => h.numbers a (mem_of_mem_filter ha)⟩

theorem Reachable.stored (h : Reachable P t) : ∃ log, Stored P t.graph log := by
  refine Reachable.induction (fun t => ∃ log, Stored P t.graph log) ⟨[], Stored.empty⟩
    ?_ ?_ ?_ ?_ h
  · intro t t' operation storedAtUnixMs source result _ ⟨log, hlog⟩ hcommit
    exact hlog.commit (committed_of_ok hcommit)
  · intro t workspaces hlog
    exact hlog
  · intro t spaceId ⟨log, hlog⟩ hfree
    exact ⟨_, hlog.delete hfree⟩
  · intro t t' call _ hlog hstores hrun
    rw [call.graph_eq hstores hrun]
    exact hlog

theorem Coherent.operationRow?_eq (h : Coherent P g log) (ha : a ∈ log) :
    operationRow? g a.key = some (storedRow P a) := by
  have hkeys : (g.operations.map (·.operationId)).Nodup := by
    rw [h.represents.operations, map_map]
    exact h.causal.keys
  have hrow : storedRow P a ∈ g.operations := h.represents.mem_operations.mpr ⟨a, ha, rfl⟩
  exact Table.find?_key hkeys hrow

-- A stored operation is loaded as it was committed.
theorem Stored.load (h : Stored P g log) (hreads : ReadsBack P)
    (ha : a ∈ log) : loadOperationRow P g a.key = .ok (some (a.localSequence, a.operation)) :=
  loadOperationRow_stored (h.verified a ha) (hreads _ (h.verified a ha)) (h.numbers a ha)
    (h.coherent.operationRow?_eq ha)

end Invariants

end Fractonica.Client
