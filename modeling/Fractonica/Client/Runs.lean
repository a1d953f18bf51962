import Fractonica.Client.Log.Theorems
import Fractonica.Client.Transfers

namespace Fractonica.Client

open Lib Trust Content DataModel List
open Store (Platform HeadRow headRow TrustedSpaceBootstrapRequest)

-- The calls of the store that change it.
inductive Call where
  | commit (operation : OperationEnvelope) (storedAtUnixMs : Int64) (source : CommitSource)
  | storeWorkspace (request : TrustedSpaceBootstrapRequest)
  | deleteWorkspace (spaceId : SpaceId)
  | setActiveWorkspace (workspace : ActiveWorkspace)
  | clearActiveWorkspace
  | upsertPeer (peer : PeerConfig)
  | setPeerEnabled (peerId : NodeId) (enabled : Bool)
  | configurePeerSpace (config : PeerSpaceConfig)
  | requeueUnacknowledgedPeerSpace (peerId : NodeId) (spaceId : SpaceId) (nowUnixMs : Int64)
  | leaseDue (peerId : NodeId) (nowUnixMs : Int64) (leaseMs limit : Nat)
      (leaseId : DeliveryLeaseId)
  | finishDelivery (peerId : NodeId) (operationId : OperationId) (leaseId : DeliveryLeaseId)
      (outcome : DeliveryOutcome) (atUnixMs : Int64) (error : Option String)
  | releaseLease (peerId : NodeId) (leaseId : DeliveryLeaseId)
  | advancePullCursor (peerId : NodeId) (spaceId : SpaceId) (expectedAfter nextAfter : Nat)
      (pulledAtUnixMs nextPullAtUnixMs : Int64)
  | recordPullFailure (peerId : NodeId) (spaceId : SpaceId) (expectedAfter : Nat)
      (nextPullAtUnixMs : Int64) (error : String)
  | markResourceLocal (descriptor : ContentDescriptor) (verifiedAtUnixMs : Int64)
  | leaseDueResources (nowUnixMs : Int64) (leaseMs limit : Nat) (leaseId : ResourceTransferLeaseId)
  | recordResourceProgress (transfer : LeasedResourceTransfer) (transferredBytes : UInt64)
      (remoteUploadUrl : Option String)
  | finishResourceTransfer (transfer : LeasedResourceTransfer) (outcome : TransferOutcome)
      (atUnixMs : Int64) (error : Option String)
  | continueResourceTransfer (transfer : LeasedResourceTransfer) (nextAttemptAtUnixMs : Int64)
  | waitForLocalResource (peerId : NodeId) (contentId : ContentId)
      (leaseId : ResourceTransferLeaseId) (nextCheckAtUnixMs : Int64) (error : String)

section Calls

variable (P : Platform) (t : Tables)

def Call.run : Call → Except ClientStoreError Tables
  | .commit operation storedAtUnixMs source =>
    (commitTransaction P t operation storedAtUnixMs source).map Prod.fst
  | .storeWorkspace request => (Client.storeWorkspace P t request).map Prod.fst
  | .deleteWorkspace spaceId => Client.deleteWorkspace t spaceId
  | .setActiveWorkspace workspace => Client.setActiveWorkspace t workspace
  | .clearActiveWorkspace => .ok (Client.clearActiveWorkspace t)
  | .upsertPeer peer => Client.upsertPeer t peer
  | .setPeerEnabled peerId enabled => Client.setPeerEnabled t peerId enabled
  | .configurePeerSpace config => Client.configurePeerSpace t config
  | .requeueUnacknowledgedPeerSpace peerId spaceId nowUnixMs =>
    Client.requeueUnacknowledgedPeerSpace t peerId spaceId nowUnixMs
  | .leaseDue peerId nowUnixMs leaseMs limit leaseId =>
    (Client.leaseDue P t peerId nowUnixMs leaseMs limit leaseId).map Prod.fst
  | .finishDelivery peerId operationId leaseId outcome atUnixMs error =>
    Client.finishDelivery t peerId operationId leaseId outcome atUnixMs error
  | .releaseLease peerId leaseId => .ok (Client.releaseLease t peerId leaseId)
  | .advancePullCursor peerId spaceId expectedAfter nextAfter pulledAtUnixMs nextPullAtUnixMs =>
    Client.advancePullCursor t peerId spaceId expectedAfter nextAfter pulledAtUnixMs
      nextPullAtUnixMs
  | .recordPullFailure peerId spaceId expectedAfter nextPullAtUnixMs error =>
    Client.recordPullFailure t peerId spaceId expectedAfter nextPullAtUnixMs error
  | .markResourceLocal descriptor verifiedAtUnixMs =>
    Client.markResourceLocal t descriptor verifiedAtUnixMs
  | .leaseDueResources nowUnixMs leaseMs limit leaseId =>
    (Client.leaseDueResources t nowUnixMs leaseMs limit leaseId).map Prod.fst
  | .recordResourceProgress transfer transferredBytes remoteUploadUrl =>
    Client.recordResourceProgress t transfer transferredBytes remoteUploadUrl
  | .finishResourceTransfer transfer outcome atUnixMs error =>
    Client.finishResourceTransfer t transfer outcome atUnixMs error
  | .continueResourceTransfer transfer nextAttemptAtUnixMs =>
    Client.continueResourceTransfer t transfer nextAttemptAtUnixMs
  | .waitForLocalResource peerId contentId leaseId nextCheckAtUnixMs error =>
    Client.waitForLocalResource t peerId contentId leaseId nextCheckAtUnixMs error

-- A call that fails is rolled back.
def Call.apply (call : Call) : Tables := (call.run P t).toOption.getD t

end Calls

-- The states of the store that calls lead to.
inductive Reachable (P : Platform) : Tables → Prop
  | start : Reachable P .empty
  | call {t : Tables} (h : Reachable P t) (call : Call) : Reachable P (call.apply P t)

section Commits

variable {P : Platform} {t t' : Tables} {operation : OperationEnvelope} {storedAtUnixMs : Int64}
  {source : CommitSource} {result : CommitResult}

-- The two outcomes of a commit.
inductive Commit (P : Platform) (t : Tables) (operation : OperationEnvelope)
    (storedAtUnixMs : Int64) (source : CommitSource) : Tables → CommitResult → Prop
  | replayed {t' : Tables} {result : CommitResult} (graph : t'.graph = t.graph)
      (stored : ∃ row ∈ t.graph.operations, row.operationId = operation.operationId)
      (flag : result.replayed = true) :
      Commit P t operation storedAtUnixMs source t' result
  | inserted {t' : Tables} {result : CommitResult}
      (graph : Inserted P t.graph
        ⟨t.graph.lastSequence + 1, storedAtUnixMs, source = .ofLocal, operation⟩ t'.graph)
      (flag : result.replayed = false) :
      Commit P t operation storedAtUnixMs source t' result

theorem commit_cases
    (h : commitTransaction P t operation storedAtUnixMs source = .ok (t', result)) :
    Commit P t operation storedAtUnixMs source t' result := by
  simp only [commitTransaction, bind_eq_ok] at h
  obtain ⟨-, -, -, -, found, hfound, h⟩ := h
  cases found with
  | some stored =>
    simp only [bind_eq_ok, Except.ok.injEq, Prod.mk.injEq] at h
    obtain ⟨-, -, ⟨peering, media⟩, -, rfl, rfl⟩ := h
    exact .replayed rfl (find_of_loadOperationRow hfound) rfl
  | none =>
    simp only [bind_eq_ok, Except.ok.injEq, Prod.mk.injEq] at h
    obtain ⟨graph, hgraph, media, -, ⟨peering, media'⟩, -, rfl, rfl⟩ := h
    exact .inserted (inserted_of_ok hgraph) rfl

theorem Call.apply_of_run {call : Call} (h : call.run P t = .ok t') : call.apply P t = t' := by
  rw [Call.apply, h]
  rfl

theorem Call.apply_commit
    (h : commitTransaction P t operation storedAtUnixMs source = .ok (t', result)) :
    (Call.commit operation storedAtUnixMs source).apply P t = t' := by
  refine Call.apply_of_run ?_
  rw [Call.run, h]
  rfl

theorem map_fst_eq_ok {ε α β : Type} {x : Except ε (α × β)} {a : α} :
    x.map Prod.fst = .ok a ↔ ∃ b, x = .ok (a, b) := by
  cases x with
  | error e => simp [Except.map]
  | ok pair => simp [Except.map, Prod.ext_iff]

end Commits

section Frames

variable {t : Tables}

theorem leaseOperations_cons {leaseId : DeliveryLeaseId} {id : OperationId}
    (h : leaseOperations P peerId leaseId expires t (id :: rest) = .ok (t', items)) :
    ∃ stored item others, loadOperationRow P t.graph id = .ok (some stored) ∧
      item.operation = stored.2 ∧ items = item :: others ∧
        leaseOperations P peerId leaseId expires { t with
          peering := updateDelivery t.peering peerId id (leaseRow leaseId expires) } rest =
            .ok (t', others) := by
  simp only [leaseOperations, leaseOperation, bind_eq_ok, okOr_eq_ok, Except.ok.injEq,
    Prod.mk.injEq] at h
  obtain ⟨⟨next, item⟩, ⟨_, -, _, hfound, stored, rfl, -, -, rfl, rfl⟩, ⟨last, others⟩, hrest,
    rfl, rfl⟩ := h
  exact ⟨stored, _, others, hfound, rfl, rfl, hrest⟩

-- A lease changes the deliveries or the transfers.
theorem leaseOperations_frame {leaseId : DeliveryLeaseId}
    (h : leaseOperations P peerId leaseId expires t ids = .ok (t', items)) :
    ∃ deliveries, t' = { t with peering := { t.peering with deliveries } } := by
  induction ids generalizing t t' items with
  | nil =>
    cases h
    exact ⟨_, rfl⟩
  | cons id rest ih =>
    obtain ⟨_, _, _, -, -, -, hrest⟩ := leaseOperations_cons h
    obtain ⟨deliveries, rfl⟩ := ih hrest
    exact ⟨deliveries, rfl⟩

theorem leaseTransfers_frame {leaseId : ResourceTransferLeaseId} {rows : List TransferRow}
    (h : leaseTransfers leaseId expires t rows = .ok (t', items)) :
    ∃ transfers, t' = { t with media := { t.media with transfers } } := by
  induction rows generalizing t t' items with
  | nil =>
    cases h
    exact ⟨_, rfl⟩
  | cons row rest ih =>
    simp only [leaseTransfers, bind_eq_ok, Except.ok.injEq, Prod.mk.injEq] at h
    obtain ⟨⟨next, item⟩, hitem, ⟨last, others⟩, hrest, rfl, -⟩ := h
    simp only [leaseTransfer, bind_eq_ok, Except.ok.injEq, Prod.mk.injEq] at hitem
    obtain ⟨-, -, -, -, -, -, -, -, rfl, -⟩ := hitem
    obtain ⟨transfers, rfl⟩ := ih hrest
    exact ⟨transfers, rfl⟩

def Call.storesOperations : Call → Bool
  | .commit _ _ _ | .storeWorkspace _ | .deleteWorkspace _ => true
  | _ => false

def Call.settlesDeliveries : Call → Bool
  | .leaseDue _ _ _ _ _ | .finishDelivery _ _ _ _ _ _ | .releaseLease _ _ => true
  | _ => false

def Call.movesContent : Call → Bool
  | .markResourceLocal _ _ | .leaseDueResources _ _ _ _ | .recordResourceProgress _ _ _
  | .finishResourceTransfer _ _ _ _ | .continueResourceTransfer _ _
  | .waitForLocalResource _ _ _ _ _ => true
  | _ => false

-- What the calls that store no operations do to the tables.
inductive Effect (t : Tables) : Call → Tables → Prop
  | configured {call : Call} (peers : List PeerConfig) (spaces : List PeerSpaceRow)
      (activeWorkspace : Option ActiveWorkspace) :
      Effect t call { t with peering := { t.peering with peers, spaces }, activeWorkspace }
  | queued {call : Call} (peers : List PeerConfig) (spaces : List PeerSpaceRow)
      (peerId : NodeId) (select : OperationRow → Bool) (dueAt : OperationRow → Int64)
      (choose : ResourceRow → Bool) (fallbackAtUnixMs : Int64)
      (due : ∀ row, 0 ≤ (dueAt row).toInt ∨ dueAt row = row.storedAtUnixMs)
      (fallback : 0 ≤ fallbackAtUnixMs.toInt) :
      Effect t call { t with
        peering := queueStored t.graph { t.peering with peers, spaces } peerId select dueAt
        media := queueKnownResources t.media peerId choose fallbackAtUnixMs }
  | requeued {call : Call} (deliveries : List DeliveryRow) (transfers : List TransferRow)
      (peerId : NodeId) (spaceId : SpaceId) (nowUnixMs : Int64)
      (named : call = .requeueUnacknowledgedPeerSpace peerId spaceId nowUnixMs) :
      Effect t call { t with
        peering := { t.peering with deliveries }, media := { t.media with transfers } }
  | settled {call : Call} (deliveries : List DeliveryRow) (named : call.settlesDeliveries = true) :
      Effect t call { t with peering := { t.peering with deliveries } }
  | moved {call : Call} (resources : List ResourceRow) (transfers : List TransferRow)
      (ids : resources.map (·.contentId) = t.media.resources.map (·.contentId))
      (named : call.movesContent = true) :
      Effect t call { t with media := { t.media with resources, transfers } }

theorem resource_ids {contentId : ContentId} {update : ResourceRow → ResourceRow}
    (resources : List ResourceRow) (h : ∀ row, (update row).contentId = row.contentId) :
    (resources.map fun row => if row.contentId = contentId then update row else row).map
      (·.contentId) = resources.map (·.contentId) := by
  rw [map_map]
  refine map_congr_left fun row _ => ?_
  by_cases hid : row.contentId = contentId <;> simp [hid, h]

theorem peer?_eq_some {peer : PeerConfig}
    (h : peer? p peerId = some peer) : peer ∈ p.peers ∧ peer.peerId = peerId := by
  have hid := find?_some h
  exact ⟨mem_of_find?_eq_some h, of_decide_eq_true hid⟩

theorem Call.effect (hcall : call.storesOperations = false)
    (h : call.run P t = .ok t') : Effect t call t' := by
  cases call with
  | commit operation storedAtUnixMs source => cases hcall
  | storeWorkspace request => cases hcall
  | deleteWorkspace spaceId => cases hcall
  | setActiveWorkspace workspace =>
    simp only [Call.run, Client.setActiveWorkspace, bind_eq_ok, Except.ok.injEq] at h
    obtain ⟨-, -, -, -, rfl⟩ := h
    exact .configured _ _ _
  | clearActiveWorkspace =>
    cases h
    exact .configured _ _ _
  | upsertPeer peer =>
    simp only [Call.run, Client.upsertPeer, validatePeer, requireNonnegative, bind_eq_ok,
      require_eq_ok, decide_eq_true_eq] at h
    obtain ⟨_, ⟨_, htime, -⟩, h⟩ := h
    split at h
    · cases h
      exact .queued _ _ _ _ _ _ _ (fun _ => .inl htime) htime
    · cases h
      exact .configured _ _ _
  | setPeerEnabled peerId enabled =>
    simp only [Call.run, Client.setPeerEnabled, bind_eq_ok, okOr_eq_ok] at h
    obtain ⟨peer, hpeer, h⟩ := h
    obtain rfl := (peer?_eq_some hpeer).2
    have hzero : 0 ≤ (0 : Int64).toInt := by decide
    split at h
    · cases h
      exact .queued _ _ _ _ _ _ _ (fun _ => .inr rfl) hzero
    · cases h
      exact .configured _ _ _
  | configurePeerSpace config =>
    simp only [Call.run, Client.configurePeerSpace, bind_eq_ok, require_eq_ok,
      Bool.and_eq_true, decide_eq_true_eq] at h
    obtain ⟨_, ⟨htime, -⟩, peer, -, h⟩ := h
    split at h
    · cases h
      exact .queued _ _ _ _ _ _ _ (fun _ => .inl htime) htime
    · cases h
      exact .configured _ _ _
  | requeueUnacknowledgedPeerSpace peerId spaceId nowUnixMs =>
    simp only [Call.run, Client.requeueUnacknowledgedPeerSpace, bind_eq_ok,
      Except.ok.injEq] at h
    obtain ⟨-, -, -, -, rfl⟩ := h
    exact .requeued _ _ _ _ _ rfl
  | leaseDue peerId nowUnixMs leaseMs limit leaseId =>
    obtain ⟨items, h⟩ := map_fst_eq_ok.mp h
    simp only [Client.leaseDue, bind_eq_ok] at h
    obtain ⟨-, -, -, -, expires, -, h⟩ := h
    obtain ⟨deliveries, rfl⟩ := leaseOperations_frame h
    exact .settled _ rfl
  | finishDelivery peerId operationId leaseId outcome atUnixMs error =>
    simp only [Call.run, Client.finishDelivery, bind_eq_ok, Except.ok.injEq] at h
    obtain ⟨-, -, -, -, -, -, rfl⟩ := h
    exact .settled _ rfl
  | releaseLease peerId leaseId =>
    cases h
    exact .settled _ rfl
  | advancePullCursor peerId spaceId expectedAfter nextAfter pulledAt nextPullAt =>
    simp only [Call.run, Client.advancePullCursor, updateCursor, bind_eq_ok,
      Except.ok.injEq] at h
    obtain ⟨-, -, -, -, rfl⟩ := h
    exact .configured _ _ _
  | recordPullFailure peerId spaceId expectedAfter nextPullAt error =>
    simp only [Call.run, Client.recordPullFailure, updateCursor, bind_eq_ok,
      Except.ok.injEq] at h
    obtain ⟨-, -, -, -, -, -, rfl⟩ := h
    exact .configured _ _ _
  | markResourceLocal descriptor verifiedAt =>
    simp only [Call.run, Client.markResourceLocal, bind_eq_ok, Except.ok.injEq] at h
    obtain ⟨-, -, -, -, -, -, rfl⟩ := h
    exact .moved _ _ (resource_ids _ fun _ => rfl) rfl
  | leaseDueResources nowUnixMs leaseMs limit leaseId =>
    obtain ⟨items, h⟩ := map_fst_eq_ok.mp h
    simp only [Client.leaseDueResources, bind_eq_ok] at h
    obtain ⟨-, -, -, -, expires, -, h⟩ := h
    obtain ⟨transfers, rfl⟩ := leaseTransfers_frame h
    exact .moved _ _ rfl rfl
  | recordResourceProgress transfer transferredBytes remoteUploadUrl =>
    simp only [Call.run, Client.recordResourceProgress, bind_eq_ok, Except.ok.injEq] at h
    obtain ⟨-, -, -, -, -, -, rfl⟩ := h
    exact .moved _ _ rfl rfl
  | finishResourceTransfer transfer outcome atUnixMs error =>
    simp only [Call.run, Client.finishResourceTransfer, bind_eq_ok] at h
    obtain ⟨-, -, -, -, -, -, resource, -, h⟩ := h
    split at h
    · cases h
      exact .moved _ _ (resource_ids _ fun _ => rfl) rfl
    · cases h
      exact .moved _ _ rfl rfl
  | continueResourceTransfer transfer nextAttemptAt =>
    simp only [Call.run, Client.continueResourceTransfer, bind_eq_ok, Except.ok.injEq] at h
    obtain ⟨-, -, -, -, rfl⟩ := h
    exact .moved _ _ rfl rfl
  | waitForLocalResource peerId contentId leaseId nextCheckAt error =>
    simp only [Call.run, Client.waitForLocalResource, bind_eq_ok, Except.ok.injEq] at h
    obtain ⟨-, -, -, -, -, -, rfl⟩ := h
    exact .moved _ _ (resource_ids _ fun _ => rfl) rfl

-- Such a call leaves the operations and what is derived from them alone.
theorem Call.graph_eq {call : Call} (hcall : call.storesOperations = false)
    (h : call.run P t = .ok t') : t'.graph = t.graph := by
  cases call.effect hcall h <;> rfl

-- It keeps the resources, too, though not whether those are available.
theorem Call.resources_eq {call : Call} (hcall : call.storesOperations = false)
    (h : call.run P t = .ok t') :
    t'.media.resources.map (·.contentId) = t.media.resources.map (·.contentId) := by
  cases call.effect hcall h with
  | moved resources transfers ids => exact ids
  | _ => rfl

end Frames

end Fractonica.Client
