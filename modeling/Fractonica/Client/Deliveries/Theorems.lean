import Fractonica.Client.Deliveries.Columns
import Fractonica.Client.Heads
import Fractonica.Client.Stored
import Fractonica.Lib.Paging

namespace Fractonica.Client

open Lib Trust Content DataModel List
open Store (Platform)

-- What holds of the deliveries in every reachable state.
structure DeliveriesKept (t : Tables) : Prop where
  keys : (t.peering.deliveries.map DeliveryRow.key).Nodup
  checks : ∀ row ∈ t.peering.deliveries, row.columns.checks = true
  stored : ∀ row ∈ t.peering.deliveries, hasOperation t.graph.operations row.operationId = true

abbrev DeliveryEdits (g : GraphTables) (p p' : PeerTables) : Prop :=
  Table.Edits (deliveryRules g) p.deliveries p'.deliveries

section Statements

variable {operationId : OperationId} {leaseId : DeliveryLeaseId} {row : DeliveryRow}

theorem deliveryClash_iff (row other : DeliveryRow) :
    deliveryClash row other = true ↔ row.key = other.key := by
  simp [deliveryClash, DeliveryRow.key]

theorem isKey_iff :
    (row.peerId = peerId && row.operationId = operationId : Bool) = true ↔
      row.key = (peerId, operationId) := by
  simp [DeliveryRow.key]

theorem fresh_pendingDelivery (htime : 0 ≤ atUnixMs.toInt)
    (hstored : hasOperation g.operations operationId = true) :
    (deliveryRules g).fresh (pendingDelivery peerId operationId atUnixMs) :=
  ⟨.queued atUnixMs htime, hstored⟩

theorem edits_queueDeliveries (htime : 0 ≤ atUnixMs.toInt)
    (hstored : hasOperation g.operations operationId = true) :
    Table.Edits (deliveryRules g) p.deliveries
      (queueDeliveries g p operationId atUnixMs excluded) := by
  refine Table.Edits.insertAllOrIgnore deliveryClash_iff ?_
  intro row hrow
  obtain ⟨peer, -, rfl⟩ := mem_map.mp hrow
  exact fresh_pendingDelivery htime hstored

theorem edits_recordSource (htime : 0 ≤ atUnixMs.toInt)
    (hstored : hasOperation g.operations operationId = true) :
    Table.Edits (deliveryRules g) deliveries
      (recordSource deliveries peerId operationId atUnixMs) := by
  rw [recordSource]
  by_cases hany : (deliveries.any fun row =>
      row.peerId = peerId && row.operationId = operationId) = true
  · rw [if_pos hany]
    refine Table.Edits.updateWhere (fun _ _ _ => rfl) ?_
    intro row _ _
    change DeliveryUpdate row.columns _
    rw [columns_recordSource]
    exact .recordSource atUnixMs
  · rw [if_neg hany]
    have hfresh : (deliveryRules g).fresh { pendingDelivery peerId operationId atUnixMs with
        state := .acknowledged atUnixMs } := ⟨.received atUnixMs htime, hstored⟩
    refine (Table.Edit.insert _ ?_ hfresh).edits
    intro other hother hkey
    exact hany (any_eq_true.mpr ⟨other, hother, isKey_iff.mpr hkey⟩)

theorem edits_queueStored (htime : ∀ row ∈ g.operations, 0 ≤ (dueAt row).toInt) :
    DeliveryEdits g p (queueStored g p peerId select dueAt) := by
  refine Table.Edits.insertAllOrIgnore deliveryClash_iff ?_
  intro row hrow
  obtain ⟨operation, hoperation, rfl⟩ := mem_map.mp hrow
  have hmem := mem_of_mem_filter hoperation
  exact fresh_pendingDelivery (htime operation hmem) (hasOperation_of_mem hmem)

theorem edits_applyDeliverySource (htime : 0 ≤ atUnixMs.toInt)
    (hstored : hasOperation g.operations operationId = true)
    (h : applyDeliverySource g p operationId atUnixMs source = .ok p') : DeliveryEdits g p p' := by
  cases source with
  | ofRemote =>
    cases h
    exact .refl
  | ofLocal =>
    cases h
    exact edits_queueDeliveries htime hstored
  | ofPeer peerId =>
    simp only [applyDeliverySource, bind_eq_ok, Except.ok.injEq] at h
    obtain ⟨-, -, rfl⟩ := h
    exact (edits_queueDeliveries htime hstored).trans (edits_recordSource htime hstored)

-- Only rows that are due are leased, so none that is acknowledged.
theorem edits_leaseOperations
    (hdue : ∀ row ∈ t.peering.deliveries, row.peerId = peerId → row.operationId ∈ ids →
      row.columns.state = .pending ∨ row.columns.state = .leased)
    (h : leaseOperations P peerId leaseId expires t ids = .ok (t', items)) :
    DeliveryEdits g t.peering t'.peering := by
  induction ids generalizing t t' items with
  | nil =>
    cases h
    exact .refl
  | cons id rest ih =>
    obtain ⟨_, _, _, -, -, -, hrest⟩ := leaseOperations_cons h
    have hlease : DeliveryEdits g t.peering
        (updateDelivery t.peering peerId id (leaseRow leaseId expires)) := by
      refine Table.Edits.updateWhere (fun _ _ _ => rfl) ?_
      intro row hrow hselect
      obtain ⟨rfl, rfl⟩ := Prod.ext_iff.mp (isKey_iff.mp hselect)
      have hopen := hdue row hrow rfl mem_cons_self
      change DeliveryUpdate row.columns _
      rw [columns_leaseRow hopen]
      exact .lease leaseId expires hopen
    refine hlease.trans (ih ?_ hrest)
    intro row' hrow' hpeer hid
    obtain ⟨row, hrow, rfl⟩ := mem_map.mp hrow'
    by_cases hselect : (row.peerId = peerId && row.operationId = id : Bool) = true
    · rw [if_pos hselect]
      exact .inr rfl
    · rw [if_neg hselect] at hpeer hid ⊢
      exact hdue row hrow hpeer (mem_cons_of_mem _ hid)

theorem DeliveryRow.isDue_state (h : row.isDue atUnixMs = true) :
    row.columns.state = .pending ∨ row.columns.state = .leased := by
  unfold DeliveryRow.isDue at h
  unfold DeliveryRow.columns
  cases hstate : row.state <;> simp_all

end Statements

section Steps

variable {operationId : OperationId} {leaseId : DeliveryLeaseId} {p : PeerTables}

theorem DeliveriesKept.eq_of_key (h : DeliveriesKept t) (hrow : row ∈ t.peering.deliveries)
    (hother : other ∈ t.peering.deliveries) (hkey : row.key = other.key) : row = other :=
  inj_on_of_nodup_map h.keys hrow hother hkey

theorem DeliveriesKept.deliveryRow?_eq (h : DeliveriesKept t) (hrow : row ∈ t.peering.deliveries) :
    deliveryRow? t.peering row.peerId row.operationId = some row := by
  have hfound := Table.find?_key h.keys hrow
  rw [deliveryRow?, ← hfound]
  congr 1
  funext other
  rw [Bool.eq_iff_iff, isKey_iff, decide_eq_true_eq]

theorem deliveryRow?_eq_some (h : deliveryRow? p peerId operationId = some row) :
    row ∈ p.deliveries ∧ row.key = (peerId, operationId) := by
  have hkey := find?_some h
  exact ⟨mem_of_find?_eq_some h, isKey_iff.mp hkey⟩

def isEnabled (p : PeerTables) (peerId : NodeId) : Bool :=
  p.peers.any fun peer => peer.peerId = peerId && peer.enabled

theorem mem_dueOperations {operation : OperationRow}
    (h : operation ∈ dueOperations t peerId now limit) :
    operation ∈ t.graph.operations ∧ isEnabled t.peering peerId = true ∧
      ∃ row ∈ t.peering.deliveries, row.key = (peerId, operation.operationId) ∧
        row.isDue now = true := by
  have hselect := mem_filter.mp (mem_mergeSort.mp (mem_of_mem_take h))
  simp only [Bool.and_eq_true, any_eq_true, decide_eq_true_eq] at hselect
  obtain ⟨hmem, henabled, row, hrow, ⟨hpeer, hid⟩, hdue⟩ := hselect
  refine ⟨hmem, ?_, row, hrow, Prod.ext hpeer hid, hdue⟩
  simpa only [isEnabled, any_eq_true, Bool.and_eq_true, decide_eq_true_eq] using henabled

theorem DeliveriesKept.due (h : DeliveriesKept t) {limit : Nat} :
    ∀ row ∈ t.peering.deliveries, row.peerId = peerId →
      row.operationId ∈ (dueOperations t peerId atUnixMs limit).map (·.operationId) →
      row.columns.state = .pending ∨ row.columns.state = .leased := by
  rintro row hrow rfl hid
  obtain ⟨operation, hoperation, hsame⟩ := mem_map.mp hid
  obtain ⟨-, -, other, hother, hkey, hdue⟩ := mem_dueOperations hoperation
  rw [hsame] at hkey
  rw [h.eq_of_key hrow hother hkey.symm]
  exact DeliveryRow.isDue_state hdue

theorem DeliveryState.isLeasedBy_iff {state : DeliveryState} :
    state.isLeasedBy leaseId = true ↔ ∃ expires, state = .leased leaseId expires := by
  cases state <;> simp [DeliveryState.isLeasedBy, eq_comm]

-- A finished delivery was held by the lease that finishes it.
theorem finishDelivery_held
    (h : finishDelivery t peerId operationId leaseId outcome atUnixMs error = .ok t') :
    0 ≤ atUnixMs.toInt ∧ ∃ row ∈ t.peering.deliveries, row.key = (peerId, operationId) ∧
      ∃ expires, row.state = .leased leaseId expires := by
  simp only [finishDelivery, requireNonnegative, bind_eq_ok, require_eq_ok,
    decide_eq_true_eq, Option.any_eq_true] at h
  obtain ⟨_, htime, _, -, _, ⟨row, hrow, hleased⟩, -⟩ := h
  obtain ⟨hmem, hkey⟩ := deliveryRow?_eq_some hrow
  exact ⟨htime, row, hmem, hkey, DeliveryState.isLeasedBy_iff.mp hleased⟩

theorem DeliveriesKept.edits_finishDelivery (h : DeliveriesKept t)
    (hok : finishDelivery t peerId operationId leaseId outcome atUnixMs error = .ok t') :
    DeliveryEdits g t.peering t'.peering := by
  obtain ⟨htime, held, hheld, hkey, expires, hstate⟩ := finishDelivery_held hok
  simp only [finishDelivery, bind_eq_ok, Except.ok.injEq] at hok
  obtain ⟨-, -, -, -, -, -, rfl⟩ := hok
  refine Table.Edits.updateWhere (fun _ _ _ => rfl) ?_
  intro row hrow hselect
  obtain rfl := h.eq_of_key hrow hheld ((isKey_iff.mp hselect).trans hkey.symm)
  change DeliveryUpdate row.columns _
  rw [columns_finish]
  exact .finish _ _ _ (DeliveryRow.columns_leased.mpr ⟨_, _, hstate⟩) outcome.status_ne_leased
    htime

theorem edits_releaseLease : DeliveryEdits g t.peering (releaseLease t peerId leaseId).peering := by
  refine Table.Edits.updateWhere (fun _ _ _ => rfl) ?_
  intro row hrow hselect
  rw [Bool.and_eq_true] at hselect
  obtain ⟨expires, hstate⟩ := DeliveryState.isLeasedBy_iff.mp hselect.2
  have hleased : row.columns.state = .leased := DeliveryRow.columns_leased.mpr ⟨_, _, hstate⟩
  change DeliveryUpdate row.columns _
  rw [columns_release hleased]
  exact .release hleased

theorem edits_reopenDelivery {select : DeliveryRow → Bool} (htime : 0 ≤ atUnixMs.toInt)
    (hselect : ∀ row, select row = true → row.state.isAcknowledged = false) :
    Table.Edits (deliveryRules g) p.deliveries (p.deliveries.map fun row =>
      if select row then reopenDelivery atUnixMs row else row) := by
  refine Table.Edits.updateWhere (fun _ _ _ => rfl) ?_
  intro row hrow hselected
  refine .reopen atUnixMs ?_ htime
  intro hacknowledged
  have hfalse := hselect row hselected
  rw [DeliveryRow.columns_acknowledged.mp hacknowledged] at hfalse
  cases hfalse

theorem Committed.edits {operation : OperationEnvelope}
    (h : Committed P t operation atUnixMs source t' result) :
    DeliveryEdits t'.graph t.peering t'.peering := by
  obtain ⟨media, -, hsource⟩ := h.sources
  simp only [applySource, bind_eq_ok, Except.ok.injEq, Prod.mk.injEq] at hsource
  obtain ⟨peering, hdeliveries, _, -, rfl, -⟩ := hsource
  exact edits_applyDeliverySource h.time h.stored hdeliveries

-- The calls that store no operations are sequences of statements on the deliveries.
theorem DeliveriesKept.edits_call (h : DeliveriesKept t) (hlog : Stored P t.graph log) {call : Call}
    (hstores : call.storesOperations = false) (hrun : call.run P t = .ok t') :
    DeliveryEdits t.graph t.peering t'.peering := by
  cases call.effect hstores hrun with
  | configured peers spaces active => exact .refl
  | queued peers spaces peerId select dueAt choose fallbackAt due fallback =>
    refine edits_queueStored fun row hrow => ?_
    rcases due row with htime | hstored
    · exact htime
    · obtain ⟨a, ha, rfl⟩ := hlog.coherent.represents.mem_operations.mp hrow
      rw [hstored]
      exact hlog.times a ha
  | requeued deliveries transfers peerId spaceId nowUnixMs named =>
    subst named
    simp only [Call.run, Client.requeueUnacknowledgedPeerSpace, requireNonnegative, bind_eq_ok,
      require_eq_ok, decide_eq_true_eq, Except.ok.injEq] at hrun
    obtain ⟨_, htime, -, -, hrun⟩ := hrun
    rw [← hrun]
    refine (edits_queueStored fun _ _ => htime).trans (edits_reopenDelivery htime ?_)
    intro row hselect
    simp only [Bool.and_eq_true, Bool.not_eq_true'] at hselect
    exact hselect.1.2
  | settled deliveries named =>
    cases call with
    | leaseDue peerId nowUnixMs leaseMs limit leaseId =>
      obtain ⟨items, hrun⟩ := map_fst_eq_ok.mp hrun
      simp only [Client.leaseDue, bind_eq_ok] at hrun
      obtain ⟨-, -, -, -, expires, -, hrun⟩ := hrun
      exact edits_leaseOperations h.due hrun
    | finishDelivery peerId operationId leaseId outcome atUnixMs error =>
      exact h.edits_finishDelivery hrun
    | releaseLease peerId leaseId =>
      cases hrun
      exact edits_releaseLease
    | _ => cases named
  | moved resources transfers ids named => exact .refl

end Steps

section Runs

variable {P : Platform} {t t' : Tables} {log : Log} {p p' : PeerTables}

theorem DeliveriesKept.edits (h : DeliveriesKept t)
    (hedits : DeliveryEdits t'.graph t.peering t'.peering)
    (hgrows : ∀ id, hasOperation t.graph.operations id = true →
      hasOperation t'.graph.operations id = true) : DeliveriesKept t' := by
  refine ⟨hedits.keys_nodup h.keys, ?_, ?_⟩
  · exact hedits.forall_mem (fun row hfresh => hfresh.1.checks)
      (fun row row' _ hchange hchecks => DeliveryUpdate.checks hchange hchecks) h.checks
  · refine hedits.forall_mem (fun row hfresh => hfresh.2) ?_
      fun row hrow => hgrows _ (h.stored row hrow)
    intro row row' hkey _ hstored
    have hid : row'.operationId = row.operationId := (Prod.ext_iff.mp hkey).2
    rw [hid]
    exact hstored

theorem Commit.hasOperation {operation : OperationEnvelope} {storedAtUnixMs : Int64}
    {source : CommitSource} {result : CommitResult}
    (h : Commit P t operation storedAtUnixMs source t' result) {id : OperationId}
    (hid : hasOperation t.graph.operations id = true) :
    hasOperation t'.graph.operations id = true := by
  cases h with
  | replayed hgraph hstored hflag =>
    rw [hgraph]
    exact hid
  | inserted hins hflag =>
    rw [Client.hasOperation, hins.operations, any_append, Bool.or_eq_true]
    exact .inl hid

theorem Reachable.deliveries (h : Reachable P t) : DeliveriesKept t := by
  refine Reachable.induction DeliveriesKept ?_ ?_ ?_ ?_ ?_ h
  · exact ⟨nodup_nil, forall_mem_nil _, forall_mem_nil _⟩
  · intro t t' operation storedAtUnixMs source result _ hkept hcommit
    have hcommitted := committed_of_ok hcommit
    exact hkept.edits hcommitted.edits fun _ => hcommitted.outcome.hasOperation
  · intro t workspaces hkept
    exact ⟨hkept.keys, hkept.checks, hkept.stored⟩
  · intro t spaceId hkept _
    refine ⟨hkept.keys.sublist (filter_sublist.map _), ?_, ?_⟩
    · exact fun row hrow => hkept.checks row (mem_of_mem_filter hrow)
    · intro row hrow
      obtain ⟨hmem, hstays⟩ := mem_filter.mp hrow
      obtain ⟨operation, hoperation, hid⟩ := any_eq_true.mp (hkept.stored row hmem)
      refine any_eq_true.mpr ⟨operation, mem_filter.mpr ⟨hoperation, ?_⟩, hid⟩
      rw [decide_eq_true_eq] at hid ⊢
      intro hspace
      rw [Bool.not_eq_true', ← Bool.not_eq_true] at hstays
      refine hstays (any_eq_true.mpr ⟨operation, hoperation, ?_⟩)
      rw [hid, hspace]
      simp
  · intro t t' call hreach hkept hstores hrun
    obtain ⟨log, hlog⟩ := hreach.stored
    have hedits := hkept.edits_call hlog hstores hrun
    have hgraph := call.graph_eq hstores hrun
    rw [← hgraph] at hedits
    refine hkept.edits hedits fun id hid => ?_
    rw [hgraph]
    exact hid

-- The rows stay under their keys, those that are acknowledged as such.
def RowsStay (p p' : PeerTables) : Prop :=
  ∀ row ∈ p.deliveries, ∃ row' ∈ p'.deliveries, row'.key = row.key ∧
    (row.state.isAcknowledged = true → row'.state.isAcknowledged = true)

theorem RowsStay.refl (p : PeerTables) : RowsStay p p :=
  fun row hrow => ⟨row, hrow, rfl, id⟩

theorem RowsStay.trans (h : RowsStay p p') (h' : RowsStay p' p'') : RowsStay p p'' := by
  intro row hrow
  obtain ⟨middle, hmiddle, hkey, hstays⟩ := h row hrow
  obtain ⟨last, hlast, hkey', hstays'⟩ := h' middle hmiddle
  exact ⟨last, hlast, hkey'.trans hkey, fun hrow => hstays' (hstays hrow)⟩

theorem rowsStay_of_edits (h : DeliveryEdits g p p') : RowsStay p p' := by
  intro row hrow
  refine h.kept (fun row => row.state.isAcknowledged = true) ?_ hrow
  intro row row' hchange hacknowledged
  exact DeliveryRow.columns_acknowledged.mp
    (DeliveryUpdate.acknowledged hchange (DeliveryRow.columns_acknowledged.mpr hacknowledged))

def Call.deletes : Call → Bool
  | .deleteWorkspace _ => true
  | _ => false

-- The runs in which no workspace is deleted.
def KeepingRuns (P : Platform) : Tables → Tables → Prop :=
  Relation.ReflTransGen fun t t' => ∃ call : Call, call.deletes = false ∧ t' = call.apply P t

theorem Reachable.rowsStay_call (h : Reachable P t) (call : Call) (hcall : call.deletes = false) :
    RowsStay t.peering (call.apply P t).peering := by
  unfold Call.apply
  cases hrun : call.run P t with
  | error error => exact .refl _
  | ok next =>
    refine Call.induction (fun s => RowsStay t.peering s.peering)
      (fun s => RowsStay t.peering s.peering) (.refl _) hrun ?_ ?_ ?_ ?_
    · exact fun s workspaces hs => hs
    · intro s s' operation storedAtUnixMs source result _ hs hok
      exact hs.trans (rowsStay_of_edits (committed_of_ok hok).edits)
    · intro spaceId hdelete
      rw [hdelete] at hcall
      cases hcall
    · intro hstores
      obtain ⟨log, hlog⟩ := h.stored
      exact rowsStay_of_edits (h.deliveries.edits_call hlog hstores hrun)

theorem KeepingRuns.rowsStay (h : KeepingRuns P t t') (ht : Reachable P t) :
    Reachable P t' ∧ RowsStay t.peering t'.peering := by
  induction h with
  | refl => exact ⟨ht, .refl _⟩
  | tail _ hstep ih =>
    obtain ⟨call, hcall, rfl⟩ := hstep
    obtain ⟨hreach, hstay⟩ := ih
    exact ⟨hreach.call call, hstay.trans (hreach.rowsStay_call call hcall)⟩

end Runs

section Leases

variable {t : Tables} {peerId : NodeId} {leaseId : DeliveryLeaseId} {now : Int64}
  {leaseMs limit : Nat} {row : DeliveryRow} {operation : OperationRow}

def DeliveryRow.dueAt (row : DeliveryRow) : Option Int64 :=
  match row.state with
  | .pending => some row.nextAttemptAtUnixMs
  | .leased _ expiresAtUnixMs => some expiresAtUnixMs
  | _ => none

-- The operations with a due delivery to a peer.
def dueFor (t : Tables) (peerId : NodeId) (now : Int64) : List OperationRow :=
  t.graph.operations.filter fun operation => t.peering.deliveries.any fun row =>
    row.peerId = peerId && row.operationId = operation.operationId && row.isDue now

-- What it takes for `lease_due` to return a row that is due: an enabled peer,
-- arguments that are accepted, a batch that reaches the row, and attempts that can
-- still be counted.
structure Leasable (t : Tables) (row : DeliveryRow) (now : Int64) (leaseMs limit : Nat) :
    Prop where
  enabled : isEnabled t.peering row.peerId = true
  time : 0 ≤ now.toInt
  lease : 0 < leaseMs
  room : now.toInt + leaseMs < 2 ^ 63
  batch : 1 ≤ limit ∧ limit ≤ MAX_OUTBOX_BATCH
  reached : ∀ operation ∈ t.graph.operations, operation.operationId = row.operationId →
    (Paging.upTo (·.localSequence) (dueFor t row.peerId now) operation.localSequence).length ≤
      limit
  attempts : ∀ other ∈ t.peering.deliveries, other.peerId = row.peerId →
    other.isDue now = true → other.attemptCount + 1 < 2 ^ 32

theorem DeliveryRow.isDue_iff :
    row.isDue now = true ↔ ∃ due, row.dueAt = some due ∧ due.toInt ≤ now.toInt := by
  unfold DeliveryRow.isDue DeliveryRow.dueAt
  cases row.state <;> simp

-- The operations are stored in the order of their numbers.
theorem Coherent.sequences_rows (h : Coherent P t.graph log) :
    t.graph.operations.Pairwise fun a b => a.localSequence < b.localSequence := by
  rw [h.represents.operations, pairwise_map]
  exact h.causal.sequences

theorem Coherent.dueOperations_eq (h : Coherent P t.graph log)
    (henabled : isEnabled t.peering peerId = true) :
    dueOperations t peerId now limit = (dueFor t peerId now).take limit := by
  unfold isEnabled at henabled
  simp only [dueOperations, henabled, Bool.true_and]
  rw [mergeSort_of_pairwise]
  · rfl
  · exact (h.sequences_rows.filter _).imp fun hlt => decide_eq_true (Nat.le_of_lt hlt)

-- A lease that was not recorded before holds what it was given.
theorem leaseOperations_held {done : List OperationId}
    (hdone : ∀ row ∈ t.peering.deliveries, row.columns.leaseId = some leaseId ↔
      row.peerId = peerId ∧ row.operationId ∈ done)
    (h : leaseOperations P peerId leaseId expires t ids = .ok (t', items)) :
    ∀ row ∈ t'.peering.deliveries, row.columns.leaseId = some leaseId ↔
      row.peerId = peerId ∧ row.operationId ∈ done ++ ids := by
  induction ids generalizing t t' items done with
  | nil =>
    cases h
    rw [append_nil]
    exact hdone
  | cons id rest ih =>
    obtain ⟨_, _, _, -, -, -, hrest⟩ := leaseOperations_cons h
    rw [append_cons]
    refine ih ?_ hrest
    intro row' hrow'
    obtain ⟨row, hrow, rfl⟩ := mem_map.mp hrow'
    by_cases hselect : (row.peerId = peerId && row.operationId = id : Bool) = true
    · rw [if_pos hselect]
      obtain ⟨hpeer, hid⟩ := Prod.ext_iff.mp (isKey_iff.mp hselect)
      have hleased : (leaseRow leaseId expires row).columns.leaseId = some leaseId := rfl
      refine iff_of_true hleased ⟨hpeer, mem_append_right _ ?_⟩
      exact mem_singleton.mpr hid
    · rw [if_neg hselect, hdone row hrow, mem_append, mem_singleton]
      rw [isKey_iff, Prod.ext_iff] at hselect
      constructor
      · exact fun ⟨hpeer, hmem⟩ => ⟨hpeer, .inl hmem⟩
      · rintro ⟨hpeer, hmem | hid⟩
        · exact ⟨hpeer, hmem⟩
        · exact absurd ⟨hpeer, hid⟩ hselect

theorem leaseOperations_items
    (hload : ∀ id ∈ ids, ∀ stored, loadOperationRow P t.graph id = .ok (some stored) →
      stored.2.operationId = id)
    (h : leaseOperations P peerId leaseId expires t ids = .ok (t', items)) :
    items.map (·.operation.operationId) = ids := by
  induction ids generalizing t t' items with
  | nil =>
    cases h
    rfl
  | cons id rest ih =>
    rw [forall_mem_cons] at hload
    obtain ⟨stored, item, others, hfound, hitem, rfl, hrest⟩ := leaseOperations_cons h
    have hothers : others.map (·.operation.operationId) = rest := by
      refine ih ?_ hrest
      exact hload.2
    rw [map_cons, hitem, hload.1 stored hfound, hothers]

theorem deliveryRow?_lease {id : OperationId} (hne : other ≠ id) :
    deliveryRow? (updateDelivery t.peering peerId id (leaseRow leaseId expires)) peerId other =
      deliveryRow? t.peering peerId other := by
  unfold deliveryRow? updateDelivery
  induction t.peering.deliveries with
  | nil => rfl
  | cons row rest ih =>
    by_cases hselect : (row.peerId = peerId && row.operationId = id : Bool) = true
    · have hid : row.operationId = id := (Prod.ext_iff.mp (isKey_iff.mp hselect)).2
      have hother : (row.peerId = peerId && row.operationId = other : Bool) = false := by
        rw [hid]
        simp [hne.symm]
      rw [map_cons, if_pos hselect, find?_cons_of_neg, find?_cons_of_neg, ih]
      · rw [hother]
        exact Bool.false_ne_true
      · change ¬ (row.peerId = peerId && row.operationId = other : Bool) = true
        rw [hother]
        exact Bool.false_ne_true
    · rw [map_cons, if_neg hselect, find?_cons, find?_cons, ih]

-- The whole batch is leased if each of its operations can be loaded and counted.
theorem leaseOperations_isOk (leaseId : DeliveryLeaseId) (expires : Int64)
    (hload : ∀ id ∈ ids, ∃ stored, loadOperationRow P t.graph id = .ok (some stored))
    (hrows : ∀ id ∈ ids, ∃ row, deliveryRow? t.peering peerId id = some row ∧
      row.attemptCount + 1 < 2 ^ 32) (hdistinct : ids.Nodup) :
    ∃ t' items, leaseOperations P peerId leaseId expires t ids = .ok (t', items) := by
  induction ids generalizing t with
  | nil => exact ⟨t, [], rfl⟩
  | cons id rest ih =>
    rw [forall_mem_cons] at hload hrows
    rw [nodup_cons] at hdistinct
    obtain ⟨⟨stored, hstored⟩, hload⟩ := hload
    obtain ⟨⟨row, hrow, hattempts⟩, hrows⟩ := hrows
    let next : Tables := { t with
      peering := updateDelivery t.peering peerId id (leaseRow leaseId expires) }
    have hnext : ∀ other ∈ rest, ∃ row, deliveryRow? next.peering peerId other = some row ∧
        row.attemptCount + 1 < 2 ^ 32 := by
      intro other hother
      have hne : other ≠ id := fun heq => hdistinct.1 (heq ▸ hother)
      rw [deliveryRow?_lease hne]
      exact hrows other hother
    obtain ⟨t', items, hrest⟩ := ih (t := next) hload hnext hdistinct.2
    have hitem : leaseOperation P peerId leaseId expires t id =
        .ok (next, { operation := stored.2, attemptCount := row.attemptCount + 1 }) := by
      simp only [leaseOperation, bind_eq_ok, okOr_eq_ok, require_eq_ok, decide_eq_true_eq]
      exact ⟨row, hrow, some stored, hstored, stored, rfl, (), hattempts, rfl⟩
    refine ⟨t', { operation := stored.2, attemptCount := row.attemptCount + 1 } :: items, ?_⟩
    simp only [leaseOperations, bind_eq_ok]
    exact ⟨_, hitem, _, hrest, rfl⟩

theorem mem_dueFor :
    operation ∈ dueFor t peerId now ↔ operation ∈ t.graph.operations ∧
      ∃ row ∈ t.peering.deliveries, row.key = (peerId, operation.operationId) ∧
        row.isDue now = true := by
  simp [dueFor, DeliveryRow.key]

theorem leaseExpiry_eq_ok :
    leaseExpiry now leaseMs = .ok expires ↔
      0 < leaseMs ∧ leaseMs < 2 ^ 63 ∧ checkedAdd now leaseMs = some expires := by
  simp [leaseExpiry, bind_eq_ok, and_assoc]

theorem leaseDue_eq_ok :
    leaseDue P t peerId now leaseMs limit leaseId = .ok (t', items) ↔
      0 ≤ now.toInt ∧ (1 ≤ limit ∧ limit ≤ MAX_OUTBOX_BATCH) ∧
        ∃ expires, leaseExpiry now leaseMs = .ok expires ∧
          leaseOperations P peerId leaseId expires t
            ((dueOperations t peerId now limit).map (·.operationId)) = .ok (t', items) := by
  simp [leaseDue, requireNonnegative, bind_eq_ok]

-- The operations of a batch are stored, so they are loaded under their own names.
theorem Stored.load_batch (h : Stored P t.graph log) (hreads : ReadsBack P) :
    ∀ id ∈ (dueOperations t peerId now limit).map (·.operationId),
      ∃ stored, loadOperationRow P t.graph id = .ok (some stored) ∧ stored.2.operationId = id := by
  intro id hid
  obtain ⟨operation, hoperation, rfl⟩ := mem_map.mp hid
  obtain ⟨a, ha, rfl⟩ := h.coherent.represents.mem_operations.mp (mem_dueOperations hoperation).1
  exact ⟨_, h.load hreads ha, rfl⟩

theorem Stored.leaseDue_items (h : Stored P t.graph log) (hreads : ReadsBack P)
    (hok : leaseDue P t peerId now leaseMs limit leaseId = .ok (t', items)) :
    items.map (·.operation.operationId) =
      (dueOperations t peerId now limit).map (·.operationId) := by
  obtain ⟨-, -, expires, -, hleases⟩ := leaseDue_eq_ok.mp hok
  refine leaseOperations_items ?_ hleases
  intro id hid stored hstored
  obtain ⟨loaded, hloaded, hname⟩ := h.load_batch hreads id hid
  rw [hloaded] at hstored
  cases hstored
  exact hname

theorem Stored.leaseDue_held (h : Stored P t.graph log) (hreads : ReadsBack P)
    (hok : leaseDue P t peerId now leaseMs limit leaseId = .ok (t', items))
    (hfresh : ∀ row ∈ t.peering.deliveries, row.columns.leaseId ≠ some leaseId) :
    ∀ row ∈ t'.peering.deliveries, row.columns.leaseId = some leaseId ↔
      row.peerId = peerId ∧ row.operationId ∈ items.map (·.operation.operationId) := by
  rw [h.leaseDue_items hreads hok]
  obtain ⟨-, -, expires, -, hleases⟩ := leaseDue_eq_ok.mp hok
  have hnone : ∀ row ∈ t.peering.deliveries, row.columns.leaseId = some leaseId ↔
      row.peerId = peerId ∧ row.operationId ∈ [] := fun row hrow =>
    iff_of_false (hfresh row hrow) fun hmem => not_mem_nil hmem.2
  exact leaseOperations_held hnone hleases

-- A row that is due is returned to whoever asks for it in the right way.
theorem Stored.leaseDue_returns (h : Stored P t.graph log) (hreads : ReadsBack P)
    (hkept : DeliveriesKept t) (hrow : row ∈ t.peering.deliveries) (hdue : row.isDue now = true)
    (hleasable : Leasable t row now leaseMs limit) :
    ∃ t' items, leaseDue P t row.peerId now leaseMs limit leaseId = .ok (t', items) ∧
      row.operationId ∈ items.map (·.operation.operationId) := by
  have hrows : ∀ id ∈ (dueOperations t row.peerId now limit).map (·.operationId),
      ∃ found, deliveryRow? t.peering row.peerId id = some found ∧
        found.attemptCount + 1 < 2 ^ 32 := by
    intro id hid
    obtain ⟨operation, hoperation, rfl⟩ := mem_map.mp hid
    obtain ⟨-, -, found, hfound, hkey, hfoundDue⟩ := mem_dueOperations hoperation
    obtain ⟨hpeer, hname⟩ : found.peerId = row.peerId ∧
      found.operationId = operation.operationId := Prod.ext_iff.mp hkey
    have hexists := hkept.deliveryRow?_eq hfound
    rw [hpeer, hname] at hexists
    exact ⟨found, hexists, hleasable.attempts found hfound hpeer hfoundDue⟩
  have hdistinct : ((dueOperations t row.peerId now limit).map (·.operationId)).Nodup := by
    rw [h.coherent.dueOperations_eq hleasable.enabled]
    have hkeys : (t.graph.operations.map (·.operationId)).Nodup := by
      rw [h.coherent.represents.operations, map_map]
      exact h.coherent.causal.keys
    exact hkeys.sublist (((take_sublist _ _).trans filter_sublist).map _)
  have hexpires : leaseExpiry now leaseMs = .ok (Int64.ofInt (now.toInt + leaseMs)) := by
    have hsmall : leaseMs < 2 ^ 63 := by
      have := hleasable.time
      have := hleasable.room
      omega
    refine leaseExpiry_eq_ok.mpr ⟨hleasable.lease, hsmall, ?_⟩
    rw [checkedAdd, if_pos hleasable.room]
  obtain ⟨t', items, hleases⟩ := leaseOperations_isOk leaseId (Int64.ofInt (now.toInt + leaseMs))
    (fun id hid => (h.load_batch hreads id hid).imp fun _ hstored => hstored.1) hrows hdistinct
  have hok : leaseDue P t row.peerId now leaseMs limit leaseId = .ok (t', items) :=
    leaseDue_eq_ok.mpr ⟨hleasable.time, hleasable.batch, _, hexpires, hleases⟩
  refine ⟨t', items, hok, ?_⟩
  rw [h.leaseDue_items hreads hok, h.coherent.dueOperations_eq hleasable.enabled]
  obtain ⟨operation, hoperation, hname⟩ := any_eq_true.mp (hkept.stored row hrow)
  rw [decide_eq_true_eq] at hname
  refine mem_map.mpr ⟨operation, ?_, hname⟩
  have hmem : operation ∈ dueFor t row.peerId now :=
    mem_dueFor.mpr ⟨hoperation, row, hrow, Prod.ext rfl hname.symm, hdue⟩
  exact Paging.mem_take (h.coherent.sequences_rows.filter _) hmem
    (hleasable.reached operation hoperation hname)

end Leases

namespace Sample

open DataModel.Sample (envelope occurredAtUnixMs)

variable {P : Platform} {now : Int64} {limit : Nat}

-- A record with three bytes of content.
def photo : DataModel.Sample where
  key := DataModel.Sample.writerKey
  actorId := DataModel.Sample.writer
  entityId := DataModel.Sample.entity 6
  schema := .record
  authorization := [DataModel.Sample.genesis.operationId]
  nonce := ⟨FixedBytes.replicate 16 6⟩
  body := .putRecord (.pub
    { startAtUnixMs := occurredAtUnixMs
      endAtUnixMs := none
      emoji := none
      text := none
      metadata := .empty
      resources := [
        { contentId := ⟨.ofNat 0xba7816bf8f01cfea414140de5dae2223b00361a396177a9cb410ff61f20015ad⟩
          byteLength := 3
          mediaType := "text/plain"
          role := "record.media"
          originalName := none }]
      references := [] })
  operationId := ⟨.ofNat 0x71aeab6882454bf22a2f61cc3431e9382db99d85e198605e453c351d25e697e4⟩
  signature :=
    ⟨toBE 32 0xdad1427662c2808be146bbf098ed629e1521cf689d4361f78b10cc4e2cf77872 ++
      toBE 32 0xad6a899cdb30e09e9ef1f1c5bc5068e99657482c9d2eeb6a92cdb9e9c3a59c0e, by decide⟩

-- Libraries that accept and read the genesis of the sample space and the record,
-- and nothing else.
def outbox : Platform :=
  Store.Sample.reading (Store.Sample.strict [DataModel.Sample.genesis, photo])
    ([DataModel.Sample.genesis, photo].map envelope)

theorem outbox_verified : ∀ e ∈ [DataModel.Sample.genesis, photo].map envelope,
    e.verify outbox.toPrimitives = .ok () := by
  decide +kernel

theorem outbox_reads : ReadsBack outbox := by
  intro operation hverified
  exact Store.Sample.readEnvelope_text outbox_verified
    (Store.Sample.listed (fun _ _ _ => of_decide_eq_true) outbox_verified hverified)

def peer : PeerConfig where
  peerId := ⟨FixedBytes.replicate 32 0x07⟩
  endpoint := "https://node.example"
  enabled := true
  pushEnabled := true
  contentReadEnabled := true
  peerTransportCredential := none
  addedAtUnixMs := 0

def connected (P : Platform) : Tables :=
  { tables (created P) with peering := { peers := [peer], spaces := [], deliveries := [] } }

def withDelivery (row : DeliveryRow) : Tables :=
  { connected outbox with peering := { (connected outbox).peering with deliveries := [row] } }

def pending : DeliveryRow := pendingDelivery peer.peerId genesis.key genesis.storedAtUnixMs

-- The genesis is stored and the peer is configured.
theorem connected_eq (hverified :
      genesis.operation.verify P.toPrimitives = .ok ())
    (hinsert : insertOperation P .empty genesis.operation genesis.storedAtUnixMs .ofRemote =
      .ok (created P)) :
    (Call.upsertPeer peer).apply P ((Call.commit genesis.operation genesis.storedAtUnixMs
      .ofRemote).apply P .empty) = connected P := by
  obtain ⟨_, hgenesis, -⟩ : ∃ result, commitTransaction P .empty genesis.operation
      genesis.storedAtUnixMs .ofRemote = .ok (tables (created P), result) ∧
        result.replayed = false :=
    commit_remote hverified (by decide) (forall_mem_nil _) rfl hinsert
  rw [Call.apply_commit hgenesis]
  rfl

theorem reachable_connected (hverified :
      genesis.operation.verify P.toPrimitives = .ok ())
    (hinsert : insertOperation P .empty genesis.operation genesis.storedAtUnixMs .ofRemote =
      .ok (created P)) : Reachable P (connected P) := by
  rw [← connected_eq hverified hinsert]
  exact (Reachable.start.call _).call _

theorem reachable_outbox : Reachable outbox (connected outbox) :=
  reachable_connected (outbox_verified _ mem_cons_self) rfl

theorem reachable_pending : Reachable outbox (withDelivery pending) :=
  reachable_outbox.call (.setPeerEnabled peer.peerId true)

theorem dueOperations_withDelivery (hkey : row.key = (peer.peerId, genesis.key))
    (hlimit : 1 ≤ limit) (hdue : row.isDue now = true) :
    dueOperations (withDelivery row) peer.peerId now limit = [storedRow outbox genesis] := by
  have hcoherent : Coherent outbox (withDelivery row).graph [genesis] := by
    refine ⟨⟨rfl, rfl, rfl⟩, ⟨nodup_singleton _, pairwise_singleton _ _, ?_, ?_⟩, ?_⟩
    · exact forall_mem_singleton.mpr (forall_mem_nil _)
    · exact forall_mem_singleton.mpr (forall_mem_nil _)
    · exact forall_mem_singleton.mpr (Nat.le_refl _)
  have hsome : ([row].any fun other => other.peerId = peer.peerId &&
      other.operationId = genesis.key && other.isDue now) = true := by
    refine any_eq_true.mpr ⟨row, mem_cons_self, ?_⟩
    rw [isKey_iff.mpr hkey, hdue]
    rfl
  have hall : dueFor (withDelivery row) peer.peerId now = [storedRow outbox genesis] :=
    filter_cons_of_pos hsome
  rw [hcoherent.dueOperations_eq rfl, hall]
  exact take_of_length_le hlimit

def leaseId : DeliveryLeaseId := ⟨⟨FixedBytes.replicate 16 0x01⟩⟩

theorem lease_pending (htime : 0 ≤ now.toInt) (hdue : pending.isDue now = true)
    (hexpires : leaseExpiry now leaseMs = .ok expires) :
    Reachable outbox (withDelivery (leaseRow leaseId expires pending)) := by
  have hload : ∃ stored, loadOperationRow outbox (created outbox) genesis.key =
      .ok (some stored) :=
    ⟨_, loadOperationRow_stored (outbox_verified _ mem_cons_self)
      (outbox_reads _ (outbox_verified _ mem_cons_self)) Nat.one_pos rfl⟩
  obtain ⟨stored, hstored⟩ := hload
  have hitem : leaseOperation outbox peer.peerId leaseId expires (withDelivery pending)
      genesis.key = .ok (withDelivery (leaseRow leaseId expires pending),
        { operation := stored.2, attemptCount := 1 }) := by
    simp only [leaseOperation, bind_eq_ok, okOr_eq_ok, require_eq_ok, decide_eq_true_eq]
    exact ⟨pending, rfl, some stored, hstored, stored, rfl, (), by decide, rfl⟩
  have hok : leaseDue outbox (withDelivery pending) peer.peerId now leaseMs 1 leaseId =
      .ok (withDelivery (leaseRow leaseId expires pending),
        [{ operation := stored.2, attemptCount := 1 }]) := by
    refine leaseDue_eq_ok.mpr ⟨htime, by decide, expires, hexpires, ?_⟩
    rw [dueOperations_withDelivery rfl (Nat.le_refl _) hdue]
    simp only [map_cons, map_nil, leaseOperations, bind_eq_ok]
    exact ⟨_, hitem, _, rfl, rfl⟩
  have hcall := reachable_pending.call (.leaseDue peer.peerId now leaseMs 1 leaseId)
  rw [Call.apply, Call.run, hok] at hcall
  exact hcall

theorem leaseDue_nil {lease : DeliveryLeaseId}
    (hok : leaseDue outbox t peer.peerId now leaseMs limit lease = .ok (t', items))
    (hnone : dueOperations t peer.peerId now limit = []) : items = [] := by
  obtain ⟨-, -, expires, -, hleases⟩ := leaseDue_eq_ok.mp hok
  rw [hnone] at hleases
  cases hleases
  rfl

-- Leased in the last millisecond but one.
def stuck : DeliveryRow := leaseRow leaseId Int64.maxValue pending

theorem reachable_stuck : Reachable outbox (withDelivery stuck) := by
  have hexpires : leaseExpiry (Int64.maxValue - 1) 1 = .ok Int64.maxValue :=
    leaseExpiry_eq_ok.mpr ⟨by decide, by decide, by decide⟩
  exact lease_pending (by decide) (by decide) hexpires

def leased : DeliveryRow :=
  leaseRow leaseId (occurredAtUnixMs + 1000) pending

def disabled : Tables :=
  { withDelivery leased with
    peering := { (withDelivery leased).peering with peers := [{ peer with enabled := false }] } }

theorem reachable_disabled : Reachable outbox disabled := by
  have hexpires : leaseExpiry occurredAtUnixMs 1000 =
      .ok (occurredAtUnixMs + 1000) :=
    leaseExpiry_eq_ok.mpr ⟨by decide, by decide, by decide⟩
  have hleased : Reachable outbox (withDelivery leased) :=
    lease_pending (by decide) (by decide) hexpires
  exact hleased.call (.setPeerEnabled peer.peerId false)

theorem dueOperations_eq_nil (h : ∀ row ∈ t.peering.deliveries, row.isDue now = true →
      isEnabled t.peering peer.peerId = false) : dueOperations t peer.peerId now limit = [] := by
  refine eq_nil_iff_forall_not_mem.mpr fun operation hoperation => ?_
  obtain ⟨-, henabled, row, hrow, -, hdue⟩ := mem_dueOperations hoperation
  rw [h row hrow hdue] at henabled
  cases henabled

end Sample

open Sample (outbox pending withDelivery)

open DataModel.Sample (occurredAtUnixMs)

end Fractonica.Client
