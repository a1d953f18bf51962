import Fractonica.Client.Deliveries.Theorems
import Fractonica.Client.Transfers.Columns

namespace Fractonica.Client

open Lib Trust Content DataModel List
open Store (Platform)

-- What holds of the resources and their transfers in every reachable state.
structure TransfersKept (resources : List ResourceRow) (transfers : List TransferRow) :
    Prop where
  ids : (resources.map (·.contentId)).Nodup
  sizes : ∀ resource ∈ resources, 0 ≤ resource.byteLength.toInt
  discovered : ∀ resource ∈ resources, 0 ≤ resource.discoveredAtUnixMs.toInt
  keys : (transfers.map TransferRow.key).Nodup
  checks : ∀ row ∈ transfers, row.columns.checks = true
  sound : ∀ row ∈ transfers, ∃ resource ∈ resources, resource.contentId = row.contentId ∧
    row.columns.Sound resource

abbrev MediaTables.Kept (m : MediaTables) : Prop := TransfersKept m.resources m.transfers

section Columns

variable {row : TransferRow} {resource : ResourceRow} {leaseId : ResourceTransferLeaseId}
  {byteLength : Int64}

theorem columns_uploadTransfer :
    (uploadTransfer peerId resource atUnixMs).columns =
      .queuedUpload resource.locallyAvailable atUnixMs := by
  unfold uploadTransfer TransferRow.columns TransferColumns.queuedUpload
  cases resource.locallyAvailable <;> rfl

theorem columns_downloadTransfer :
    (downloadTransfer peerId resource atUnixMs).columns =
      .queuedDownload resource.locallyAvailable resource.byteLength atUnixMs := by
  unfold downloadTransfer TransferRow.columns TransferColumns.queuedDownload
  cases resource.locallyAvailable <;> rfl

theorem columns_leaseTransfer (h : row.columns.state = .pending ∨ row.columns.state = .leased) :
    { row with state := .leased leaseId expires, attemptCount := row.attemptCount + 1 }.columns =
      row.columns.lease leaseId expires := by
  unfold TransferRow.columns at h ⊢
  cases hstate : row.state <;> simp_all [TransferColumns.lease]

theorem columns_progress :
    ({ row with transferredBytes := transferred,
                remoteUploadUrl := if row.direction = .upload then url else none } :
      TransferRow).columns =
      row.columns.progress transferred url := by
  unfold TransferRow.columns
  cases row.state <;> rfl

theorem columns_continued :
    { row with state := .pending, attemptCount := 0, nextAttemptAtUnixMs := atUnixMs,
               lastError := none }.columns = row.columns.continued atUnixMs := by
  unfold TransferRow.columns
  cases row.state <;> rfl

theorem columns_waitLocal (h : row.columns.state = .leased) :
    { row with state := .waitingLocal, nextAttemptAtUnixMs := atUnixMs,
               lastError := some error }.columns = row.columns.waitLocal atUnixMs error := by
  unfold TransferRow.columns at h ⊢
  cases hstate : row.state <;> simp_all [TransferColumns.waitLocal]

theorem columns_finishTransfer {outcome : TransferOutcome} :
    ({ row with state := outcome.state atUnixMs, nextAttemptAtUnixMs := atUnixMs,
                transferredBytes :=
                  if outcome = .complete then byteLength else row.transferredBytes,
                lastError := error } : TransferRow).columns =
      row.columns.finish outcome.status byteLength atUnixMs error := by
  unfold TransferRow.columns
  cases row.state <;> cases outcome <;> rfl

theorem columns_settle :
    { row with state := .complete atUnixMs, transferredBytes := byteLength,
               lastError := none }.columns = row.columns.settle byteLength atUnixMs := by
  unfold TransferRow.columns
  cases row.state <;> rfl

theorem columns_wake (h : row.state = .waitingLocal) :
    { row with state := .pending, nextAttemptAtUnixMs := atUnixMs, lastError := none }.columns =
      row.columns.wake atUnixMs := by
  unfold TransferRow.columns
  rw [h]
  rfl

theorem TransferRow.columns_leased :
    row.columns.state = .leased ↔ ∃ leaseId expires, row.state = .leased leaseId expires := by
  unfold TransferRow.columns
  cases row.state <;> simp

theorem TransferRow.columns_complete :
    row.columns.state = .complete ↔ row.state.isComplete = true := by
  unfold TransferRow.columns TransferState.isComplete
  cases row.state <;> simp

theorem TransferRow.columns_waitingLocal :
    row.columns.state = .waitingLocal ↔ row.state = .waitingLocal := by
  unfold TransferRow.columns
  cases row.state <;> simp

theorem TransferRow.columns_transferredBytes :
    row.columns.transferredBytes = row.transferredBytes := by
  unfold TransferRow.columns
  cases row.state <;> rfl

theorem TransferRow.columns_direction : row.columns.direction = row.direction := by
  unfold TransferRow.columns
  cases row.state <;> rfl

theorem TransferRow.isDue_state (h : row.isDue atUnixMs = true) :
    row.columns.state = .pending ∨ row.columns.state = .leased := by
  unfold TransferRow.isDue at h
  unfold TransferRow.columns
  cases hstate : row.state <;> simp_all

theorem TransferState.isLeasedBy_iff {state : TransferState} :
    state.isLeasedBy leaseId = true ↔ ∃ expires, state = .leased leaseId expires := by
  cases state <;> simp [TransferState.isLeasedBy, eq_comm]

theorem TransferOutcome.status_ends (outcome : TransferOutcome) :
    outcome.status = .complete ∨ outcome.status = .pending ∨ outcome.status = .rejected := by
  cases outcome <;> simp [TransferOutcome.status]

theorem transferClash_iff (row other : TransferRow) :
    transferClash row other = true ↔ row.key = other.key := by
  simp [transferClash, TransferRow.key, and_assoc]

end Columns

section Keeping

variable {resources : List ResourceRow} {transfers : List TransferRow} {resource : ResourceRow}
  {contentId : ContentId} {atUnixMs : Int64}

theorem TransfersKept.eq_of_id (h : TransfersKept resources transfers)
    (hresource : resource ∈ resources) (hother : other ∈ resources)
    (hid : resource.contentId = other.contentId) : resource = other :=
  inj_on_of_nodup_map h.ids hresource hother hid

theorem TransfersKept.resourceRow?_eq (h : m.Kept) (hresource : resource ∈ m.resources) :
    resourceRow? m resource.contentId = some resource :=
  Table.find?_key h.ids hresource

theorem resourceRow?_eq_some (h : resourceRow? m contentId = some resource) :
    resource ∈ m.resources ∧ resource.contentId = contentId := by
  have hid := find?_some h
  exact ⟨mem_of_find?_eq_some h, of_decide_eq_true hid⟩

-- Statements on the transfers keep it.
theorem TransfersKept.edits (h : TransfersKept resources transfers)
    (hedits : Table.Edits (transferRules resources) transfers transfers') :
    TransfersKept resources transfers' := by
  refine ⟨h.ids, h.sizes, h.discovered, hedits.keys_nodup h.keys, ?_, ?_⟩
  · refine hedits.forall_mem ?_ ?_ h.checks
    · rintro row ⟨resource, hresource, -, hinsert⟩
      exact hinsert.checks (h.sizes resource hresource)
    · rintro row row' - ⟨resource, hresource, -, hupdate⟩ hchecks
      exact hupdate.checks (h.sizes resource hresource) hchecks
  · refine hedits.forall_mem ?_ ?_ h.sound
    · rintro row ⟨resource, hresource, hid, hinsert⟩
      exact ⟨resource, hresource, hid, hinsert.sound (h.sizes resource hresource)⟩
    · rintro row row' hkey ⟨resource, hresource, hid, hupdate⟩ ⟨other, hother, hid', hsound⟩
      obtain rfl := h.eq_of_id hresource hother (hid.trans hid'.symm)
      have hcontent : row'.contentId = row.contentId :=
        (Prod.ext_iff.mp (Prod.ext_iff.mp hkey).2).1
      exact ⟨resource, hresource, hid.trans hcontent.symm,
        hupdate.sound (h.sizes resource hresource) hsound⟩

-- An update of a resource has to fit its transfers.
theorem TransfersKept.updateResource (h : TransfersKept resources transfers)
    (update : ResourceRow → ResourceRow)
    (hsame : ∀ resource, (update resource).contentId = resource.contentId ∧
      (update resource).byteLength = resource.byteLength ∧
      (update resource).discoveredAtUnixMs = resource.discoveredAtUnixMs)
    (hfits : ∀ row ∈ transfers, row.contentId = contentId → ∀ resource,
      row.columns.Sound resource → row.columns.Sound (update resource)) :
    TransfersKept (resources.map fun row => if row.contentId = contentId then update row else row)
      transfers := by
  have hkeeps : ∀ resource : ResourceRow,
      (if resource.contentId = contentId then update resource else resource).contentId =
        resource.contentId ∧
      (if resource.contentId = contentId then update resource else resource).byteLength =
        resource.byteLength ∧
      (if resource.contentId = contentId then update resource else resource).discoveredAtUnixMs =
        resource.discoveredAtUnixMs := by
    intro resource
    by_cases hid : resource.contentId = contentId
    · rw [if_pos hid]
      exact hsame resource
    · rw [if_neg hid]
      exact ⟨rfl, rfl, rfl⟩
  refine ⟨?_, ?_, ?_, h.keys, h.checks, ?_⟩
  · rw [map_map]
    have hids := map_congr_left (l := resources) fun resource _ => (hkeeps resource).1
    exact hids ▸ h.ids
  · intro resource hresource
    obtain ⟨old, hold, rfl⟩ := mem_map.mp hresource
    rw [(hkeeps old).2.1]
    exact h.sizes old hold
  · intro resource hresource
    obtain ⟨old, hold, rfl⟩ := mem_map.mp hresource
    rw [(hkeeps old).2.2]
    exact h.discovered old hold
  · intro row hrow
    obtain ⟨resource, hresource, hid, hsound⟩ := h.sound row hrow
    refine ⟨_, mem_map_of_mem hresource, (hkeeps resource).1.trans hid, ?_⟩
    by_cases hcontent : resource.contentId = contentId
    · rw [if_pos hcontent]
      exact hfits row hrow (hid.symm.trans hcontent) resource hsound
    · rw [if_neg hcontent]
      exact hsound

theorem TransfersKept.insertResource (h : TransfersKept resources transfers)
    (hsize : 0 ≤ resource.byteLength.toInt) (htime : 0 ≤ resource.discoveredAtUnixMs.toInt) :
    TransfersKept (Table.insertOrIgnore (fun row other => row.contentId = other.contentId)
      resources resource) transfers := by
  rw [Table.insertOrIgnore]
  by_cases htaken : (resources.any fun other => resource.contentId = other.contentId) = true
  · rw [if_pos htaken]
    exact h
  · rw [if_neg htaken]
    refine ⟨?_, ?_, ?_, h.keys, h.checks, ?_⟩
    · rw [map_append, nodup_append]
      refine ⟨h.ids, nodup_singleton _, ?_⟩
      intro id hid other hother heq
      obtain ⟨old, hold, rfl⟩ := mem_map.mp hid
      rw [map_singleton, mem_singleton] at hother
      exact htaken (any_eq_true.mpr ⟨old, hold, decide_eq_true (heq.trans hother).symm⟩)
    · exact forall_mem_append.mpr ⟨h.sizes, forall_mem_singleton.mpr hsize⟩
    · exact forall_mem_append.mpr ⟨h.discovered, forall_mem_singleton.mpr htime⟩
    · intro row hrow
      obtain ⟨old, hold, hfound⟩ := h.sound row hrow
      exact ⟨old, mem_append_left _ hold, hfound⟩

-- Once every transfer of a resource is settled, the resource can become available.
theorem TransfersKept.markAvailable (h : TransfersKept resources transfers)
    (hsettled : ∀ row ∈ transfers, row.contentId = contentId →
      (row.direction = .download → row.columns.state = .complete) ∧
        (row.direction = .upload → row.columns.state ≠ .waitingLocal)) :
    TransfersKept (markAvailable contentId atUnixMs resources) transfers := by
  refine h.updateResource _ (fun _ => ⟨rfl, rfl, rfl⟩) ?_
  intro row hrow hid resource hsound
  obtain ⟨hdownload, hupload⟩ := hsettled row hrow hid
  rw [← TransferRow.columns_direction] at hdownload hupload
  exact ⟨fun hdirection hwaiting => absurd hwaiting (hupload hdirection),
    fun _ hdirection => hdownload hdirection, hsound.fits, hsound.complete⟩

theorem TransfersKept.revoke (h : TransfersKept resources transfers) :
    TransfersKept (resources.map fun row =>
      if row.contentId = contentId then
        { row with locallyAvailable := false, localExpected := true,
                   localVerifiedAtUnixMs := none }
      else row) transfers := by
  refine h.updateResource _ (fun _ => ⟨rfl, rfl, rfl⟩) ?_
  intro row _ _ resource hsound
  exact ⟨fun _ _ => rfl, nofun, hsound.fits, hsound.complete⟩

theorem TransfersKept.expect (h : TransfersKept resources transfers) :
    TransfersKept (resources.map fun row =>
      if row.contentId = contentId then { row with localExpected := true } else row)
      transfers := by
  refine h.updateResource _ (fun _ => ⟨rfl, rfl, rfl⟩) ?_
  intro row _ _ resource hsound
  exact ⟨hsound.waiting, hsound.download, hsound.fits, hsound.complete⟩

theorem edits_settleTransfers (hresource : resource ∈ resources)
    (hid : resource.contentId = contentId) (htime : 0 ≤ atUnixMs.toInt) :
    Table.Edits (transferRules resources) transfers
      (settleTransfers contentId resource.byteLength atUnixMs transfers) := by
  refine (Table.Edit.update _ ?_).edits
  intro row _
  by_cases hdownload : isDownloadOf contentId row = true
  · rw [if_pos hdownload]
    simp only [isDownloadOf, Bool.and_eq_true, decide_eq_true_eq] at hdownload
    refine .inr ⟨rfl, resource, hresource, hid.trans hdownload.1.1.symm, ?_⟩
    rw [columns_settle]
    refine .settle atUnixMs ?_
    rw [TransferRow.columns_direction]
    exact hdownload.1.2
  · rw [if_neg hdownload]
    by_cases hwaiting : isWaitingUploadOf contentId row = true
    · rw [if_pos hwaiting]
      simp only [isWaitingUploadOf, Bool.and_eq_true, decide_eq_true_eq] at hwaiting
      refine .inr ⟨rfl, resource, hresource, hid.trans hwaiting.1.1.symm, ?_⟩
      rw [columns_wake hwaiting.2]
      refine .wake atUnixMs ?_ (TransferRow.columns_waitingLocal.mpr hwaiting.2) htime
      rw [TransferRow.columns_direction]
      exact hwaiting.1.2
    · rw [if_neg hwaiting]
      exact .inl rfl

theorem settled_settleTransfers {byteLength : Int64} :
    ∀ row ∈ settleTransfers contentId byteLength atUnixMs transfers, row.contentId = contentId →
      (row.direction = .download → row.columns.state = .complete) ∧
        (row.direction = .upload → row.columns.state ≠ .waitingLocal) := by
  intro row' hrow' hid
  obtain ⟨row, -, rfl⟩ := mem_map.mp hrow'
  rw [TransferRow.columns_complete, ne_eq, TransferRow.columns_waitingLocal]
  by_cases hdownload : isDownloadOf contentId row = true
  · rw [if_pos hdownload]
    exact ⟨fun _ => rfl, nofun⟩
  · rw [if_neg hdownload] at hid ⊢
    by_cases hwaiting : isWaitingUploadOf contentId row = true
    · rw [if_pos hwaiting]
      simp only [isWaitingUploadOf, Bool.and_eq_true, decide_eq_true_eq] at hwaiting
      refine ⟨fun hdirection => ?_, nofun⟩
      rw [hwaiting.1.2] at hdirection
      cases hdirection
    · rw [if_neg hwaiting] at hid ⊢
      simp only [isDownloadOf, isWaitingUploadOf, hid, decide_true, Bool.true_and,
        Bool.and_eq_true, decide_eq_true_eq, Bool.not_eq_true', not_and,
        Bool.not_eq_false] at hdownload hwaiting
      exact ⟨hdownload, hwaiting⟩

-- The bytes of a resource have arrived.
theorem TransfersKept.arrive (h : TransfersKept resources transfers)
    (hresource : resource ∈ resources) (hid : resource.contentId = contentId)
    (htime : 0 ≤ atUnixMs.toInt) :
    TransfersKept (Client.markAvailable contentId atUnixMs resources)
      (settleTransfers contentId resource.byteLength atUnixMs transfers) :=
  (h.edits (edits_settleTransfers hresource hid htime)).markAvailable settled_settleTransfers

end Keeping

section Queues

variable {m : MediaTables} {resources : List ResourceRow} {resource : ResourceRow}
  {contentId : ContentId} {operation : OperationEnvelope}

theorem i64OfU64_nonneg {value : UInt64}
    (h : i64OfU64 value error = .ok result) : 0 ≤ result.toInt := by
  unfold i64OfU64 at h
  split at h
  · rename_i hsmall
    cases h
    rw [Int64.toInt_ofInt_of_le (by omega) (by omega)]
    omega
  · cases h

theorem fresh_uploadTransfer (hresource : resource ∈ resources) (htime : 0 ≤ atUnixMs.toInt) :
    (transferRules resources).fresh (uploadTransfer peerId resource atUnixMs) := by
  refine ⟨resource, hresource, rfl, ?_⟩
  rw [columns_uploadTransfer]
  exact .upload atUnixMs htime

theorem fresh_downloadTransfer (hresource : resource ∈ resources) (htime : 0 ≤ atUnixMs.toInt) :
    (transferRules resources).fresh (downloadTransfer peerId resource atUnixMs) := by
  refine ⟨resource, hresource, rfl, ?_⟩
  rw [columns_downloadTransfer]
  exact .download atUnixMs htime

theorem kept_queueResourceUploads (h : m.Kept) (htime : 0 ≤ atUnixMs.toInt) :
    (queueResourceUploads g p m contentId atUnixMs excluded).Kept := by
  refine h.edits (Table.Edits.insertAllOrIgnore transferClash_iff ?_)
  intro row hrow
  obtain ⟨peer, -, hrow⟩ := mem_flatMap.mp hrow
  obtain ⟨resource, hresource, rfl⟩ := mem_map.mp hrow
  exact fresh_uploadTransfer (mem_of_mem_filter hresource) htime

theorem kept_applyResource (h : m.Kept) (htime : 0 ≤ atUnixMs.toInt)
    (hok : applyResource g p m contentId atUnixMs source = .ok m') : m'.Kept := by
  cases source with
  | ofRemote =>
    cases hok
    exact h
  | ofLocal =>
    cases hok
    exact kept_queueResourceUploads h.expect htime
  | ofPeer peerId =>
    simp only [applyResource, bind_eq_ok, okOr_eq_ok, Except.ok.injEq] at hok
    obtain ⟨resource, hresource, peer, -, rfl⟩ := hok
    refine kept_queueResourceUploads ?_ htime
    split
    · have hfresh : (transferRules m.resources).fresh
          (downloadTransfer peerId resource atUnixMs) :=
        fresh_downloadTransfer (resourceRow?_eq_some hresource).1 htime
      exact h.edits (Table.Edits.insertOrIgnore transferClash_iff hfresh)
    · exact h

theorem kept_applyResourceSource (h : m.Kept) (htime : 0 ≤ atUnixMs.toInt)
    (hok : applyResourceSource g p m operation atUnixMs source = .ok m') : m'.Kept := by
  unfold applyResourceSource at hok
  generalize operation.body.resources = references at hok
  induction references generalizing m with
  | nil =>
    cases hok
    exact h
  | cons resource rest ih =>
    rw [foldlM_cons, bind_eq_ok] at hok
    obtain ⟨next, hnext, hok⟩ := hok
    exact ih (kept_applyResource h htime hnext) hok

theorem kept_insertResources {position : Nat} (h : m.Kept) (htime : 0 ≤ atUnixMs.toInt)
    (hok : insertResources g operation atUnixMs position references m = .ok m') : m'.Kept := by
  induction references generalizing position m with
  | nil =>
    cases hok
    exact h
  | cons reference rest ih =>
    simp only [insertResources, bind_eq_ok] at hok
    obtain ⟨byteLength, hlength, existing, -, -, -, rows, -, hok⟩ := hok
    exact ih (h.insertResource (i64OfU64_nonneg hlength) htime) hok

theorem laterOf_nonneg {left right : Int64} (hleft : 0 ≤ left.toInt) (hright : 0 ≤ right.toInt) :
    0 ≤ (laterOf left right).toInt := by
  unfold laterOf
  split
  · exact hright
  · exact hleft

theorem kept_queueKnownResources (h : m.Kept)
    (htime : 0 ≤ atUnixMs.toInt) : (queueKnownResources m peerId select atUnixMs).Kept := by
  refine h.edits (Table.Edits.insertAllOrIgnore transferClash_iff ?_)
  intro row hrow
  obtain ⟨resource, hresource, rfl⟩ := mem_map.mp hrow
  have hmem := mem_of_mem_filter hresource
  exact fresh_uploadTransfer hmem (laterOf_nonneg (h.discovered resource hmem) htime)

theorem kept_reopenTransfers {select : TransferRow → Bool} (h : m.Kept) (htime : 0 ≤ atUnixMs.toInt)
    (hselect : ∀ row, select row = true → row.direction = .upload) :
    TransfersKept m.resources (m.transfers.map fun row =>
      if select row then reopenTransfer m atUnixMs row else row) := by
  refine h.edits (Table.Edits.updateWhere (fun _ _ _ => rfl) ?_)
  intro row hrow hselected
  obtain ⟨resource, hresource, hid, -⟩ := h.sound row hrow
  refine ⟨resource, hresource, hid, ?_⟩
  have hfound := h.resourceRow?_eq hresource
  rw [hid] at hfound
  have hcolumns : (reopenTransfer m atUnixMs row).columns =
      row.columns.reopen resource.locallyAvailable atUnixMs := by
    unfold reopenTransfer
    rw [hfound]
    unfold TransferRow.columns TransferColumns.reopen
    cases hstate : row.state <;> cases havailable : resource.locallyAvailable <;>
      simp [havailable]
  rw [hcolumns]
  refine .reopen atUnixMs ?_ htime
  rw [TransferRow.columns_direction]
  exact hselect row hselected

end Queues

section Holders

variable {leaseId : ResourceTransferLeaseId}

theorem isHeld_iff : isHeld transfer row = true ↔
    row.key = (transfer.peerId, transfer.contentId, transfer.direction) ∧
      ∃ expires, row.state = .leased transfer.leaseId expires := by
  simp [isHeld, TransferState.isLeasedBy_iff, TransferRow.key, and_assoc]

theorem kept_updateHeld {resources : List ResourceRow} {resource : ResourceRow}
    {update : TransferRow → TransferRow} (h : TransfersKept resources transfers)
    (hresource : resource ∈ resources) (hid : resource.contentId = transfer.contentId)
    (hkey : ∀ row, (update row).key = row.key)
    (hupdate : ∀ row ∈ transfers, row.columns.state = .leased →
      row.columns.direction = transfer.direction →
      TransferUpdate resource row.columns (update row).columns) :
    TransfersKept resources
      (transfers.map fun row => if isHeld transfer row then update row else row) := by
  refine h.edits (Table.Edits.updateWhere (fun row _ _ => hkey row) ?_)
  intro row hrow hheld
  obtain ⟨hnamed, expires, hstate⟩ := isHeld_iff.mp hheld
  obtain ⟨-, hcontent⟩ := Prod.ext_iff.mp hnamed
  obtain ⟨hcontent, hdirection⟩ := Prod.ext_iff.mp hcontent
  refine ⟨resource, hresource, hid.trans hcontent.symm, hupdate row hrow ?_ ?_⟩
  · exact TransferRow.columns_leased.mpr ⟨_, _, hstate⟩
  · rw [TransferRow.columns_direction]
    exact hdirection

-- What is held has its resource.
theorem TransfersKept.held (h : t.media.Kept) (hheld : requireHeld t transfer = .ok u) :
    ∃ resource ∈ t.media.resources, resource.contentId = transfer.contentId := by
  rw [requireHeld, require_eq_ok, any_eq_true] at hheld
  obtain ⟨row, hrow, hheld⟩ := hheld
  obtain ⟨resource, hresource, hid, -⟩ := h.sound row hrow
  obtain ⟨hnamed, -⟩ := isHeld_iff.mp hheld
  exact ⟨resource, hresource, hid.trans (Prod.ext_iff.mp (Prod.ext_iff.mp hnamed).2).1⟩

theorem TransfersKept.progress (h : t.media.Kept) {bytes : UInt64}
    (hok : recordResourceProgress t transfer bytes url = .ok t') : t'.media.Kept := by
  simp only [recordResourceProgress, bind_eq_ok, require_eq_ok, Option.any_eq_true,
    decide_eq_true_eq, Except.ok.injEq] at hok
  obtain ⟨transferred, hbytes, _, -, _, ⟨resource, hfound, hfits⟩, rfl⟩ := hok
  obtain ⟨hresource, hid⟩ := resourceRow?_eq_some hfound
  refine kept_updateHeld h hresource hid (fun _ => rfl) ?_
  intro row _ hleased _
  rw [columns_progress]
  exact .progress _ _ hleased (i64OfU64_nonneg hbytes) hfits

theorem TransfersKept.continue_ (h : t.media.Kept)
    (hok : continueResourceTransfer t transfer atUnixMs = .ok t') : t'.media.Kept := by
  simp only [continueResourceTransfer, requireNonnegative, bind_eq_ok, require_eq_ok,
    decide_eq_true_eq, Except.ok.injEq] at hok
  obtain ⟨_, htime, _, hheld, rfl⟩ := hok
  obtain ⟨resource, hresource, hid⟩ := h.held hheld
  refine kept_updateHeld h hresource hid (fun _ => rfl) ?_
  intro row _ hleased _
  rw [columns_continued]
  exact .continued _ hleased htime

-- The resource is revoked and the upload waits for it.
theorem TransfersKept.wait (h : t.media.Kept) {contentId : ContentId}
    (hok : waitForLocalResource t peerId contentId leaseId atUnixMs error = .ok t') :
    t'.media.Kept := by
  simp only [waitForLocalResource, requireNonnegative, bind_eq_ok, require_eq_ok,
    decide_eq_true_eq, Except.ok.injEq] at hok
  obtain ⟨_, htime, _, -, _, hheld, rfl⟩ := hok
  obtain ⟨resource, hresource, hid⟩ := h.held hheld
  have hrevoked : TransfersKept (t.media.resources.map fun row =>
      if row.contentId = contentId then
        { row with locallyAvailable := false, localExpected := true,
                   localVerifiedAtUnixMs := none }
      else row) t.media.transfers := h.revoke
  refine kept_updateHeld hrevoked (mem_map_of_mem hresource) ?_ (fun _ => rfl) ?_
  · rw [if_pos hid]
    exact hid
  · intro row _ hleased hdirection
    rw [columns_waitLocal hleased, if_pos hid]
    exact .waitLocal _ _ hdirection hleased htime rfl

theorem TransfersKept.finish (h : t.media.Kept)
    (hok : finishResourceTransfer t transfer outcome atUnixMs error = .ok t') :
    t'.media.Kept := by
  simp only [finishResourceTransfer, requireNonnegative, bind_eq_ok, require_eq_ok, okOr_eq_ok,
    decide_eq_true_eq] at hok
  obtain ⟨_, htime, _, -, _, -, resource, hfound, hok⟩ := hok
  obtain ⟨hresource, hid⟩ := resourceRow?_eq_some hfound
  have hfinished : TransfersKept t.media.resources (t.media.transfers.map fun row =>
      if isHeld transfer row then
        { row with state := outcome.state atUnixMs, nextAttemptAtUnixMs := atUnixMs,
                   transferredBytes :=
                    if outcome = .complete then resource.byteLength else row.transferredBytes,
                   lastError := error }
      else row) := by
    refine kept_updateHeld h hresource hid (fun _ => rfl) ?_
    intro row _ hleased _
    rw [columns_finishTransfer]
    exact .finish _ _ _ hleased outcome.status_ends htime
  split at hok
  · cases hok
    exact hfinished.arrive hresource hid htime
  · cases hok
    exact hfinished

theorem TransfersKept.mark (h : t.media.Kept) {descriptor : ContentDescriptor}
    (hok : markResourceLocal t descriptor atUnixMs = .ok t') : t'.media.Kept := by
  simp only [markResourceLocal, requireNonnegative, bind_eq_ok, require_eq_ok,
    Option.any_eq_true, decide_eq_true_eq, Except.ok.injEq] at hok
  obtain ⟨_, htime, byteLength, -, _, ⟨resource, hfound, rfl⟩, rfl⟩ := hok
  obtain ⟨hresource, hid⟩ := resourceRow?_eq_some hfound
  exact h.arrive hresource hid htime

-- The rows of a batch are leased one after the other, each under its own key.
theorem TransfersKept.leases {rows : List TransferRow} (h : t.media.Kept)
    (hrows : ∀ row ∈ rows, row ∈ t.media.transfers ∧
      (row.columns.state = .pending ∨ row.columns.state = .leased))
    (hdistinct : (rows.map TransferRow.key).Nodup)
    (hok : leaseTransfers leaseId expires t rows = .ok (t', items)) : t'.media.Kept := by
  induction rows generalizing t t' items with
  | nil =>
    cases hok
    exact h
  | cons row rest ih =>
    rw [forall_mem_cons] at hrows
    rw [map_cons, nodup_cons] at hdistinct
    simp only [leaseTransfers, bind_eq_ok, Except.ok.injEq, Prod.mk.injEq] at hok
    obtain ⟨⟨next, item⟩, hitem, ⟨last, others⟩, hrest, rfl, -⟩ := hok
    simp only [leaseTransfer, bind_eq_ok, Except.ok.injEq, Prod.mk.injEq] at hitem
    obtain ⟨-, -, -, -, -, -, -, -, rfl, -⟩ := hitem
    obtain ⟨⟨hmem, hdue⟩, hrows⟩ := hrows
    have hkept : TransfersKept t.media.resources (t.media.transfers.map fun other =>
        if transferClash row other then
          { row with state := .leased leaseId expires, attemptCount := row.attemptCount + 1 }
        else other) := by
      refine h.edits (Table.Edits.updateWhere ?_ ?_)
      · intro other hother hclash
        exact (transferClash_iff row other).mp hclash
      · intro other hother hclash
        have hkey := (transferClash_iff row other).mp hclash
        obtain rfl := inj_on_of_nodup_map h.keys hmem hother hkey
        obtain ⟨resource, hresource, hid, -⟩ := h.sound row hmem
        refine ⟨resource, hresource, hid, ?_⟩
        rw [columns_leaseTransfer hdue]
        exact .lease leaseId expires hdue
    refine ih hkept ?_ hdistinct.2 hrest
    intro other hother
    obtain ⟨hstored, hdue⟩ := hrows other hother
    refine ⟨mem_map.mpr ⟨other, hstored, if_neg ?_⟩, hdue⟩
    intro hclash
    have hkey := (transferClash_iff row other).mp hclash
    exact hdistinct.1 (mem_map.mpr ⟨other, hother, hkey.symm⟩)

end Holders

section Runs

variable {now : Int64} {limit : Nat}

theorem Committed.transfersKept {operation : OperationEnvelope} {storedAtUnixMs : Int64}
    (h : t.media.Kept)
    (hcommit : Committed P t operation storedAtUnixMs source t' result) : t'.media.Kept := by
  obtain ⟨media, hmedia, hsource⟩ := hcommit.sources
  have hkept : media.Kept := by
    rcases hmedia with ⟨-, rfl⟩ | ⟨-, hinsert⟩
    · exact h
    · exact kept_insertResources h hcommit.time hinsert
  simp only [applySource, bind_eq_ok, Except.ok.injEq, Prod.mk.injEq] at hsource
  obtain ⟨_, -, _, hresources, -, rfl⟩ := hsource
  exact kept_applyResourceSource hkept hcommit.time hresources

theorem mem_dueTransfers (h : row ∈ dueTransfers t now limit) :
    row ∈ t.media.transfers ∧ (row.columns.state = .pending ∨ row.columns.state = .leased) := by
  obtain ⟨hmem, hselect⟩ :=
    mem_filter.mp (mem_mergeSort.mp (mem_of_mem_take h))
  rw [Bool.and_eq_true] at hselect
  exact ⟨hmem, TransferRow.isDue_state hselect.2⟩

theorem TransfersKept.dueKeys (h : t.media.Kept) :
    ((dueTransfers t now limit).map TransferRow.key).Nodup := by
  have hfilter := h.keys.sublist (filter_sublist (p := fun row : TransferRow =>
    (peer? t.peering row.peerId).any (·.enabled) && row.isDue now) |>.map TransferRow.key)
  have hsorted := ((mergeSort_perm _ transferBefore).map TransferRow.key).nodup_iff.mpr
    hfilter
  exact hsorted.sublist ((take_sublist _ _).map _)

theorem TransfersKept.call (h : t.media.Kept) {call : Call}
    (hstores : call.storesOperations = false) (hrun : call.run P t = .ok t') :
    t'.media.Kept := by
  cases call.effect hstores hrun with
  | configured peers spaces active => exact h
  | queued peers spaces peerId select dueAt choose fallbackAt due fallback =>
    exact kept_queueKnownResources h fallback
  | requeued deliveries transfers peerId spaceId nowUnixMs named =>
    subst named
    simp only [Call.run, Client.requeueUnacknowledgedPeerSpace, requireNonnegative, bind_eq_ok,
      require_eq_ok, decide_eq_true_eq, Except.ok.injEq] at hrun
    obtain ⟨_, htime, -, -, hrun⟩ := hrun
    rw [← hrun]
    refine kept_reopenTransfers (kept_queueKnownResources h htime) htime ?_
    intro row hselect
    simp only [Bool.and_eq_true, decide_eq_true_eq] at hselect
    exact hselect.1.1.2
  | settled deliveries named => exact h
  | moved resources transfers ids named =>
    cases call with
    | markResourceLocal descriptor verifiedAt => exact h.mark hrun
    | leaseDueResources nowUnixMs leaseMs limit leaseId =>
      obtain ⟨items, hrun⟩ := map_fst_eq_ok.mp hrun
      simp only [Client.leaseDueResources, bind_eq_ok] at hrun
      obtain ⟨-, -, -, -, expires, -, hrun⟩ := hrun
      exact h.leases (fun _ hrow => mem_dueTransfers hrow) h.dueKeys hrun
    | recordResourceProgress transfer transferredBytes remoteUploadUrl => exact h.progress hrun
    | finishResourceTransfer transfer outcome atUnixMs error => exact h.finish hrun
    | continueResourceTransfer transfer nextAttemptAt => exact h.continue_ hrun
    | waitForLocalResource peerId contentId leaseId nextCheckAt error => exact h.wait hrun
    | _ => cases named

theorem Reachable.transfersKept (h : Reachable P t) : t.media.Kept := by
  refine Reachable.induction (fun t => t.media.Kept) ?_ ?_ ?_ ?_ ?_ h
  · exact ⟨nodup_nil, forall_mem_nil _, forall_mem_nil _, nodup_nil,
      forall_mem_nil _, forall_mem_nil _⟩
  · intro t t' operation storedAtUnixMs source result _ hkept hcommit
    exact (committed_of_ok hcommit).transfersKept hkept
  · intro t workspaces hkept
    exact hkept
  · intro t spaceId hkept _
    exact hkept
  · intro t t' call _ hkept hstores hrun
    exact hkept.call hstores hrun

end Runs

-- In every reachable state the transfers have their keys, keep the CHECKs and agree
-- with their resources.
theorem transfer_invariants (P : Platform) (t : Tables) (h : Reachable P t) :
    (t.media.transfers.map TransferRow.key).Nodup ∧
      ∀ row ∈ t.media.transfers, row.columns.checks = true ∧
        ∃ resource, resourceRow? t.media row.contentId = some resource ∧
          (row.direction = .upload → row.state = .waitingLocal →
            resource.locallyAvailable = false) ∧
          (resource.locallyAvailable = true → row.direction = .download →
            row.state.isComplete = true) ∧
          0 ≤ row.transferredBytes.toInt ∧
          row.transferredBytes.toInt ≤ resource.byteLength.toInt ∧
          (row.state.isComplete = true → row.transferredBytes = resource.byteLength) := by
  have hkept := h.transfersKept
  refine ⟨hkept.keys, ?_⟩
  intro row hrow
  have hchecks := hkept.checks row hrow
  obtain ⟨resource, hresource, hid, hsound⟩ := hkept.sound row hrow
  have hfound := hkept.resourceRow?_eq hresource
  rw [hid] at hfound
  obtain ⟨hwaiting, hdownload, hfits, hcomplete⟩ := hsound
  rw [TransferRow.columns_direction, TransferRow.columns_waitingLocal] at hwaiting
  rw [TransferRow.columns_direction, TransferRow.columns_complete] at hdownload
  rw [TransferRow.columns_complete] at hcomplete
  rw [TransferRow.columns_transferredBytes] at hfits hcomplete
  have hbytes := (TransferColumns.checks_iff.mp hchecks).2.1
  rw [TransferRow.columns_transferredBytes] at hbytes
  exact ⟨hchecks, resource, hfound, hwaiting, hdownload, hbytes, hfits, hcomplete⟩

namespace Sample

open DataModel.Sample (occurredAtUnixMs)

def content : ContentDescriptor :=
  ⟨⟨.ofNat 0xba7816bf8f01cfea414140de5dae2223b00361a396177a9cb410ff61f20015ad⟩, 3⟩

-- The store after the peer has sent the record, and after its content has been
-- verified.
def fetching : Tables := (Call.commit photo.envelope occurredAtUnixMs
  (.ofPeer peer.peerId)).apply outbox (connected outbox)

def fetched : Tables :=
  (Call.markResourceLocal content occurredAtUnixMs).apply outbox fetching

theorem reachable_fetched : Reachable outbox fetched :=
  (reachable_outbox.call _).call _

def resource : ResourceRow where
  contentId := content.contentId
  byteLength := 3
  mediaType := "text/plain"
  role := "record.media"
  originalName := none
  locallyAvailable := false
  localExpected := false
  discoveredAtUnixMs := occurredAtUnixMs
  localVerifiedAtUnixMs := none

theorem fetching_rows : fetching.graph.operations.length = 2 ∧
    fetching.graph.projections.length = 1 ∧
    refersToSpace fetching DataModel.Sample.spaceId = false ∧
    (fetching.withoutSpace DataModel.Sample.spaceId).media.operationResources = [] ∧
    fetching.media.resources = [resource] ∧ fetching.media.transfers =
      [downloadTransfer peer.peerId resource occurredAtUnixMs] := by
  have hverified := outbox_verified photo.envelope (by simp)
  have habsent : loadOperationRow outbox (connected outbox).graph photo.envelope.operationId =
      .ok none :=
    loadOperationRow_eq_none.mpr (forall_mem_singleton.mpr (by decide))
  have hgenesis := outbox_verified _ mem_cons_self
  have hreferences : validateReferences outbox (connected outbox).graph photo.envelope =
      .ok () := by
    apply validateReferences_of_loaded (forall_mem_nil _)
    exact forall_mem_singleton.mpr ⟨_, loadOperationRow_stored (a := genesis) hgenesis
      (outbox_reads _ hgenesis) Nat.one_pos rfl⟩
  rw [fetching, Call.apply, Call.run, commitTransaction, hverified, habsent, insertOperation,
    hreferences]
  exact ⟨rfl, rfl, by decide, rfl, rfl, rfl⟩

theorem fetched_transfers : fetched.media.transfers =
    [{ downloadTransfer peer.peerId resource occurredAtUnixMs with
      state := .complete occurredAtUnixMs, transferredBytes := 3 }] := by
  obtain ⟨-, -, -, -, hresources, htransfers⟩ := fetching_rows
  have hfound : resourceRow? fetching.media content.contentId = some resource := by
    rw [resourceRow?, hresources]
    rfl
  have hmark : markResourceLocal fetching content occurredAtUnixMs =
      .ok { fetching with
        media := { fetching.media with
          resources := markAvailable content.contentId occurredAtUnixMs
            fetching.media.resources
          transfers := settleTransfers content.contentId 3 occurredAtUnixMs
            fetching.media.transfers } } := by
    simp only [markResourceLocal, requireNonnegative, bind_eq_ok, require_eq_ok, hfound]
    exact ⟨(), rfl, 3, rfl, (), rfl, rfl⟩
  have hfetched : (Call.markResourceLocal content occurredAtUnixMs).apply outbox
      fetching = _ := Call.apply_of_run hmark
  unfold fetched
  rw [hfetched]
  simp only [htransfers]
  rfl

end Sample

open Sample (fetched outbox)

-- The download of the record's content is complete with its three bytes.
theorem transfer_invariants_fetched : Reachable outbox fetched ∧
    ∃ row ∈ fetched.media.transfers, row.direction = .download ∧
      row.columns.checks = true ∧
      ∃ resource, resourceRow? fetched.media row.contentId = some resource ∧
        row.transferredBytes = resource.byteLength := by
  obtain ⟨-, hrows⟩ := transfer_invariants outbox fetched Sample.reachable_fetched
  have hrow := mem_cons_self (l := []) (a := { downloadTransfer Sample.peer.peerId
    Sample.resource DataModel.Sample.occurredAtUnixMs with
      state := .complete DataModel.Sample.occurredAtUnixMs, transferredBytes := 3 })
  rw [← Sample.fetched_transfers] at hrow
  obtain ⟨hchecks, resource, hfound, -, -, -, -, hcomplete⟩ := hrows _ hrow
  exact ⟨Sample.reachable_fetched, _, hrow, rfl, hchecks, resource, hfound, hcomplete rfl⟩

end Fractonica.Client
