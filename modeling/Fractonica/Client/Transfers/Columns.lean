import Fractonica.Client.Transfers
import Fractonica.Lib.Table.Edits

namespace Fractonica.Client

open Lib Trust Content

-- The values of the column `state`.
inductive TransferStatus where
  | waitingLocal
  | pending
  | leased
  | complete
  | rejected
deriving DecidableEq

-- A row as the table has it, with every column that may be null.
structure TransferColumns where
  direction : ResourceTransferDirection
  state : TransferStatus
  attemptCount : Nat
  nextAttemptAtUnixMs : Int64
  leaseId : Option ResourceTransferLeaseId
  leaseExpiresAtUnixMs : Option Int64
  remoteUploadUrl : Option String
  transferredBytes : Int64
  completedAtUnixMs : Option Int64
  lastError : Option String
deriving DecidableEq

namespace TransferColumns

-- The CHECKs of the table.
def checks (c : TransferColumns) : Bool :=
  0 ≤ c.nextAttemptAtUnixMs.toInt && 0 ≤ c.transferredBytes.toInt &&
    decide (c.state = .leased) == c.leaseId.isSome &&
    decide (c.state = .leased) == c.leaseExpiresAtUnixMs.isSome &&
    decide (c.state = .complete) == c.completedAtUnixMs.isSome &&
    (c.direction = .upload || c.remoteUploadUrl.isNone) &&
    (c.direction = .upload || c.state ≠ .waitingLocal)

-- The SET clauses of the statements. A column that a statement does not name
-- keeps its value.
def lease (leaseId : ResourceTransferLeaseId) (expiresAtUnixMs : Int64) (c : TransferColumns) :
    TransferColumns :=
  { c with state := .leased, attemptCount := c.attemptCount + 1, leaseId := some leaseId,
           leaseExpiresAtUnixMs := some expiresAtUnixMs }

def progress (transferredBytes : Int64) (remoteUploadUrl : Option String) (c : TransferColumns) :
    TransferColumns :=
  { c with transferredBytes
           remoteUploadUrl := if c.direction = .upload then remoteUploadUrl else none }

def continued (atUnixMs : Int64) (c : TransferColumns) : TransferColumns :=
  { c with state := .pending, attemptCount := 0, nextAttemptAtUnixMs := atUnixMs,
           leaseId := none, leaseExpiresAtUnixMs := none, completedAtUnixMs := none,
           lastError := none }

def waitLocal (atUnixMs : Int64) (error : String) (c : TransferColumns) : TransferColumns :=
  { c with state := .waitingLocal, nextAttemptAtUnixMs := atUnixMs, leaseId := none,
           leaseExpiresAtUnixMs := none, lastError := some error }

def finish (state : TransferStatus) (byteLength atUnixMs : Int64) (error : Option String)
    (c : TransferColumns) : TransferColumns :=
  { c with state, nextAttemptAtUnixMs := atUnixMs, leaseId := none, leaseExpiresAtUnixMs := none,
           transferredBytes := if state = .complete then byteLength else c.transferredBytes,
           completedAtUnixMs := if state = .complete then some atUnixMs else none,
           lastError := error }

def settle (byteLength atUnixMs : Int64) (c : TransferColumns) : TransferColumns :=
  { c with state := .complete, transferredBytes := byteLength, completedAtUnixMs := some atUnixMs,
           leaseId := none, leaseExpiresAtUnixMs := none, lastError := none }

def wake (atUnixMs : Int64) (c : TransferColumns) : TransferColumns :=
  { c with state := .pending, nextAttemptAtUnixMs := atUnixMs, lastError := none }

def reopen (locallyAvailable : Bool) (atUnixMs : Int64) (c : TransferColumns) : TransferColumns :=
  { c with state := if locallyAvailable then .pending else .waitingLocal, attemptCount := 0,
           nextAttemptAtUnixMs := atUnixMs, leaseId := none, leaseExpiresAtUnixMs := none,
           remoteUploadUrl := none, transferredBytes := 0, completedAtUnixMs := none,
           lastError := none }

-- The rows of the INSERTs.
def queuedUpload (locallyAvailable : Bool) (atUnixMs : Int64) : TransferColumns :=
  { direction := .upload, state := if locallyAvailable then .pending else .waitingLocal,
    attemptCount := 0, nextAttemptAtUnixMs := atUnixMs, leaseId := none,
    leaseExpiresAtUnixMs := none, remoteUploadUrl := none, transferredBytes := 0,
    completedAtUnixMs := none, lastError := none }

def queuedDownload (locallyAvailable : Bool) (byteLength atUnixMs : Int64) : TransferColumns :=
  { direction := .download, state := if locallyAvailable then .complete else .pending,
    attemptCount := 0, nextAttemptAtUnixMs := atUnixMs, leaseId := none,
    leaseExpiresAtUnixMs := none, remoteUploadUrl := none,
    transferredBytes := if locallyAvailable then byteLength else 0,
    completedAtUnixMs := if locallyAvailable then some atUnixMs else none, lastError := none }

end TransferColumns

-- The statements that change a row of the given resource, with what their WHERE
-- clauses and the checks before them say about it.
inductive TransferUpdate (resource : ResourceRow) : TransferColumns → TransferColumns → Prop
  | lease {c : TransferColumns} (leaseId : ResourceTransferLeaseId) (expiresAtUnixMs : Int64)
      (due : c.state = .pending ∨ c.state = .leased) :
      TransferUpdate resource c (c.lease leaseId expiresAtUnixMs)
  | progress {c : TransferColumns} (transferredBytes : Int64) (remoteUploadUrl : Option String)
      (held : c.state = .leased) (nonnegative : 0 ≤ transferredBytes.toInt)
      (fits : transferredBytes.toInt ≤ resource.byteLength.toInt) :
      TransferUpdate resource c (c.progress transferredBytes remoteUploadUrl)
  | continued {c : TransferColumns} (atUnixMs : Int64) (held : c.state = .leased)
      (time : 0 ≤ atUnixMs.toInt) : TransferUpdate resource c (c.continued atUnixMs)
  | waitLocal {c : TransferColumns} (atUnixMs : Int64) (error : String)
      (upload : c.direction = .upload) (held : c.state = .leased) (time : 0 ≤ atUnixMs.toInt)
      (absent : resource.locallyAvailable = false) :
      TransferUpdate resource c (c.waitLocal atUnixMs error)
  | finish {c : TransferColumns} (state : TransferStatus) (atUnixMs : Int64)
      (error : Option String) (held : c.state = .leased)
      (ends : state = .complete ∨ state = .pending ∨ state = .rejected)
      (time : 0 ≤ atUnixMs.toInt) :
      TransferUpdate resource c (c.finish state resource.byteLength atUnixMs error)
  | settle {c : TransferColumns} (atUnixMs : Int64) (download : c.direction = .download) :
      TransferUpdate resource c (c.settle resource.byteLength atUnixMs)
  | wake {c : TransferColumns} (atUnixMs : Int64) (upload : c.direction = .upload)
      (waiting : c.state = .waitingLocal) (time : 0 ≤ atUnixMs.toInt) :
      TransferUpdate resource c (c.wake atUnixMs)
  | reopen {c : TransferColumns} (atUnixMs : Int64) (upload : c.direction = .upload)
      (time : 0 ≤ atUnixMs.toInt) :
      TransferUpdate resource c (c.reopen resource.locallyAvailable atUnixMs)

inductive TransferInsert (resource : ResourceRow) : TransferColumns → Prop
  | upload (atUnixMs : Int64) (time : 0 ≤ atUnixMs.toInt) :
      TransferInsert resource (.queuedUpload resource.locallyAvailable atUnixMs)
  | download (atUnixMs : Int64) (time : 0 ≤ atUnixMs.toInt) :
      TransferInsert resource
        (.queuedDownload resource.locallyAvailable resource.byteLength atUnixMs)

-- The columns that a state of the model stands for.
def TransferRow.columns (row : TransferRow) : TransferColumns :=
  let columns := fun state leaseId expires completed => TransferColumns.mk row.direction state
    row.attemptCount row.nextAttemptAtUnixMs leaseId expires row.remoteUploadUrl
    row.transferredBytes completed row.lastError
  match row.state with
  | .waitingLocal => columns .waitingLocal none none none
  | .pending => columns .pending none none none
  | .leased leaseId expires => columns .leased (some leaseId) (some expires) none
  | .complete atUnixMs => columns .complete none none (some atUnixMs)
  | .rejected => columns .rejected none none none

abbrev TransferRow.key (row : TransferRow) : NodeId × ContentId × ResourceTransferDirection :=
  (row.peerId, row.contentId, row.direction)

def TransferOutcome.status : TransferOutcome → TransferStatus
  | .complete => .complete
  | .pending => .pending
  | .rejected => .rejected

-- How a transfer stands to its resource.
structure TransferColumns.Sound (resource : ResourceRow) (c : TransferColumns) : Prop where
  waiting : c.direction = .upload → c.state = .waitingLocal → resource.locallyAvailable = false
  download : resource.locallyAvailable = true → c.direction = .download → c.state = .complete
  fits : c.transferredBytes.toInt ≤ resource.byteLength.toInt
  complete : c.state = .complete → c.transferredBytes = resource.byteLength

-- The statements on the transfers of the given resources.
def transferRules (resources : List ResourceRow) :
    Table.Rules TransferRow (NodeId × ContentId × ResourceTransferDirection) where
  key := TransferRow.key
  change row row' := ∃ resource ∈ resources, resource.contentId = row.contentId ∧
    TransferUpdate resource row.columns row'.columns
  fresh row := ∃ resource ∈ resources, resource.contentId = row.contentId ∧
    TransferInsert resource row.columns

section Columns

variable {resource : ResourceRow} {c : TransferColumns} {row : TransferRow}

theorem TransferColumns.checks_iff : c.checks = true ↔
    0 ≤ c.nextAttemptAtUnixMs.toInt ∧ 0 ≤ c.transferredBytes.toInt ∧
      decide (c.state = .leased) = c.leaseId.isSome ∧
      decide (c.state = .leased) = c.leaseExpiresAtUnixMs.isSome ∧
      decide (c.state = .complete) = c.completedAtUnixMs.isSome ∧
      (c.direction = .upload ∨ c.remoteUploadUrl = none) ∧
      (c.direction = .upload ∨ c.state ≠ .waitingLocal) := by
  simp [TransferColumns.checks, and_assoc]

theorem TransferInsert.checks (h : TransferInsert resource c)
    (hsize : 0 ≤ resource.byteLength.toInt) : c.checks = true := by
  cases h with
  | upload atUnixMs time =>
    cases resource.locallyAvailable <;>
      simp [TransferColumns.checks, TransferColumns.queuedUpload, time]
  | download atUnixMs time =>
    cases resource.locallyAvailable <;>
      simp [TransferColumns.checks, TransferColumns.queuedDownload, time, hsize]

theorem TransferInsert.sound (h : TransferInsert resource c)
    (hsize : 0 ≤ resource.byteLength.toInt) : c.Sound resource := by
  cases h with
  | upload atUnixMs time =>
    refine ⟨?_, nofun, hsize, ?_⟩
    · intro _ hwaiting
      by_contra havailable
      simp [TransferColumns.queuedUpload, havailable] at hwaiting
    · intro hcomplete
      cases havailable : resource.locallyAvailable <;>
        simp [TransferColumns.queuedUpload, havailable] at hcomplete
  | download atUnixMs time =>
    refine ⟨nofun, ?_, ?_, ?_⟩
    · intro havailable _
      simp [TransferColumns.queuedDownload, havailable]
    · cases havailable : resource.locallyAvailable
      · exact hsize
      · exact Int.le_refl _
    · intro hcomplete
      cases havailable : resource.locallyAvailable <;>
        simp [TransferColumns.queuedDownload, havailable] at hcomplete ⊢

-- Every statement keeps the CHECKs.
theorem TransferUpdate.checks (h : TransferUpdate resource c c')
    (hsize : 0 ≤ resource.byteLength.toInt) (hchecks : c.checks = true) : c'.checks = true := by
  rw [TransferColumns.checks_iff] at hchecks ⊢
  obtain ⟨htime, hbytes, hlease, hexpires, hcompleted, hurl, hwaiting⟩ := hchecks
  cases h with
  | lease leaseId expiresAtUnixMs due =>
    have hopen : c.state ≠ .complete := by
      rcases due with hstate | hstate <;> simp [hstate]
    rw [decide_eq_false hopen] at hcompleted
    exact ⟨htime, hbytes, rfl, rfl, hcompleted, hurl, .inr (by simp [TransferColumns.lease])⟩
  | progress transferredBytes remoteUploadUrl held nonnegative fits =>
    refine ⟨htime, nonnegative, hlease, hexpires, hcompleted, ?_, hwaiting⟩
    by_cases hupload : c.direction = .upload
    · exact .inl hupload
    · exact .inr (if_neg hupload)
  | continued atUnixMs held time =>
    exact ⟨time, hbytes, rfl, rfl, rfl, hurl, .inr (by simp [TransferColumns.continued])⟩
  | waitLocal atUnixMs error upload held time absent =>
    rw [held] at hcompleted
    exact ⟨time, hbytes, rfl, rfl, hcompleted, hurl, .inl upload⟩
  | finish state atUnixMs error held ends time =>
    rcases ends with rfl | rfl | rfl
    · exact ⟨time, hsize, rfl, rfl, rfl, hurl, .inr (by simp [TransferColumns.finish])⟩
    · exact ⟨time, hbytes, rfl, rfl, rfl, hurl, .inr (by simp [TransferColumns.finish])⟩
    · exact ⟨time, hbytes, rfl, rfl, rfl, hurl, .inr (by simp [TransferColumns.finish])⟩
  | settle atUnixMs download =>
    exact ⟨htime, hsize, rfl, rfl, rfl, hurl, .inr (by simp [TransferColumns.settle])⟩
  | wake atUnixMs upload waiting time =>
    rw [waiting] at hlease hexpires hcompleted
    exact ⟨time, hbytes, hlease, hexpires, hcompleted, hurl, .inl upload⟩
  | reopen atUnixMs upload time =>
    refine ⟨time, Int.le_refl _, ?_, ?_, ?_, .inl upload, .inl upload⟩ <;>
      cases resource.locallyAvailable <;> rfl

-- Every statement keeps the row sound for its resource.
theorem TransferUpdate.sound (h : TransferUpdate resource c c')
    (hsize : 0 ≤ resource.byteLength.toInt) (hsound : c.Sound resource) : c'.Sound resource := by
  -- A download of what is here is complete, so it is not held.
  have habsent : c.state ≠ .complete → ∀ {state : TransferStatus},
      resource.locallyAvailable = true → c.direction = .download → state = .complete :=
    fun hopen _ havailable hdownload => absurd (hsound.download havailable hdownload) hopen
  cases h with
  | lease leaseId expiresAtUnixMs due =>
    have hopen : c.state ≠ .complete := by
      rcases due with hstate | hstate <;> simp [hstate]
    exact ⟨nofun, habsent hopen, hsound.fits, nofun⟩
  | progress transferredBytes remoteUploadUrl held nonnegative fits =>
    exact ⟨hsound.waiting, hsound.download, fits, fun hcomplete =>
      nomatch held.symm.trans hcomplete⟩
  | continued atUnixMs held time =>
    exact ⟨nofun, habsent (by simp [held]), hsound.fits, nofun⟩
  | waitLocal atUnixMs error upload held time absent =>
    exact ⟨fun _ _ => absent, fun havailable => (nomatch absent.symm.trans havailable),
      hsound.fits, nofun⟩
  | finish state atUnixMs error held ends time =>
    rcases ends with rfl | rfl | rfl
    · exact ⟨nofun, fun _ _ => rfl, Int.le_refl _, fun _ => rfl⟩
    · exact ⟨nofun, habsent (by simp [held]), hsound.fits, nofun⟩
    · exact ⟨nofun, habsent (by simp [held]), hsound.fits, nofun⟩
  | settle atUnixMs download => exact ⟨nofun, fun _ _ => rfl, Int.le_refl _, fun _ => rfl⟩
  | wake atUnixMs upload waiting time =>
    exact ⟨nofun, fun _ hdownload => (nomatch upload.symm.trans hdownload), hsound.fits, nofun⟩
  | reopen atUnixMs upload time =>
    refine ⟨?_, fun _ hdownload => (nomatch upload.symm.trans hdownload), hsize, ?_⟩
    · intro _ hwaiting
      by_contra havailable
      simp [TransferColumns.reopen, havailable] at hwaiting
    · intro hcomplete
      cases havailable : resource.locallyAvailable <;>
        simp [TransferColumns.reopen, havailable] at hcomplete

end Columns

end Fractonica.Client
