import Fractonica.Client.Deliveries
import Fractonica.Lib.Table.Edits

namespace Fractonica.Client

open Lib Trust Content

-- The values of the column `state`.
inductive DeliveryStatus where
  | pending
  | leased
  | acknowledged
  | rejected
deriving DecidableEq

-- A row as the table has it, with every column that may be null.
structure DeliveryColumns where
  state : DeliveryStatus
  attemptCount : Nat
  nextAttemptAtUnixMs : Int64
  leaseId : Option DeliveryLeaseId
  leaseExpiresAtUnixMs : Option Int64
  acknowledgedAtUnixMs : Option Int64
  lastError : Option String
deriving DecidableEq

namespace DeliveryColumns

-- The CHECKs of the table.
def checks (c : DeliveryColumns) : Bool :=
  0 ≤ c.nextAttemptAtUnixMs.toInt &&
    decide (c.state = .leased) == c.leaseId.isSome &&
    decide (c.state = .leased) == c.leaseExpiresAtUnixMs.isSome &&
    decide (c.state = .acknowledged) == c.acknowledgedAtUnixMs.isSome

-- The SET clauses of the statements. A column that a statement does not name
-- keeps its value.
def lease (leaseId : DeliveryLeaseId) (expiresAtUnixMs : Int64) (c : DeliveryColumns) :
    DeliveryColumns :=
  { c with state := .leased, attemptCount := c.attemptCount + 1, leaseId := some leaseId,
           leaseExpiresAtUnixMs := some expiresAtUnixMs }

def finish (state : DeliveryStatus) (atUnixMs : Int64) (error : Option String)
    (c : DeliveryColumns) : DeliveryColumns :=
  { c with state, nextAttemptAtUnixMs := atUnixMs, leaseId := none, leaseExpiresAtUnixMs := none,
           acknowledgedAtUnixMs := if state = .acknowledged then some atUnixMs else none,
           lastError := error }

def release (c : DeliveryColumns) : DeliveryColumns :=
  { c with state := .pending, leaseId := none, leaseExpiresAtUnixMs := none }

def recordSource (atUnixMs : Int64) (c : DeliveryColumns) : DeliveryColumns :=
  { c with state := .acknowledged, leaseId := none, leaseExpiresAtUnixMs := none,
           acknowledgedAtUnixMs := some atUnixMs, lastError := none }

def reopen (atUnixMs : Int64) : DeliveryColumns :=
  { state := .pending, attemptCount := 0, nextAttemptAtUnixMs := atUnixMs, leaseId := none,
    leaseExpiresAtUnixMs := none, acknowledgedAtUnixMs := none, lastError := none }

-- The rows of the INSERTs.
def queued (atUnixMs : Int64) : DeliveryColumns :=
  { state := .pending, attemptCount := 0, nextAttemptAtUnixMs := atUnixMs, leaseId := none,
    leaseExpiresAtUnixMs := none, acknowledgedAtUnixMs := none, lastError := none }

def received (atUnixMs : Int64) : DeliveryColumns :=
  { state := .acknowledged, attemptCount := 0, nextAttemptAtUnixMs := atUnixMs, leaseId := none,
    leaseExpiresAtUnixMs := none, acknowledgedAtUnixMs := some atUnixMs, lastError := none }

end DeliveryColumns

-- The statements that change a row, with what their WHERE clauses and the checks
-- before them say about it.
inductive DeliveryUpdate : DeliveryColumns → DeliveryColumns → Prop
  | lease {c : DeliveryColumns} (leaseId : DeliveryLeaseId) (expiresAtUnixMs : Int64)
      (due : c.state = .pending ∨ c.state = .leased) :
      DeliveryUpdate c (c.lease leaseId expiresAtUnixMs)
  | finish {c : DeliveryColumns} (state : DeliveryStatus) (atUnixMs : Int64)
      (error : Option String) (held : c.state = .leased) (ends : state ≠ .leased)
      (time : 0 ≤ atUnixMs.toInt) : DeliveryUpdate c (c.finish state atUnixMs error)
  | release {c : DeliveryColumns} (held : c.state = .leased) : DeliveryUpdate c c.release
  | recordSource {c : DeliveryColumns} (atUnixMs : Int64) :
      DeliveryUpdate c (c.recordSource atUnixMs)
  | reopen {c : DeliveryColumns} (atUnixMs : Int64) (unacknowledged : c.state ≠ .acknowledged)
      (time : 0 ≤ atUnixMs.toInt) : DeliveryUpdate c (.reopen atUnixMs)

inductive DeliveryInsert : DeliveryColumns → Prop
  | queued (atUnixMs : Int64) (time : 0 ≤ atUnixMs.toInt) : DeliveryInsert (.queued atUnixMs)
  | received (atUnixMs : Int64) (time : 0 ≤ atUnixMs.toInt) : DeliveryInsert (.received atUnixMs)

-- The columns that a state of the model stands for.
def DeliveryRow.columns (row : DeliveryRow) : DeliveryColumns :=
  let columns := fun state leaseId expires acknowledged => DeliveryColumns.mk state
    row.attemptCount row.nextAttemptAtUnixMs leaseId expires acknowledged row.lastError
  match row.state with
  | .pending => columns .pending none none none
  | .leased leaseId expires => columns .leased (some leaseId) (some expires) none
  | .acknowledged atUnixMs => columns .acknowledged none none (some atUnixMs)
  | .rejected => columns .rejected none none none

abbrev DeliveryRow.key (row : DeliveryRow) : NodeId × OperationId :=
  (row.peerId, row.operationId)

def DeliveryOutcome.status : DeliveryOutcome → DeliveryStatus
  | .acknowledged => .acknowledged
  | .pending => .pending
  | .rejected => .rejected

-- The statements on the deliveries of the operations of `g`.
def deliveryRules (g : GraphTables) : Table.Rules DeliveryRow (NodeId × OperationId) where
  key := DeliveryRow.key
  change row row' := DeliveryUpdate row.columns row'.columns
  fresh row := DeliveryInsert row.columns ∧ hasOperation g.operations row.operationId = true

section Columns

variable {row : DeliveryRow}

theorem DeliveryInsert.checks (h : DeliveryInsert c) : c.checks = true := by
  cases h with
  | queued atUnixMs time => simp [DeliveryColumns.checks, DeliveryColumns.queued, time]
  | received atUnixMs time => simp [DeliveryColumns.checks, DeliveryColumns.received, time]

-- Every statement keeps the CHECKs. A lease relies on the row not being
-- acknowledged, as it leaves that column alone.
theorem DeliveryUpdate.checks (h : DeliveryUpdate c c') (hchecks : c.checks = true) :
    c'.checks = true := by
  simp only [DeliveryColumns.checks, Bool.and_eq_true, beq_iff_eq, decide_eq_true_eq] at hchecks ⊢
  obtain ⟨⟨⟨htime, hlease⟩, hexpires⟩, hacknowledged⟩ := hchecks
  cases h with
  | lease leaseId expiresAtUnixMs due =>
    have hopen : c.state ≠ .acknowledged := by
      rcases due with hstate | hstate <;> simp [hstate]
    rw [decide_eq_false hopen] at hacknowledged
    exact ⟨⟨⟨htime, rfl⟩, rfl⟩, hacknowledged⟩
  | finish state atUnixMs error held ends time =>
    refine ⟨⟨⟨time, ?_⟩, ?_⟩, ?_⟩
    · exact decide_eq_false ends
    · exact decide_eq_false ends
    · by_cases hstate : state = .acknowledged
      · simp [DeliveryColumns.finish, hstate]
      · simp [DeliveryColumns.finish, hstate]
  | release held =>
    rw [held] at hacknowledged
    exact ⟨⟨⟨htime, rfl⟩, rfl⟩, hacknowledged⟩
  | recordSource atUnixMs => exact ⟨⟨⟨htime, rfl⟩, rfl⟩, rfl⟩
  | reopen atUnixMs unacknowledged time => exact ⟨⟨⟨time, rfl⟩, rfl⟩, rfl⟩

theorem DeliveryUpdate.acknowledged (h : DeliveryUpdate c c') (hstate : c.state = .acknowledged) :
    c'.state = .acknowledged := by
  cases h with
  | lease leaseId expiresAtUnixMs due =>
    rw [hstate] at due
    rcases due with hother | hother <;> cases hother
  | finish state atUnixMs error held ends time =>
    rw [hstate] at held
    cases held
  | release held =>
    rw [hstate] at held
    cases held
  | recordSource atUnixMs => rfl
  | reopen atUnixMs unacknowledged time => exact absurd hstate unacknowledged

theorem DeliveryRow.columns_acknowledged :
    row.columns.state = .acknowledged ↔ row.state.isAcknowledged = true := by
  unfold DeliveryRow.columns DeliveryState.isAcknowledged
  cases row.state <;> simp

theorem DeliveryRow.columns_leased :
    row.columns.state = .leased ↔ ∃ leaseId expires, row.state = .leased leaseId expires := by
  unfold DeliveryRow.columns
  cases row.state <;> simp

theorem columns_leaseRow {leaseId : DeliveryLeaseId}
    (h : row.columns.state = .pending ∨ row.columns.state = .leased) :
    (leaseRow leaseId expires row).columns = row.columns.lease leaseId expires := by
  unfold DeliveryRow.columns at h ⊢
  unfold leaseRow
  cases hstate : row.state <;> simp_all [DeliveryColumns.lease]

theorem columns_finish {outcome : DeliveryOutcome} :
    { row with state := outcome.state atUnixMs, nextAttemptAtUnixMs := atUnixMs,
               lastError := error }.columns =
      row.columns.finish outcome.status atUnixMs error := by
  unfold DeliveryRow.columns
  cases row.state <;> cases outcome <;> rfl

theorem columns_release (h : row.columns.state = .leased) :
    { row with state := .pending }.columns = row.columns.release := by
  unfold DeliveryRow.columns at h ⊢
  cases hstate : row.state <;> simp_all [DeliveryColumns.release]

theorem columns_recordSource :
    { row with state := .acknowledged atUnixMs, lastError := none }.columns =
      row.columns.recordSource atUnixMs := by
  unfold DeliveryRow.columns
  cases row.state <;> rfl

theorem DeliveryOutcome.status_ne_leased (outcome : DeliveryOutcome) :
    outcome.status ≠ .leased := by
  cases outcome <;> simp [DeliveryOutcome.status]

end Columns

end Fractonica.Client
