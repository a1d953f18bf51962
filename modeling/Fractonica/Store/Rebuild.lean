import Fractonica.Store.Completeness

namespace Fractonica.Store

open Lib Trust DataModel List

section Rebuilding

variable (P : Platform)

-- The operations of the client schemas are counted.
def rebuildProjection (state : Tables × Nat) (operation : OperationEnvelope) :
    Except RepositoryError (Tables × Nat) := do
  let t ← insertClientProjection P state.1 operation
  if operation.schema.isClient then do
    require (state.2 + 1 < 2 ^ 64) (.corruption "client projection count overflow")
    .ok (t, state.2 + 1)
  else .ok (t, state.2)

def rebuildTransaction (t : Tables) : Except RepositoryError (Tables × Nat) := do
  let rows := t.operations.mergeSort fun left right => left.localSequence ≤ right.localSequence
  let stored ← rows.mapM fun row => liftCorrupt (decodeStoredValues P row)
  (stored.map (·.operation)).foldlM (rebuildProjection P)
    ({ t with clientOperationProjections := [] }, 0)

-- A failed rebuild is rolled back.
def rebuildClientProjections (db : Database) : Database × Except RepositoryError Nat :=
  match rebuildTransaction P db.tables with
  | .error error => (db, .error error)
  | .ok (tables, rebuilt) => ({ db with tables }, .ok rebuilt)

end Rebuilding

variable {P : Platform} {t : Tables} {log : Log}

def Log.clients (log : Log) : Log := log.filter fun a => a.operation.schema.isClient

theorem Coherent.sorted_rows (h : Coherent P t log) :
    t.operations.mergeSort (fun left right => left.localSequence ≤ right.localSequence) =
      log.map (storedRow P) := by
  rw [h.represents.operations]
  apply mergeSort_of_pairwise
  rw [pairwise_map]
  exact h.causal.sequences.imp fun hlt => decide_eq_true (Nat.le_of_lt hlt)

theorem rebuildProjection_ok {state : Tables × Nat} {operation : OperationEnvelope}
    (h : rebuildProjection P state operation = .ok state') :
    state'.1 = { state.1 with
      clientOperationProjections := state.1.clientOperationProjections ++
        projectionRows P operation state.1.clientEntityVisibility } := by
  rw [rebuildProjection, bind_eq_ok] at h
  obtain ⟨next, hnext, h⟩ := h
  obtain ⟨-, -, rfl⟩ := insertClientProjection_eq_ok.mp hnext
  split_ifs at h
  · rw [bind_eq_ok] at h
    obtain ⟨-, -, h⟩ := h
    cases h
    rfl
  · cases h
    rfl

-- Every operation adds the row that the visibility at the end gives it.
theorem rebuildProjections_ok {operations : List OperationEnvelope} {state : Tables × Nat}
    (h : operations.foldlM (rebuildProjection P) state = .ok state') :
    state'.1 = { state.1 with
      clientOperationProjections := state.1.clientOperationProjections ++
        operations.flatMap fun operation =>
          projectionRows P operation state.1.clientEntityVisibility } := by
  induction operations generalizing state with
  | nil =>
    cases h
    simp
  | cons operation rest ih =>
    rw [foldlM_cons, bind_eq_ok] at h
    obtain ⟨next, hnext, hrest⟩ := h
    rw [ih hrest, rebuildProjection_ok hnext]
    simp

theorem Coherent.rebuildTransaction_sound (h : Coherent P t log)
    (hok : rebuildTransaction P t = .ok (t', rebuilt)) : t' = t := by
  rw [rebuildTransaction, h.sorted_rows, bind_eq_ok] at hok
  obtain ⟨stored, hstored, hfold⟩ := hok
  obtain rfl := decodeRows_sound h.causal.verified hstored
  calc t' = { t with clientOperationProjections := [] ++
        (stored.map (·.operation)).flatMap fun operation =>
          projectionRows P operation t.clientEntityVisibility } := rebuildProjections_ok hfold
    _ = t := by rw [nil_append, flatMap_map, ← h.represents.projections]

-- The tables and the count after a front of the log.
def Log.rebuilt (P : Platform) (t : Tables) (front : Log) : Tables × Nat :=
  ({ t with clientOperationProjections :=
      front.flatMap fun a => projectionRows P a.operation t.clientEntityVisibility },
    front.clients.length)

theorem Coherent.length_lt (h : Coherent P t log) : log.length < 2 ^ 63 := by
  have hnodup : (log.map (·.localSequence)).Nodup :=
    pairwise_map.mpr (h.causal.sequences.imp fun hlt => Nat.ne_of_lt hlt)
  have hsubset : log.map (·.localSequence) ⊆ List.range' 1 t.lastSequence := by
    intro sequence hsequence
    obtain ⟨a, ha, rfl⟩ := mem_map.mp hsequence
    obtain ⟨hlow, hhigh⟩ := h.numbered a ha
    rw [mem_range'_1]
    omega
  have hle := (hnodup.subperm hsubset).length_le
  rw [length_map, length_range'] at hle
  have hroom := h.room
  omega

theorem Coherent.rebuildProjection_front (hjson : P.AcceptsJson) (h : Coherent P t log) {back : Log}
    (hsplit : log = front ++ a :: back) :
    rebuildProjection P (front.rebuilt P t) a.operation = .ok (Log.rebuilt P t (front ++ [a])) := by
  have ha : a ∈ log := by simp [hsplit]
  have hrow : storedRow P a ∈ t.operations := h.represents.mem_operations.mpr ⟨a, ha, rfl⟩
  have hfresh : ∀ b ∈ front, b.key ≠ a.key := by
    have hkeys := h.causal.keys
    rw [hsplit, map_append, nodup_append] at hkeys
    intro b hb
    exact hkeys.2.2 _ (mem_map_of_mem hb) _ mem_cons_self
  have hinserted : insertClientProjection P (front.rebuilt P t).1 a.operation =
      .ok (Log.rebuilt P t (front ++ [a])).1 := by
    refine insertClientProjection_eq_ok.mpr ⟨h.projected a ha, ?_, ?_⟩
    · apply accepts_projectionRows hjson (h.causal.verified a ha)
      · exact hasOperation_iff.mpr ⟨_, hrow, rfl, rfl⟩
      · exact hasEntityOperation_iff.mpr ⟨_, hrow, rfl, rfl, rfl, rfl⟩
      · exact Table.owner_ne _ StoredOperation.key (fun a => owner_projectionRows) hfresh
    · simp [Log.rebuilt]
  have hcount : front.clients.length < 2 ^ 63 := by
    have hlength := h.length_lt
    have hclients : front.clients.length ≤ front.length := length_filter_le _ _
    rw [hsplit, length_append, length_cons] at hlength
    omega
  have hclients : Log.clients (front ++ [a]) = front.clients ++ Log.clients [a] :=
    filter_append ..
  rw [rebuildProjection, hinserted, ok_bind]
  by_cases hclient : a.operation.schema.isClient = true
  · have hone : Log.clients [a] = [a] := filter_eq_self.mpr (by simpa using hclient)
    rw [if_pos hclient, require_bind_eq_ok, decide_eq_true_eq]
    refine ⟨?_, ?_⟩
    · simp only [Log.rebuilt]
      omega
    · simp [Log.rebuilt, hclients, hone]
  · have hnone : Log.clients [a] = [] := filter_eq_nil_iff.mpr (by simpa using hclient)
    rw [if_neg hclient]
    simp [Log.rebuilt, hclients, hnone]

theorem Coherent.rebuildTransaction_complete (hjson : P.AcceptsJson) (h : Coherent P t log)
    (hread : ∀ a ∈ log, P.readEnvelope (projectionText P a.operation) = .ok a.operation) :
    rebuildTransaction P t = .ok (t, log.clients.length) := by
  have hstored := decodeRows_complete h.causal.verified (fun a ha => (h.numbered a ha).1) hread
  have hfold : (log.map (·.operation)).foldlM (rebuildProjection P)
      ({ t with clientOperationProjections := [] }, 0) = .ok (log.rebuilt P t) := by
    rw [foldlM_map]
    exact foldlM_prefixes (Log.rebuilt P t)
      fun front a back hsplit => h.rebuildProjection_front hjson hsplit
  rw [rebuildTransaction, h.sorted_rows, hstored, ok_bind, hfold, Log.rebuilt,
    ← h.represents.projections]

-- Whatever it answers, a rebuild leaves the store as it was. It succeeds where the
-- JSON functions take what the store has written.
theorem rebuild_keeps_projections (P : Platform) (db : Database) (h : Reachable P db) :
    (rebuildClientProjections P db).1 = db ∧
      (P.AcceptsJson →
        (∀ a ∈ admitted P db.tables,
          P.readEnvelope (projectionText P a.operation) = .ok a.operation) →
        (rebuildClientProjections P db).2 = .ok (admitted P db.tables).clients.length) := by
  have hcoherent := h.sound.consistent.coherent
  refine ⟨?_, ?_⟩
  · unfold rebuildClientProjections
    cases hrebuild : rebuildTransaction P db.tables with
    | error error => rfl
    | ok result =>
      obtain ⟨tables, rebuilt⟩ := result
      rw [hcoherent.rebuildTransaction_sound hrebuild]
  · intro hjson hread
    rw [rebuildClientProjections, hcoherent.rebuildTransaction_complete hjson hread]

namespace Sample

def record : StoredOperation :=
  ⟨3, DataModel.Sample.occurredAtUnixMs, DataModel.Sample.record.envelope⟩

-- The store with the record of the writer.
def recorded : Database :=
  ⟨DataModel.Sample.occurredAtUnixMs, afterInsertion platform (created platform).tables record⟩

theorem mem_record : DataModel.Sample.record.envelope ∈ envelopes := by simp [envelopes]

theorem absent_record : ∀ a ∈ admitted platform (created platform).tables, a.key ≠ record.key :=
  absent_created (by decide) (by decide)

theorem insertable_record : Insertable platform (created platform).tables record :=
  ((reachable_created supports).sound.insertable_iff supports.json (by decide)
    (verified _ mem_record) absent_record validAdmission_record).mpr
      ⟨storable_record, by decide⟩

theorem reachable_recorded : Reachable platform recorded := by
  have hsubmit := (reachable_created supports).sound.submit_inserts rfl
    (validSubmission mem_record rfl rfl) absent_record validAdmission_record insertable_record
  have hstep := Step.submit (P := platform) (created platform) DataModel.Sample.spaceId
    (submit DataModel.Sample.record.envelope)
  rw [hsubmit] at hstep
  exact (reachable_created supports).tail hstep

theorem admitted_recorded : admitted platform recorded.tables = [genesis, writerGrant, record] := by
  have hinserted := admitted_insert (reachable_created supports).sound (verified _ mem_record)
    validAdmission_record insertable_record
  rw [admitted_created supports] at hinserted
  exact hinserted

end Sample

open Sample (platform recorded supports)

-- The projection of a record is rebuilt.
theorem rebuild_keeps_record : Reachable platform recorded ∧
    recorded.tables.clientOperationProjections.length = 1 ∧
    rebuildClientProjections platform recorded = (recorded, .ok 1) := by
  obtain ⟨hkept, hcount⟩ :=
    rebuild_keeps_projections platform recorded Sample.reachable_recorded
  have hread : ∀ a ∈ admitted platform recorded.tables,
      platform.readEnvelope (projectionText platform a.operation) =
        .ok a.operation := by
    rw [Sample.admitted_recorded, forall_mem_cons, forall_mem_cons,
      forall_mem_singleton]
    exact ⟨supports.genesisReads, supports.grantReads,
      Sample.readEnvelope_text Sample.verified Sample.mem_record⟩
  have hcount := hcount supports.json hread
  rw [Sample.admitted_recorded] at hcount
  exact ⟨Sample.reachable_recorded, rfl, Prod.ext hkept hcount⟩

end Fractonica.Store
