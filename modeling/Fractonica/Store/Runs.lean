import Fractonica.Store.Calls

namespace Fractonica.Store

open Lib Trust DataModel Application List

variable {P : Platform}

section Loading

variable {id : OperationId}

theorem Coherent.admitted_eq (h : Coherent P t log) : admitted P t = log := by
  rw [admitted, h.represents.operations, filterMap_map]
  calc log.filterMap _ = log.filterMap some := by
        apply filterMap_congr
        intro a ha
        have hread := OperationEnvelope.fromCoseSign1_of_verify (h.causal.verified a ha)
        simp only [Function.comp_apply, storedRow, operationRow, hread]
        rfl
    _ = log := filterMap_some

theorem decodeStoredValues_sound (hverified : a.operation.verify P.toPrimitives = .ok ())
    (h : decodeStoredValues P (storedRow P a) = .ok stored) : stored = a := by
  simp only [decodeStoredValues, bind_eq_ok, mapError_eq_ok, require_eq_ok, Bool.and_eq_true,
    decide_eq_true_eq, Except.ok.injEq] at h
  obtain ⟨operation, -, -, -, _, hverify, -, -, -, -, -, ⟨⟨⟨-, hcose⟩, -⟩, -⟩, -, -, rfl⟩ := h
  obtain rfl := OperationEnvelope.eq_of_verify hverify hverified hcose
  rfl

-- A stored operation is read back where its projection is.
theorem decodeStoredValues_complete (hverified : a.operation.verify P.toPrimitives = .ok ())
    (hsequence : 0 < a.localSequence)
    (hread : P.readEnvelope (projectionText P a.operation) = .ok a.operation) :
    decodeStoredValues P (storedRow P a) = .ok a := by
  obtain ⟨signed, payload, hsound⟩ := a.operation.verify_sound hverified
  obtain ⟨checked, hchecked⟩ := hsound.verified
  have hpayload := payloadOf_eq (canonicalPayload_of_verified hsound)
  simp only [decodeStoredValues, bind_eq_ok, mapError_eq_ok, require_eq_ok, Bool.and_eq_true,
    decide_eq_true_eq, Except.ok.injEq]
  refine ⟨a.operation, hread, (), rfl, (), hverified, signed, hsound.read, checked, hchecked, (),
    ?_, (), hsequence, rfl⟩
  simp [storedRow, operationRow, hsound.operationId, hpayload]

-- Rows of admitted operations are read as what was admitted.
theorem decodeRows_sound {read : Log}
    (hverified : ∀ a ∈ expected, a.operation.verify P.toPrimitives = .ok ())
    (h : (expected.map (storedRow P)).mapM (fun row => liftCorrupt (decodeStoredValues P row)) =
      .ok read) : read = expected := by
  rw [mapM_eq_ok, forall₂_map_left_iff] at h
  induction h with
  | nil => rfl
  | cons hread _ ih =>
    obtain ⟨hfirst, hrest⟩ := forall_mem_cons.mp hverified
    rw [ih hrest, decodeStoredValues_sound hfirst (mapError_eq_ok.mp hread)]

theorem decodeRows_complete {expected : Log}
    (hverified : ∀ a ∈ expected, a.operation.verify P.toPrimitives = .ok ())
    (hsequence : ∀ a ∈ expected, 0 < a.localSequence) (hread : ∀ a ∈ expected,
      P.readEnvelope (projectionText P a.operation) = .ok a.operation) :
    (expected.map (storedRow P)).mapM (fun row => liftCorrupt (decodeStoredValues P row)) =
      .ok expected := by
  rw [mapM_eq_ok, forall₂_map_left_iff, forall₂_same]
  intro a ha
  exact mapError_eq_ok.mpr
    (decodeStoredValues_complete (hverified a ha) (hsequence a ha) (hread a ha))

theorem operationRow?_eq_none (h : Represents P t log) :
    operationRow? t id = none ↔ ∀ a ∈ log, a.key ≠ id := by
  rw [operationRow?, h.operations, find?_eq_none, forall_mem_map]
  apply forall₂_congr
  intro a _
  rw [decide_eq_true_eq]
  rfl

theorem operationRow?_eq_some (h : Coherent P t log) (ha : a ∈ log) :
    operationRow? t a.key = some (storedRow P a) := by
  have hkeys : (t.operations.map OperationRow.operationId).Nodup := by
    rw [h.represents.operations, map_map]
    exact h.causal.keys
  exact Table.find?_key hkeys (h.represents.mem_operations.mpr ⟨a, ha, rfl⟩)

-- What is loaded is an admitted operation, or nothing if there is none.
theorem Coherent.loadStored_sound (h : Coherent P t log)
    (hload : loadStored P t id = .ok (some stored)) : stored ∈ log ∧ stored.key = id := by
  unfold loadStored at hload
  split at hload
  · cases hload
  · rename_i row hrow
    simp only [bind_eq_ok, Except.ok.injEq, Option.some.injEq] at hload
    obtain ⟨_, hdecode, rfl⟩ := hload
    obtain ⟨a, ha, rfl⟩ := h.represents.mem_operations.mp (mem_of_find?_eq_some hrow)
    obtain rfl := decodeStoredValues_sound (h.causal.verified a ha) hdecode
    exact ⟨ha, of_decide_eq_true (find?_some hrow :)⟩

theorem Coherent.loadStored_none (h : Coherent P t log) :
    loadStored P t id = .ok none ↔ ∀ a ∈ log, a.key ≠ id := by
  rw [← operationRow?_eq_none h.represents, loadStored]
  cases operationRow? t id with
  | none => simp
  | some row => simp [bind_eq_ok]

theorem Coherent.loadStored_complete (h : Coherent P t log) (hstored : stored ∈ log)
    (hread : P.readEnvelope (projectionText P stored.operation) = .ok stored.operation) :
    loadStored P t stored.key = .ok (some stored) := by
  have hdecode := decodeStoredValues_complete (h.causal.verified stored hstored)
    (h.numbered stored hstored).1 hread
  rw [loadStored, operationRow?_eq_some h hstored]
  simp [hdecode]

end Loading

section Transitions

variable {db db' : Database}

-- What one call can do to the database.
inductive Transition (P : Platform) (db : Database) : Database → Prop
  | idle {clock : Int64} (later : db.admissionClock.toInt ≤ clock.toInt) :
      Transition P db { db with admissionClock := clock }
  | insert {operation : OperationEnvelope} {now : Int64}
      (later : db.admissionClock.toInt ≤ now.toInt)
      (verified : operation.verify P.toPrimitives = .ok ())
      (notGenesis : isGenesisBody operation.body = false)
      (valid : ValidAdmission P db.tables operation.spaceId operation now)
      (insertable : Insertable P db.tables ⟨db.tables.lastSequence + 1, now, operation⟩) :
      Transition P db
        ⟨now, afterInsertion P db.tables ⟨db.tables.lastSequence + 1, now, operation⟩⟩
  | create {request : TrustedSpaceBootstrapRequest} {grant : CapabilityGrant} {now : Int64}
      {genesis initialGrant : StoredOperation} {tables : Tables}
      (later : db.admissionClock.toInt ≤ now.toInt) (valid : ValidBootstrap P request grant)
      (creation : Creation P db.tables request (spaceRow request grant.subject now) now genesis
        initialGrant tables) :
      Transition P db ⟨now, tables⟩
  | delete (spaceId : SpaceId) : Transition P db { db with tables := db.tables.withoutSpace spaceId
    }

theorem Transition.of_idle (htables : db'.tables = db.tables)
    (hclock : db.admissionClock.toInt ≤ db'.admissionClock.toInt) : Transition P db db' := by
  obtain ⟨clock, tables⟩ := db'
  obtain rfl : tables = db.tables := htables
  exact .idle hclock

-- The three outcomes of a submission.
inductive Submission (P : Platform) (db : Database) (spaceId : SpaceId)
    (request : SubmitOperationRequest) :
    Database → Except RepositoryError SubmitOperationResult → Prop
  | failed {db' : Database} {error : RepositoryError} (tables : db'.tables = db.tables)
      (later : db.admissionClock.toInt ≤ db'.admissionClock.toInt) :
      Submission P db spaceId request db' (.error error)
  | replayed {now : Int64} {existing : StoredOperation}
      (later : db.admissionClock.toInt ≤ now.toInt)
      (valid : ValidSubmission P db.tables spaceId request)
      (found : loadStored P db.tables request.operation.operationId = .ok (some existing))
      (payload : canonicalPayload P request.operation = canonicalPayload P existing.operation) :
      Submission P db spaceId request { db with admissionClock := now } (.ok ⟨existing, true⟩)
  | inserted {now : Int64} (later : db.admissionClock.toInt ≤ now.toInt)
      (valid : ValidSubmission P db.tables spaceId request)
      (absent : loadStored P db.tables request.operation.operationId = .ok none)
      (admission :
        ValidAdmission P db.tables request.operation.spaceId request.operation now)
      (insertable : Insertable P db.tables ⟨db.tables.lastSequence + 1, now, request.operation⟩) :
      Submission P db spaceId request
        ⟨now, afterInsertion P db.tables ⟨db.tables.lastSequence + 1, now, request.operation⟩⟩
        (.ok ⟨⟨db.tables.lastSequence + 1, now, request.operation⟩, false⟩)

theorem submission (P : Platform) (db : Database) (spaceId : SpaceId)
    (request : SubmitOperationRequest) :
    Submission P db spaceId request (submitOperation P db spaceId request).1
      (submitOperation P db spaceId request).2 := by
  cases hcall : submitOperation P db spaceId request with
  | mk next answer =>
    cases answer with
    | error error =>
      obtain ⟨htables, hclock⟩ := submitOperation_error hcall
      exact .failed htables hclock
    | ok result =>
      obtain ⟨hvalid, hadmission, hclock⟩ := submitOperation_ok hcall
      have hsubmission := validateSubmission_eq_ok.mp hvalid
      have hlater := (le_laterOf db.admissionClock request.receivedAtUnixMs).1
      rw [← hclock] at hadmission hlater
      obtain ⟨clock, tables⟩ := next
      dsimp only at hadmission hlater
      cases hadmission with
      | replay hfound hpayload => exact .replayed hlater hsubmission hfound hpayload
      | insert habsent hadmits hinsertable =>
        have hadmits := validateAdmission_eq_ok.mp hadmits
        rw [← hsubmission.inSpace] at hadmits
        exact .inserted hlater hsubmission habsent hadmits hinsertable

theorem transition_submit (spaceId : SpaceId) (request : SubmitOperationRequest) :
    Transition P db (submitOperation P db spaceId request).1 := by
  have hsubmission := submission P db spaceId request
  generalize (submitOperation P db spaceId request).1 = db' at hsubmission ⊢
  generalize (submitOperation P db spaceId request).2 = answer at hsubmission
  cases hsubmission with
  | failed tables later => exact .of_idle tables later
  | replayed later => exact .idle later
  | inserted later valid absent admission insertable =>
    exact .insert later valid.verified valid.notGenesis admission insertable

theorem transition_bootstrap (request : TrustedSpaceBootstrapRequest) :
    Transition P db (bootstrapTrustedSpace P db request).1 := by
  cases hcall : bootstrapTrustedSpace P db request with
  | mk next answer =>
    cases answer with
    | error error =>
      obtain ⟨htables, hclock⟩ := bootstrapTrustedSpace_error hcall
      exact .of_idle htables hclock
    | ok result =>
      obtain ⟨grant, hvalid, hclock, hcases⟩ := bootstrapTrustedSpace_ok hcall
      have hlater := (le_laterOf db.admissionClock request.receivedAtUnixMs).1
      rw [← hclock] at hlater
      rcases hcases with ⟨-, htables⟩ | ⟨-, -, hcreation⟩
      · exact .of_idle htables hlater
      · obtain ⟨clock, tables⟩ := next
        exact .create hlater hvalid hcreation

theorem transition_delete (spaceId : SpaceId) (referenced : Bool) :
    Transition P db (deleteSpace db spaceId referenced).1 := by
  unfold deleteSpace
  by_cases habsent : (spaceRow? db.tables spaceId).isNone = true
  · rw [if_pos habsent]
    exact .of_idle rfl le_rfl
  · rw [if_neg habsent]
    by_cases hreferenced : referenced = true
    · rw [if_pos hreferenced]
      exact .of_idle rfl le_rfl
    · rw [if_neg hreferenced]
      exact .delete spaceId

theorem transition_of_step (h : Step P db db') : Transition P db db' := by
  cases h with
  | bootstrap request => exact transition_bootstrap request
  | submit spaceId request => exact transition_submit spaceId request
  | delete spaceId referenced => exact transition_delete spaceId referenced

end Transitions

section Invariants

variable {db : Database}

-- What holds of the database between the calls.
structure Sound (P : Platform) (db : Database) : Prop where
  consistent : Consistent P db.tables (admitted P db.tables)
  clock : 0 ≤ db.admissionClock.toInt
  spaces : ∀ row ∈ db.tables.spaces, decodeSpaceValues P row = .ok (spaceDescriptor row)

theorem Consistent.sound (h : Consistent P db.tables log) (hclock : 0 ≤ db.admissionClock.toInt)
    (hspaces : ∀ row ∈ db.tables.spaces, decodeSpaceValues P row = .ok (spaceDescriptor row)) :
    Sound P db := by
  refine ⟨?_, hclock, hspaces⟩
  rw [h.coherent.admitted_eq]
  exact h

theorem sound_empty : Sound P Database.empty := by
  refine Consistent.sound ⟨coherent_empty, ?_⟩ (by decide) ?_
  · intro row hrow
    exact absurd hrow not_mem_nil
  · intro row hrow
    exact absurd hrow not_mem_nil

-- The descriptor of a new space can be read back.
theorem decodeSpaceValues_created {request : TrustedSpaceBootstrapRequest} {grant : CapabilityGrant}
    {now : Int64} (hvalid : ValidBootstrap P request grant)
    (hchecks : (spaceRow request grant.subject now).checks = true) :
    decodeSpaceValues P (spaceRow request grant.subject now) =
      .ok (spaceDescriptor (spaceRow request grant.subject now)) := by
  simp only [SpaceRow.checks, Bool.and_eq_true, decide_eq_true_eq] at hchecks
  obtain ⟨⟨⟨⟨⟨⟨⟨⟨⟨⟨-, hspace⟩, -⟩, -⟩, -⟩, -⟩, -⟩, -⟩, hcreated⟩, hids⟩, hactors⟩ := hchecks
  have hcontroller := publicKey_eq_ok.mpr ⟨validKey_of_verify hvalid.genesisVerified, rfl⟩
  have hwriter := publicKey_eq_ok.mpr
    ⟨(grant_of_verify hvalid.grantVerified hvalid.grantBody).2.subject, rfl⟩
  simp only [decodeSpaceValues, bind_eq_ok, mapError_eq_ok, require_eq_ok, Bool.and_eq_true,
    decide_eq_true_eq, Except.ok.injEq]
  exact ⟨(), hspace, _, hcontroller, _, hwriter, (),
    ⟨⟨⟨hvalid.displayName, hcreated⟩, hids.symm⟩, hactors.symm⟩, rfl⟩

theorem Transition.sound (h : Transition P db db') (hsound : Sound P db) : Sound P db' := by
  have hclock := hsound.clock
  cases h with
  | idle later => exact ⟨hsound.consistent, hclock.trans later, hsound.spaces⟩
  | insert later verified notGenesis valid insertable =>
    exact (hsound.consistent.insert verified valid insertable).sound (hclock.trans later)
      hsound.spaces
  | create later valid creation =>
    apply (hsound.consistent.create valid rfl rfl creation).sound (hclock.trans later)
    intro row hrow
    rw [creation.tables] at hrow
    rcases mem_append.mp hrow with hrow | hrow
    · exact hsound.spaces row hrow
    · rw [mem_singleton.mp hrow]
      have hadmits := creation.space.admits _ mem_cons_self
      exact decodeSpaceValues_created valid (require_eq_ok.mp hadmits)
  | delete spaceId =>
    have hcoherent : Coherent P (db.tables.withoutSpace spaceId)
        ((admitted P db.tables).without spaceId) := hsound.consistent.coherent.without
    refine Consistent.sound ⟨hcoherent, hsound.consistent.anchored.without⟩ hclock ?_
    intro row hrow
    exact hsound.spaces row (mem_filter.mp hrow).1

theorem Reachable.sound (h : Reachable P db) : Sound P db := by
  induction h with
  | refl => exact sound_empty
  | tail _ hstep ih => exact (transition_of_step hstep).sound ih

-- A space with operations is trusted.
theorem Sound.requireSpace_ok (h : Sound P db) (hrow : row ∈ db.tables.spaces) :
    requireSpace P db.tables row.spaceId = .ok () := by
  have hfound : spaceRow? db.tables row.spaceId = some row :=
    Table.find?_key h.consistent.coherent.spaceIds hrow
  simp [requireSpace, loadSpace, hfound, h.spaces row hrow]

end Invariants

end Fractonica.Store
