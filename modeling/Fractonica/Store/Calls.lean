import Fractonica.DataModel.Envelope.Theorems
import Fractonica.Store.Log.Theorems

namespace Fractonica.Store

open Lib Trust Content DataModel Application List

variable {P : Platform}

section Transactions

variable {α : Type} {transaction : Int64 → Except RepositoryError (Tables × α)}

theorem laterOf_self (time : Int64) : laterOf time time = time := by
  simp [laterOf]

theorem le_laterOf (left right : Int64) :
    left.toInt ≤ (laterOf left right).toInt ∧ right.toInt ≤ (laterOf left right).toInt := by
  unfold laterOf
  split <;> omega

-- A transaction runs at the advanced clock, and its failure leaves the tables
-- as they were.
theorem transact_ok (h : transact db sampledUnixMs transaction = (db', .ok result)) :
    transaction (laterOf db.admissionClock sampledUnixMs) = .ok (db'.tables, result) ∧
      db'.admissionClock = laterOf db.admissionClock sampledUnixMs := by
  unfold transact at h
  split at h
  · cases h
  · rename_i effective hadvance
    simp only [advanceAdmissionClock, readAdmissionClock, bind_eq_ok, require_eq_ok,
      Except.ok.injEq] at hadvance
    obtain ⟨_, ⟨-, -, rfl⟩, rfl⟩ := hadvance
    dsimp only at h
    split at h
    · cases h
    · rename_i tables value hrun
      simp only [readAdmissionClock, bind_eq_ok, require_eq_ok, Except.ok.injEq] at hrun
      obtain ⟨_, ⟨-, -, rfl⟩, hrun⟩ := hrun
      rw [laterOf_self] at hrun
      cases h
      exact ⟨hrun, rfl⟩

theorem transact_error (h : transact db sampledUnixMs transaction = (db', .error error)) :
    db'.tables = db.tables ∧ db.admissionClock.toInt ≤ db'.admissionClock.toInt := by
  unfold transact at h
  split at h
  · cases h
    exact ⟨rfl, le_rfl⟩
  · rename_i effective hadvance
    simp only [advanceAdmissionClock, readAdmissionClock, bind_eq_ok, require_eq_ok,
      Except.ok.injEq] at hadvance
    obtain ⟨_, ⟨-, -, rfl⟩, rfl⟩ := hadvance
    dsimp only at h
    split at h
    · cases h
      exact ⟨rfl, (le_laterOf _ _).1⟩
    · cases h

end Transactions

section Verification

variable {operation : OperationEnvelope}

theorem verifyEnvelope_eq_ok :
    verifyEnvelope P operation = .ok u ↔ operation.verify P.toPrimitives = .ok () := by
  simp only [verifyEnvelope, bind_eq_ok, mapError_eq_ok]
  constructor
  · rintro ⟨_, hverify, -⟩
    exact hverify
  · intro hverify
    obtain ⟨signed, payload, hverified⟩ := operation.verify_sound hverify
    obtain ⟨checked, hchecked⟩ := hverified.verified
    exact ⟨(), hverify, signed, hverified.read, checked, hchecked, trivial⟩

theorem canonicalPayload_of_verified {signed : SignedOperation}
    {payload : OperationPayload P.toPrimitives}
    (h : operation.Verified P.toPrimitives signed payload) :
    canonicalPayload P operation = .ok signed.payload := by
  obtain ⟨checked, hchecked⟩ := h.verified
  simp only [canonicalPayload, bind_eq_ok, mapError_eq_ok]
  exact ⟨signed, h.read, checked, hchecked, rfl⟩

-- The payload of a verified operation is the one that its identifier hashes.
theorem canonicalPayload_of_verify (h : operation.verify P.toPrimitives = .ok ()) :
    canonicalPayload P operation = .ok (payloadOf P operation) ∧
      operation.operationId = hashOperationPayload P.toPrimitives (payloadOf P operation) := by
  obtain ⟨signed, payload, hverified⟩ := operation.verify_sound h
  obtain ⟨checked, hchecked⟩ := hverified.verified
  have hpayload := canonicalPayload_of_verified hverified
  rw [payloadOf_eq hpayload]
  refine ⟨hpayload, ?_⟩
  rw [hverified.operationId]
  exact (verify_eq_ok.mp hchecked).1.symm

-- Apart from the signature, an operation is what its payload says.
theorem eq_of_payload {left right : OperationEnvelope} (hleft : left.verify P.toPrimitives = .ok ())
    (hright : right.verify P.toPrimitives = .ok ())
    (hpayload : payloadOf P left = payloadOf P right) :
    right = { left with coseSign1 := right.coseSign1 } := by
  obtain ⟨signed, payload, hverified⟩ := left.verify_sound hleft
  obtain ⟨signed', payload', hverified'⟩ := right.verify_sound hright
  have hid := (canonicalPayload_of_verify hleft).2
  have hid' := (canonicalPayload_of_verify hright).2
  rw [hpayload, ← hid'] at hid
  rw [payloadOf_eq (canonicalPayload_of_verified hverified),
    payloadOf_eq (canonicalPayload_of_verified hverified')] at hpayload
  have hsame := hverified.decoded
  rw [hpayload, hverified'.decoded] at hsame
  obtain rfl := Except.ok.inj hsame
  have hschema : right.schema = left.schema :=
    EntitySchema.asStr_injective (hverified'.schema.symm.trans hverified.schema)
  have hbody := hverified'.body
  rw [hschema, hverified.body] at hbody
  cases right
  simp only [OperationEnvelope.mk.injEq, and_true]
  exact ⟨hverified'.version.trans hverified.version.symm, hid.symm,
    hverified'.spaceId.trans hverified.spaceId.symm,
    hverified'.actorId.trans hverified.actorId.symm,
    hverified'.entityId.trans hverified.entityId.symm, hschema,
    hverified'.causalParents.trans hverified.causalParents.symm,
    hverified'.authorization.trans hverified.authorization.symm,
    hverified'.occurredAt.trans hverified.occurredAt.symm,
    hverified'.nonce.trans hverified.nonce.symm, (Except.ok.inj hbody).symm⟩

theorem genesis_of_verify {controller : ActorId} (h : operation.verify P.toPrimitives = .ok ())
    (hbody : operation.body = .spaceGenesis controller) :
    operation.schema = .spaceGenesis ∧ controller = operation.actorId ∧
      operation.causalParents = [] ∧ operation.authorization = [] := by
  obtain ⟨signed, payload, hverified⟩ := operation.verify_sound h
  have hvalid := hverified.valid
  rw [hbody] at hvalid
  cases hschema : operation.schema with
  | spaceGenesis =>
    rw [hschema] at hvalid
    simp only [OperationBody.validateFor, bind_eq_ok, require_eq_ok, decide_eq_true_eq,
      Bool.and_eq_true, List.isEmpty_iff] at hvalid
    obtain ⟨-, -, -, -, -, hcontroller, hroot⟩ := hvalid
    exact ⟨rfl, hcontroller, hroot.1, hroot.2⟩
  | _ =>
    rw [hschema] at hvalid
    simp [OperationBody.validateFor, bind_eq_ok] at hvalid

theorem grant_of_verify {grant : CapabilityGrant} (h : operation.verify P.toPrimitives = .ok ())
    (hbody : operation.body = .capabilityGrant grant) :
    operation.schema = .capabilityGrant ∧ grant.Valid P.toPrimitives := by
  obtain ⟨signed, payload, hverified⟩ := operation.verify_sound h
  have hvalid := hverified.valid
  rw [hbody] at hvalid
  cases hschema : operation.schema with
  | capabilityGrant =>
    rw [hschema] at hvalid
    simp only [OperationBody.validateFor, require_bind_eq_ok] at hvalid
    exact ⟨rfl, CapabilityGrant.valid_of_validate hvalid.2⟩
  | _ =>
    rw [hschema] at hvalid
    simp [OperationBody.validateFor, bind_eq_ok] at hvalid

theorem validKey_of_verify (h : operation.verify P.toPrimitives = .ok ()) :
    P.validKey operation.actorId.bytes = true := by
  obtain ⟨signed, payload, hverified⟩ := operation.verify_sound h
  rw [hverified.actorId]
  exact payload.valid.actor

end Verification

section Admission

variable {t : Tables} {spaceId : SpaceId} {operation : OperationEnvelope} {now : Int64}
  {request : SubmitOperationRequest}

-- The two ways in which a submission succeeds.
inductive Admission (P : Platform) (t : Tables) (spaceId : SpaceId)
    (operation : OperationEnvelope) (now : Int64) : Tables → SubmitOperationResult → Prop
  | replay {existing : StoredOperation}
      (found : loadStored P t operation.operationId = .ok (some existing))
      (payload : canonicalPayload P operation = canonicalPayload P existing.operation) :
      Admission P t spaceId operation now t ⟨existing, true⟩
  | insert (absent : loadStored P t operation.operationId = .ok none)
      (valid : validateAdmission P t spaceId operation now = .ok ())
      (insertable : Insertable P t ⟨t.lastSequence + 1, now, operation⟩) :
      Admission P t spaceId operation now
        (afterInsertion P t ⟨t.lastSequence + 1, now, operation⟩)
        ⟨⟨t.lastSequence + 1, now, operation⟩, false⟩

theorem admission_of_ok (h : admitOperation P t spaceId operation now = .ok (t', result)) :
    Admission P t spaceId operation now t' result := by
  simp only [admitOperation, bind_eq_ok, liftCorrupt, mapError_eq_ok] at h
  obtain ⟨found, hfound, h⟩ := h
  cases found with
  | some existing =>
    simp only [bind_eq_ok, require_eq_ok, decide_eq_true_eq, Except.ok.injEq, Prod.mk.injEq] at h
    obtain ⟨incoming, hincoming, existingPayload, hstored, -, rfl, rfl, rfl⟩ := h
    exact .replay hfound (hincoming.trans hstored.symm)
  | none =>
    simp only [bind_eq_ok, Prod.exists, Except.ok.injEq, Prod.mk.injEq] at h
    obtain ⟨_, hvalid, tables, stored, hinserted, rfl, rfl⟩ := h
    obtain ⟨rfl, hinsertable, rfl⟩ := insertOperation_eq_ok.mp hinserted
    exact .insert hfound hvalid hinsertable

theorem submitOperation_ok (h : submitOperation P db spaceId request = (db', .ok result)) :
    validateSubmission P db.tables spaceId request = .ok () ∧
      Admission P db.tables spaceId request.operation
        (laterOf db.admissionClock request.receivedAtUnixMs) db'.tables result ∧
      db'.admissionClock = laterOf db.admissionClock request.receivedAtUnixMs := by
  unfold submitOperation at h
  split at h
  · cases h
  · rename_i hvalid
    obtain ⟨hrun, hclock⟩ := transact_ok h
    exact ⟨hvalid, admission_of_ok hrun, hclock⟩

theorem submitOperation_error (h : submitOperation P db spaceId request = (db', .error error)) :
    db'.tables = db.tables ∧ db.admissionClock.toInt ≤ db'.admissionClock.toInt := by
  unfold submitOperation at h
  split at h
  · cases h
    exact ⟨rfl, le_rfl⟩
  · exact transact_error h

@[mk_iff] structure ValidSubmission (P : Platform) (t : Tables) (spaceId : SpaceId)
    (request : SubmitOperationRequest) : Prop where
  verified : request.operation.verify P.toPrimitives = .ok ()
  inSpace : request.operation.spaceId = spaceId
  received : 0 ≤ request.receivedAtUnixMs.toInt
  notGenesis : isGenesisBody request.operation.body = false
  trusted : requireSpace P t spaceId = .ok ()

theorem validateSubmission_eq_ok :
    validateSubmission P t spaceId request = .ok u ↔ ValidSubmission P t spaceId request := by
  simp [validateSubmission, bind_eq_ok, verifyEnvelope_eq_ok, validSubmission_iff]

end Admission

section Topology

variable {t : Tables} {spaceId : SpaceId} {operation : OperationEnvelope} {now : Int64}

-- What the validation of a new operation establishes.
@[mk_iff] structure ValidAdmission (P : Platform) (t : Tables) (spaceId : SpaceId)
    (operation : OperationEnvelope) (now : Int64) : Prop where
  references : validateReferences t operation = .ok ()
  topology : validateTopology t operation = .ok ()
  target : validateRevocationTarget t spaceId operation.body = .ok ()
  authorized : ∃ visibility, visibilityForAdmission P t operation = .ok visibility ∧
    authorizeOperationForVisibility P.toPrimitives operation now (capabilityView P t) visibility =
      .ok ()

theorem validateAdmission_eq_ok :
    validateAdmission P t spaceId operation now = .ok u ↔
      ValidAdmission P t spaceId operation now := by
  simp only [validateAdmission, bind_eq_ok, mapError_eq_ok, exists_unit, validAdmission_iff]
  constructor
  · rintro ⟨hreferences, htopology, visibility, hvisibility, htarget, hauthorized⟩
    exact ⟨hreferences, htopology, htarget, visibility, hvisibility, hauthorized⟩
  · rintro ⟨hreferences, htopology, htarget, visibility, hvisibility, hauthorized⟩
    exact ⟨hreferences, htopology, visibility, hvisibility, htarget, hauthorized⟩

theorem validateTopology_eq_ok :
    validateTopology t operation = .ok u ↔
      (∀ parent ∈ operation.causalParents, validateParent t operation parent = .ok ()) ∧
      (entityOperations t operation.spaceId operation.entityId ≠ [] →
        currentHeads t operation.spaceId operation.entityId ≠ [] ∧
          operation.causalParents ≠ []) ∧
      (entityOperations t operation.spaceId operation.entityId = [] →
        isTombstone operation.body = false) ∧
      (keptHeads (currentHeads t operation.spaceId operation.entityId) operation.spaceId
        operation.causalParents).length + 1 ≤ MAX_ENTITY_HEADS := by
  have hkept : (keptHeads (currentHeads t operation.spaceId operation.entityId) operation.spaceId
        operation.causalParents).length =
      (currentHeads t operation.spaceId operation.entityId).length -
        ((currentHeads t operation.spaceId operation.entityId).filter fun row =>
          operation.causalParents.contains row.operationId).length := by
    have hsplit := length_eq_length_filter_add
      (l := currentHeads t operation.spaceId operation.entityId)
      (fun row => operation.causalParents.contains row.operationId)
    have hsame : keptHeads (currentHeads t operation.spaceId operation.entityId)
          operation.spaceId operation.causalParents =
        (currentHeads t operation.spaceId operation.entityId).filter fun row =>
          !operation.causalParents.contains row.operationId := by
      apply filter_congr
      intro row hrow
      have hspace := (mem_filter.mp hrow).2
      simp only [Bool.and_eq_true, decide_eq_true_eq] at hspace
      simp [hspace.1]
    rw [hsame]
    omega
  simp only [validateTopology, bind_eq_ok, checkAll_eq_ok, require_eq_ok, hkept,
    Bool.not_eq_eq_eq_not, Bool.not_true, Bool.and_eq_false_iff, decide_eq_false_iff_not,
    decide_eq_true_eq, Nat.not_lt, Nat.le_zero, length_eq_zero_iff, isEmpty_eq_false_iff]
  constructor
  · rintro ⟨_, hparents, _, hheads, _, hfirst, _, htombstone, hbound⟩
    refine ⟨hparents, ?_, ?_, hbound⟩
    · intro hexisting
      exact ⟨hheads.resolve_left hexisting, hfirst.resolve_left hexisting⟩
    · intro hnone
      exact htombstone.resolve_left (not_not_intro hnone)
  · rintro ⟨hparents, hexisting, htombstone, hbound⟩
    by_cases hnone : entityOperations t operation.spaceId operation.entityId = []
    · exact ⟨(), hparents, (), .inl hnone, (), .inl hnone, (), .inr (htombstone hnone), hbound⟩
    · obtain ⟨hheads, hfirst⟩ := hexisting hnone
      exact ⟨(), hparents, (), .inr hheads, (), .inr hfirst, (), .inl hnone, hbound⟩

theorem declared_of_visibilityForAdmission
    (h : visibilityForAdmission P t operation = .ok visibility)
    (hclient : operation.schema.isClient = true) (hfirst : operation.causalParents = []) :
    operation.body.declaredVisibility.isSome = true := by
  unfold visibilityForAdmission at h
  simp only [hclient, Bool.not_true, Bool.false_eq_true, if_false, hfirst, isEmpty_nil,
    if_true] at h
  cases hdeclared : operation.body.declaredVisibility with
  | some declared => rfl
  | none =>
    rw [hdeclared] at h
    simp only at h
    split at h <;> cases h

theorem mem_entityOperations (h : Represents P t log)
    (ha : a ∈ log) : storedRow P a ∈ entityOperations t a.space a.operation.entityId := by
  apply mem_filter.mpr
  exact ⟨h.mem_operations.mpr ⟨a, ha, rfl⟩, by simp [storedRow, operationRow]⟩

theorem validateReference_eq_ok :
    validateReference t missing crossSpace spaceId reference = .ok u ↔
      ∃ row, operationRow? t reference = some row ∧ row.spaceId = spaceId := by
  unfold validateReference operationSpace
  cases operationRow? t reference with
  | none => simp
  | some row => simp

theorem Represents.of_operationRow? (h : Represents P t log) {id : OperationId}
    (hrow : operationRow? t id = some row) : ∃ a ∈ log, a.key = id ∧ row = storedRow P a := by
  obtain ⟨a, ha, rfl⟩ := h.mem_operations.mp (mem_of_find?_eq_some hrow)
  exact ⟨a, ha, of_decide_eq_true (find?_some hrow :), rfl⟩

-- A validated operation extends the log.
theorem Coherent.extends_of_admission (h : Coherent P t log)
    (hverified : operation.verify P.toPrimitives = .ok ())
    (hvalid : ValidAdmission P t spaceId operation now)
    (habsent : ∀ a ∈ log, a.key ≠ operation.operationId) :
    Extends P log ⟨t.lastSequence + 1, now, operation⟩ := by
  obtain ⟨hparent, hexisting, -, -⟩ := validateTopology_eq_ok.mp hvalid.topology
  obtain ⟨_, hreferences, hauthorization⟩ := bind_eq_ok.mp hvalid.references
  rw [checkAll_eq_ok] at hreferences hauthorization
  have hparents : ∀ parent ∈ operation.causalParents, ∃ b ∈ log, b.key = parent ∧
      b.SameEntity ⟨t.lastSequence + 1, now, operation⟩ ∧
        b.operation.schema = operation.schema := by
    intro parent hmem
    obtain ⟨row, hrow, hspace⟩ := validateReference_eq_ok.mp (hreferences parent hmem)
    have hmatch := hparent parent hmem
    simp only [validateParent, hrow, okOr, ok_bind, require_eq_ok, Bool.and_eq_true,
      decide_eq_true_eq] at hmatch
    obtain ⟨b, hb, hkey, rfl⟩ := h.represents.of_operationRow? hrow
    exact ⟨b, hb, hkey, ⟨hspace, hmatch.1⟩, hmatch.2⟩
  have hfirst : ∀ a ∈ log, a.SameEntity ⟨t.lastSequence + 1, now, operation⟩ →
      operation.causalParents ≠ [] := by
    intro a ha hentity
    have hmem := mem_entityOperations h.represents ha
    rw [hentity.1, hentity.2] at hmem
    exact (hexisting (ne_nil_of_mem hmem)).2
  refine ⟨hverified, ?_, habsent, hparents, ?_, ?_, ?_, ?_⟩
  · intro a ha
    have hnumbered := (h.numbered a ha).2
    dsimp only
    omega
  · intro reference hmem
    obtain ⟨row, hrow, hspace⟩ := validateReference_eq_ok.mp (hauthorization reference hmem)
    obtain ⟨b, hb, hkey, rfl⟩ := h.represents.of_operationRow? hrow
    exact ⟨b, hb, hkey, hspace⟩
  · intro a ha hentity
    obtain ⟨parent, hmem⟩ := exists_mem_of_ne_nil _ (hfirst a ha hentity)
    obtain ⟨b, hb, -, hsame, hschema⟩ := hparents parent hmem
    exact (h.causal.schemas a ha b hb
      ⟨hentity.1.trans hsame.1.symm, hentity.2.trans hsame.2.symm⟩).trans hschema
  · intro hnone a ha hentity
    exact hfirst a ha hentity hnone
  · intro hclient hnone
    obtain ⟨visibility, hvisibility, -⟩ := hvalid.authorized
    exact declared_of_visibilityForAdmission hvisibility hclient hnone

end Topology

section Consistency

variable {t t' : Tables} {log : Log} {spaceId : SpaceId}

-- The tables are those of some log, and every space has its genesis in it.
structure Consistent (P : Platform) (t : Tables) (log : Log) : Prop where
  coherent : Coherent P t log
  anchored : Anchored t log

theorem Consistent.insert (h : Consistent P t log) {operation : OperationEnvelope} {now : Int64}
    (hverified : operation.verify P.toPrimitives = .ok ())
    (hvalid : ValidAdmission P t spaceId operation now)
    (hins : Insertable P t ⟨t.lastSequence + 1, now, operation⟩) :
    Consistent P (afterInsertion P t ⟨t.lastSequence + 1, now, operation⟩)
      (log ++ [⟨t.lastSequence + 1, now, operation⟩]) := by
  have habsent : ∀ a ∈ log, a.key ≠ operation.operationId := by
    intro a ha
    exact hins.fresh _ (h.coherent.represents.mem_operations.mpr ⟨a, ha, rfl⟩)
  have hnext := h.coherent.extends_of_admission hverified hvalid habsent
  have hheads := (validateTopology_eq_ok.mp hvalid.topology).2.2.2
  refine ⟨h.coherent.append hins rfl hnext hheads, ?_⟩
  intro row hrow
  obtain ⟨a, ha, hrest⟩ := h.anchored row hrow
  exact ⟨a, mem_append_left _ ha, hrest⟩

theorem currentHeads_eq_nil (h : Represents P t log) (hnone : ∀ a ∈ log, a.space ≠ spaceId)
    (entityId : EntityId) : currentHeads t spaceId entityId = [] := by
  apply filter_eq_nil_iff.mpr
  intro row hrow
  rw [h.entityHeads] at hrow
  obtain ⟨a, ha, rfl⟩ := mem_map.mp hrow
  have hspace := hnone a (History.mem_heads.mp ha).1
  simp [headRow, hspace]

end Consistency

section Bootstrap

variable {t t' : Tables} {request : TrustedSpaceBootstrapRequest} {now : Int64}
  {body : OperationBody} {grant : CapabilityGrant} {row : SpaceRow}

structure ValidBootstrap (P : Platform) (request : TrustedSpaceBootstrapRequest)
    (grant : CapabilityGrant) : Prop where
  genesisVerified : request.genesis.verify P.toPrimitives = .ok ()
  grantVerified : request.initialGrant.verify P.toPrimitives = .ok ()
  received : 0 ≤ request.receivedAtUnixMs.toInt
  displayName : isDisplayName request.displayName = true
  genesisBody : request.genesis.body = .spaceGenesis request.initialGrant.actorId
  grantBody : request.initialGrant.body = .capabilityGrant grant
  inSpace : request.genesis.spaceId = request.initialGrant.spaceId
  parents : request.initialGrant.causalParents = []
  authorization : request.initialGrant.authorization = [request.genesis.operationId]
  schema : request.initialGrant.schema = .capabilityGrant
  entity : request.initialGrant.entityId ≠ request.genesis.entityId
  writer : isWriterGrant request.initialGrant.actorId grant = true

theorem genesisController_eq_ok {controller : ActorId} :
    genesisController body = .ok controller ↔ body = .spaceGenesis controller := by
  cases body <;> simp [genesisController]

theorem initialWriterGrant_eq_ok :
    initialWriterGrant body = .ok grant ↔ body = .capabilityGrant grant := by
  cases body <;> simp [initialWriterGrant]

theorem verifyBootstrap_eq_ok :
    verifyBootstrap P request = .ok grant ↔ ValidBootstrap P request grant := by
  simp only [verifyBootstrap, validateBootstrap, bind_eq_ok, verifyEnvelope_eq_ok, require_eq_ok,
    genesisController_eq_ok, initialWriterGrant_eq_ok, decide_eq_true_eq, Bool.and_eq_true,
    List.isEmpty_iff, Except.ok.injEq]
  constructor
  · rintro ⟨_, hgenesis, _, hgrant, _, hreceived, _, hname, controller, hcontroller, _, hfound, _,
      ⟨⟨⟨⟨⟨⟨hspace, rfl⟩, hparents⟩, hauthorization⟩, hschema⟩, hentity⟩, hwriter⟩, rfl⟩
    exact ⟨hgenesis, hgrant, hreceived, hname, hcontroller, hfound, hspace, hparents,
      hauthorization, hschema, hentity, hwriter⟩
  · rintro ⟨hgenesis, hgrant, hreceived, hname, hgenesisBody, hgrantBody, hspace, hparents,
      hauthorization, hschema, hentity, hwriter⟩
    exact ⟨(), hgenesis, (), hgrant, (), hreceived, (), hname, _, hgenesisBody, grant, hgrantBody,
      (), ⟨⟨⟨⟨⟨⟨hspace, rfl⟩, hparents⟩, hauthorization⟩, hschema⟩, hentity⟩, hwriter⟩, rfl⟩

-- The steps of the creation of a space.
structure Creation (P : Platform) (t : Tables) (request : TrustedSpaceBootstrapRequest)
    (row : SpaceRow) (now : Int64) (genesis initialGrant : StoredOperation) (t' : Tables) :
    Prop where
  space : Table.Accepts spaceConstraints t.spaces [row]
  genesisStored : genesis = ⟨t.lastSequence + 1, now, request.genesis⟩
  grantStored : initialGrant = ⟨t.lastSequence + 2, now, request.initialGrant⟩
  genesisInsertable : Insertable P (withSpace t row) genesis
  authorized : authorizeOperation P.toPrimitives request.initialGrant now
    (capabilityView P (afterInsertion P (withSpace t row) genesis)) = .ok ()
  grantInsertable : Insertable P (afterInsertion P (withSpace t row) genesis) initialGrant
  tables : t' = afterInsertion P (afterInsertion P (withSpace t row) genesis) initialGrant
  keys : spaceKeysHold t'.operations t'.capabilityGrants row = true

theorem createSpace_eq_ok :
    createSpace P t request row now = .ok (t', result) ↔
      Creation P t request row now result.genesis result.initialGrant t' ∧
        result.space = spaceDescriptor row ∧ result.replayed = false := by
  simp only [createSpace, bind_eq_ok, liftStorage_eq_ok, Table.insert_eq_ok, Prod.exists,
    mapError_eq_ok, require_eq_ok, insertOperation_eq_ok, Except.ok.injEq, Prod.mk.injEq]
  constructor
  · rintro ⟨_, ⟨hspace, rfl⟩, _, genesis, ⟨rfl, hgenesis, rfl⟩, _, hauthorized, _, initialGrant,
      ⟨rfl, hgrant, rfl⟩, _, hkeys, rfl, rfl⟩
    exact ⟨⟨hspace, rfl, rfl, hgenesis, hauthorized, hgrant, rfl, hkeys⟩, rfl, rfl⟩
  · rintro ⟨⟨hspace, hgenesisStored, hgrantStored, hgenesis, hauthorized, hgrant, rfl, hkeys⟩,
      hdescriptor, hreplayed⟩
    obtain ⟨space, genesis, initialGrant, replayed⟩ := result
    cases hgenesisStored
    cases hgrantStored
    cases hdescriptor
    cases hreplayed
    exact ⟨_, ⟨hspace, rfl⟩, _, _, ⟨rfl, hgenesis, rfl⟩, (), hauthorized, _, _,
      ⟨rfl, hgrant, rfl⟩, (), hkeys, rfl, rfl⟩

-- The genesis is the first operation of its space, and the grant the second.
theorem Consistent.create (h : Consistent P t log) (hvalid : ValidBootstrap P request grant)
    {genesis : StoredOperation} (hrow : row.spaceId = request.genesis.spaceId)
    (hgenesisId : row.genesisOperationId = request.genesis.operationId)
    (hcreation : Creation P t request row now genesis initialGrant t') :
    Consistent P t' (log ++ [genesis] ++ [initialGrant]) := by
  obtain ⟨hspace, hgenesisStored, hgrantStored, hgenesis, -, hgrant, rfl, -⟩ := hcreation
  have hop : genesis.operation = request.genesis := by rw [hgenesisStored]
  have hop' : initialGrant.operation = request.initialGrant := by rw [hgrantStored]
  have hsequence : genesis.localSequence = t.lastSequence + 1 := by rw [hgenesisStored]
  have hsequence' : initialGrant.localSequence = genesis.localSequence + 1 := by
    rw [hsequence, hgrantStored]
  obtain ⟨hschema, -, -, -⟩ := genesis_of_verify hvalid.genesisVerified hvalid.genesisBody
  have hfresh : ∀ other ∈ t.spaces, other.spaceId ≠ row.spaceId := by
    intro other hother hsame
    have hclash := hspace.fresh row mem_cons_self other hother
    simp [spaceConstraints, hsame] at hclash
  obtain ⟨hcoherent, hnone⟩ := h.coherent.addSpace hfresh
  have hhome : genesis.space = row.spaceId := by rw [hrow, StoredOperation.space, hop]
  have hhome' : initialGrant.space = row.spaceId := by
    rw [hrow, hvalid.inSpace, StoredOperation.space, hop']
  have hnoHeads : ∀ entityId, currentHeads (withSpace t row) row.spaceId entityId = [] :=
    currentHeads_eq_nil hcoherent.represents hnone
  have hextends : Extends P log genesis := by
    apply hcoherent.extends_of_insertable hgenesis hsequence (hop ▸ hvalid.genesisVerified)
    · intro _ a ha hentity
      exact hnone a ha (hentity.1.trans hhome)
    · rw [hop, hschema]
      intro hclient
      cases hclient
  have hcoherent' : Coherent P (afterInsertion P (withSpace t row) genesis) (log ++ [genesis]) := by
    apply hcoherent.append hgenesis hsequence hextends
    rw [hhome, hnoHeads]
    simp [keptHeads, MAX_ENTITY_HEADS]
  have hextends' : Extends P (log ++ [genesis]) initialGrant := by
    apply hcoherent'.extends_of_insertable hgrant hsequence' (hop' ▸ hvalid.grantVerified)
    · intro _ a ha hentity
      rcases mem_append.mp ha with ha | ha
      · exact hnone a ha (hentity.1.trans hhome')
      · rw [mem_singleton.mp ha] at hentity
        exact hvalid.entity (hop ▸ hop' ▸ hentity.2.symm)
    · rw [hop', hvalid.schema]
      intro hclient
      cases hclient
  refine ⟨hcoherent'.append hgrant hsequence' hextends' ?_, ?_⟩
  · have hother : ¬ (genesis.space = row.spaceId ∧
        genesis.operation.entityId = initialGrant.operation.entityId) := by
      rw [hop, hop']
      exact fun hsame => hvalid.entity hsame.2.symm
    rw [hhome', currentHeads_afterInsertion, hnoHeads, if_neg hother]
    simp [keptHeads, MAX_ENTITY_HEADS]
  · intro existing hexisting
    rcases mem_append.mp hexisting with hexisting | hexisting
    · obtain ⟨a, ha, hrest⟩ := h.anchored existing hexisting
      exact ⟨a, by simp [ha], hrest⟩
    · rw [mem_singleton.mp hexisting]
      refine ⟨genesis, by simp, hhome, ?_, hop ▸ hschema⟩
      rw [hgenesisId, StoredOperation.key, hop]

-- The two ways in which a bootstrap succeeds.
theorem bootstrapTrustedSpace_ok (h : bootstrapTrustedSpace P db request = (db', .ok result)) :
    ∃ grant, ValidBootstrap P request grant ∧
      db'.admissionClock = laterOf db.admissionClock request.receivedAtUnixMs ∧
      ((result.replayed = true ∧ db'.tables = db.tables) ∨
        (loadSpace P db.tables request.genesis.spaceId = .ok none ∧ result.replayed = false ∧
          Creation P db.tables request
            (spaceRow request grant.subject db'.admissionClock) db'.admissionClock
            result.genesis result.initialGrant db'.tables)) := by
  unfold bootstrapTrustedSpace at h
  split at h
  · cases h
  · rename_i grant hvalid
    obtain ⟨hrun, hclock⟩ := transact_ok h
    refine ⟨grant, verifyBootstrap_eq_ok.mp hvalid, hclock, ?_⟩
    rw [← hclock] at hrun
    simp only [establishSpace, bind_eq_ok] at hrun
    obtain ⟨found, hfound, hrun⟩ := hrun
    cases found with
    | some existing =>
      simp only [bind_eq_ok, Except.ok.injEq, Prod.mk.injEq] at hrun
      obtain ⟨replayed, hreplay, htables, rfl⟩ := hrun
      simp only [replayBootstrap, bind_eq_ok, Except.ok.injEq] at hreplay
      obtain ⟨-, -, _, -, _, -, _, -, _, -, _, -, _, -, -, -, _, -, _, -, -, -, rfl⟩ := hreplay
      exact .inl ⟨rfl, htables.symm⟩
    | none =>
      obtain ⟨hcreation, -, hreplayed⟩ := createSpace_eq_ok.mp hrun
      exact .inr ⟨hfound, hreplayed, hcreation⟩

theorem bootstrapTrustedSpace_error (h : bootstrapTrustedSpace P db request = (db', .error error)) :
    db'.tables = db.tables ∧ db.admissionClock.toInt ≤ db'.admissionClock.toInt := by
  unfold bootstrapTrustedSpace at h
  split at h
  · cases h
    exact ⟨rfl, le_rfl⟩
  · exact transact_error h

end Bootstrap

end Fractonica.Store
