import Fractonica.Store.Storability

namespace Fractonica.Store

open Lib Trust Content DataModel Application List

variable {P : Platform}

section Views

variable {now : Int64}

theorem Coherent.view_operation (h : Coherent P t log) (ha : a ∈ log)
    (hread : P.readEnvelope (projectionText P a.operation) = .ok a.operation) :
    (capabilityView P t).operation a.space a.key = .ok (some a.operation) := by
  simp [capabilityView, h.loadStored_complete ha hread, Except.mapError, StoredOperation.space]

theorem genesisBody_of_schema {operation : OperationEnvelope}
    (hverified : operation.verify P.toPrimitives = .ok ())
    (hschema : operation.schema = .spaceGenesis) :
    operation.body = .spaceGenesis operation.actorId := by
  cases hbody : isGenesisBody operation.body with
  | false => exact absurd hschema (schema_ne_genesis hverified hbody)
  | true =>
    cases hcase : operation.body with
    | spaceGenesis controller => rw [(genesis_of_verify hverified hcase).2.1]
    | _ =>
      rw [hcase] at hbody
      cases hbody

-- The genesis of a space is the root of its authority.
theorem Consistent.trustedRoot (h : Consistent P t log) (hrow : row ∈ t.spaces) (ha : a ∈ log)
    (hkey : a.key = row.genesisOperationId)
    (hread : P.readEnvelope (projectionText P a.operation) = .ok a.operation) :
    TrustedRoot P.toPrimitives (capabilityView P t) a.space a.key a.operation := by
  obtain ⟨b, hb, hspace, hgenesis, hschema⟩ := h.anchored row hrow
  obtain rfl := h.coherent.causal.eq_of_key hb ha (hgenesis.trans hkey.symm)
  have hverified := h.coherent.causal.verified b hb
  have hfound : spaceRow? t b.space = some row := by
    rw [hspace]
    exact Table.find?_key h.coherent.spaceIds hrow
  refine ⟨h.coherent.view_operation hb hread, hverified, rfl, rfl, hschema,
    genesisBody_of_schema hverified hschema, ?_⟩
  simp [capabilityView, hfound, hkey]

-- A grant is active while it is in its window and no revocation names it.
theorem Coherent.activeGrant (h : Coherent P t log) (ha : a ∈ log)
    (hread : P.readEnvelope (projectionText P a.operation) = .ok a.operation)
    {grant : CapabilityGrant} (hbody : a.operation.body = .capabilityGrant grant)
    (hunrevoked : ∀ b ∈ log, ∀ revocation ∈ revocationOf b.operation.body,
      revocation.grantId ≠ a.key) (hactive : windowContains grant now = true) :
    ActiveGrant P.toPrimitives (capabilityView P t) now a.space a.key a.operation grant := by
  have hverified := h.causal.verified a ha
  refine ⟨h.view_operation ha hread, hverified, rfl, rfl, (grant_of_verify hverified hbody).1,
    hbody, ?_, hactive⟩
  simp only [capabilityView, Except.ok.injEq, any_eq_false, Bool.and_eq_true,
    decide_eq_true_eq, not_and]
  intro row hrow _
  rw [h.represents.revocations] at hrow
  obtain ⟨b, hb, hrow⟩ := mem_flatMap.mp hrow
  simp only [revocationRows, mem_map, Option.mem_toList] at hrow
  obtain ⟨revocation, hrevocation, rfl⟩ := hrow
  exact hunrevoked b hb revocation hrevocation

-- Different envelopes have different texts, so the text finds its envelope.
theorem find?_text {P : Primitives} {envelopes : List OperationEnvelope}
    (hverified : ∀ e ∈ envelopes, e.verify P = .ok ()) (he : e ∈ envelopes) :
    envelopes.find? (fun other => other.toJson.render P = e.toJson.render P) = some e := by
  cases hfound : envelopes.find? (fun other => other.toJson.render P = e.toJson.render P) with
  | none =>
    have hnone := find?_eq_none.mp hfound e he
    exact absurd (decide_eq_true rfl) hnone
  | some other =>
    have htext := of_decide_eq_true (find?_some hfound :)
    rw [OperationEnvelope.eq_of_text (hverified other (mem_of_find?_eq_some hfound))
      (hverified e he) htext]

end Views

section Firsts

variable {operation : OperationEnvelope} {now : Int64}

theorem entity_eq_nil (h : Represents P t log) (hentity : ∀ a ∈ log, a.space = operation.spaceId →
      a.operation.entityId ≠ operation.entityId) :
    entityOperations t operation.spaceId operation.entityId = [] ∧
      currentHeads t operation.spaceId operation.entityId = [] ∧
      storedVisibility t operation.spaceId operation.entityId = none := by
  refine ⟨?_, ?_, ?_⟩
  · apply filter_eq_nil_iff.mpr
    intro row hrow
    obtain ⟨a, ha, rfl⟩ := h.mem_operations.mp hrow
    rw [Bool.and_eq_true, decide_eq_true_eq, decide_eq_true_eq, not_and]
    exact hentity a ha
  · apply filter_eq_nil_iff.mpr
    intro row hrow
    rw [h.entityHeads] at hrow
    obtain ⟨a, ha, rfl⟩ := mem_map.mp hrow
    rw [Bool.and_eq_true, decide_eq_true_eq, decide_eq_true_eq, not_and]
    exact hentity a (History.mem_heads.mp ha).1
  · rw [storedVisibility, Option.map_eq_none_iff, find?_eq_none]
    intro row hrow
    rw [h.visibility] at hrow
    obtain ⟨a, ha, hrow⟩ := mem_flatMap.mp hrow
    obtain ⟨-, -, hspace, hsame, -⟩ := mem_visibilityRows hrow
    rw [Bool.and_eq_true, decide_eq_true_eq, decide_eq_true_eq, not_and, hspace, hsame]
    exact hentity a ha

-- The first operation of an entity is admitted where its references are known
-- and its author may write it.
theorem Coherent.admits_first (h : Coherent P t log) (hparents : operation.causalParents = [])
    (hentity : ∀ a ∈ log, a.space = operation.spaceId →
      a.operation.entityId ≠ operation.entityId)
    (hreferences : ∀ reference ∈ operation.authorization, ∃ a ∈ log,
      a.key = reference ∧ a.space = operation.spaceId)
    (htombstone : isTombstone operation.body = false)
    (htarget : ∀ revocation ∈ revocationOf operation.body,
      hasGrant t.capabilityGrants operation.spaceId revocation.grantId = true)
    (hdeclared : operation.schema.isClient = operation.body.declaredVisibility.isSome)
    (hauthorized : authorizeOperation P.toPrimitives operation now (capabilityView P t) = .ok ()) :
    ValidAdmission P t operation.spaceId operation now := by
  obtain ⟨hnone, hheads, hstored⟩ := entity_eq_nil h.represents hentity
  refine ⟨?_, ?_, ?_, operation.body.declaredVisibility, ?_, hauthorized⟩
  · rw [validateReferences, hparents, checkAll, ok_bind, checkAll_eq_ok]
    intro reference hreference
    obtain ⟨a, ha, rfl, hspace⟩ := hreferences reference hreference
    exact validateReference_eq_ok.mpr ⟨_, operationRow?_eq_some h ha, hspace⟩
  · rw [validateTopology_eq_ok, hparents, hnone, hheads]
    refine ⟨?_, ?_, fun _ => htombstone, by simp [keptHeads, MAX_ENTITY_HEADS]⟩
    · intro parent hparent
      cases hparent
    · intro hsome
      exact absurd rfl hsome
  · generalize operation.body = body at htarget
    cases body with
    | capabilityRevoke revocation => exact require_eq_ok.mpr (htarget revocation rfl)
    | _ => rfl
  · cases hcase : operation.body.declaredVisibility with
    | none =>
      rw [hcase, Option.isSome_none] at hdeclared
      simp [visibilityForAdmission, hdeclared]
    | some visibility =>
      simp [visibilityForAdmission, hdeclared, hparents, hstored, hcase]

end Firsts

section Submissions

variable {spaceId : SpaceId} {request : SubmitOperationRequest} {now : Int64}

theorem transact_of_ok {tables : Tables} {result : α}
    {transaction : Int64 → Except RepositoryError (Tables × α)}
    (hclock : 0 ≤ db.admissionClock.toInt)
    (h : transaction (laterOf db.admissionClock sampledUnixMs) = .ok (tables, result)) :
    transact db sampledUnixMs transaction =
      (⟨laterOf db.admissionClock sampledUnixMs, tables⟩, .ok result) := by
  have hlater := hclock.trans (le_laterOf db.admissionClock sampledUnixMs).1
  simp [transact, advanceAdmissionClock, readAdmissionClock, hclock, require, hlater,
    laterOf_self, h]

-- A new operation that passes the checks and can be stored is admitted.
theorem Coherent.admit_inserts {operation : OperationEnvelope} (h : Coherent P t log)
    (habsent : ∀ a ∈ log, a.key ≠ operation.operationId)
    (hadmission : ValidAdmission P t spaceId operation now)
    (hins : Insertable P t ⟨t.lastSequence + 1, now, operation⟩) :
    admitOperation P t spaceId operation now =
      .ok (afterInsertion P t ⟨t.lastSequence + 1, now, operation⟩,
        ⟨⟨t.lastSequence + 1, now, operation⟩, false⟩) := by
  have hload := h.loadStored_none.mpr habsent
  have hchecked : validateAdmission P t spaceId operation now = .ok () :=
    validateAdmission_eq_ok.mpr hadmission
  have hinserted := insertOperation_eq_ok.mpr ⟨rfl, hins, rfl⟩
  simp [admitOperation, hload, liftCorrupt, Except.mapError, hchecked, hinserted]

theorem Sound.submit_inserts (h : Sound P db)
    (hnow : now = laterOf db.admissionClock request.receivedAtUnixMs)
    (hvalid : ValidSubmission P db.tables spaceId request)
    (habsent : ∀ a ∈ admitted P db.tables, a.key ≠ request.operation.operationId)
    (hadmission : ValidAdmission P db.tables request.operation.spaceId request.operation now)
    (hins : Insertable P db.tables ⟨db.tables.lastSequence + 1, now, request.operation⟩) :
    submitOperation P db spaceId request =
      (⟨now, afterInsertion P db.tables ⟨db.tables.lastSequence + 1, now, request.operation⟩⟩,
        .ok ⟨⟨db.tables.lastSequence + 1, now, request.operation⟩, false⟩) := by
  have hchecked : validateSubmission P db.tables spaceId request = .ok () :=
    validateSubmission_eq_ok.mpr hvalid
  rw [hvalid.inSpace] at hadmission
  subst hnow
  simp only [submitOperation, hchecked]
  exact transact_of_ok h.clock
    (h.consistent.coherent.admit_inserts habsent hadmission hins)

end Submissions

section Bootstrap

variable {t : Tables} {request : TrustedSpaceBootstrapRequest} {grant : CapabilityGrant}
  {now : Int64} {operation : OperationEnvelope} {controller : ActorId}

theorem spaceRow_checks (hvalid : ValidBootstrap P request grant) (hnow : 0 ≤ now.toInt)
    (hids : request.initialGrant.operationId ≠ request.genesis.operationId) :
    (spaceRow request grant.subject now).checks = true := by
  obtain ⟨signed, payload, hverified⟩ := request.genesis.verify_sound hvalid.genesisVerified
  have hspace : request.genesis.spaceId.bytes ≠ FixedBytes.replicate 32 0 := by
    rw [hverified.spaceId]
    exact payload.valid.space
  have hname : isBoundedLabel request.displayName 128 false = true := hvalid.displayName
  obtain ⟨hlength, hnul⟩ := label_checks hname
  have hwriter := hvalid.writer
  have hcontroller := (genesis_of_verify hvalid.genesisVerified hvalid.genesisBody).2.1
  simp only [isWriterGrant, Bool.and_eq_true, decide_eq_true_eq] at hwriter
  simp only [SpaceRow.checks, Bool.and_eq_true, decide_eq_true_eq]
  refine ⟨⟨⟨⟨⟨⟨⟨⟨⟨⟨isIdentifierText_identifier _, hspace⟩, isIdentifierText_identifier _⟩,
    isIdentifierText_identifier _⟩, isIdentifierText_identifier _⟩, isIdentifierText_identifier _⟩,
    hlength⟩, hnul⟩, hnow⟩, hids⟩, ?_⟩
  change grant.subject ≠ request.genesis.actorId
  rw [← hcontroller]
  exact hwriter.1.1.1.1.1.1.1.1

theorem storable_genesis
    (hbody : operation.body = .spaceGenesis controller) : Storable operation := by
  refine ⟨?_, ?_⟩
  · rw [hbody]
    intro grant hgrant
    cases hgrant
  · rw [hbody]
    intro resource hresource
    cases hresource

theorem storable_of_isWriterGrant (hbody : operation.body = .capabilityGrant grant)
    (hwriter : isWriterGrant controller grant = true) : Storable operation := by
  refine ⟨?_, ?_⟩
  · rw [hbody]
    intro found hfound
    cases hfound
    simp only [isWriterGrant, Bool.and_eq_true, decide_eq_true_eq] at hwriter
    rw [hwriter.1.1.1.1.1.1.1.2]
    decide
  · rw [hbody]
    intro resource hresource
    cases hresource

section Creation

variable {row : SpaceRow} {genesis initialGrant : StoredOperation}
  (hrow : row = spaceRow request grant.subject now)
  (hfirst : genesis = ⟨t.lastSequence + 1, now, request.genesis⟩)
  (hsecond : initialGrant = ⟨t.lastSequence + 2, now, request.initialGrant⟩)

include hrow hfirst

-- The genesis goes into the space that has just been added.
theorem Consistent.insert_genesis (hjson : P.AcceptsJson) (h : Consistent P t log)
    (hvalid : ValidBootstrap P request grant)
    (hspace : ∀ other ∈ t.spaces, other.spaceId ≠ row.spaceId)
    (habsent : ∀ a ∈ log, a.key ≠ genesis.key) (hnow : 0 ≤ now.toInt)
    (hroom : t.lastSequence + 1 < 2 ^ 63) :
    Insertable P (withSpace t row) genesis ∧
      Consistent P (afterInsertion P (withSpace t row) genesis) (log ++ [genesis]) := by
  obtain ⟨hschema, -, hparents, hauthorization⟩ :=
    genesis_of_verify hvalid.genesisVerified hvalid.genesisBody
  obtain ⟨hcoherent, hnone⟩ := h.coherent.addSpace hspace
  have hadded : row ∈ (withSpace t row).spaces := mem_append_right _ mem_cons_self
  subst hrow hfirst
  have hnext : Extends P log ⟨t.lastSequence + 1, now, request.genesis⟩ := by
    refine ⟨hvalid.genesisVerified, ?_, habsent, ?_, ?_, ?_, ?_, ?_⟩
    · intro a ha
      exact Nat.lt_succ_of_le (h.coherent.numbered a ha).2
    · intro parent hparent
      rw [StoredOperation.parents, hparents] at hparent
      cases hparent
    · intro reference hreference
      rw [hauthorization] at hreference
      cases hreference
    · intro a ha hentity
      exact absurd hentity.1 (hnone a ha)
    · intro _ a ha hentity
      exact hnone a ha hentity.1
    · intro hclient
      rw [hschema] at hclient
      cases hclient
  have hplaced : Placed P (withSpace t (spaceRow request grant.subject now))
      ⟨t.lastSequence + 1, now, request.genesis⟩ := by
    refine ⟨⟨_, hadded, rfl⟩, ?_, fun _ => ⟨hparents, hauthorization⟩, ?_, hnow, hroom⟩
    · rw [operationsValidateGenesis, if_pos]
      · rw [require_eq_ok, any_eq_true]
        refine ⟨_, hadded, ?_⟩
        simp [storedRow, operationRow, spaceRow, hschema]
      · simp [storedRow, operationRow, hschema]
    · intro revocation hrevocation
      rw [hvalid.genesisBody] at hrevocation
      cases hrevocation
  have hins := (Store.insertable_iff hjson hcoherent hnext hplaced).mpr
    (storable_genesis hvalid.genesisBody)
  have hheads := currentHeads_eq_nil hcoherent.represents hnone request.genesis.entityId
  refine ⟨hins, hcoherent.append hins rfl hnext ?_, ?_⟩
  · change (keptHeads (currentHeads _ (spaceRow request grant.subject now).spaceId _) _ _).length +
      1 ≤ MAX_ENTITY_HEADS
    rw [hheads]
    simp [keptHeads, MAX_ENTITY_HEADS]
  · intro existing hmem
    rcases mem_append.mp hmem with hmem | hmem
    · obtain ⟨a, ha, hrest⟩ := h.anchored existing hmem
      exact ⟨a, mem_append_left _ ha, hrest⟩
    · rw [mem_singleton.mp hmem]
      exact ⟨_, mem_append_right _ mem_cons_self, rfl, rfl, hschema⟩

include hsecond

theorem Consistent.insert_initialGrant (hjson : P.AcceptsJson)
    (h : Consistent P (afterInsertion P (withSpace t row) genesis) (log ++ [genesis]))
    (hvalid : ValidBootstrap P request grant) (hnone : ∀ a ∈ log, a.space ≠ row.spaceId)
    (habsent : ∀ a ∈ log ++ [genesis], a.key ≠ initialGrant.key) (hnow : 0 ≤ now.toInt)
    (hroom : t.lastSequence + 2 < 2 ^ 63) :
    Insertable P (afterInsertion P (withSpace t row) genesis) initialGrant := by
  have hadded : row ∈ (withSpace t row).spaces := mem_append_right _ mem_cons_self
  have hmem : genesis ∈ log ++ [genesis] := mem_append_right _ mem_cons_self
  subst hrow hfirst hsecond
  have hother : ∀ a ∈ log ++ [⟨t.lastSequence + 1, now, request.genesis⟩],
      ¬ a.SameEntity ⟨t.lastSequence + 2, now, request.initialGrant⟩ := by
    rw [forall_mem_append, forall_mem_singleton]
    refine ⟨fun a ha hentity => hnone a ha (hentity.1.trans hvalid.inSpace.symm), ?_⟩
    exact fun hentity => hvalid.entity hentity.2.symm
  have hnext : Extends P (log ++ [⟨t.lastSequence + 1, now, request.genesis⟩])
      ⟨t.lastSequence + 2, now, request.initialGrant⟩ := by
    refine ⟨hvalid.grantVerified, ?_, habsent, ?_, ?_, ?_, fun _ => hother, ?_⟩
    · intro a ha
      exact Nat.lt_succ_of_le (h.coherent.numbered a ha).2
    · intro parent hparent
      rw [StoredOperation.parents, hvalid.parents] at hparent
      cases hparent
    · intro reference hreference
      rw [hvalid.authorization, mem_singleton] at hreference
      exact ⟨_, hmem, hreference.symm, hvalid.inSpace⟩
    · intro a ha hentity
      exact absurd hentity (hother a ha)
    · intro hclient
      rw [hvalid.schema] at hclient
      cases hclient
  apply (Store.insertable_iff hjson h.coherent hnext ?_).mpr
    (storable_of_isWriterGrant hvalid.grantBody hvalid.writer)
  have hgenesis : isGenesis _ request.initialGrant.spaceId request.initialGrant.operationId =
      false :=
    h.isGenesis_new habsent
  refine ⟨⟨_, hadded, hvalid.inSpace⟩, ?_, ?_, ?_, hnow, hroom⟩
  · apply operationsValidateGenesis_of_other ?_ hgenesis
    change request.initialGrant.schema ≠ .spaceGenesis
    rw [hvalid.schema]
    decide
  · intro hfound
    change isGenesis _ request.initialGrant.spaceId request.initialGrant.operationId =
      true at hfound
    rw [hgenesis] at hfound
    cases hfound
  · intro revocation hrevocation
    rw [hvalid.grantBody] at hrevocation
    cases hrevocation

-- A valid bootstrap of a new space creates it.
theorem Consistent.creation (hjson : P.AcceptsJson) (h : Consistent P t log)
    (hvalid : ValidBootstrap P request grant)
    (hspace : Table.Accepts spaceConstraints t.spaces [row])
    (hgenesis : ∀ a ∈ log, a.key ≠ genesis.key) (hgrant : ∀ a ∈ log, a.key ≠ initialGrant.key)
    (hnow : 0 ≤ now.toInt) (hroom : t.lastSequence + 2 < 2 ^ 63)
    (hread : P.readEnvelope (projectionText P request.genesis) = .ok request.genesis) :
    Creation P t request row now genesis initialGrant
      (afterInsertion P (afterInsertion P (withSpace t row) genesis) initialGrant) := by
  have hchecks := require_eq_ok.mp (hspace.admits _ mem_cons_self)
  simp only [SpaceRow.checks, Bool.and_eq_true, decide_eq_true_eq] at hchecks
  have hids : genesis.key ≠ initialGrant.key := by
    rw [hfirst, hsecond]
    rw [hrow] at hchecks
    exact hchecks.1.2.symm
  have hfresh : ∀ other ∈ t.spaces, other.spaceId ≠ row.spaceId := by
    intro other hother hsame
    have hclash := hspace.fresh row mem_cons_self other hother
    simp [spaceConstraints, hsame] at hclash
  have hnone := (h.coherent.addSpace hfresh).2
  obtain ⟨hinserted, hconsistent⟩ :=
    h.insert_genesis hrow hfirst hjson hvalid hfresh hgenesis hnow (by omega)
  have habsent : ∀ a ∈ log ++ [genesis], a.key ≠ initialGrant.key := by
    rw [forall_mem_append, forall_mem_singleton]
    exact ⟨hgrant, hids⟩
  have hinserted' := hconsistent.insert_initialGrant hrow hfirst hsecond hjson hvalid hnone habsent
    hnow hroom
  have hadded : row ∈ (withSpace t row).spaces := mem_append_right _ mem_cons_self
  have hmem : genesis ∈ log ++ [genesis] := mem_append_right _ mem_cons_self
  have hcontroller := (genesis_of_verify hvalid.genesisVerified hvalid.genesisBody).2.1
  refine ⟨hspace, hfirst, hsecond, hinserted, ?_, hinserted', rfl, ?_⟩
  · have hroot : TrustedRoot P.toPrimitives
        (capabilityView P (afterInsertion P (withSpace t row) genesis))
        request.initialGrant.spaceId genesis.key request.genesis := by
      rw [← hvalid.inSpace]
      subst hrow hfirst
      exact hconsistent.trustedRoot hadded hmem rfl hread
    have hrequired : RequiredAuthority.forOperation request.initialGrant
        request.initialGrant.body.declaredVisibility = .ok (.issue grant) := by
      simp [RequiredAuthority.forOperation, hvalid.schema, hvalid.grantBody,
        OperationBody.isClient]
    have hreferences : request.initialGrant.authorization = [genesis.key] := by
      rw [hvalid.authorization, hfirst]
    exact authorized_of_root hroot hcontroller.symm hreferences hrequired rfl
  · subst hrow hfirst hsecond
    rw [spaceKeysHold, Bool.and_eq_true, any_eq_true, any_eq_true]
    refine ⟨⟨storedRow P ⟨t.lastSequence + 1, now, request.genesis⟩, ?_, ?_⟩,
      ⟨storedGrant request.initialGrant grant, ?_, ?_⟩⟩
    · simp [afterInsertion]
    · simp [storedRow, operationRow, spaceRow]
    · simp [afterInsertion, grantRows, hvalid.grantBody, grantOf]
    · simp [storedGrant, spaceRow, hvalid.inSpace, hcontroller]

end Creation

-- Where there is no space yet, nothing stands in the way.
section Empty

variable {genesis : StoredOperation}

theorem Sound.creation (hjson : P.AcceptsJson) (h : Sound P db) (hempty : db.tables.spaces = [])
    (hvalid : ValidBootstrap P request grant)
    (hids : request.initialGrant.operationId ≠ request.genesis.operationId)
    (hroom : db.tables.lastSequence + 2 < 2 ^ 63)
    (hread : P.readEnvelope (projectionText P request.genesis) = .ok request.genesis)
    (hnow : 0 ≤ now.toInt) (hrow : row = spaceRow request grant.subject now)
    (hfirst : genesis = ⟨db.tables.lastSequence + 1, now, request.genesis⟩)
    (hsecond : initialGrant = ⟨db.tables.lastSequence + 2, now, request.initialGrant⟩) :
    Creation P db.tables request row now genesis initialGrant
      (afterInsertion P (afterInsertion P (withSpace db.tables row) genesis) initialGrant) := by
  have hnone : ∀ a, a ∉ admitted P db.tables := by
    intro a ha
    obtain ⟨home, hhome, -⟩ := h.consistent.coherent.homes a ha
    rw [hempty] at hhome
    cases hhome
  have hspace : Table.Accepts spaceConstraints db.tables.spaces [row] := by
    rw [hempty]
    refine ⟨?_, ?_, ?_, pairwise_singleton _ _⟩
    · rw [forall_mem_singleton, hrow]
      exact require_eq_ok.mpr (spaceRow_checks hvalid hnow hids)
    · rw [forall_mem_singleton]
      rfl
    · intro _ _ other hother
      cases hother
  exact h.consistent.creation hrow hfirst hsecond hjson hvalid hspace
    (fun a ha => absurd ha (hnone a)) (fun a ha => absurd ha (hnone a)) hnow hroom hread

theorem Sound.bootstrap_creates (h : Sound P db) (hempty : db.tables.spaces = [])
    (hvalid : ValidBootstrap P request grant)
    (hnow : now = laterOf db.admissionClock request.receivedAtUnixMs)
    (hrow : row = spaceRow request grant.subject now) {tables : Tables}
    (hcreation : Creation P db.tables request row now genesis initialGrant tables) :
    bootstrapTrustedSpace P db request =
      (⟨now, tables⟩, .ok ⟨spaceDescriptor row, genesis, initialGrant, false⟩) := by
  have hload : loadSpace P db.tables request.genesis.spaceId = .ok none := by
    simp [loadSpace, spaceRow?, hempty]
  have hcreated : createSpace P db.tables request row now =
      .ok (tables, ⟨spaceDescriptor row, genesis, initialGrant, false⟩) :=
    createSpace_eq_ok.mpr ⟨hcreation, rfl, rfl⟩
  rw [bootstrapTrustedSpace, verifyBootstrap_eq_ok.mpr hvalid]
  subst hnow
  apply transact_of_ok h.clock
  simp only [establishSpace, hload, ok_bind]
  rw [← hrow]
  exact hcreated

end Empty

end Bootstrap

section Storability

variable {db : Database} {operation : OperationEnvelope} {now : Int64}

theorem Sound.insertable_iff (hjson : P.AcceptsJson) (h : Sound P db) (hnow : 0 ≤ now.toInt)
    (hverified : operation.verify P.toPrimitives = .ok ())
    (habsent : ∀ a ∈ admitted P db.tables, a.key ≠ operation.operationId)
    (hvalid : ValidAdmission P db.tables operation.spaceId operation now) :
    Insertable P db.tables ⟨db.tables.lastSequence + 1, now, operation⟩ ↔
      Storable operation ∧ db.tables.lastSequence + 1 < 2 ^ 63 := by
  constructor
  · intro hins
    exact ⟨(h.consistent.insertable_iff hjson hverified hvalid habsent hnow hins.room).mp hins,
      hins.room⟩
  · rintro ⟨hstorable, hroom⟩
    exact (h.consistent.insertable_iff hjson hverified hvalid habsent hnow hroom).mpr hstorable

theorem insertOperation_isOk :
    (insertOperation P db.tables operation now).isOk = true ↔
      Insertable P db.tables ⟨db.tables.lastSequence + 1, now, operation⟩ := by
  rw [isOk_iff]
  constructor
  · rintro ⟨⟨tables, stored⟩, hok⟩
    obtain ⟨rfl, hins, -⟩ := insertOperation_eq_ok.mp hok
    exact hins
  · intro hins
    exact ⟨_, insertOperation_eq_ok.mpr ⟨rfl, hins, rfl⟩⟩

theorem Sound.submitOperation_isOk (h : Sound P db) {spaceId : SpaceId}
    {request : SubmitOperationRequest} (hvalid : ValidSubmission P db.tables spaceId request)
    (hnow : now = laterOf db.admissionClock request.receivedAtUnixMs)
    (habsent : ∀ a ∈ admitted P db.tables, a.key ≠ request.operation.operationId)
    (hadmission : ValidAdmission P db.tables request.operation.spaceId request.operation now) :
    (submitOperation P db spaceId request).2.isOk = true ↔
      Insertable P db.tables ⟨db.tables.lastSequence + 1, now, request.operation⟩ := by
  constructor
  · rw [isOk_iff]
    rintro ⟨result, hok⟩
    obtain ⟨-, hadmitted, -⟩ := submitOperation_ok (Prod.ext rfl hok)
    have hload := h.consistent.coherent.loadStored_none.mpr habsent
    rw [← hnow] at hadmitted
    generalize (submitOperation P db spaceId request).1.tables = tables at hadmitted
    cases hadmitted with
    | replay hfound => rw [hload] at hfound; cases hfound
    | insert _ _ hins => exact hins
  · intro hins
    rw [h.submit_inserts hnow hvalid habsent hadmission hins]
    rfl

end Storability

-- An operation that passes the verification, the validation of its references
-- and of its place, and the authorization can be stored exactly if it is
-- storable and there is a sequence number left.
theorem insertion_succeeds_iff_storable (P : Platform) (hjson : P.AcceptsJson) (db : Database)
    (hreachable : Reachable P db) :
    (∀ operation now, 0 ≤ now.toInt → operation.verify P.toPrimitives = .ok () →
      (∀ a ∈ admitted P db.tables, a.key ≠ operation.operationId) →
      ValidAdmission P db.tables operation.spaceId operation now →
        ((insertOperation P db.tables operation now).isOk = true ↔
          Storable operation ∧ db.tables.lastSequence + 1 < 2 ^ 63)) ∧
    ∀ spaceId request, ValidSubmission P db.tables spaceId request →
      (∀ a ∈ admitted P db.tables, a.key ≠ request.operation.operationId) →
      ValidAdmission P db.tables request.operation.spaceId request.operation
        (laterOf db.admissionClock request.receivedAtUnixMs) →
        ((submitOperation P db spaceId request).2.isOk = true ↔
          Storable request.operation ∧ db.tables.lastSequence + 1 < 2 ^ 63) := by
  have hsound := hreachable.sound
  refine ⟨?_, ?_⟩
  · intro operation now hnow hverified habsent hvalid
    rw [insertOperation_isOk]
    exact hsound.insertable_iff hjson hnow hverified habsent hvalid
  · intro spaceId request hsubmission habsent hvalid
    rw [hsound.submitOperation_isOk hsubmission rfl habsent hvalid]
    have hnow := hsound.clock.trans (le_laterOf db.admissionClock request.receivedAtUnixMs).1
    exact hsound.insertable_iff hjson hnow hsubmission.verified habsent hvalid

namespace Sample

open DataModel.Sample (adminGrant occurredAtUnixMs recording spaceId)

theorem acceptsJson (P : Primitives) (envelopes : List OperationEnvelope) :
    (reading P envelopes).AcceptsJson where
  valid _ _ := rfl
  isObject _ _ := rfl

theorem readEnvelope_text {P : Primitives} {envelopes : List OperationEnvelope}
    (hverified : ∀ e ∈ envelopes, e.verify P = .ok ()) (he : e ∈ envelopes) :
    (reading P envelopes).readEnvelope (projectionText (reading P envelopes) e) = .ok e := by
  simp only [reading, projectionText]
  rw [find?_text hverified he]
  rfl

-- The libraries with no strict signatures but the recorded ones.
def strict (samples : List DataModel.Sample) : Primitives :=
  { (recording samples).primitives with
    verifyStrict := fun key message signature =>
      (recording samples).signatures.lookup (key, message) = some signature }

section Strict

variable {samples : List DataModel.Sample}

-- No other envelope verifies with them.
theorem listed {P : Primitives}
    (hstrict : ∀ key message signature, P.verifyStrict key message signature = true →
      (recording samples).signatures.lookup (key, message) = some signature)
    (hverified : ∀ e ∈ samples.map DataModel.Sample.envelope, e.verify P = .ok ())
    (he : e.verify P = .ok ()) : e ∈ samples.map DataModel.Sample.envelope := by
  obtain ⟨signed, payload, hsound⟩ := e.verify_sound he
  obtain ⟨verified, hverifies⟩ := hsound.verified
  obtain ⟨-, found, -, hlength, haccepted, -⟩ := verify_eq_ok.mp hverifies
  obtain ⟨before, after, hsplit, -⟩ :=
    lookup_eq_some_iff.mp (hstrict _ _ _ haccepted)
  have hmem : ((found.actorId.bytes, encoding (signatureValue signed.payload)),
      signed.signature) ∈ (recording samples).signatures := by
    rw [hsplit]
    exact mem_append_right _ mem_cons_self
  obtain ⟨s, hs, hentry⟩ := mem_map.mp hmem
  obtain ⟨hkey, hsignature⟩ := Prod.mk.inj hentry
  have henvelope := mem_map_of_mem (f := DataModel.Sample.envelope) hs
  obtain ⟨own, _, hown⟩ := OperationEnvelope.verify_sound (hverified _ henvelope)
  have hsmall : s.payload.length < USIZE := by
    have hbound := (fromCoseSign1_eq_ok.mp hown.read).2.1
    have hwritten : s.envelope.coseSign1 = coseBytes s.payload s.signature := rfl
    rw [hwritten, length_coseBytes] at hbound
    exact lt_of_le_of_lt (by omega) (lt_of_le_of_lt hbound (by decide))
  have hpayload : s.payload = signed.payload :=
    signatureValue_injective hsmall
      (lt_of_le_of_lt (le_trans (Nat.le_add_right _ _) hlength) (by decide)) (Prod.mk.inj hkey).2
  have hcose : s.envelope.coseSign1 = e.coseSign1 := by
    rw [(fromCoseSign1_eq_ok.mp hsound.read).1, ← hpayload, ← hsignature]
    rfl
  rw [← OperationEnvelope.eq_of_verify (hverified _ henvelope) he hcose]
  exact henvelope

end Strict

theorem verified : ∀ e ∈ envelopes, e.verify platform.toPrimitives = .ok () := by
  rw [envelopes, forall_mem_map]
  exact DataModel.Sample.verifies

-- What the libraries have to do for the space of the samples.
structure Supports (P : Platform) : Prop where
  json : P.AcceptsJson
  genesisVerifies : DataModel.Sample.genesis.envelope.verify P.toPrimitives = .ok ()
  grantVerifies : DataModel.Sample.writerGrant.envelope.verify P.toPrimitives = .ok ()
  genesisReads : P.readEnvelope (projectionText P DataModel.Sample.genesis.envelope) =
    .ok DataModel.Sample.genesis.envelope
  grantReads : P.readEnvelope (projectionText P DataModel.Sample.writerGrant.envelope) =
    .ok DataModel.Sample.writerGrant.envelope

theorem supports : Supports platform where
  json := acceptsJson _ _
  genesisVerifies := DataModel.Sample.genesis_verifies
  grantVerifies := DataModel.Sample.writerGrant_verifies
  genesisReads := readEnvelope_text verified mem_cons_self
  grantReads := readEnvelope_text verified (mem_cons_of_mem _ mem_cons_self)

def spaceOf : SpaceRow :=
  spaceRow bootstrap DataModel.Sample.writer occurredAtUnixMs

def genesis : StoredOperation :=
  ⟨1, occurredAtUnixMs, DataModel.Sample.genesis.envelope⟩

def writerGrant : StoredOperation :=
  ⟨2, occurredAtUnixMs, DataModel.Sample.writerGrant.envelope⟩

-- The store after the bootstrap of the space.
def created (P : Platform) : Database where
  admissionClock := occurredAtUnixMs
  tables := afterInsertion P
    (afterInsertion P (withSpace Database.empty.tables spaceOf) genesis) writerGrant

section Created

variable {P : Platform} (h : Supports P)

include h

theorem validBootstrap : ∃ grant, grant.subject = DataModel.Sample.writer ∧
    ValidBootstrap P bootstrap grant := by
  refine ⟨_, rfl, h.genesisVerifies, h.grantVerifies, by decide, by decide, rfl, rfl, rfl, rfl,
    rfl, rfl, by decide, by decide⟩

theorem creation : ∃ grant, grant.subject = DataModel.Sample.writer ∧
    ValidBootstrap P bootstrap grant ∧
    Creation P Database.empty.tables bootstrap
      (spaceRow bootstrap grant.subject occurredAtUnixMs)
      occurredAtUnixMs genesis writerGrant (created P).tables := by
  obtain ⟨grant, hsubject, hvalid⟩ := validBootstrap h
  have hclock : 0 ≤ occurredAtUnixMs.toInt := by decide
  have hids : bootstrap.initialGrant.operationId ≠ bootstrap.genesis.operationId := by
    decide
  have hcreation := sound_empty.creation h.json rfl hvalid hids (by decide) h.genesisReads hclock
    rfl rfl rfl
  refine ⟨grant, hsubject, hvalid, ?_⟩
  rw [hsubject] at hcreation ⊢
  exact hcreation

theorem bootstrap_created : (bootstrapTrustedSpace P Database.empty bootstrap).1 = created P := by
  obtain ⟨grant, hsubject, hvalid, hcreation⟩ := creation h
  have hnow : occurredAtUnixMs =
      laterOf Database.empty.admissionClock bootstrap.receivedAtUnixMs := by decide
  rw [sound_empty.bootstrap_creates rfl hvalid hnow rfl hcreation]
  rfl

theorem reachable_created : Reachable P (created P) := by
  rw [← bootstrap_created h]
  exact .single (.bootstrap _ _)

theorem admitted_created : admitted P (created P).tables = [genesis, writerGrant] := by
  obtain ⟨grant, -, hvalid, hcreation⟩ := creation h
  exact admitted_create sound_empty hvalid hcreation

theorem consistent_created : Consistent P (created P).tables [genesis, writerGrant] := by
  rw [← admitted_created h]
  exact (reachable_created h).sound.consistent

theorem trustedRoot_created :
    TrustedRoot P.toPrimitives (capabilityView P (created P).tables)
      spaceId DataModel.Sample.genesis.operationId genesis.operation := by
  have hrow : spaceOf ∈ (created P).tables.spaces := mem_cons_self
  exact (consistent_created h).trustedRoot hrow mem_cons_self rfl h.genesisReads

theorem activeGrant_created (now : Int64) : ∃ grant, grant.subject = DataModel.Sample.writer ∧
    permitsAppend grant .record .pub = true ∧ CapabilityAction.readSpace ∈ grant.actions ∧
    ActiveGrant P.toPrimitives (capabilityView P (created P).tables) now
      spaceId DataModel.Sample.writerGrant.operationId writerGrant.operation grant := by
  have hmem : writerGrant ∈ [genesis, writerGrant] := mem_cons_of_mem _ mem_cons_self
  have hunrevoked : ∀ b ∈ [genesis, writerGrant], ∀ revocation ∈ revocationOf b.operation.body,
      revocation.grantId ≠ writerGrant.key := by
    rw [forall_mem_cons, forall_mem_singleton]
    refine ⟨?_, ?_⟩ <;> intro revocation hrevocation <;> cases hrevocation
  exact ⟨_, rfl, by decide, by decide,
    (consistent_created h).coherent.activeGrant hmem h.grantReads rfl hunrevoked rfl⟩

end Created

variable {e : OperationEnvelope}

def submit (e : OperationEnvelope) : SubmitOperationRequest where
  operation := e
  receivedAtUnixMs := occurredAtUnixMs

-- The controller issues another grant, with all six actions.
theorem validAdmission_adminGrant :
    ValidAdmission platform (created platform).tables adminGrant.envelope.spaceId
      adminGrant.envelope occurredAtUnixMs := by
  have hcoherent := (consistent_created supports).coherent
  apply hcoherent.admits_first rfl ?_ ?_ rfl ?_ rfl ?_
  · rw [forall_mem_cons, forall_mem_singleton]
    refine ⟨fun _ => ?_, fun _ => ?_⟩ <;> decide
  · exact forall_mem_singleton.mpr ⟨genesis, mem_cons_self, rfl, rfl⟩
  · intro revocation hrevocation
    cases hrevocation
  · exact authorized_of_root (trustedRoot_created supports) rfl rfl rfl rfl

-- The writer appends a record.
theorem validAdmission_record :
    ValidAdmission platform (created platform).tables DataModel.Sample.record.envelope.spaceId
      DataModel.Sample.record.envelope occurredAtUnixMs := by
  have hcoherent := (consistent_created supports).coherent
  apply hcoherent.admits_first rfl ?_ ?_ rfl ?_ rfl ?_
  · rw [forall_mem_cons, forall_mem_singleton]
    refine ⟨fun _ => ?_, fun _ => ?_⟩ <;> decide
  · exact forall_mem_singleton.mpr
      ⟨writerGrant, mem_cons_of_mem _ mem_cons_self, rfl, rfl⟩
  · intro revocation hrevocation
    cases hrevocation
  · obtain ⟨grant, hsubject, hpermits, -, hactive⟩ :=
      activeGrant_created supports occurredAtUnixMs
    exact authorized_of_grant hactive (trustedRoot_created supports) rfl rfl (by decide)
      hsubject rfl rfl hpermits

theorem validSubmission (he : e ∈ envelopes) (hspace : e.spaceId = spaceId)
    (hbody : isGenesisBody e.body = false) :
    ValidSubmission platform (created platform).tables spaceId (submit e) where
  verified := verified e he
  inSpace := hspace
  received := by
    change 0 ≤ occurredAtUnixMs.toInt
    decide
  notGenesis := hbody
  trusted := by
    have hrow : spaceOf ∈ (created platform).tables.spaces := mem_cons_self
    exact (reachable_created supports).sound.requireSpace_ok hrow

theorem absent_created (hgenesis : genesis.key ≠ e.operationId)
    (hgrant : writerGrant.key ≠ e.operationId) :
    ∀ a ∈ admitted platform (created platform).tables, a.key ≠ e.operationId := by
  rw [admitted_created supports, forall_mem_cons, forall_mem_singleton]
  exact ⟨hgenesis, hgrant⟩

theorem storable_record : Storable DataModel.Sample.record.envelope where
  actions grant hgrant := by cases hgrant
  names resource hresource := by cases hresource

end Sample

open Sample (created envelopes platform reachable_created submit supports verified)

open DataModel.Sample (adminGrant occurredAtUnixMs record spaceId)

theorem insertion_succeeds_record :
    Reachable platform (created platform) ∧
      (insertOperation platform (created platform).tables
        record.envelope occurredAtUnixMs).isOk = true ∧
      (submitOperation platform (created platform) spaceId
        (submit record.envelope)).2.isOk = true := by
  obtain ⟨hinsert, hsubmit⟩ := insertion_succeeds_iff_storable platform
    supports.json
    _ (reachable_created supports)
  have hmem : record.envelope ∈ envelopes := by simp [envelopes]
  have habsent := Sample.absent_created (e := record.envelope)
    (by decide) (by decide)
  have hstorable : Storable record.envelope ∧
      (created platform).tables.lastSequence + 1 < 2 ^ 63 :=
    ⟨Sample.storable_record, by decide⟩
  refine ⟨reachable_created supports, ?_, ?_⟩
  · exact (hinsert _ _ (by decide) (verified _ hmem) habsent
      Sample.validAdmission_record).mpr hstorable
  · exact (hsubmit _ _ (Sample.validSubmission hmem rfl rfl) habsent
      Sample.validAdmission_record).mpr hstorable

-- A grant with six actions passes every check, and its sixth action has no
-- position in the table.
theorem adminGrant_not_stored :
    Reachable platform (created platform) ∧
      ValidSubmission platform (created platform).tables
        spaceId (submit adminGrant.envelope) ∧
      (∀ a ∈ admitted platform (created platform).tables,
        a.key ≠ adminGrant.operationId) ∧
      ValidAdmission platform (created platform).tables
        spaceId adminGrant.envelope
        occurredAtUnixMs ∧
      (insertOperation platform (created platform).tables
        adminGrant.envelope occurredAtUnixMs).isOk = false ∧
      (submitOperation platform (created platform) spaceId
        (submit adminGrant.envelope)).2.isOk = false := by
  have hsound := (reachable_created supports).sound
  have hmem : adminGrant.envelope ∈ envelopes := by
    simp [envelopes]
  have hsubmission := Sample.validSubmission hmem rfl rfl
  have habsent := Sample.absent_created (e := adminGrant.envelope)
    (by decide) (by decide)
  have hnot : ¬ Insertable platform (created platform).tables
      ⟨(created platform).tables.lastSequence + 1, occurredAtUnixMs,
        adminGrant.envelope⟩ := by
    rw [hsound.insertable_iff supports.json (by decide) (verified _ hmem) habsent
      Sample.validAdmission_adminGrant]
    rintro ⟨hstorable, -⟩
    exact absurd (hstorable.actions _ rfl) (by decide)
  refine ⟨reachable_created supports, hsubmission, habsent,
    Sample.validAdmission_adminGrant, ?_, ?_⟩
  · rw [Bool.eq_false_iff, Ne, insertOperation_isOk]
    exact hnot
  · rw [Bool.eq_false_iff, Ne,
      hsound.submitOperation_isOk hsubmission rfl habsent Sample.validAdmission_adminGrant]
    exact hnot

end Fractonica.Store
