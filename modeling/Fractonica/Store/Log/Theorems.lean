import Fractonica.Store.Log
import Mathlib.Data.List.Nodup

namespace Fractonica.Store

open Lib Trust DataModel List

variable {P : Platform}

section Projections

variable {rows : List VisibilityRow} {operation : OperationEnvelope}

-- The row that fixes the visibility of an entity is found whatever follows.
theorem projectionVisibility_append (h : projectionVisibility rows operation = .ok visibility) :
    projectionVisibility (rows ++ more) operation = .ok visibility := by
  unfold projectionVisibility at h ⊢
  cases hdeclared : operation.body.declaredVisibility with
  | some declared =>
    rw [hdeclared] at h
    exact h
  | none =>
    rw [hdeclared] at h
    simp only [okOr_eq_ok, Option.map_eq_some_iff] at h ⊢
    obtain ⟨row, hrow, hvisibility⟩ := h
    exact ⟨row, by rw [find?_append, hrow, Option.some_or], hvisibility⟩

theorem clientProjection_append (h : (clientProjection P rows operation).isOk = true) :
    clientProjection P (rows ++ more) operation = clientProjection P rows operation := by
  obtain ⟨found, hfound⟩ := isOk_iff.mp h
  unfold clientProjection at hfound ⊢
  cases hcolumns : projectionColumns P operation with
  | none => rfl
  | some columns =>
    simp only [hcolumns] at hfound ⊢
    obtain ⟨visibility, hvisibility, -⟩ := bind_eq_ok.mp hfound
    rw [projectionVisibility_append hvisibility, hvisibility]

theorem clientProjection_filter {spaceId : SpaceId} (hspace : operation.spaceId ≠ spaceId) :
    clientProjection P (rows.filter (·.spaceId ≠ spaceId)) operation =
      clientProjection P rows operation := by
  have hfind : (rows.filter (·.spaceId ≠ spaceId)).find? (fun row =>
        row.spaceId = operation.spaceId && row.entityId = operation.entityId &&
          row.schema = operation.schema) =
      rows.find? (fun row => row.spaceId = operation.spaceId &&
        row.entityId = operation.entityId && row.schema = operation.schema) := by
    rw [find?_filter]
    congr 1
    funext row
    by_cases hrow : row.spaceId = operation.spaceId
    · simp [hrow, hspace]
    · simp [hrow]
  have hvisibility : projectionVisibility (rows.filter (·.spaceId ≠ spaceId)) operation =
      projectionVisibility rows operation := by
    unfold projectionVisibility
    rw [hfind]
  unfold clientProjection
  rw [hvisibility]

end Projections

section Spaces

-- Every row that an operation adds belongs to the operation and its space.
variable (operation : OperationEnvelope) {rows : List VisibilityRow}

theorem space_parentRows : ∀ row ∈ parentRows operation, row.spaceId = operation.spaceId :=
  Table.forall_mapIdx fun _ _ _ _ => rfl

theorem owner_parentRows : ∀ row ∈ parentRows operation, row.operationId = operation.operationId :=
  Table.forall_mapIdx fun _ _ _ _ => rfl

theorem space_authorizationRows :
    ∀ row ∈ authorizationRows operation, row.spaceId = operation.spaceId :=
  Table.forall_mapIdx fun _ _ _ _ => rfl

theorem owner_authorizationRows :
    ∀ row ∈ authorizationRows operation, row.operationId = operation.operationId :=
  Table.forall_mapIdx fun _ _ _ _ => rfl

theorem space_visibilityRows :
    ∀ row ∈ visibilityRows operation, row.spaceId = operation.spaceId := by
  intro row hrow
  unfold visibilityRows at hrow
  split at hrow
  · obtain ⟨visibility, -, rfl⟩ := mem_map.mp hrow
    rfl
  · exact absurd hrow not_mem_nil

theorem space_resourceRows : ∀ row ∈ resourceRows operation, row.spaceId = operation.spaceId :=
  Table.forall_mapIdx fun _ _ _ _ => rfl

theorem owner_resourceRows :
    ∀ row ∈ resourceRows operation, row.operationId = operation.operationId :=
  Table.forall_mapIdx fun _ _ _ _ => rfl

theorem space_grantRows : ∀ row ∈ grantRows operation, row.spaceId = operation.spaceId :=
  forall_mem_map.mpr fun _ _ => rfl

theorem owner_grantRows :
    ∀ row ∈ grantRows operation, row.grantOperationId = operation.operationId :=
  forall_mem_map.mpr fun _ _ => rfl

theorem home_grantItemRows (values : CapabilityGrant → List α) :
    ∀ row ∈ grantItemRows operation values,
      row.spaceId = operation.spaceId ∧ row.grantOperationId = operation.operationId := by
  intro row hrow
  obtain ⟨grant, -, hrow⟩ := mem_flatMap.mp hrow
  obtain ⟨index, hindex, rfl⟩ := mem_mapIdx.mp hrow
  exact ⟨rfl, rfl⟩

theorem space_grantItemRows (values : CapabilityGrant → List α) :
    ∀ row ∈ grantItemRows operation values, row.spaceId = operation.spaceId :=
  fun row hrow => (home_grantItemRows operation values row hrow).1

theorem space_revocationRows : ∀ row ∈ revocationRows operation, row.spaceId = operation.spaceId :=
  forall_mem_map.mpr fun _ _ => rfl

theorem owner_revocationRows :
    ∀ row ∈ revocationRows operation, row.revocationOperationId = operation.operationId :=
  forall_mem_map.mpr fun _ _ => rfl

theorem mem_projectionRows {operation : OperationEnvelope} :
    row ∈ projectionRows P operation rows ↔ clientProjection P rows operation = .ok (some row) := by
  unfold projectionRows
  cases hfound : clientProjection P rows operation with
  | error error => simp [Except.toOption]
  | ok found => cases found <;> simp [Except.toOption, eq_comm]

theorem clientProjection_eq_some {operation : OperationEnvelope} :
    clientProjection P rows operation = .ok (some row) ↔
      ∃ columns visibility mediaBytes, projectionColumns P operation = some columns ∧
        projectionVisibility rows operation = .ok visibility ∧
        mediaBytesFrom 0 columns.resources = .ok mediaBytes ∧
        row = projectionRow P operation columns visibility mediaBytes := by
  unfold clientProjection
  cases projectionColumns P operation with
  | none => simp
  | some columns =>
    simp [bind_eq_ok, @eq_comm _ row]

theorem space_projectionRows (rows : List VisibilityRow) :
    ∀ row ∈ projectionRows P operation rows, row.spaceId = operation.spaceId := by
  intro row hrow
  obtain ⟨_, _, _, -, -, -, rfl⟩ := clientProjection_eq_some.mp (mem_projectionRows.mp hrow)
  rfl

end Spaces

section Append

variable {log : Log} {stored : StoredOperation}

-- An operation that the log can take as its next entry.
structure Extends (P : Platform) (log : Log) (stored : StoredOperation) : Prop where
  verified : stored.operation.verify P.toPrimitives = .ok ()
  later : ∀ a ∈ log, a.localSequence < stored.localSequence
  fresh : ∀ a ∈ log, a.key ≠ stored.key
  parents : ∀ parent ∈ stored.parents, ∃ b ∈ log, b.key = parent ∧ b.SameEntity stored ∧
    b.operation.schema = stored.operation.schema
  authorization : ∀ reference ∈ stored.operation.authorization, ∃ b ∈ log,
    b.key = reference ∧ b.space = stored.space
  schemas : ∀ a ∈ log, a.SameEntity stored → a.operation.schema = stored.operation.schema
  first : stored.parents = [] → ∀ a ∈ log, ¬ a.SameEntity stored
  declared : stored.operation.schema.isClient = true → stored.parents = [] →
    stored.operation.body.declaredVisibility.isSome = true

theorem Causal.eq_of_key (h : Causal P log) (ha : a ∈ log) (hb : b ∈ log)
    (hkey : a.key = b.key) : a = b :=
  inj_on_of_nodup_map h.keys ha hb hkey

theorem Causal.append (h : Causal P log) (hnext : Extends P log stored) :
    Causal P (log ++ [stored]) := by
  refine ⟨?_, ?_, ?_, ?_, ?_, ?_, ?_, ?_⟩
  · exact forall_mem_append.mpr ⟨h.verified, by simpa using hnext.verified⟩
  · refine pairwise_append.mpr ⟨h.sequences, pairwise_singleton _ _, ?_⟩
    intro a ha b hb
    rw [mem_singleton.mp hb]
    exact hnext.later a ha
  · rw [map_append]
    refine nodup_append.mpr ⟨h.keys, nodup_singleton _, ?_⟩
    intro key hkey other hother
    obtain ⟨a, ha, rfl⟩ := mem_map.mp hkey
    rw [mem_singleton.mp hother]
    exact hnext.fresh a ha
  · refine forall_mem_append.mpr ⟨?_, ?_⟩
    · intro a ha parent hparent
      obtain ⟨b, hb, hrest⟩ := h.parents a ha parent hparent
      exact ⟨b, mem_append_left _ hb, hrest⟩
    · intro a ha parent hparent
      rw [mem_singleton.mp ha] at hparent ⊢
      obtain ⟨b, hb, hkey, hentity, hschema⟩ := hnext.parents parent hparent
      exact ⟨b, mem_append_left _ hb, hkey, hentity, hschema, hnext.later b hb⟩
  · refine forall_mem_append.mpr ⟨?_, ?_⟩
    · intro a ha reference hreference
      obtain ⟨b, hb, hrest⟩ := h.authorization a ha reference hreference
      exact ⟨b, mem_append_left _ hb, hrest⟩
    · intro a ha reference hreference
      rw [mem_singleton.mp ha] at hreference ⊢
      obtain ⟨b, hb, hkey, hspace⟩ := hnext.authorization reference hreference
      exact ⟨b, mem_append_left _ hb, hkey, hspace, hnext.later b hb⟩
  · intro a ha b hb hentity
    rcases mem_append.mp ha with ha | ha <;> rcases mem_append.mp hb with hb | hb
    · exact h.schemas a ha b hb hentity
    · rw [mem_singleton.mp hb] at hentity ⊢
      exact hnext.schemas a ha hentity
    · rw [mem_singleton.mp ha] at hentity ⊢
      exact (hnext.schemas b hb ⟨hentity.1.symm, hentity.2.symm⟩).symm
    · rw [mem_singleton.mp ha, mem_singleton.mp hb]
  · intro a ha b hb hentity hfirst hsecond
    rcases mem_append.mp ha with ha | ha <;> rcases mem_append.mp hb with hb | hb
    · exact h.origins a ha b hb hentity hfirst hsecond
    · rw [mem_singleton.mp hb] at hentity hsecond
      exact absurd hentity (hnext.first hsecond a ha)
    · rw [mem_singleton.mp ha] at hentity hfirst
      exact absurd ⟨hentity.1.symm, hentity.2.symm⟩ (hnext.first hfirst b hb)
    · rw [mem_singleton.mp ha, mem_singleton.mp hb]
  · exact forall_mem_append.mpr ⟨h.declared, by simpa using hnext.declared⟩

-- The heads that the new operation names are the ones in its own space.
theorem Causal.keptHeads_eq (h : Causal P log) (hnext : Extends P log stored) :
    keptHeads (log.heads.map fun a => headRow a.operation) stored.space stored.parents =
      (log.heads.filter fun a => !stored.parents.contains a.key).map
        fun a => headRow a.operation := by
  rw [keptHeads, filter_map]
  congr 1
  apply filter_congr
  intro a ha
  by_cases hnamed : a.key ∈ stored.parents
  · obtain ⟨b, hb, hkey, hentity, -⟩ := hnext.parents a.key hnamed
    obtain rfl := h.eq_of_key hb (History.mem_heads.mp ha).1 hkey
    simp [headRow, hentity.1, hnamed]
  · simp [headRow, hnamed]

theorem Causal.heads_append (h : Causal P log) (hnext : Extends P log stored) :
    Log.heads (log ++ [stored]) =
      (log.heads.filter fun a => !stored.parents.contains a.key) ++ [stored] := by
  have hfresh : ∀ b ∈ log, stored.key ∉ b.parents := by
    intro b hb hnamed
    obtain ⟨c, hc, hkey, -⟩ := h.parents b hb stored.key hnamed
    exact hnext.fresh c hc hkey
  have hself : stored.key ∉ stored.parents := by
    intro hnamed
    obtain ⟨c, hc, hkey, -⟩ := hnext.parents stored.key hnamed
    exact hnext.fresh c hc hkey
  exact History.heads_append hfresh hself

theorem Represents.append (h : Represents P t log) (hcausal : Causal P log)
    (hprojected : ∀ a ∈ log, (clientProjection P t.clientEntityVisibility a.operation).isOk = true)
    (hnext : Extends P log stored) :
    Represents P (afterInsertion P t stored) (log ++ [stored]) := by
  refine ⟨?_, ?_, ?_, ?_, ?_, ?_, ?_, ?_, ?_, ?_, ?_, ?_, ?_⟩ <;> simp only [afterInsertion,
    flatMap_append, flatMap_singleton, map_append, map_singleton]
  · rw [h.operations]
  · rw [h.operationParents]
  · rw [h.authorizationRefs]
  · rw [h.entityHeads, hcausal.keptHeads_eq hnext, hcausal.heads_append hnext, map_append,
      map_singleton]
  · rw [h.visibility]
  · rw [h.resources]
  · rw [h.grants]
  · rw [h.actions]
  · rw [h.schemas]
  · rw [h.visibilities]
  · rw [h.contentRoles]
  · rw [h.revocations]
  · rw [h.projections]
    congr 1
    apply flatMap_congr
    intro a ha
    rw [projectionRows, projectionRows, clientProjection_append (hprojected a ha)]

end Append

section Constraints

variable {operations : List OperationRow} {spaceId : SpaceId} {entityId : EntityId} {schema :
  EntitySchema} {operationId : OperationId} {operation : OperationEnvelope}

theorem hasOperation_iff :
    hasOperation operations spaceId operationId = true ↔
      ∃ row ∈ operations, row.spaceId = spaceId ∧ row.operationId = operationId := by
  simp [hasOperation]

theorem hasEntityOperation_iff :
    hasEntityOperation operations spaceId entityId schema operationId = true ↔
      ∃ row ∈ operations, row.spaceId = spaceId ∧ row.entityId = entityId ∧
        row.schema = schema ∧ row.operationId = operationId := by
  simp [hasEntityOperation, and_assoc]

theorem hasActorOperation_iff {actorId : ActorId} :
    hasActorOperation operations spaceId operationId actorId schema = true ↔
      ∃ row ∈ operations, row.spaceId = spaceId ∧ row.operationId = operationId ∧
        row.actorId = actorId ∧ row.schema = schema := by
  simp [hasActorOperation, and_assoc]

theorem hasGrant_iff :
    hasGrant grants spaceId operationId = true ↔
      ∃ row ∈ grants, row.spaceId = spaceId ∧ row.grantOperationId = operationId := by
  simp [hasGrant]

theorem isGenesis_iff :
    isGenesis spaces spaceId operationId = true ↔
      ∃ row ∈ spaces, row.spaceId = spaceId ∧ row.genesisOperationId = operationId := by
  simp [isGenesis]

theorem mem_parentRows (h : parent ∈ operation.causalParents) :
    ∃ position, parentRow operation position parent ∈ parentRows operation := by
  obtain ⟨index, hindex, rfl⟩ := getElem_of_mem h
  exact ⟨0 + index, mem_mapIdx.mpr ⟨index, hindex, rfl⟩⟩

theorem mem_authorizationRows (h : reference ∈ operation.authorization) :
    ∃ row ∈ authorizationRows operation, row.spaceId = operation.spaceId ∧
      row.operationId = operation.operationId ∧ row.authorizationOperationId = reference := by
  obtain ⟨index, hindex, rfl⟩ := getElem_of_mem h
  exact ⟨_, mem_mapIdx.mpr ⟨index, hindex, rfl⟩, rfl, rfl, rfl⟩

theorem Insertable.fresh (h : Insertable P t stored) :
    ∀ row ∈ t.operations, row.operationId ≠ stored.key := by
  intro row hrow heq
  have hclash := h.operation.fresh _ mem_cons_self row hrow
  exact of_decide_eq_false hclash heq.symm

theorem Insertable.home (h : Insertable P t stored) :
    ∃ row ∈ t.spaces, row.spaceId = stored.space := by
  have hrefers := h.operation.refers _ mem_cons_self
  simpa [operationConstraints, storedRow, operationRow] using hrefers

theorem Insertable.admits (h : Insertable P t stored) :
    (∀ row ∈ t.operations, row.spaceId = stored.space →
        row.entityId = stored.operation.entityId → row.schema = stored.operation.schema) ∧
      operationsValidateGenesis t.spaces (storedRow P stored) = .ok () ∧
      (storedRow P stored).checks P = true := by
  have hadmits := h.operation.admits _ mem_cons_self
  simp only [operationConstraints, operationsOneSchemaPerEntity, bind_eq_ok, require_eq_ok]
    at hadmits
  obtain ⟨-, hschema, _, hgenesis, hchecks⟩ := hadmits
  refine ⟨?_, hgenesis, hchecks⟩
  intro row hrow hspace hentity
  by_contra hne
  simp only [Bool.not_eq_eq_eq_not, Bool.not_true, any_eq_false] at hschema
  exact hschema row hrow (by simp [hspace, hentity, hne, storedRow, operationRow])

theorem Insertable.genesis (h : Insertable P t stored)
    (hschema : stored.operation.schema = .spaceGenesis) :
    ∃ row ∈ t.spaces, row.spaceId = stored.space ∧ row.genesisOperationId = stored.key := by
  have hgenesis := h.admits.2.1
  rw [operationsValidateGenesis, if_pos (by simp [storedRow, operationRow, hschema]),
    require_eq_ok] at hgenesis
  simp only [any_eq_true, Bool.and_eq_true, decide_eq_true_eq] at hgenesis
  obtain ⟨row, hrow, ⟨⟨hspace, hid⟩, -⟩, -⟩ := hgenesis
  exact ⟨row, hrow, hspace, hid⟩

-- The references of an operation lead to other rows, since no operation may
-- refer to itself.
theorem Insertable.parent (h : Insertable P t stored) {parent : OperationId}
    (hparent : parent ∈ stored.parents) :
    ∃ row ∈ t.operations, row.spaceId = stored.space ∧
      row.entityId = stored.operation.entityId ∧ row.schema = stored.operation.schema ∧
        row.operationId = parent := by
  obtain ⟨position, hmem⟩ := mem_parentRows hparent
  have hadmits := h.parents.admits _ hmem
  have hrefers := h.parents.refers _ hmem
  simp only [parentConstraints, bind_eq_ok, require_eq_ok, Bool.and_eq_true, decide_eq_true_eq]
    at hadmits hrefers
  obtain ⟨row, hrow, hspace, hentity, hschema, hid⟩ := hasEntityOperation_iff.mp hrefers.2
  rcases mem_append.mp hrow with hrow | hrow
  · exact ⟨row, hrow, hspace, hentity, hschema, hid⟩
  · rw [mem_singleton.mp hrow] at hid
    exact absurd hid hadmits.choose_spec.2.2

theorem Insertable.reference (h : Insertable P t stored) {reference : OperationId}
    (hreference : reference ∈ stored.operation.authorization) :
    ∃ row ∈ t.operations, row.spaceId = stored.space ∧ row.operationId = reference := by
  obtain ⟨new, hmem, hspace, hid, rfl⟩ := mem_authorizationRows hreference
  have hadmits := h.authorization.admits _ hmem
  have hrefers := h.authorization.refers _ hmem
  simp only [authorizationConstraints, bind_eq_ok, require_eq_ok, Bool.and_eq_true,
    decide_eq_true_eq] at hadmits hrefers
  obtain ⟨row, hrow, hrowSpace, hrowId⟩ := hasOperation_iff.mp hrefers.2
  rcases mem_append.mp hrow with hrow | hrow
  · exact ⟨row, hrow, hrowSpace.trans hspace, hrowId⟩
  · rw [mem_singleton.mp hrow] at hrowId
    exact absurd (hid.trans hrowId) hadmits.choose_spec.2.2

end Constraints

section Insertion

variable {t' : Tables}

theorem Represents.mem_operations (h : Represents P t log) :
    row ∈ t.operations ↔ ∃ a ∈ log, storedRow P a = row := by
  rw [h.operations, mem_map]

-- The three conditions are the ones that the schema does not enforce.
theorem Coherent.extends_of_insertable (h : Coherent P t log) (hins : Insertable P t stored)
    (hsequence : stored.localSequence = t.lastSequence + 1)
    (hverified : stored.operation.verify P.toPrimitives = .ok ())
    (hfirst : stored.parents = [] → ∀ a ∈ log, ¬ a.SameEntity stored)
    (hdeclared : stored.operation.schema.isClient = true → stored.parents = [] →
      stored.operation.body.declaredVisibility.isSome = true) : Extends P log stored := by
  refine ⟨hverified, ?_, ?_, ?_, ?_, ?_, hfirst, hdeclared⟩
  · intro a ha
    have hle := (h.numbered a ha).2
    omega
  · intro a ha
    exact hins.fresh _ (h.represents.mem_operations.mpr ⟨a, ha, rfl⟩)
  · intro parent hparent
    obtain ⟨row, hrow, hspace, hentity, hschema, hid⟩ := hins.parent hparent
    obtain ⟨a, ha, rfl⟩ := h.represents.mem_operations.mp hrow
    exact ⟨a, ha, hid, ⟨hspace, hentity⟩, hschema⟩
  · intro reference hreference
    obtain ⟨row, hrow, hspace, hid⟩ := hins.reference hreference
    obtain ⟨a, ha, rfl⟩ := h.represents.mem_operations.mp hrow
    exact ⟨a, ha, hid, hspace⟩
  · intro a ha hentity
    exact hins.admits.1 _ (h.represents.mem_operations.mpr ⟨a, ha, rfl⟩) hentity.1 hentity.2

-- The number of heads of an entity after the insertion.
theorem currentHeads_afterInsertion (spaceId : SpaceId) (entityId : EntityId) :
    currentHeads (afterInsertion P t stored) spaceId entityId =
      keptHeads (currentHeads t spaceId entityId) stored.space stored.parents ++
        if stored.space = spaceId ∧ stored.operation.entityId = entityId
        then [headRow stored.operation] else [] := by
  simp only [currentHeads, keptHeads, afterInsertion, filter_append, filter_filter,
    filter_cons, filter_nil, headRow, Bool.and_eq_true, decide_eq_true_eq]
  congr 1
  apply filter_congr
  intro row _
  exact Bool.and_comm _ _

theorem Coherent.append (h : Coherent P t log) (hins : Insertable P t stored)
    (hsequence : stored.localSequence = t.lastSequence + 1) (hnext : Extends P log stored)
    (hheads : (keptHeads (currentHeads t stored.space stored.operation.entityId) stored.space
      stored.parents).length + 1 ≤ MAX_ENTITY_HEADS) :
    Coherent P (afterInsertion P t stored) (log ++ [stored]) := by
  refine ⟨h.represents.append h.causal h.projected hnext, h.causal.append hnext, ?_, hins.room,
    ?_, ?_, h.spaceIds, ?_, ?_⟩
  · refine forall_mem_append.mpr ⟨?_, ?_⟩
    · intro a ha
      have hnumbered := h.numbered a ha
      simp only [afterInsertion]
      omega
    · intro a ha
      rw [mem_singleton.mp ha]
      simp only [afterInsertion]
      omega
  · refine forall_mem_append.mpr ⟨?_, ?_⟩
    · intro a ha
      have hold := h.projected a ha
      rw [afterInsertion, clientProjection_append hold]
      exact hold
    · intro a ha
      rw [mem_singleton.mp ha]
      exact hins.projected
  · intro spaceId entityId
    rw [currentHeads_afterInsertion, length_append]
    have hkept : (keptHeads (currentHeads t spaceId entityId) stored.space
        stored.parents).length ≤ (currentHeads t spaceId entityId).length :=
      length_filter_le _ _
    have hbound := h.headBound spaceId entityId
    by_cases hentity : stored.space = spaceId ∧ stored.operation.entityId = entityId
    · obtain ⟨rfl, rfl⟩ := hentity
      rw [if_pos ⟨rfl, rfl⟩, length_singleton]
      exact hheads
    · rw [if_neg hentity, length_nil]
      omega
  · refine forall_mem_append.mpr ⟨h.homes, ?_⟩
    intro a ha
    rw [mem_singleton.mp ha]
    exact hins.home
  · refine forall_mem_append.mpr ⟨h.genesis, ?_⟩
    intro a ha hschema
    rw [mem_singleton.mp ha] at hschema ⊢
    exact hins.genesis hschema

end Insertion

section Deletion

variable {log : Log} {spaceId : SpaceId}

def Log.without (log : Log) (spaceId : SpaceId) : Log := log.filter (·.space ≠ spaceId)

theorem Log.mem_without : a ∈ log.without spaceId ↔ a ∈ log ∧ a.space ≠ spaceId := by
  simp [Log.without]

theorem Causal.without (h : Causal P log) (spaceId : SpaceId) : Causal P (log.without spaceId) := by
  have hsub : (log.without spaceId).Sublist log := filter_sublist
  refine ⟨?_, h.sequences.sublist hsub, h.keys.sublist (hsub.map _), ?_, ?_, ?_, ?_, ?_⟩
  · intro a ha
    exact h.verified a (hsub.subset ha)
  · intro a ha parent hparent
    obtain ⟨hmem, hspace⟩ := Log.mem_without.mp ha
    obtain ⟨b, hb, hkey, hentity, hrest⟩ := h.parents a hmem parent hparent
    exact ⟨b, Log.mem_without.mpr ⟨hb, hentity.1 ▸ hspace⟩, hkey, hentity, hrest⟩
  · intro a ha reference hreference
    obtain ⟨hmem, hspace⟩ := Log.mem_without.mp ha
    obtain ⟨b, hb, hkey, hsame, hlt⟩ := h.authorization a hmem reference hreference
    exact ⟨b, Log.mem_without.mpr ⟨hb, hsame ▸ hspace⟩, hkey, hsame, hlt⟩
  · intro a ha b hb
    exact h.schemas a (hsub.subset ha) b (hsub.subset hb)
  · intro a ha b hb
    exact h.origins a (hsub.subset ha) b (hsub.subset hb)
  · intro a ha
    exact h.declared a (hsub.subset ha)

-- The children of an operation are in its space.
theorem Causal.heads_without (h : Causal P log) :
    Log.heads (log.without spaceId) = log.heads.filter (·.space ≠ spaceId) := by
  apply History.heads_filter
  intro a ha b hb hkeep hnamed
  obtain ⟨c, hc, hkey, hentity, -⟩ := h.parents b hb a.key hnamed
  obtain rfl := h.eq_of_key hc ha hkey
  rw [← hentity.1]
  exact hkeep

theorem Represents.without (h : Represents P t log) (hcausal : Causal P log) :
    Represents P (t.withoutSpace spaceId) (log.without spaceId) := by
  have hfilter : ∀ {Row : Type} (rowsOf : StoredOperation → List Row) (space : Row → SpaceId),
      (∀ a, ∀ row ∈ rowsOf a, space row = a.space) →
        (log.flatMap rowsOf).filter (fun row => decide (space row ≠ spaceId)) =
          (log.without spaceId).flatMap rowsOf := fun rowsOf space hspace =>
    Table.filter_flatMap hspace (fun key => decide (key ≠ spaceId)) log
  refine ⟨?_, ?_, ?_, ?_, ?_, ?_, ?_, ?_, ?_, ?_, ?_, ?_, ?_⟩ <;> simp only [Tables.withoutSpace]
  · rw [h.operations, filter_map]
    rfl
  · rw [h.operationParents]
    exact hfilter _ _ fun a => space_parentRows a.operation
  · rw [h.authorizationRefs]
    exact hfilter _ _ fun a => space_authorizationRows a.operation
  · rw [h.entityHeads, filter_map, hcausal.heads_without]
    rfl
  · rw [h.visibility]
    exact hfilter _ _ fun a => space_visibilityRows a.operation
  · rw [h.resources]
    exact hfilter _ _ fun a => space_resourceRows a.operation
  · rw [h.grants]
    exact hfilter _ _ fun a => space_grantRows a.operation
  · rw [h.actions]
    exact hfilter _ _ fun a => space_grantItemRows a.operation _
  · rw [h.schemas]
    exact hfilter _ _ fun a => space_grantItemRows a.operation _
  · rw [h.visibilities]
    exact hfilter _ _ fun a => space_grantItemRows a.operation _
  · rw [h.contentRoles]
    exact hfilter _ _ fun a => space_grantItemRows a.operation _
  · rw [h.revocations]
    exact hfilter _ _ fun a => space_revocationRows a.operation
  · rw [h.projections, hfilter _ ProjectionRow.spaceId fun a => space_projectionRows a.operation _]
    apply flatMap_congr
    intro a ha
    rw [projectionRows, projectionRows, clientProjection_filter (Log.mem_without.mp ha).2]

theorem Coherent.without (h : Coherent P t log) :
    Coherent P (t.withoutSpace spaceId) (log.without spaceId) := by
  refine ⟨h.represents.without h.causal, h.causal.without spaceId, ?_, h.room, ?_, ?_, ?_, ?_, ?_⟩
  · intro a ha
    exact h.numbered a (Log.mem_without.mp ha).1
  · intro a ha
    obtain ⟨hmem, hspace⟩ := Log.mem_without.mp ha
    simp only [Tables.withoutSpace]
    rw [clientProjection_filter hspace]
    exact h.projected a hmem
  · intro other entityId
    have hsub : (currentHeads (t.withoutSpace spaceId) other entityId).Sublist
        (currentHeads t other entityId) := filter_sublist.filter _
    exact hsub.length_le.trans (h.headBound other entityId)
  · exact h.spaceIds.sublist (filter_sublist.map _)
  · intro a ha
    obtain ⟨hmem, hspace⟩ := Log.mem_without.mp ha
    obtain ⟨row, hrow, hhome⟩ := h.homes a hmem
    exact ⟨row, mem_filter.mpr ⟨hrow, decide_eq_true (hhome ▸ hspace)⟩, hhome⟩
  · intro a ha hschema
    obtain ⟨hmem, hspace⟩ := Log.mem_without.mp ha
    obtain ⟨row, hrow, hhome, hid⟩ := h.genesis a hmem hschema
    exact ⟨row, mem_filter.mpr ⟨hrow, decide_eq_true (hhome ▸ hspace)⟩, hhome, hid⟩

theorem Anchored.without (h : Anchored t log) :
    Anchored (t.withoutSpace spaceId) (log.without spaceId) := by
  intro row hrow
  obtain ⟨hmem, hspace⟩ := mem_filter.mp hrow
  obtain ⟨a, ha, hhome, hrest⟩ := h row hmem
  have hkept : a.space ≠ spaceId := hhome ▸ of_decide_eq_true hspace
  exact ⟨a, Log.mem_without.mpr ⟨ha, hkept⟩, hhome, hrest⟩

end Deletion

theorem coherent_empty : Coherent P Tables.empty [] := by
  refine ⟨⟨rfl, rfl, rfl, rfl, rfl, rfl, rfl, rfl, rfl, rfl, rfl, rfl, rfl⟩, ?_, by simp, by decide,
    by simp, ?_, nodup_nil, by simp, by simp⟩
  · exact ⟨by simp, .nil, nodup_nil, by simp, by simp, by simp, by simp, by simp⟩
  · intro spaceId entityId
    exact Nat.zero_le _

-- A new space has no operations yet.
theorem Coherent.addSpace (h : Coherent P t log)
    (hfresh : ∀ other ∈ t.spaces, other.spaceId ≠ row.spaceId) :
    Coherent P (withSpace t row) log ∧ ∀ a ∈ log, a.space ≠ row.spaceId := by
  refine ⟨⟨?_, h.causal, h.numbered, h.room, h.projected, h.headBound, ?_, ?_, ?_⟩, ?_⟩
  · obtain ⟨h1, h2, h3, h4, h5, h6, h7, h8, h9, h10, h11, h12, h13⟩ := h.represents
    exact ⟨h1, h2, h3, h4, h5, h6, h7, h8, h9, h10, h11, h12, h13⟩
  · rw [withSpace, map_append]
    refine nodup_append.mpr ⟨h.spaceIds, nodup_singleton _, ?_⟩
    intro id hid other hother
    obtain ⟨existing, hexisting, rfl⟩ := mem_map.mp hid
    rw [mem_singleton.mp hother]
    exact hfresh existing hexisting
  · intro a ha
    obtain ⟨home, hhome, hspace⟩ := h.homes a ha
    exact ⟨home, mem_append_left _ hhome, hspace⟩
  · intro a ha hschema
    obtain ⟨home, hhome, hspace⟩ := h.genesis a ha hschema
    exact ⟨home, mem_append_left _ hhome, hspace⟩
  · intro a ha hspace
    obtain ⟨home, hhome, hsame⟩ := h.homes a ha
    exact hfresh home hhome (hsame.trans hspace)

end Fractonica.Store
