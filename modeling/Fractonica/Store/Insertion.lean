import Fractonica.Store.Repository

namespace Fractonica.Store

open Lib Trust Content DataModel Application List

section DerivedRows

-- The rows that one operation adds to the tables.
variable (P : Platform) (operation : OperationEnvelope)

def payloadOf : List UInt8 := (canonicalPayload P operation).toOption.getD []

def storedRow (stored : StoredOperation) : OperationRow :=
  operationRow P stored.operation (payloadOf P stored.operation) stored.localSequence
    stored.receivedAtUnixMs

def parentRowsFrom (position : Nat) (parents : List OperationId) : List ParentRow :=
  parents.mapIdx fun index parent => parentRow operation (position + index) parent

def parentRows : List ParentRow := parentRowsFrom operation 0 operation.causalParents

def projectionRows (rows : List VisibilityRow) : List ProjectionRow :=
  (clientProjection P rows operation).toOption.join.toList

def i64Value (value : UInt64) : Int64 := Int64.ofInt value.toNat

def storedResource (position : Nat) (resource : ResourceRef) : ResourceRow where
  spaceId := operation.spaceId
  operationId := operation.operationId
  position := position
  contentId := resource.contentId
  byteLength := i64Value resource.byteLength
  mediaType := resource.mediaType
  role := resource.role
  originalName := resource.originalName

def resourceRowsFrom (position : Nat) (resources : List ResourceRef) : List ResourceRow :=
  resources.mapIdx fun index resource => storedResource operation (position + index) resource

def resourceRows : List ResourceRow := resourceRowsFrom operation 0 operation.body.resources

def grantOf : OperationBody → Option CapabilityGrant
  | .capabilityGrant grant => some grant
  | _ => none

def revocationOf : OperationBody → Option CapabilityRevocation
  | .capabilityRevoke revocation => some revocation
  | _ => none

def storedGrant (grant : CapabilityGrant) : GrantRow where
  spaceId := operation.spaceId
  grantOperationId := operation.operationId
  issuerActorId := operation.actorId
  subjectActorId := grant.subject
  delegationDepth := grant.delegationDepth
  notBeforeUnixMs := grant.notBeforeUnixMs
  expiresAtUnixMs := grant.expiresAtUnixMs
  maxResourceByteLength := grant.maxResourceByteLength.map i64Value
  label := grant.label

def grantRows : List GrantRow := (grantOf operation.body).toList.map (storedGrant operation)

def grantItemRows {α : Type} (values : CapabilityGrant → List α) : List (GrantItemRow α) :=
  (grantOf operation.body).toList.flatMap fun grant => itemRows operation (values grant)

def revocationRows : List RevocationRow :=
  (revocationOf operation.body).toList.map (revocationRow operation)

end DerivedRows

-- The heads that an operation leaves to the others.
def keptHeads (heads : List HeadRow) (spaceId : SpaceId) (parents : List OperationId) :
    List HeadRow :=
  heads.filter fun row => !(row.spaceId = spaceId && parents.contains row.operationId)

-- The tables after the insertion of an operation.
def afterInsertion (P : Platform) (t : Tables) (stored : StoredOperation) : Tables :=
  let operation := stored.operation
  let visibility := t.clientEntityVisibility ++ visibilityRows operation
  { spaces := t.spaces
    operations := t.operations ++ [storedRow P stored]
    lastSequence := stored.localSequence
    operationParents := t.operationParents ++ parentRows operation
    operationAuthorizationRefs := t.operationAuthorizationRefs ++ authorizationRows operation
    entityHeads := keptHeads t.entityHeads operation.spaceId operation.causalParents ++
      [headRow operation]
    clientEntityVisibility := visibility
    operationResources := t.operationResources ++ resourceRows operation
    capabilityGrants := t.capabilityGrants ++ grantRows operation
    capabilityGrantActions :=
      t.capabilityGrantActions ++ grantItemRows operation CapabilityGrant.actions
    capabilityGrantSchemaScopes :=
      t.capabilityGrantSchemaScopes ++ grantItemRows operation CapabilityGrant.schemas
    capabilityGrantVisibilities :=
      t.capabilityGrantVisibilities ++ grantItemRows operation CapabilityGrant.visibilities
    capabilityGrantContentRoles :=
      t.capabilityGrantContentRoles ++ grantItemRows operation CapabilityGrant.contentRoles
    capabilityGrantRevocations := t.capabilityGrantRevocations ++ revocationRows operation
    clientOperationProjections :=
      t.clientOperationProjections ++ projectionRows P operation visibility }

section Parts

variable {t : Tables} {operation : OperationEnvelope} {payload : List UInt8} {position : Nat}
  {grant : CapabilityGrant}

theorem payloadOf_eq (h : canonicalPayload P operation = .ok payload) :
    payloadOf P operation = payload := by
  rw [payloadOf, h]
  rfl

theorem insertOperationRow_eq_ok {now : Int64} :
    insertOperationRow P t operation payload now = .ok t' ↔
      t.lastSequence + 1 < 2 ^ 63 ∧
        Table.Accepts (operationConstraints P t.spaces t.operations) t.operations
          [operationRow P operation payload (t.lastSequence + 1) now] ∧
        t' = { t with
          operations :=
            t.operations ++ [operationRow P operation payload (t.lastSequence + 1) now]
          lastSequence := t.lastSequence + 1 } := by
  simp [insertOperationRow, bind_eq_ok, Table.insert_eq_ok, exists_only,
    @eq_comm _ t']

theorem insertVisibility_eq_ok :
    insertVisibility t operation = .ok t' ↔
      Table.Accepts (visibilityConstraints t.operations) t.clientEntityVisibility
          (visibilityRows operation) ∧
        t' = { t with
          clientEntityVisibility := t.clientEntityVisibility ++ visibilityRows operation } := by
  simp [insertVisibility, bind_eq_ok, Table.insertAll_eq_ok, exists_only, @eq_comm _ t']

theorem insertClientProjection_eq_ok :
    insertClientProjection P t operation = .ok t' ↔
      (clientProjection P t.clientEntityVisibility operation).isOk = true ∧
        Table.Accepts (projectionConstraints P t.operations) t.clientOperationProjections
          (projectionRows P operation t.clientEntityVisibility) ∧
        t' = { t with
          clientOperationProjections := t.clientOperationProjections ++
            projectionRows P operation t.clientEntityVisibility } := by
  simp only [insertClientProjection, bind_eq_ok, liftStorage_eq_ok, Table.insertAll_eq_ok,
    Except.ok.injEq, isOk_iff]
  constructor
  · rintro ⟨found, hfound, _, ⟨haccepts, rfl⟩, rfl⟩
    have hrows : projectionRows P operation t.clientEntityVisibility = found.toList := by
      rw [projectionRows, hfound]
      rfl
    rw [hrows]
    exact ⟨⟨found, hfound⟩, haccepts, rfl⟩
  · rintro ⟨⟨found, hfound⟩, haccepts, rfl⟩
    have hrows : projectionRows P operation t.clientEntityVisibility = found.toList := by
      rw [projectionRows, hfound]
      rfl
    rw [hrows] at haccepts ⊢
    exact ⟨found, hfound, _, ⟨haccepts, rfl⟩, rfl⟩

theorem parentRowsFrom_cons (position : Nat) (parent : OperationId) (rest : List OperationId) :
    parentRowsFrom operation position (parent :: rest) =
      parentRow operation position parent :: parentRowsFrom operation (position + 1) rest := by
  simp [parentRowsFrom, Nat.add_assoc, Nat.add_comm 1]

theorem keptHeads_nil (heads : List HeadRow) (spaceId : SpaceId) :
    keptHeads heads spaceId [] = heads := by
  simp [keptHeads]

theorem keptHeads_cons (heads : List HeadRow) (spaceId : SpaceId) (parent : OperationId)
    (rest : List OperationId) :
    keptHeads (heads.filter fun row => !(row.spaceId = spaceId && row.operationId = parent))
        spaceId rest = keptHeads heads spaceId (parent :: rest) := by
  simp only [keptHeads, filter_filter]
  apply filter_congr
  intro row _
  by_cases hspace : row.spaceId = spaceId
  · by_cases hparent : row.operationId = parent
    · simp [hspace, hparent]
    · simp [hspace, hparent]
  · simp [hspace]

theorem insertParents_eq_ok {parents : List OperationId} :
    insertParents operation position parents t = .ok t' ↔
      Table.Accepts (parentConstraints t.spaces t.operations) t.operationParents
          (parentRowsFrom operation position parents) ∧
        t' = { t with
          operationParents := t.operationParents ++ parentRowsFrom operation position parents
          entityHeads := keptHeads t.entityHeads operation.spaceId parents } := by
  induction parents generalizing position t with
  | nil =>
    simp only [insertParents, parentRowsFrom, mapIdx_nil, append_nil, keptHeads_nil,
      Except.ok.injEq]
    exact ⟨fun h => ⟨Table.accepts_nil, h.symm⟩, fun h => h.2.symm⟩
  | cons parent rest ih =>
    rw [insertParents, bind_eq_ok, parentRowsFrom_cons, Table.accepts_cons, ← keptHeads_cons]
    constructor
    · rintro ⟨rows, hrows, hrest⟩
      obtain ⟨hone, rfl⟩ := Table.insert_eq_ok.mp (liftStorage_eq_ok.mp hrows)
      obtain ⟨hothers, rfl⟩ := ih.mp hrest
      exact ⟨⟨hone, hothers⟩, by simp⟩
    · rintro ⟨⟨hone, hothers⟩, rfl⟩
      refine ⟨_, liftStorage_eq_ok.mpr (Table.insert_eq_ok.mpr ⟨hone, rfl⟩), ih.mpr ?_⟩
      exact ⟨hothers, by simp⟩

theorem insertAuthorization_eq_ok :
    insertAuthorization t operation = .ok t' ↔
      Table.Accepts (authorizationConstraints t.spaces t.operations) t.operationAuthorizationRefs
          (authorizationRows operation) ∧
        t' = { t with
          operationAuthorizationRefs :=
            t.operationAuthorizationRefs ++ authorizationRows operation } := by
  simp [insertAuthorization, bind_eq_ok, Table.insertAll_eq_ok, exists_only, @eq_comm _ t']

theorem insertHead_eq_ok :
    insertHead t operation = .ok t' ↔
      Table.Accepts (headConstraints t.operations) t.entityHeads [headRow operation] ∧
        t' = { t with entityHeads := t.entityHeads ++ [headRow operation] } := by
  simp [insertHead, bind_eq_ok, Table.insert_eq_ok, exists_only, @eq_comm _ t']

theorem i64OfU64_eq_ok {value : UInt64} :
    i64OfU64 value detail = .ok result ↔ value.toNat < 2 ^ 63 ∧ result = i64Value value := by
  unfold i64OfU64
  by_cases hsmall : value.toNat < 2 ^ 63
  · rw [if_pos hsmall, Except.ok.injEq]
    exact ⟨fun h => ⟨hsmall, h.symm⟩, fun h => h.2.symm⟩
  · rw [if_neg hsmall]
    constructor
    · intro h
      cases h
    · intro h
      exact absurd h.1 hsmall

theorem resourceRow_eq_ok {resource : ResourceRef} :
    resourceRow operation position resource = .ok row ↔
      resource.byteLength.toNat < 2 ^ 63 ∧ row = storedResource operation position resource := by
  simp only [resourceRow, bind_eq_ok, i64OfU64_eq_ok, Except.ok.injEq, exists_only,
    @eq_comm _ row]
  rfl

theorem resourceRowsFrom_cons (position : Nat) (resource : ResourceRef) (rest : List ResourceRef) :
    resourceRowsFrom operation position (resource :: rest) =
      storedResource operation position resource ::
        resourceRowsFrom operation (position + 1) rest := by
  simp [resourceRowsFrom, Nat.add_assoc, Nat.add_comm 1]

theorem insertResources_eq_ok {resources : List ResourceRef} :
    insertResources operation position resources t = .ok t' ↔
      (∀ resource ∈ resources, resource.byteLength.toNat < 2 ^ 63) ∧
        Table.Accepts (resourceConstraints t.operations) t.operationResources
          (resourceRowsFrom operation position resources) ∧
        t' = { t with
          operationResources :=
            t.operationResources ++ resourceRowsFrom operation position resources } := by
  induction resources generalizing position t with
  | nil =>
    simp only [insertResources, resourceRowsFrom, mapIdx_nil, append_nil,
      Except.ok.injEq]
    exact ⟨fun h => ⟨by simp, Table.accepts_nil, h.symm⟩, fun h => h.2.2.symm⟩
  | cons resource rest ih =>
    rw [insertResources, bind_eq_ok, resourceRowsFrom_cons, Table.accepts_cons,
      forall_mem_cons]
    constructor
    · rintro ⟨row, hrow, hnext⟩
      obtain ⟨hsmall, rfl⟩ := resourceRow_eq_ok.mp hrow
      obtain ⟨rows, hrows, hrest⟩ := bind_eq_ok.mp hnext
      obtain ⟨hone, rfl⟩ := Table.insert_eq_ok.mp (liftStorage_eq_ok.mp hrows)
      obtain ⟨hsmalls, hothers, rfl⟩ := ih.mp hrest
      exact ⟨⟨hsmall, hsmalls⟩, ⟨hone, hothers⟩, by simp⟩
    · rintro ⟨⟨hsmall, hsmalls⟩, ⟨hone, hothers⟩, rfl⟩
      refine ⟨_, resourceRow_eq_ok.mpr ⟨hsmall, rfl⟩, bind_eq_ok.mpr ⟨_,
        liftStorage_eq_ok.mpr (Table.insert_eq_ok.mpr ⟨hone, rfl⟩), ih.mpr ?_⟩⟩
      exact ⟨hsmalls, hothers, by simp⟩

theorem grantRow_eq_ok :
    grantRow operation grant = .ok row ↔
      (∀ most ∈ grant.maxResourceByteLength, most.toNat < 2 ^ 63) ∧
        row = storedGrant operation grant := by
  unfold grantRow storedGrant
  cases grant.maxResourceByteLength with
  | none => simp [eq_comm]
  | some most =>
    simp [bind_eq_ok, i64OfU64_eq_ok, exists_only, @eq_comm _ row]

-- The grant is stored before the sets that refer to it.
def withGrants (t : Tables) (operation : OperationEnvelope) : Tables :=
  { t with capabilityGrants := t.capabilityGrants ++ grantRows operation }

def withCapability (t : Tables) (operation : OperationEnvelope) : Tables :=
  { t with
    capabilityGrants := t.capabilityGrants ++ grantRows operation
    capabilityGrantActions :=
      t.capabilityGrantActions ++ grantItemRows operation CapabilityGrant.actions
    capabilityGrantSchemaScopes :=
      t.capabilityGrantSchemaScopes ++ grantItemRows operation CapabilityGrant.schemas
    capabilityGrantVisibilities :=
      t.capabilityGrantVisibilities ++ grantItemRows operation CapabilityGrant.visibilities
    capabilityGrantContentRoles :=
      t.capabilityGrantContentRoles ++ grantItemRows operation CapabilityGrant.contentRoles
    capabilityGrantRevocations := t.capabilityGrantRevocations ++ revocationRows operation }

structure CapabilityInsertable (t : Tables) (operation : OperationEnvelope) : Prop where
  limit : ∀ grant ∈ grantOf operation.body, ∀ most ∈ grant.maxResourceByteLength,
    most.toNat < 2 ^ 63
  grants : Table.Accepts (grantConstraints t.operations) t.capabilityGrants (grantRows operation)
  actions : Table.Accepts (actionConstraints (withGrants t operation).capabilityGrants)
    t.capabilityGrantActions (grantItemRows operation CapabilityGrant.actions)
  schemas : Table.Accepts (schemaScopeConstraints (withGrants t operation).capabilityGrants)
    t.capabilityGrantSchemaScopes (grantItemRows operation CapabilityGrant.schemas)
  visibilities : Table.Accepts
    (grantVisibilityConstraints (withGrants t operation).capabilityGrants)
    t.capabilityGrantVisibilities (grantItemRows operation CapabilityGrant.visibilities)
  contentRoles : Table.Accepts (contentRoleConstraints (withGrants t operation).capabilityGrants)
    t.capabilityGrantContentRoles (grantItemRows operation CapabilityGrant.contentRoles)
  revocations : Table.Accepts
    (revocationConstraints t.operations (withGrants t operation).capabilityGrants)
    t.capabilityGrantRevocations (revocationRows operation)

theorem insertCapability_grant (hbody : operation.body = .capabilityGrant grant) :
    insertCapability t operation = .ok t' ↔
      CapabilityInsertable t operation ∧ t' = withCapability t operation := by
  have hgrants : grantRows operation = [storedGrant operation grant] := by
    rw [grantRows, hbody]
    rfl
  have hitems : ∀ {α : Type} (values : CapabilityGrant → List α),
      grantItemRows operation values = itemRows operation (values grant) := by
    intro α values
    rw [grantItemRows, hbody]
    exact append_nil _
  have hrevocations : revocationRows operation = [] := by
    rw [revocationRows, hbody]
    rfl
  simp only [insertCapability, hbody, insertGrant, bind_eq_ok, grantRow_eq_ok, liftStorage_eq_ok,
    Table.insert_eq_ok, Table.insertAll_eq_ok, Except.ok.injEq]
  constructor
  · rintro ⟨_, ⟨hlimit, rfl⟩, _, ⟨hgrant, rfl⟩, _, ⟨hactions, rfl⟩, _, ⟨hschemas, rfl⟩, _,
      ⟨hvisibilities, rfl⟩, _, ⟨hroles, rfl⟩, rfl⟩
    refine ⟨⟨?_, ?_, ?_, ?_, ?_, ?_, ?_⟩, ?_⟩
    · rw [hbody]
      rintro _ ⟨⟩
      exact hlimit
    · rw [hgrants]
      exact hgrant
    · rw [hitems, withGrants, hgrants]
      exact hactions
    · rw [hitems, withGrants, hgrants]
      exact hschemas
    · rw [hitems, withGrants, hgrants]
      exact hvisibilities
    · rw [hitems, withGrants, hgrants]
      exact hroles
    · rw [hrevocations]
      exact Table.accepts_nil
    · simp [withCapability, hgrants, hitems, hrevocations]
  · rintro ⟨⟨hlimit, hgrant, hactions, hschemas, hvisibilities, hroles, -⟩, rfl⟩
    rw [hitems, withGrants, hgrants] at hactions hschemas hvisibilities hroles
    rw [hgrants] at hgrant
    refine ⟨_, ⟨hlimit grant (by rw [hbody]; rfl), rfl⟩, _, ⟨hgrant, rfl⟩, _, ⟨hactions, rfl⟩, _,
      ⟨hschemas, rfl⟩, _, ⟨hvisibilities, rfl⟩, _, ⟨hroles, rfl⟩, ?_⟩
    simp [withCapability, hgrants, hitems, hrevocations]

theorem withCapability_of_noGrant (hgrant : grantOf operation.body = none) :
    withGrants t operation = t ∧
      withCapability t operation = { t with capabilityGrantRevocations :=
            t.capabilityGrantRevocations ++ revocationRows operation } := by
  simp [withGrants, withCapability, grantRows, grantItemRows, hgrant]

theorem capabilityInsertable_of_noGrant (hgrant : grantOf operation.body = none) :
    CapabilityInsertable t operation ↔
      Table.Accepts (revocationConstraints t.operations t.capabilityGrants)
        t.capabilityGrantRevocations (revocationRows operation) := by
  have hrows : grantRows operation = [] := by simp [grantRows, hgrant]
  have hitems : ∀ {α : Type} (values : CapabilityGrant → List α),
      grantItemRows operation values = [] := by
    simp [grantItemRows, hgrant]
  have hsame : withGrants t operation = t := (withCapability_of_noGrant hgrant).1
  constructor
  · intro h
    have hrevocations := h.revocations
    rwa [hsame] at hrevocations
  · intro h
    refine ⟨by simp [hgrant], ?_, ?_, ?_, ?_, ?_, by rwa [hsame]⟩
    · rw [hrows]
      exact Table.accepts_nil
    all_goals
      rw [hitems]
      exact Table.accepts_nil

theorem insertCapability_eq_ok :
    insertCapability t operation = .ok t' ↔
      CapabilityInsertable t operation ∧ t' = withCapability t operation := by
  cases hbody : operation.body with
  | capabilityGrant grant => exact insertCapability_grant hbody
  | capabilityRevoke revocation =>
    have hgrant : grantOf operation.body = none := by rw [hbody]; rfl
    have hrows : revocationRows operation = [revocationRow operation revocation] := by
      rw [revocationRows, hbody]
      rfl
    rw [capabilityInsertable_of_noGrant hgrant, (withCapability_of_noGrant hgrant).2, hrows]
    simp [insertCapability, hbody, bind_eq_ok, Table.insert_eq_ok, exists_only, @eq_comm _ t']
  | _ =>
    have hgrant : grantOf operation.body = none := by rw [hbody]; rfl
    have hrows : revocationRows operation = [] := by
      rw [revocationRows, hbody]
      rfl
    rw [capabilityInsertable_of_noGrant hgrant, (withCapability_of_noGrant hgrant).2, hrows,
      append_nil]
    simp only [insertCapability, hbody, Except.ok.injEq]
    exact ⟨fun h => ⟨Table.accepts_nil, h.symm⟩, fun h => h.2.symm⟩

end Parts

-- What the schema demands of an operation. The tables that other tables refer
-- to are already in their final state when a row refers to them.
structure Insertable (P : Platform) (t : Tables) (stored : StoredOperation) : Prop where
  signed : (canonicalPayload P stored.operation).isOk = true
  room : stored.localSequence < 2 ^ 63
  operation : Table.Accepts (operationConstraints P t.spaces t.operations) t.operations
    [storedRow P stored]
  visibility : Table.Accepts (visibilityConstraints (afterInsertion P t stored).operations)
    t.clientEntityVisibility (visibilityRows stored.operation)
  projected : (clientProjection P (afterInsertion P t stored).clientEntityVisibility
    stored.operation).isOk = true
  projection : Table.Accepts (projectionConstraints P (afterInsertion P t stored).operations)
    t.clientOperationProjections
    (projectionRows P stored.operation (afterInsertion P t stored).clientEntityVisibility)
  parents : Table.Accepts (parentConstraints t.spaces (afterInsertion P t stored).operations)
    t.operationParents (parentRows stored.operation)
  authorization : Table.Accepts
    (authorizationConstraints t.spaces (afterInsertion P t stored).operations)
    t.operationAuthorizationRefs (authorizationRows stored.operation)
  head : Table.Accepts (headConstraints (afterInsertion P t stored).operations)
    (keptHeads t.entityHeads stored.operation.spaceId stored.operation.causalParents)
    [headRow stored.operation]
  resourceLength : ∀ resource ∈ stored.operation.body.resources,
    resource.byteLength.toNat < 2 ^ 63
  resources : Table.Accepts (resourceConstraints (afterInsertion P t stored).operations)
    t.operationResources (resourceRows stored.operation)
  grantLimit : ∀ grant ∈ grantOf stored.operation.body, ∀ most ∈ grant.maxResourceByteLength,
    most.toNat < 2 ^ 63
  grants : Table.Accepts (grantConstraints (afterInsertion P t stored).operations)
    t.capabilityGrants (grantRows stored.operation)
  actions : Table.Accepts (actionConstraints (afterInsertion P t stored).capabilityGrants)
    t.capabilityGrantActions (grantItemRows stored.operation CapabilityGrant.actions)
  schemas : Table.Accepts (schemaScopeConstraints (afterInsertion P t stored).capabilityGrants)
    t.capabilityGrantSchemaScopes (grantItemRows stored.operation CapabilityGrant.schemas)
  visibilities : Table.Accepts
    (grantVisibilityConstraints (afterInsertion P t stored).capabilityGrants)
    t.capabilityGrantVisibilities (grantItemRows stored.operation CapabilityGrant.visibilities)
  contentRoles : Table.Accepts (contentRoleConstraints (afterInsertion P t stored).capabilityGrants)
    t.capabilityGrantContentRoles (grantItemRows stored.operation CapabilityGrant.contentRoles)
  revocations : Table.Accepts (revocationConstraints (afterInsertion P t stored).operations
      (afterInsertion P t stored).capabilityGrants)
    t.capabilityGrantRevocations (revocationRows stored.operation)

theorem insertOperation_eq_ok {operation : OperationEnvelope} {now : Int64} :
    insertOperation P t operation now = .ok (t', stored) ↔
      stored = ⟨t.lastSequence + 1, now, operation⟩ ∧ Insertable P t stored ∧
        t' = afterInsertion P t stored := by
  simp only [insertOperation, bind_eq_ok, insertOperationRow_eq_ok, insertVisibility_eq_ok,
    insertClientProjection_eq_ok, insertParents_eq_ok, insertAuthorization_eq_ok,
    insertHead_eq_ok, insertResources_eq_ok, insertCapability_eq_ok, Except.ok.injEq,
    Prod.mk.injEq]
  -- Each part is reduced to the fields that it changes before the next one.
  constructor
  · rintro ⟨payload, hpayload, _, ⟨hroom, hrow, rfl⟩, h⟩
    obtain rfl := payloadOf_eq hpayload
    obtain ⟨_, ⟨hvisibility, rfl⟩, h⟩ := h
    obtain ⟨_, ⟨hprojected, hprojection, rfl⟩, h⟩ := h
    obtain ⟨_, ⟨hparents, rfl⟩, h⟩ := h
    obtain ⟨_, ⟨hauthorization, rfl⟩, h⟩ := h
    obtain ⟨_, ⟨hhead, rfl⟩, h⟩ := h
    obtain ⟨_, ⟨hlengths, hresources, rfl⟩, h⟩ := h
    obtain ⟨_, ⟨hcapability, rfl⟩, rfl, rfl⟩ := h
    exact ⟨rfl, ⟨isOk_iff.mpr ⟨_, hpayload⟩, hroom, hrow, hvisibility, hprojected, hprojection,
      hparents, hauthorization, hhead, hlengths, hresources, hcapability.limit, hcapability.grants,
      hcapability.actions, hcapability.schemas, hcapability.visibilities,
      hcapability.contentRoles, hcapability.revocations⟩, rfl⟩
  · rintro ⟨rfl, h, rfl⟩
    obtain ⟨payload, hpayload⟩ := isOk_iff.mp h.signed
    obtain rfl := payloadOf_eq hpayload
    refine ⟨_, hpayload, _, ⟨h.room, h.operation, rfl⟩, ?_⟩
    refine ⟨_, ⟨h.visibility, rfl⟩, ?_⟩
    refine ⟨_, ⟨h.projected, h.projection, rfl⟩, ?_⟩
    refine ⟨_, ⟨h.parents, rfl⟩, ?_⟩
    refine ⟨_, ⟨h.authorization, rfl⟩, ?_⟩
    refine ⟨_, ⟨h.head, rfl⟩, ?_⟩
    refine ⟨_, ⟨h.resourceLength, h.resources, rfl⟩, ?_⟩
    exact ⟨_, ⟨⟨h.grantLimit, h.grants, h.actions, h.schemas, h.visibilities, h.contentRoles,
      h.revocations⟩, rfl⟩, rfl, rfl⟩

end Fractonica.Store
