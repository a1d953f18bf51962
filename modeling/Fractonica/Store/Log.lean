import Fractonica.Lib.History
import Fractonica.Store.Insertion

namespace Fractonica.Store

open Lib Trust DataModel

namespace StoredOperation

abbrev key (a : StoredOperation) : OperationId := a.operation.operationId

abbrev parents (a : StoredOperation) : List OperationId := a.operation.causalParents

abbrev space (a : StoredOperation) : SpaceId := a.operation.spaceId

def SameEntity (a b : StoredOperation) : Prop :=
  a.space = b.space ∧ a.operation.entityId = b.operation.entityId

end StoredOperation

abbrev Log : Type := List StoredOperation

def Log.heads (log : Log) : Log := History.heads StoredOperation.key StoredOperation.parents log

-- The admitted operations, read from their authoritative bytes.
def admitted (P : Platform) (t : Tables) : Log :=
  t.operations.filterMap fun row =>
    (OperationEnvelope.fromCoseSign1 P.toPrimitives row.coseSign1).toOption.map fun operation =>
      ⟨row.localSequence, row.receivedAtUnixMs, operation⟩

-- The tables hold nothing but what the admitted operations say.
structure Represents (P : Platform) (t : Tables) (log : Log) : Prop where
  operations : t.operations = log.map (storedRow P)
  operationParents : t.operationParents = log.flatMap fun a => parentRows a.operation
  authorizationRefs : t.operationAuthorizationRefs =
    log.flatMap fun a => authorizationRows a.operation
  entityHeads : t.entityHeads = log.heads.map fun a => headRow a.operation
  visibility : t.clientEntityVisibility = log.flatMap fun a => visibilityRows a.operation
  resources : t.operationResources = log.flatMap fun a => resourceRows a.operation
  grants : t.capabilityGrants = log.flatMap fun a => grantRows a.operation
  actions : t.capabilityGrantActions =
    log.flatMap fun a => grantItemRows a.operation CapabilityGrant.actions
  schemas : t.capabilityGrantSchemaScopes =
    log.flatMap fun a => grantItemRows a.operation CapabilityGrant.schemas
  visibilities : t.capabilityGrantVisibilities =
    log.flatMap fun a => grantItemRows a.operation CapabilityGrant.visibilities
  contentRoles : t.capabilityGrantContentRoles =
    log.flatMap fun a => grantItemRows a.operation CapabilityGrant.contentRoles
  revocations : t.capabilityGrantRevocations = log.flatMap fun a => revocationRows a.operation
  projections : t.clientOperationProjections =
    log.flatMap fun a => projectionRows P a.operation t.clientEntityVisibility

-- The log in itself: the operations are verified and numbered, and the
-- references of each one lead to earlier operations of its space.
structure Causal (P : Platform) (log : Log) : Prop where
  verified : ∀ a ∈ log, a.operation.verify P.toPrimitives = .ok ()
  sequences : log.Pairwise fun a b => a.localSequence < b.localSequence
  keys : (log.map StoredOperation.key).Nodup
  parents : ∀ a ∈ log, ∀ parent ∈ a.parents, ∃ b ∈ log, b.key = parent ∧ b.SameEntity a ∧
    b.operation.schema = a.operation.schema ∧ b.localSequence < a.localSequence
  authorization : ∀ a ∈ log, ∀ reference ∈ a.operation.authorization, ∃ b ∈ log,
    b.key = reference ∧ b.space = a.space ∧ b.localSequence < a.localSequence
  schemas : ∀ a ∈ log, ∀ b ∈ log, a.SameEntity b → a.operation.schema = b.operation.schema
  origins : ∀ a ∈ log, ∀ b ∈ log, a.SameEntity b → a.parents = [] → b.parents = [] → a = b
  declared : ∀ a ∈ log, a.operation.schema.isClient = true → a.parents = [] →
    a.operation.body.declaredVisibility.isSome = true

-- What holds of the tables and the log between the calls, and also while a
-- space is being created.
structure Coherent (P : Platform) (t : Tables) (log : Log) : Prop where
  represents : Represents P t log
  causal : Causal P log
  numbered : ∀ a ∈ log, 0 < a.localSequence ∧ a.localSequence ≤ t.lastSequence
  room : t.lastSequence < 2 ^ 63
  projected : ∀ a ∈ log, (clientProjection P t.clientEntityVisibility a.operation).isOk = true
  headBound : ∀ spaceId entityId, (currentHeads t spaceId entityId).length ≤ MAX_ENTITY_HEADS
  spaceIds : (t.spaces.map SpaceRow.spaceId).Nodup
  homes : ∀ a ∈ log, ∃ row ∈ t.spaces, row.spaceId = a.space
  genesis : ∀ a ∈ log, a.operation.schema = .spaceGenesis →
    ∃ row ∈ t.spaces, row.spaceId = a.space ∧ row.genesisOperationId = a.key

-- Every space has its genesis once its creation is complete.
def Anchored (t : Tables) (log : Log) : Prop :=
  ∀ row ∈ t.spaces, ∃ a ∈ log, a.space = row.spaceId ∧ a.key = row.genesisOperationId ∧
    a.operation.schema = .spaceGenesis

end Fractonica.Store
