import Fractonica.Client.Insertion
import Fractonica.Lib.History

namespace Fractonica.Client

open Lib Trust DataModel List
open Store (Platform HeadRow headRow projectionText)

structure StoredOperation where
  localSequence : Nat
  storedAtUnixMs : Int64
  locallyAuthored : Bool
  operation : OperationEnvelope

namespace StoredOperation

abbrev key (a : StoredOperation) : OperationId := a.operation.operationId

abbrev parents (a : StoredOperation) : List OperationId := a.operation.causalParents

abbrev space (a : StoredOperation) : SpaceId := a.operation.spaceId

-- The identifier and the parents of an operation, read within its space.
def home (a : StoredOperation) : SpaceId × OperationId := (a.space, a.key)

def homeParents (a : StoredOperation) : List (SpaceId × OperationId) :=
  a.parents.map fun parent => (a.space, parent)

end StoredOperation

abbrev Log : Type := List StoredOperation

-- The operations that no operation of their space names as a parent.
def Log.heads (log : Log) : Log :=
  History.heads StoredOperation.home StoredOperation.homeParents log

def Log.ofEntity (log : Log) (spaceId : SpaceId) (entityId : EntityId) : Log :=
  log.filter fun a => a.space = spaceId && a.operation.entityId = entityId

def storedRow (P : Platform) (a : StoredOperation) : OperationRow :=
  operationRow P a.operation a.localSequence a.storedAtUnixMs a.locallyAuthored

-- The tables hold the rows of the stored operations.
structure Represents (P : Platform) (g : GraphTables) (log : Log) : Prop where
  operations : g.operations = log.map (storedRow P)
  parents : g.parents = log.flatMap fun a => parentRows a.operation
  authorizations : g.authorizations = log.flatMap fun a => authorizationRows a.operation

-- The references of every operation lead to earlier operations, those to its
-- parents to the same entity, but not always to the same space.
structure Causal (log : Log) : Prop where
  keys : (log.map StoredOperation.key).Nodup
  sequences : log.Pairwise fun a b => a.localSequence < b.localSequence
  parents : ∀ a ∈ log, ∀ parent ∈ a.parents, ∃ b ∈ log, b.key = parent ∧
    b.operation.entityId = a.operation.entityId ∧ b.operation.schema = a.operation.schema ∧
    b.localSequence < a.localSequence
  authorization : ∀ a ∈ log, ∀ reference ∈ a.operation.authorization,
    ∃ b ∈ log, b.key = reference ∧ b.localSequence < a.localSequence

structure Coherent (P : Platform) (g : GraphTables) (log : Log) : Prop where
  represents : Represents P g log
  causal : Causal log
  numbered : ∀ a ∈ log, a.localSequence ≤ g.lastSequence

def HeadsExact (g : GraphTables) (log : Log) : Prop :=
  g.heads = log.heads.map fun a => headRow a.operation

-- No parent of the operation is at present a head of another space.
def Confined (g : GraphTables) (operation : OperationEnvelope) : Prop :=
  ∀ row ∈ g.heads, row.operationId ∈ operation.causalParents → row.spaceId = operation.spaceId

-- The tables before and after an operation has been stored.
structure Inserted (P : Platform) (g : GraphTables) (a : StoredOperation) (g' : GraphTables) :
    Prop where
  fresh : ∀ row ∈ g.operations, row.operationId ≠ a.key
  parentsStored : ∀ parent ∈ a.parents, ∃ row ∈ g.operations, row.operationId = parent ∧
    row.entityId = a.operation.entityId ∧ row.schema = a.operation.schema
  authorizationStored : ∀ reference ∈ a.operation.authorization,
    ∃ row ∈ g.operations, row.operationId = reference
  sequence : a.localSequence = g.lastSequence + 1
  operations : g'.operations = g.operations ++ [storedRow P a]
  lastSequence : g'.lastSequence = a.localSequence
  parents : g'.parents = g.parents ++ parentRows a.operation
  authorizations : g'.authorizations = g.authorizations ++ authorizationRows a.operation
  heads : g'.heads = keptHeads g.heads a.parents ++ [headRow a.operation]
  projections : ∃ rows, g'.projections = g.projections ++ rows ∧
    ∀ row ∈ rows, row.spaceId = a.space

section Insertion

variable {operation : OperationEnvelope} {operationId : OperationId} {storedAtUnixMs : Int64}

theorem find_of_loadOperationRow (h : loadOperationRow P g operationId = .ok (some stored)) :
    ∃ row ∈ g.operations, row.operationId = operationId := by
  unfold loadOperationRow at h
  split at h
  · cases h
  · rename_i row hrow
    exact ⟨row, mem_of_find?_eq_some hrow, of_decide_eq_true (find?_some hrow :)⟩

theorem loadOperationRow_eq_none :
    loadOperationRow P g operationId = .ok none ↔
      ∀ row ∈ g.operations, row.operationId ≠ operationId := by
  have hfind : operationRow? g operationId = none ↔
      ∀ row ∈ g.operations, row.operationId ≠ operationId := by
    simp [operationRow?]
  rw [← hfind, loadOperationRow]
  cases operationRow? g operationId with
  | none => simp
  | some row => simp [bind_eq_ok]

-- A stored operation is read back where its projection is.
theorem loadOperationRow_stored (hverified : a.operation.verify P.toPrimitives = .ok ())
    (hread : P.readEnvelope (projectionText P a.operation) = .ok a.operation)
    (hsequence : 0 < a.localSequence) (hrow : operationRow? g a.key = some (storedRow P a)) :
    loadOperationRow P g a.key = .ok (some (a.localSequence, a.operation)) := by
  have hdecode : decodeOperation P (storedRow P a).projectionJson = .ok a.operation := by
    simp only [decodeOperation, bind_eq_ok, mapError_eq_ok, Except.ok.injEq]
    exact ⟨a.operation, hread, (), hverified, rfl⟩
  rw [loadOperationRow, hrow]
  simp only [bind_eq_ok, require_eq_ok, decide_eq_true_eq, Except.ok.injEq]
  exact ⟨(), hsequence, a.operation, hdecode, rfl⟩

theorem validateReferences_of_loaded (hparents : ∀ parent ∈ operation.causalParents,
      ∃ stored, loadOperationRow P g parent = .ok (some stored))
    (hauthorization : ∀ reference ∈ operation.authorization,
      ∃ stored, loadOperationRow P g reference = .ok (some stored)) :
    validateReferences P g operation = .ok () := by
  have hloaded : ∀ (missing : OperationId → ClientStoreError) (reference : OperationId),
      (∃ stored, loadOperationRow P g reference = .ok (some stored)) →
        validateReference P g missing reference = .ok () := by
    rintro missing reference ⟨stored, hstored⟩
    rw [validateReference, hstored]
    rfl
  simp only [validateReferences, bind_eq_ok, checkAll_eq_ok]
  exact ⟨(), fun parent hparent => hloaded _ _ (hparents parent hparent),
    fun reference hreference => hloaded _ _ (hauthorization reference hreference)⟩

theorem validateReferences_stored (h : validateReferences P g operation = .ok ()) :
    ∀ reference ∈ operation.authorization, ∃ row ∈ g.operations, row.operationId = reference := by
  simp only [validateReferences, bind_eq_ok, checkAll_eq_ok, validateReference,
    require_eq_ok] at h
  obtain ⟨-, -, hauthorization⟩ := h
  intro reference hreference
  obtain ⟨found, hload, hsome⟩ := hauthorization reference hreference
  obtain ⟨stored, rfl⟩ := Option.isSome_iff_exists.mp hsome
  exact find_of_loadOperationRow hload

theorem validateTopology_parents (h : validateTopology g operation = .ok ()) :
    ∀ parent ∈ operation.causalParents, ∃ row ∈ g.operations, row.operationId = parent ∧
      row.entityId = operation.entityId ∧ row.schema = operation.schema := by
  simp only [validateTopology, bind_eq_ok, checkAll_eq_ok, validateParent, okOr_eq_ok,
    require_eq_ok, Bool.and_eq_true, decide_eq_true_eq] at h
  obtain ⟨-, hparents, -⟩ := h
  intro parent hparent
  obtain ⟨row, hrow, hsame⟩ := hparents parent hparent
  exact ⟨row, mem_of_find?_eq_some hrow, of_decide_eq_true (find?_some hrow :), hsame⟩

theorem insertOperationRow_ok {locallyAuthored : Bool}
    (h : insertOperationRow P g operation storedAtUnixMs locallyAuthored = .ok g') :
    (∀ row ∈ g.operations, row.operationId ≠ operation.operationId) ∧
      g' = { g with
        operations := g.operations ++
          [operationRow P operation (g.lastSequence + 1) storedAtUnixMs locallyAuthored]
        lastSequence := g.lastSequence + 1 } := by
  simp only [insertOperationRow, bind_eq_ok, liftSqlite_eq_ok, Table.insert_eq_ok,
    Except.ok.injEq] at h
  obtain ⟨-, -, _, ⟨haccepts, rfl⟩, rfl⟩ := h
  refine ⟨?_, rfl⟩
  intro row hrow hsame
  have hclash := haccepts.fresh _ mem_cons_self row hrow
  exact of_decide_eq_false hclash hsame.symm

theorem mem_visibilityRows (h : row ∈ visibilityRows P operation) :
    row.spaceId = operation.spaceId ∧ row.entityId = operation.entityId := by
  unfold visibilityRows declaredRows at h
  split_ifs at h
  · obtain ⟨visibility, -, rfl⟩ := mem_map.mp h
    exact ⟨rfl, rfl⟩
  · cases h
  · cases h

theorem mem_projectionRows {rows : List VisibilityRow} (h : row ∈ projectionRows P operation rows) :
    row.spaceId = operation.spaceId ∧ row.operationId = operation.operationId := by
  unfold projectionRows at h
  split at h
  · rw [mem_singleton.mp h]
    exact ⟨rfl, rfl⟩
  · cases h

theorem inserted_of_ok (h : insertOperation P g operation storedAtUnixMs source = .ok g') :
    Inserted P g ⟨g.lastSequence + 1, storedAtUnixMs, source = .ofLocal, operation⟩ g' := by
  simp only [insertOperation, bind_eq_ok] at h
  obtain ⟨_, hreferences, _, htopology, stored, hstored, linked, hlinked, hprojected⟩ := h
  obtain ⟨hfresh, rfl⟩ := insertOperationRow_ok hstored
  obtain ⟨-, rfl⟩ := insertGraph_eq_ok.mp hlinked
  obtain ⟨-, rfl⟩ := insertProjection_eq_ok.mp hprojected
  exact ⟨hfresh, validateTopology_parents htopology, validateReferences_stored hreferences, rfl,
    rfl, rfl, rfl, rfl, rfl, _, rfl, fun row hrow => (mem_projectionRows hrow).1⟩

-- The visibility and the projection that an operation adds.
theorem projected_of_ok (h : insertOperation P g operation storedAtUnixMs source = .ok g') :
    ∃ linked : GraphTables, linked.visibility = g.visibility ∧
      linked.projections = g.projections ∧
      ((projectionColumns P operation).isSome = true → Projectable P linked operation) ∧
      g'.visibility = (linked.withProjection P operation).visibility ∧
      g'.projections = (linked.withProjection P operation).projections := by
  simp only [insertOperation, bind_eq_ok] at h
  obtain ⟨_, -, _, -, stored, hstored, linked, hlinked, hprojected⟩ := h
  obtain ⟨-, rfl⟩ := insertOperationRow_ok hstored
  obtain ⟨-, rfl⟩ := insertGraph_eq_ok.mp hlinked
  obtain ⟨hprojectable, rfl⟩ := insertProjection_eq_ok.mp hprojected
  refine ⟨_, ?_, ?_, hprojectable, ?_, ?_⟩
  · rfl
  · rfl
  · rfl
  · rfl

end Insertion

end Fractonica.Client
