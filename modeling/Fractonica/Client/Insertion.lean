import Fractonica.Client.Store

namespace Fractonica.Client

open Lib Trust DataModel List
open Store (Platform HeadRow headRow)

section Rows

variable (P : Platform) (operation : OperationEnvelope)

def parentRowsFrom (position : Nat) (parents : List OperationId) : List ParentRow :=
  parents.mapIdx fun index parent => parentRow operation (position + index) parent

def parentRows : List ParentRow := parentRowsFrom operation 0 operation.causalParents

-- The heads that an operation leaves to the others.
def keptHeads (heads : List HeadRow) (parents : List OperationId) : List HeadRow :=
  heads.filter fun row => !parents.contains row.operationId

-- The visibility that the first operation of an entity declares.
def declaredRows : List VisibilityRow :=
  if operation.causalParents.isEmpty then
    operation.body.declaredVisibility.toList.map fun visibility =>
      { spaceId := operation.spaceId, entityId := operation.entityId,
        schema := operation.schema, visibility }
  else []

def visibilityRows : List VisibilityRow :=
  if (projectionColumns P operation).isSome then declaredRows operation else []

def visibility? (rows : List VisibilityRow) (spaceId : SpaceId) (entityId : EntityId) :
    Option Visibility :=
  (rows.find? fun row => row.spaceId = spaceId && row.entityId = entityId).map (·.visibility)

def projectionRows (rows : List VisibilityRow) : List ProjectionRow :=
  match projectionColumns P operation, visibility? rows operation.spaceId operation.entityId,
      mediaBytesFrom 0 operation.body.resources with
  | some columns, some visibility, .ok mediaBytes =>
    [projectionRow operation columns visibility mediaBytes]
  | _, _, _ => []

end Rows

-- What the insertion of a graph and of a projection demand of the tables.
@[mk_iff] structure Linkable (g : GraphTables) (operation : OperationEnvelope) : Prop where
  parents : Table.Accepts (parentConstraints g.operations) g.parents (parentRows operation)
  authorizations : Table.Accepts (authorizationConstraints g.operations) g.authorizations
    (authorizationRows operation)
  head : Table.Accepts (headConstraints g.operations)
    (keptHeads g.heads operation.causalParents) [headRow operation]

structure Projectable (P : Platform) (g : GraphTables) (operation : OperationEnvelope) :
    Prop where
  first : Table.Accepts visibilityConstraints g.visibility (visibilityRows P operation)
  visible : ∃ visibility,
    visibility? (g.visibility ++ visibilityRows P operation) operation.spaceId
      operation.entityId = some visibility ∧
    ∀ declared ∈ operation.body.declaredVisibility, declared = visibility
  media : ∃ mediaBytes, mediaBytesFrom 0 operation.body.resources = .ok mediaBytes
  projection : Table.Accepts (projectionConstraints g.operations) g.projections
    (projectionRows P operation (g.visibility ++ visibilityRows P operation))

def GraphTables.withGraph (g : GraphTables) (operation : OperationEnvelope) : GraphTables :=
  { g with
    parents := g.parents ++ parentRows operation
    authorizations := g.authorizations ++ authorizationRows operation
    heads := keptHeads g.heads operation.causalParents ++ [headRow operation] }

def GraphTables.withProjection (P : Platform) (g : GraphTables) (operation : OperationEnvelope) :
    GraphTables :=
  { g with
    visibility := g.visibility ++ visibilityRows P operation
    projections := g.projections ++
      projectionRows P operation (g.visibility ++ visibilityRows P operation) }

variable {operation : OperationEnvelope}

theorem keptHeads_nil (heads : List HeadRow) : keptHeads heads [] = heads := by
  simp [keptHeads]

theorem keptHeads_cons (heads : List HeadRow) (parent : OperationId) (rest : List OperationId) :
    keptHeads (heads.filter fun row => row.operationId ≠ parent) rest =
      keptHeads heads (parent :: rest) := by
  simp only [keptHeads, filter_filter]
  apply filter_congr
  intro row _
  by_cases hparent : row.operationId = parent
  · simp [hparent]
  · simp [hparent]

theorem parentRowsFrom_cons (position : Nat) (parent : OperationId) (rest : List OperationId) :
    parentRowsFrom operation position (parent :: rest) =
      parentRow operation position parent :: parentRowsFrom operation (position + 1) rest := by
  simp [parentRowsFrom, Nat.add_assoc, Nat.add_comm 1]

theorem insertParents_eq_ok {position : Nat} {parents : List OperationId} :
    insertParents operation position parents g = .ok g' ↔
      Table.Accepts (parentConstraints g.operations) g.parents
          (parentRowsFrom operation position parents) ∧
        g' = { g with
          parents := g.parents ++ parentRowsFrom operation position parents
          heads := keptHeads g.heads parents } := by
  induction parents generalizing position g with
  | nil =>
    simp only [insertParents, parentRowsFrom, mapIdx_nil, append_nil, keptHeads_nil,
      Except.ok.injEq]
    exact ⟨fun h => ⟨Table.accepts_nil, h.symm⟩, fun h => h.2.symm⟩
  | cons parent rest ih =>
    rw [insertParents, bind_eq_ok, parentRowsFrom_cons, Table.accepts_cons]
    simp only [liftSqlite_eq_ok, Table.insert_eq_ok, ih, keptHeads_cons, and_assoc,
      exists_and_left, exists_eq_left, append_assoc, singleton_append]

theorem insertGraph_eq_ok :
    insertGraph g operation = .ok g' ↔ Linkable g operation ∧ g' = g.withGraph operation := by
  simp only [insertGraph, bind_eq_ok, liftSqlite_eq_ok, Table.insert_eq_ok,
    Table.insertAll_eq_ok, insertParents_eq_ok, Except.ok.injEq, linkable_iff, and_assoc,
    exists_and_left, exists_eq_left, @eq_comm _ g']
  rfl

theorem visibilityOf_eq_ok :
    visibilityOf g operation = .ok visibility ↔
      visibility? g.visibility operation.spaceId operation.entityId = some visibility :=
  okOr_eq_ok

-- The new row is found, since the table has no other of the entity.
theorem visibility?_declared {rows : List VisibilityRow}
    (h : Table.Accepts visibilityConstraints rows [row]) :
    visibility? (rows ++ [row]) row.spaceId row.entityId = some row.visibility := by
  have hnone : rows.find? (fun other => other.spaceId = row.spaceId &&
      other.entityId = row.entityId) = none := by
    apply find?_eq_none.mpr
    intro other hother hsame
    have hclash := h.fresh row mem_cons_self other hother
    simp only [visibilityConstraints, Bool.and_eq_true, decide_eq_true_eq] at hclash hsame
    rw [hsame.1, hsame.2] at hclash
    simp at hclash
  rw [visibility?, find?_append, hnone]
  simp

theorem insertVisibility_eq_ok :
    insertVisibility g operation = .ok (g', visibility) ↔
      Table.Accepts visibilityConstraints g.visibility (declaredRows operation) ∧
        visibility? (g.visibility ++ declaredRows operation) operation.spaceId
          operation.entityId = some visibility ∧
        (∀ declared ∈ operation.body.declaredVisibility, declared = visibility) ∧
        g' = { g with visibility := g.visibility ++ declaredRows operation } := by
  unfold insertVisibility declaredRows
  cases hdeclared : operation.body.declaredVisibility with
  | none =>
    simp only [Option.toList_none, map_nil, ite_self, append_nil, bind_eq_ok,
      visibilityOf_eq_ok, Except.ok.injEq, Prod.mk.injEq]
    constructor
    · rintro ⟨_, hfound, rfl, rfl⟩
      exact ⟨Table.accepts_nil, hfound, by simp, rfl⟩
    · rintro ⟨-, hfound, -, rfl⟩
      exact ⟨_, hfound, rfl, rfl⟩
  | some value =>
    by_cases hfirst : operation.causalParents.isEmpty = true
    · simp only [hfirst, if_true, Option.toList_some, map_singleton, bind_eq_ok,
        liftSqlite_eq_ok, Table.insert_eq_ok, Except.ok.injEq, Prod.mk.injEq]
      constructor
      · rintro ⟨_, ⟨haccepts, rfl⟩, rfl, rfl⟩
        exact ⟨haccepts, visibility?_declared haccepts, by simp, rfl⟩
      · rintro ⟨haccepts, -, hsame, rfl⟩
        exact ⟨_, ⟨haccepts, rfl⟩, rfl, hsame value rfl⟩
    · simp only [hfirst, if_false, append_nil, bind_eq_ok, visibilityOf_eq_ok,
        require_eq_ok, decide_eq_true_eq, Except.ok.injEq, Prod.mk.injEq, Bool.false_eq_true]
      constructor
      · rintro ⟨_, hfound, -, rfl, rfl, rfl⟩
        exact ⟨Table.accepts_nil, hfound, by simp, rfl⟩
      · rintro ⟨-, hfound, hsame, rfl⟩
        exact ⟨_, hfound, (), (hsame value rfl).symm, rfl, hsame value rfl⟩

theorem insertProjection_eq_ok :
    insertProjection P g operation = .ok g' ↔
      ((projectionColumns P operation).isSome = true → Projectable P g operation) ∧
        g' = g.withProjection P operation := by
  unfold insertProjection
  cases hcolumns : projectionColumns P operation with
  | none =>
    have hrows : g.withProjection P operation = g := by
      simp [GraphTables.withProjection, visibilityRows, projectionRows, hcolumns]
    rw [hrows, Except.ok.injEq]
    exact ⟨fun h => ⟨fun hsome => absurd hsome (by simp), h.symm⟩, fun h => h.2.symm⟩
  | some columns =>
    have hdeclared : visibilityRows P operation = declaredRows operation := by
      rw [visibilityRows, hcolumns]
      rfl
    have hprojection : ∀ {visibility mediaBytes},
        visibility? (g.visibility ++ declaredRows operation) operation.spaceId
          operation.entityId = some visibility →
        mediaBytesFrom 0 operation.body.resources = .ok mediaBytes →
          projectionRows P operation (g.visibility ++ declaredRows operation) =
            [projectionRow operation columns visibility mediaBytes] := by
      intro visibility mediaBytes hfound hmedia
      simp only [projectionRows, hcolumns, hfound, hmedia]
    simp only [bind_eq_ok, liftSqlite_eq_ok, Table.insert_eq_ok, Except.ok.injEq]
    constructor
    · rintro ⟨⟨middle, visibility⟩, hvisibility, mediaBytes, hmedia, _, ⟨haccepts, rfl⟩, rfl⟩
      obtain ⟨hfirst, hfound, hsame, rfl⟩ := insertVisibility_eq_ok.mp hvisibility
      rw [← hprojection hfound hmedia] at haccepts
      refine ⟨fun _ => ⟨?_, ⟨visibility, ?_, hsame⟩, ⟨mediaBytes, hmedia⟩, ?_⟩, ?_⟩
      · rw [hdeclared]
        exact hfirst
      · rw [hdeclared]
        exact hfound
      · rw [hdeclared]
        exact haccepts
      · rw [GraphTables.withProjection, hdeclared, hprojection hfound hmedia]
    · rintro ⟨h, rfl⟩
      obtain ⟨hfirst, ⟨visibility, hfound, hsame⟩, ⟨mediaBytes, hmedia⟩, haccepts⟩ := h rfl
      rw [hdeclared] at hfirst hfound haccepts
      rw [hprojection hfound hmedia] at haccepts
      refine ⟨(_, visibility), insertVisibility_eq_ok.mpr ⟨hfirst, hfound, hsame, rfl⟩,
        mediaBytes, hmedia, _, ⟨haccepts, rfl⟩, ?_⟩
      rw [GraphTables.withProjection, hdeclared, hprojection hfound hmedia]

end Fractonica.Client
