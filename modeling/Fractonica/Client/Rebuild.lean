import Fractonica.Client.Heads

namespace Fractonica.Client

open Lib Trust DataModel
open Store (Platform)

section Rebuilding

variable (P : Platform)

-- The operations stay, everything derived from them goes.
def GraphTables.withoutDerived (g : GraphTables) : GraphTables :=
  { g with parents := [], authorizations := [], heads := [], visibility := [], projections := [] }

def replayOperation (g : GraphTables) (operation : OperationEnvelope) :
    Except ClientStoreError GraphTables := do
  let g ← insertGraph g operation
  insertProjection P g operation

-- The number of the operations is returned, and an error leaves the store as it was.
def rebuildDerivedState (t : Tables) : Except ClientStoreError (Tables × Nat) := do
  let rows := t.graph.operations.mergeSort fun left right =>
    left.localSequence ≤ right.localSequence
  let operations ← rows.mapM fun row => decodeOperation P row.projectionJson
  let graph ← operations.foldlM (replayOperation P) t.graph.withoutDerived
  .ok ({ t with graph }, operations.length)

end Rebuilding

-- Every stored operation that no parent edge names is a head.
def HeadsComplete (g : GraphTables) : Prop :=
  ∀ row ∈ g.operations, (∀ edge ∈ g.parents, edge.parentOperationId ≠ row.operationId) →
    ∃ head ∈ g.heads, head.operationId = row.operationId

-- The call deletes no workspace whose operations have a parent in another one.
def Call.Tidy (t : Tables) : Call → Prop
  | .deleteWorkspace spaceId => ∀ edge ∈ t.graph.parents,
      operationIn t.graph edge.operationId spaceId = true →
        operationIn t.graph edge.parentOperationId spaceId = true
  | _ => True

inductive TidyRun (P : Platform) : Tables → Prop
  | start : TidyRun P .empty
  | call {t : Tables} (h : TidyRun P t) (call : Call) (tidy : call.Tidy t) :
      TidyRun P (call.apply P t)

end Fractonica.Client
