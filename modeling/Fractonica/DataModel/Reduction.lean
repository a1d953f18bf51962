import Fractonica.DataModel.Envelope
import Fractonica.Lib.SortedMap

namespace Fractonica.DataModel

open Lib Trust

structure EntityHead where
  operationId : OperationId
  actorId : ActorId
  occurredAtUnixMs : Int64
  body : OperationBody

-- Deterministic view of the current causal heads of one entity.
structure ReducedEntity where
  spaceId : SpaceId
  entityId : EntityId
  schema : EntitySchema
  operationCount : Nat
  heads : List EntityHead

-- The map and the set of the reducer, as sorted lists.
structure EntityReducer where
  spaceId : SpaceId
  entityId : EntityId
  schema : EntitySchema
  operations : List (OperationId × OperationEnvelope)
  heads : List OperationId

def OperationEnvelope.toHead (operation : OperationEnvelope) : EntityHead where
  operationId := operation.operationId
  actorId := operation.actorId
  occurredAtUnixMs := operation.occurredAtUnixMs
  body := operation.body

namespace EntityReducer

def new (spaceId : SpaceId) (entityId : EntityId) (schema : EntitySchema) : EntityReducer where
  spaceId := spaceId
  entityId := entityId
  schema := schema
  operations := []
  heads := []

def checkParent (reducer : EntityReducer) (operation : OperationEnvelope) (parentId : OperationId) :
    Except DataModelError Unit := do
  let parent ← okOr (SortedMap.get? parentId reducer.operations)
    (.causalParentNotPreexisting operation.operationId parentId)
  require (parent.spaceId = operation.spaceId && parent.entityId = operation.entityId &&
    parent.schema = operation.schema) (.foreignCausalParent parentId)

-- What is checked before anything changes.
def check (P : Primitives) (reducer : EntityReducer) (operation : OperationEnvelope) :
    Except DataModelError Unit := do
  operation.verify P
  require (operation.spaceId = reducer.spaceId)
    (.foreignSpace reducer.spaceId operation.spaceId)
  require (operation.entityId = reducer.entityId)
    (.foreignEntity reducer.entityId operation.entityId)
  require (operation.schema = reducer.schema) (.foreignSchema reducer.schema operation.schema)
  require (!SortedMap.contains operation.operationId reducer.operations)
    (.duplicateOperationId operation.operationId)
  checkAll (reducer.checkParent operation) operation.causalParents

def insert (reducer : EntityReducer) (operation : OperationEnvelope) : EntityReducer :=
  { reducer with
    heads := SortedSet.insert operation.operationId
      (operation.causalParents.foldl (fun heads parentId => SortedSet.remove parentId heads)
        reducer.heads)
    operations := SortedMap.insert operation.operationId operation reducer.operations }

-- The reducer afterwards, and the result of the call.
def apply (P : Primitives) (reducer : EntityReducer) (operation : OperationEnvelope) :
    EntityReducer × Except DataModelError Unit :=
  match reducer.check P operation with
  | .error error => (reducer, .error error)
  | .ok () => (reducer.insert operation, .ok ())

-- Nothing where a head has no operation and the `expect` of the source panics.
def finish (reducer : EntityReducer) : Option ReducedEntity := do
  let heads ← reducer.heads.mapM fun id =>
    (SortedMap.get? id reducer.operations).map OperationEnvelope.toHead
  some { spaceId := reducer.spaceId
         entityId := reducer.entityId
         schema := reducer.schema
         operationCount := reducer.operations.length
         heads }

-- The loop over a stream of operations, which stops at the first failure.
def applyAll (P : Primitives) (reducer : EntityReducer) :
    List OperationEnvelope → Except DataModelError EntityReducer
  | [] => .ok reducer
  | operation :: rest =>
    match reducer.apply P operation with
    | (_, .error error) => .error error
    | (next, .ok ()) => applyAll P next rest

end EntityReducer

def reduceEntity (P : Primitives) (spaceId : SpaceId) (entityId : EntityId) (schema : EntitySchema)
    (operations : List OperationEnvelope) : Except DataModelError (Option ReducedEntity) := do
  let reducer ← (EntityReducer.new spaceId entityId schema).applyAll P operations
  .ok reducer.finish

end Fractonica.DataModel
