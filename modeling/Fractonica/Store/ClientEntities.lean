import Mathlib.Data.Prod.Lex
import Fractonica.Lib.Keyset
import Fractonica.Store.Repository

namespace Fractonica.Store

open Lib Trust DataModel

def MAX_CLIENT_QUERY_LIMIT : Nat := 200

structure ClientProjectionCursor where
  sortNumber : Option Int64
  sortText : Option String
  entityId : EntityId
  operationId : OperationId

structure ClientEntitySummary where
  operation : StoredOperation
  visibility : Visibility
  conflicted : Bool
  startAtUnixMs : Option Int64
  endAtUnixMs : Option Int64
  sortText : Option String
  resourceCount : Nat
  mediaBytes : Nat

structure ClientEntityPage where
  spaceId : SpaceId
  schema : EntitySchema
  items : List ClientEntitySummary
  nextCursor : Option ClientProjectionCursor

def isTemporal : EntitySchema → Bool
  | .record | .event => true
  | _ => false

section Ordering

-- `COALESCE(p.start_at_unix_ms, -1)` and `COALESCE(p.sort_text, '')`. Texts compare by
-- their bytes.
def coalescedStart (start : Option Int64) : Int64 := start.getD (-1)

def coalescedText (text : Option String) : String := text.getD ""

variable (row : ProjectionRow)

def identityKey : Lex (List UInt8 × List UInt8) :=
  toLex (utf8Bytes row.entityId.toText, utf8Bytes row.operationId.toText)

-- Times descend.
def temporalKey : Lex (OrderDual Int × Lex (List UInt8 × List UInt8)) :=
  toLex (OrderDual.toDual (coalescedStart row.startAtUnixMs).toInt, identityKey row)

def textKey : Lex (List UInt8 × Lex (List UInt8 × List UInt8)) :=
  toLex (utf8Bytes (coalescedText row.sortText), identityKey row)

def orderRows (schema : EntitySchema) (rows : List ProjectionRow) : List ProjectionRow :=
  if isTemporal schema then Keyset.ordered temporalKey rows else Keyset.ordered textKey rows

def passesIdentity (cursor : ClientProjectionCursor) : Bool :=
  utf8Bytes cursor.entityId.toText < utf8Bytes row.entityId.toText ||
    (row.entityId.toText = cursor.entityId.toText &&
      utf8Bytes cursor.operationId.toText < utf8Bytes row.operationId.toText)

-- A cursor without the column of the order is no bound.
def passesCursor (schema : EntitySchema) (cursor : ClientProjectionCursor) : Bool :=
  if isTemporal schema then
    cursor.sortNumber.all fun number =>
      (coalescedStart row.startAtUnixMs).toInt < number.toInt ||
        (coalescedStart row.startAtUnixMs = number && passesIdentity row cursor)
  else
    cursor.sortText.all fun text =>
      utf8Bytes text < utf8Bytes (coalescedText row.sortText) ||
        (coalescedText row.sortText = text && passesIdentity row cursor)

end Ordering

section Loading

variable (P : Platform) (t : Tables) (spaceId : SpaceId) (schema : EntitySchema)

-- The head that a projection joins.
def isHeadOf (row : ProjectionRow) (head : HeadRow) : Bool :=
  head.spaceId = row.spaceId && head.entityId = row.entityId && head.schema = row.schema &&
    head.operationId = row.operationId

def headProjections : List ProjectionRow :=
  (Table.join isHeadOf t.clientOperationProjections t.entityHeads).filter fun row =>
    row.spaceId = spaceId && row.schema = schema && !row.tombstone

def clientRows (cursor : Option ClientProjectionCursor) (limit : Nat) : List ProjectionRow :=
  (orderRows schema ((headProjections t spaceId schema).filter fun row =>
    cursor.all (passesCursor row schema))).take limit

def nonnegativeU64 (value : Int64) : Except RepositoryError Nat := do
  require (0 ≤ value.toInt) (.corruption s!"invalid nonnegative count {value}")
  .ok value.toInt.toNat

def summaryOf (row : ProjectionRow) (operation : StoredOperation) : ClientEntitySummary where
  operation := operation
  visibility := row.visibility
  conflicted := 1 < (currentHeads t row.spaceId row.entityId).length
  startAtUnixMs := row.startAtUnixMs
  endAtUnixMs := row.endAtUnixMs
  sortText := row.sortText
  resourceCount := row.resourceCount
  mediaBytes := row.mediaBytes.toInt.toNat

def loadSummary (row : ProjectionRow) : Except RepositoryError ClientEntitySummary := do
  let found ← liftCorrupt (loadStored P t row.operationId)
  let operation ← okOr found (.corruption "projected operation is missing")
  let mediaBytes ← nonnegativeU64 row.mediaBytes
  .ok { summaryOf t row operation with mediaBytes }

def cursorOf (last : ClientEntitySummary) : ClientProjectionCursor where
  sortNumber := if isTemporal schema then some (coalescedStart last.startAtUnixMs) else none
  sortText := if isTemporal schema then none else some (coalescedText last.sortText)
  entityId := last.operation.operation.entityId
  operationId := last.operation.operation.operationId

-- One row more than the page holds is fetched.
def loadClientEntities (limit : Nat) (cursor : Option ClientProjectionCursor) :
    Except RepositoryError ClientEntityPage := do
  require (limit + 1 < 2 ^ 63) (.topology "client query limit overflow")
  let fetched := clientRows t spaceId schema cursor (limit + 1)
  let items ← (Paging.trim limit fetched).mapM (loadSummary P t)
  .ok { spaceId, schema, items,
        nextCursor := if limit < fetched.length then items.getLast?.map (cursorOf schema)
          else none }

def clientEntities (limit : Nat) (cursor : Option ClientProjectionCursor) :
    Except RepositoryError ClientEntityPage := do
  require (1 ≤ limit && limit ≤ MAX_CLIENT_QUERY_LIMIT)
    (.topology "client query limit must be between 1 and 200")
  requireSpace P t spaceId
  loadClientEntities P t spaceId schema limit cursor

end Loading

end Fractonica.Store
