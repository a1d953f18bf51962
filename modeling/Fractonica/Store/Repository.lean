import Fractonica.Application.Authorization
import Fractonica.Store.Schema
import Mathlib.Logic.Relation

namespace Fractonica.Store

open Lib Trust Content DataModel Application

def MAX_ENTITY_HEADS : Nat := 64

structure StoredOperation where
  localSequence : Nat
  receivedAtUnixMs : Int64
  operation : OperationEnvelope

structure SubmitOperationRequest where
  operation : OperationEnvelope
  receivedAtUnixMs : Int64

structure SubmitOperationResult where
  operation : StoredOperation
  replayed : Bool

structure SpaceDescriptor where
  spaceId : SpaceId
  displayName : String
  genesisOperationId : OperationId
  initialGrantOperationId : OperationId
  controllerActorId : ActorId
  localWriterActorId : ActorId
  createdAtUnixMs : Int64

structure TrustedSpaceBootstrapRequest where
  displayName : String
  genesis : OperationEnvelope
  initialGrant : OperationEnvelope
  receivedAtUnixMs : Int64

structure TrustedSpaceBootstrapResult where
  space : SpaceDescriptor
  genesis : StoredOperation
  initialGrant : StoredOperation
  replayed : Bool

inductive RepositoryError where
  | spaceNotFound (spaceId : SpaceId)
  | missingParent (operationId : OperationId)
  | crossSpaceParent (operationId : OperationId)
  | parentMismatch (parent : OperationId)
  | missingAuthorization (operationId : OperationId)
  | crossSpaceAuthorization (operationId : OperationId)
  | authorization (error : AuthorizationError)
  | entityAlreadyExists (entityId : EntityId)
  | invalidTopology (detail : Detail)
  | operationConflict (operationId : OperationId)
  | genesisConflict (spaceId : SpaceId)
  | corrupt (detail : Detail)
  | unavailable (error : StorageError)
  | peerUnauthorized
  | peerReplay

namespace RepositoryError

def topology (text : String) : RepositoryError := .invalidTopology (.message text)

def corruption (text : String) : RepositoryError := .corrupt (.message text)

end RepositoryError

-- `repository_sqlite`.
def liftStorage {α : Type} (result : Except StorageError α) : Except RepositoryError α :=
  result.mapError .unavailable

@[simp] theorem liftStorage_eq_ok {result : Except StorageError α} {a : α} :
    liftStorage result = .ok a ↔ result = .ok a :=
  mapError_eq_ok

def laterOf (left right : Int64) : Int64 := if left.toInt < right.toInt then right else left

def readAdmissionClock (clock : Int64) : Except RepositoryError Int64 := do
  require (0 ≤ clock.toInt) (.corruption "node admission clock is negative")
  .ok clock

-- Runs in a transaction of its own, so the new clock is kept whatever follows.
def advanceAdmissionClock (clock sampledUnixMs : Int64) : Except RepositoryError Int64 := do
  let persisted ← readAdmissionClock clock
  .ok (laterOf persisted sampledUnixMs)

section Reading

variable (P : Platform) (t : Tables)

def verifyEnvelope (operation : OperationEnvelope) : Except RepositoryError Unit := do
  (operation.verify P.toPrimitives).mapError fun error => .invalidTopology (.dataModel "" error)
  let signed ← (SignedOperation.fromCoseSign1 P.toPrimitives operation.coseSign1).mapError
    fun error => .invalidTopology (.trust "" error)
  let _ ← (signed.verify P.toPrimitives).mapError fun error => .invalidTopology (.trust "" error)
  .ok ()

def canonicalPayload (operation : OperationEnvelope) : Except RepositoryError (List UInt8) := do
  let signed ← (SignedOperation.fromCoseSign1 P.toPrimitives operation.coseSign1).mapError
    fun error => .invalidTopology (.trust "" error)
  let _ ← (signed.verify P.toPrimitives).mapError fun error => .invalidTopology (.trust "" error)
  .ok signed.payload

def projectionText (operation : OperationEnvelope) : List UInt8 :=
  operation.toJson.render P.toPrimitives

-- The error is the detail of a corruption.
def decodeStoredValues (row : OperationRow) : Except Detail StoredOperation := do
  let operation ← (P.readEnvelope row.projectionJson).mapError fun error =>
    .nested "invalid operation projection JSON: " (.message error)
  require (projectionText P operation = row.projectionJson)
    (.message "stored operation projection is not deterministic JSON")
  (operation.verify P.toPrimitives).mapError fun error =>
    .dataModel "stored operation does not verify: " error
  let signed ← (SignedOperation.fromCoseSign1 P.toPrimitives row.coseSign1).mapError
    fun error => .trust "invalid stored COSE: " error
  let _ ← (signed.verify P.toPrimitives).mapError fun error =>
    .trust "stored signature fails: " error
  require (operation.operationId = row.operationId &&
      operation.protocolVersion = row.protocolVersion && operation.spaceId = row.spaceId &&
      operation.entityId = row.entityId && operation.schema = row.schema &&
      operation.actorId = row.actorId && operation.occurredAtUnixMs = row.occurredAtUnixMs &&
      operation.nonce = row.nonce && operation.coseSign1 = row.coseSign1 &&
      signed.operationId = operation.operationId && signed.payload = row.canonicalPayload)
    (.message ("stored scalar or authoritative bytes disagree for operation " ++
      operation.operationId.toText))
  require (0 < row.localSequence) (.message "invalid local sequence 0")
  .ok { localSequence := row.localSequence, receivedAtUnixMs := row.receivedAtUnixMs, operation }

def operationRow? (operationId : OperationId) : Option OperationRow :=
  t.operations.find? fun row => row.operationId = operationId

def loadStored (operationId : OperationId) : Except Detail (Option StoredOperation) :=
  match operationRow? t operationId with
  | none => .ok none
  | some row => do
    let stored ← decodeStoredValues P row
    .ok (some stored)

def liftCorrupt {α : Type} (result : Except Detail α) : Except RepositoryError α :=
  result.mapError .corrupt

def isDisplayName (name : String) : Bool :=
  name.toList.length ≠ 0 && name.toList.length ≤ 128 && !name.toList.any isControl

def decodeSpaceValues (row : SpaceRow) : Except RepositoryError SpaceDescriptor := do
  require (row.spaceId.bytes ≠ FixedBytes.replicate 32 0) (.corruption "stored space ID is nil")
  let _ ← (ActorId.publicKey P.toPrimitives row.controllerActorId).mapError fun error =>
    .corrupt (.trust "invalid controller actor key: " error)
  let _ ← (ActorId.publicKey P.toPrimitives row.localWriterActorId).mapError fun error =>
    .corrupt (.trust "invalid local writer actor key: " error)
  require (isDisplayName row.displayName && 0 ≤ row.createdAtUnixMs.toInt &&
      row.genesisOperationId ≠ row.initialGrantOperationId &&
      row.controllerActorId ≠ row.localWriterActorId)
    (.corruption ("space " ++ row.spaceId.toText ++ " has an invalid stored descriptor"))
  .ok { spaceId := row.spaceId, displayName := row.displayName,
        genesisOperationId := row.genesisOperationId,
        initialGrantOperationId := row.initialGrantOperationId,
        controllerActorId := row.controllerActorId,
        localWriterActorId := row.localWriterActorId,
        createdAtUnixMs := row.createdAtUnixMs }

def spaceRow? (spaceId : SpaceId) : Option SpaceRow :=
  t.spaces.find? fun row => row.spaceId = spaceId

def loadSpace (spaceId : SpaceId) : Except RepositoryError (Option SpaceDescriptor) :=
  match spaceRow? t spaceId with
  | none => .ok none
  | some row => do
    let space ← decodeSpaceValues P row
    .ok (some space)

def requireSpace (spaceId : SpaceId) : Except RepositoryError Unit := do
  let found ← loadSpace P t spaceId
  require found.isSome (.spaceNotFound spaceId)

-- `SqliteCapabilityView`.
def capabilityView : CapabilityView where
  trustedGenesis spaceId := .ok ((spaceRow? t spaceId).map (·.genesisOperationId))
  operation spaceId operationId := do
    let stored ← (loadStored P t operationId).mapError
      (Detail.nested "stored operation data is corrupt: ")
    .ok (stored.bind fun value =>
      if value.operation.spaceId = spaceId then some value.operation else none)
  isRevoked spaceId grantId := .ok (t.capabilityGrantRevocations.any fun row =>
    row.spaceId = spaceId && row.grantOperationId = grantId)

end Reading

section Validation

variable (P : Platform) (t : Tables)

def operationSpace (operationId : OperationId) : Option SpaceId :=
  (operationRow? t operationId).map (·.spaceId)

-- The two lists of references are checked alike, with errors of their own.
def validateReference (missing crossSpace : OperationId → RepositoryError) (spaceId : SpaceId)
    (reference : OperationId) : Except RepositoryError Unit :=
  match operationSpace t reference with
  | none => .error (missing reference)
  | some space => require (space = spaceId) (crossSpace reference)

def validateReferences (operation : OperationEnvelope) : Except RepositoryError Unit := do
  checkAll (validateReference t .missingParent .crossSpaceParent operation.spaceId)
    operation.causalParents
  checkAll (validateReference t .missingAuthorization .crossSpaceAuthorization operation.spaceId)
    operation.authorization

def validateParent (operation : OperationEnvelope) (parent : OperationId) :
    Except RepositoryError Unit := do
  let row ← okOr (operationRow? t parent) (.unavailable .noRows)
  require (row.entityId = operation.entityId && row.schema = operation.schema)
    (.parentMismatch parent)

def entityOperations (spaceId : SpaceId) (entityId : EntityId) : List OperationRow :=
  t.operations.filter fun row => row.spaceId = spaceId && row.entityId = entityId

def currentHeads (spaceId : SpaceId) (entityId : EntityId) : List HeadRow :=
  t.entityHeads.filter fun row => row.spaceId = spaceId && row.entityId = entityId

def isTombstone : OperationBody → Bool
  | .tombstone => true
  | _ => false

def validateTopology (operation : OperationEnvelope) : Except RepositoryError Unit := do
  checkAll (validateParent t operation) operation.causalParents
  let existing := (entityOperations t operation.spaceId operation.entityId).length
  let heads := currentHeads t operation.spaceId operation.entityId
  require (!(0 < existing && heads.length = 0))
    (.corruption ("entity " ++ operation.entityId.toText ++ " has history but no current heads"))
  require (!(0 < existing && operation.causalParents.isEmpty))
    (.entityAlreadyExists operation.entityId)
  require (!(existing = 0 && isTombstone operation.body))
    (.topology "an entity cannot begin with a tombstone")
  let consumed := heads.filter fun row => operation.causalParents.contains row.operationId
  require (heads.length - consumed.length + 1 ≤ MAX_ENTITY_HEADS)
    (.topology "operation would exceed the 64-head entity limit")

def storedVisibility (spaceId : SpaceId) (entityId : EntityId) : Option Visibility :=
  (t.clientEntityVisibility.find? fun row =>
    row.spaceId = spaceId && row.entityId = entityId).map (·.visibility)

def visibilityAgrees (declared : Option Visibility) (current : Visibility) : Bool :=
  declared.all fun visibility => visibility = current

def validateParentVisibility (current : Visibility) (parent : OperationId) :
    Except RepositoryError Unit := do
  let found ← liftCorrupt (loadStored P t parent)
  let stored ← okOr found
    (.corruption ("validated record parent " ++ parent.toText ++ " disappeared"))
  require (visibilityAgrees stored.operation.body.declaredVisibility current)
    (.corruption ("record parent " ++ parent.toText ++
      " disagrees with materialized visibility"))

def visibilityForAdmission (operation : OperationEnvelope) :
    Except RepositoryError (Option Visibility) :=
  if !operation.schema.isClient then .ok none
  else
    let stored := storedVisibility t operation.spaceId operation.entityId
    if operation.causalParents.isEmpty then
      match operation.body.declaredVisibility, stored with
      | some visibility, none => .ok (some visibility)
      | some _, some _ => .error (.corruption ("new client entity " ++
          operation.entityId.toText ++ " already has materialized visibility"))
      | none, _ =>
        if isTombstone operation.body then
          .error (.topology "an entity cannot begin with a tombstone")
        else .error (.corruption "client schema has a non-client body")
    else do
      let current ← okOr stored (.corruption ("record entity " ++ operation.entityId.toText ++
        " has history but no materialized visibility"))
      checkAll (validateParentVisibility P t current) operation.causalParents
      -- The generic denial does not reveal the visibility of a private entity.
      require (visibilityAgrees operation.body.declaredVisibility current)
        (.authorization .denied)
      .ok (some current)

def validateRevocationTarget (spaceId : SpaceId) (body : OperationBody) :
    Except RepositoryError Unit :=
  match body with
  | .capabilityRevoke revocation =>
    require (hasGrant t.capabilityGrants spaceId revocation.grantId)
      (.topology ("revocation target " ++ revocation.grantId.toText ++
        " is not an admitted grant in this space"))
  | _ => .ok ()

end Validation

section Insertion

variable (P : Platform)

def i64OfU64 (value : UInt64) (detail : String) : Except RepositoryError Int64 :=
  if value.toNat < 2 ^ 63 then .ok (Int64.ofInt value.toNat) else .error (.corruption detail)

def operationRow (operation : OperationEnvelope) (payload : List UInt8) (localSequence : Nat)
    (receivedAtUnixMs : Int64) : OperationRow where
  localSequence := localSequence
  operationId := operation.operationId
  protocolVersion := operation.protocolVersion
  spaceId := operation.spaceId
  entityId := operation.entityId
  schema := operation.schema
  actorId := operation.actorId
  occurredAtUnixMs := operation.occurredAtUnixMs
  receivedAtUnixMs := receivedAtUnixMs
  nonce := operation.nonce
  canonicalPayload := payload
  coseSign1 := operation.coseSign1
  projectionJson := projectionText P operation

-- A sequence number is never assigned twice, so the last one is the end.
def insertOperationRow (t : Tables) (operation : OperationEnvelope) (payload : List UInt8)
    (receivedAtUnixMs : Int64) : Except RepositoryError Tables := do
  liftStorage (require (t.lastSequence + 1 < 2 ^ 63) .full)
  let row := operationRow P operation payload (t.lastSequence + 1) receivedAtUnixMs
  let operations ← liftStorage (Table.insert (operationConstraints P t.spaces t.operations)
    t.operations row)
  .ok { t with operations, lastSequence := t.lastSequence + 1 }

-- Only the first operation of an entity fixes its visibility.
def visibilityRows (operation : OperationEnvelope) : List VisibilityRow :=
  if operation.causalParents.isEmpty then
    operation.body.declaredVisibility.toList.map fun visibility =>
      { spaceId := operation.spaceId, entityId := operation.entityId, schema := operation.schema,
        originOperationId := operation.operationId, visibility }
  else []

def insertVisibility (t : Tables) (operation : OperationEnvelope) :
    Except RepositoryError Tables := do
  let rows ← liftStorage (Table.insertAll (visibilityConstraints t.operations)
    t.clientEntityVisibility (visibilityRows operation))
  .ok { t with clientEntityVisibility := rows }

-- The columns that depend on the body; no client projection for other bodies.
structure ProjectionColumns where
  startAtUnixMs : Option Int64
  endAtUnixMs : Option Int64
  sortText : Option String
  resources : List ResourceRef

def projectionColumns (operation : OperationEnvelope) : Option ProjectionColumns :=
  match operation.body with
  | .putRecord (.pub document) =>
    some ⟨some document.startAtUnixMs, document.endAtUnixMs, none, document.resources⟩
  | .putEvent (.pub document) =>
    some ⟨some document.startAtUnixMs, document.endAtUnixMs, some (P.lowercase document.label),
      []⟩
  | .putTag (.pub document) => some ⟨none, none, some (P.lowercase document.name), []⟩
  | .putProfile document => some ⟨none, none, some document.handle, document.avatar.toList⟩
  | .putRecord (.priv _ resources) => some ⟨none, none, none, resources⟩
  | .putTag (.priv _ _) | .putEvent (.priv _ _) | .tombstone =>
    if operation.schema.isClient then some ⟨none, none, none, []⟩ else none
  | .spaceGenesis _ | .capabilityGrant _ | .capabilityRevoke _ => none

def mediaBytesFrom : Int64 → List ResourceRef → Except RepositoryError Int64
  | total, [] => .ok total
  | total, resource :: rest => do
    let bytes ← i64OfU64 resource.byteLength "client projection media bytes exceed SQLite"
    require (total.toInt + bytes.toInt < 2 ^ 63)
      (.corruption "client projection media byte total overflows")
    mediaBytesFrom (total + bytes) rest

def projectionVisibility (rows : List VisibilityRow) (operation : OperationEnvelope) :
    Except RepositoryError Visibility :=
  match operation.body.declaredVisibility with
  | some visibility => .ok visibility
  | none => okOr ((rows.find? fun row => row.spaceId = operation.spaceId &&
      row.entityId = operation.entityId && row.schema = operation.schema).map (·.visibility))
      (.corruption "client projection is missing immutable visibility")

def projectionRow (operation : OperationEnvelope) (columns : ProjectionColumns)
    (visibility : Visibility) (mediaBytes : Int64) : ProjectionRow where
  spaceId := operation.spaceId
  operationId := operation.operationId
  entityId := operation.entityId
  schema := operation.schema
  actorId := operation.actorId
  visibility := visibility
  tombstone := isTombstone operation.body
  startAtUnixMs := columns.startAtUnixMs
  endAtUnixMs := columns.endAtUnixMs
  sortText := columns.sortText
  resourceCount := columns.resources.length
  mediaBytes := mediaBytes
  bodyJson := operation.body.toJson.render P.toPrimitives

def clientProjection (rows : List VisibilityRow) (operation : OperationEnvelope) :
    Except RepositoryError (Option ProjectionRow) :=
  match projectionColumns P operation with
  | none => .ok none
  | some columns => do
    let visibility ← projectionVisibility rows operation
    let mediaBytes ← mediaBytesFrom 0 columns.resources
    .ok (some (projectionRow P operation columns visibility mediaBytes))

def insertClientProjection (t : Tables) (operation : OperationEnvelope) :
    Except RepositoryError Tables := do
  let found ← clientProjection P t.clientEntityVisibility operation
  let rows ← liftStorage (Table.insertAll (projectionConstraints P t.operations)
    t.clientOperationProjections found.toList)
  .ok { t with clientOperationProjections := rows }

def parentRow (operation : OperationEnvelope) (position : Nat) (parent : OperationId) :
    ParentRow where
  spaceId := operation.spaceId
  entityId := operation.entityId
  schema := operation.schema
  operationId := operation.operationId
  parentOperationId := parent
  position := position

-- Each parent is recorded and stops being a head.
def insertParents (operation : OperationEnvelope) :
    Nat → List OperationId → Tables → Except RepositoryError Tables
  | _, [], t => .ok t
  | position, parent :: rest, t => do
    let rows ← liftStorage (Table.insert (parentConstraints t.spaces t.operations)
      t.operationParents (parentRow operation position parent))
    let heads := t.entityHeads.filter fun row =>
      !(row.spaceId = operation.spaceId && row.operationId = parent)
    insertParents operation (position + 1) rest
      { t with operationParents := rows, entityHeads := heads }

def authorizationRows (operation : OperationEnvelope) : List AuthorizationRow :=
  operation.authorization.mapIdx fun position reference =>
    { spaceId := operation.spaceId, operationId := operation.operationId,
      authorizationOperationId := reference, position }

def insertAuthorization (t : Tables) (operation : OperationEnvelope) :
    Except RepositoryError Tables := do
  let rows ← liftStorage (Table.insertAll (authorizationConstraints t.spaces t.operations)
    t.operationAuthorizationRefs (authorizationRows operation))
  .ok { t with operationAuthorizationRefs := rows }

def headRow (operation : OperationEnvelope) : HeadRow where
  spaceId := operation.spaceId
  entityId := operation.entityId
  schema := operation.schema
  operationId := operation.operationId

def insertHead (t : Tables) (operation : OperationEnvelope) : Except RepositoryError Tables := do
  let rows ← liftStorage (Table.insert (headConstraints t.operations) t.entityHeads
    (headRow operation))
  .ok { t with entityHeads := rows }

def resourceRow (operation : OperationEnvelope) (position : Nat) (resource : ResourceRef) :
    Except RepositoryError ResourceRow := do
  let byteLength ← i64OfU64 resource.byteLength "resource length overflow"
  .ok { spaceId := operation.spaceId, operationId := operation.operationId, position,
        contentId := resource.contentId, byteLength, mediaType := resource.mediaType,
        role := resource.role, originalName := resource.originalName }

def insertResources (operation : OperationEnvelope) :
    Nat → List ResourceRef → Tables → Except RepositoryError Tables
  | _, [], t => .ok t
  | position, resource :: rest, t => do
    let row ← resourceRow operation position resource
    let rows ← liftStorage (Table.insert (resourceConstraints t.operations)
      t.operationResources row)
    insertResources operation (position + 1) rest { t with operationResources := rows }

def grantRow (operation : OperationEnvelope) (grant : CapabilityGrant) :
    Except RepositoryError GrantRow := do
  let maxResourceByteLength ← match grant.maxResourceByteLength with
    | none => .ok none
    | some most => do
      let most ← i64OfU64 most "grant resource limit overflow"
      .ok (some most)
  .ok { spaceId := operation.spaceId, grantOperationId := operation.operationId,
        issuerActorId := operation.actorId, subjectActorId := grant.subject,
        delegationDepth := grant.delegationDepth, notBeforeUnixMs := grant.notBeforeUnixMs,
        expiresAtUnixMs := grant.expiresAtUnixMs, maxResourceByteLength,
        label := grant.label }

def itemRows {α : Type} (operation : OperationEnvelope) (values : List α) :
    List (GrantItemRow α) :=
  values.mapIdx fun position value =>
    { spaceId := operation.spaceId, grantOperationId := operation.operationId, position, value }

def insertGrant (t : Tables) (operation : OperationEnvelope) (grant : CapabilityGrant) :
    Except RepositoryError Tables := do
  let row ← grantRow operation grant
  let rows ← liftStorage (Table.insert (grantConstraints t.operations) t.capabilityGrants row)
  let t := { t with capabilityGrants := rows }
  let actions ← liftStorage (Table.insertAll (actionConstraints t.capabilityGrants)
    t.capabilityGrantActions (itemRows operation grant.actions))
  let schemas ← liftStorage (Table.insertAll (schemaScopeConstraints t.capabilityGrants)
    t.capabilityGrantSchemaScopes (itemRows operation grant.schemas))
  let visibilities ← liftStorage (Table.insertAll (grantVisibilityConstraints t.capabilityGrants)
    t.capabilityGrantVisibilities (itemRows operation grant.visibilities))
  let roles ← liftStorage (Table.insertAll (contentRoleConstraints t.capabilityGrants)
    t.capabilityGrantContentRoles (itemRows operation grant.contentRoles))
  .ok { t with capabilityGrantActions := actions, capabilityGrantSchemaScopes := schemas,
               capabilityGrantVisibilities := visibilities, capabilityGrantContentRoles := roles }

def revocationRow (operation : OperationEnvelope) (revocation : CapabilityRevocation) :
    RevocationRow where
  spaceId := operation.spaceId
  revocationOperationId := operation.operationId
  revokerActorId := operation.actorId
  grantOperationId := revocation.grantId
  reason := revocation.reason
  detail := revocation.detail

def insertCapability (t : Tables) (operation : OperationEnvelope) :
    Except RepositoryError Tables :=
  match operation.body with
  | .capabilityGrant grant => insertGrant t operation grant
  | .capabilityRevoke revocation => do
    let rows ← liftStorage (Table.insert
      (revocationConstraints t.operations t.capabilityGrants) t.capabilityGrantRevocations
      (revocationRow operation revocation))
    .ok { t with capabilityGrantRevocations := rows }
  | _ => .ok t

def insertOperation (t : Tables) (operation : OperationEnvelope) (receivedAtUnixMs : Int64) :
    Except RepositoryError (Tables × StoredOperation) := do
  let payload ← canonicalPayload P operation
  let t ← insertOperationRow P t operation payload receivedAtUnixMs
  let localSequence := t.lastSequence
  let t ← insertVisibility t operation
  let t ← insertClientProjection P t operation
  let t ← insertParents operation 0 operation.causalParents t
  let t ← insertAuthorization t operation
  let t ← insertHead t operation
  let t ← insertResources operation 0 operation.body.resources t
  let t ← insertCapability t operation
  .ok (t, { localSequence, receivedAtUnixMs, operation })

end Insertion

section Transactions

variable (P : Platform)

-- What the admission of a new operation checks before it writes.
def validateAdmission (t : Tables) (spaceId : SpaceId) (operation : OperationEnvelope)
    (effectiveReceivedAt : Int64) : Except RepositoryError Unit := do
  validateReferences t operation
  validateTopology t operation
  let visibility ← visibilityForAdmission P t operation
  validateRevocationTarget t spaceId operation.body
  (authorizeOperationForVisibility P.toPrimitives operation effectiveReceivedAt
    (capabilityView P t) visibility).mapError .authorization

-- The transaction of a submission; an error rolls it back.
def admitOperation (t : Tables) (spaceId : SpaceId) (operation : OperationEnvelope)
    (effectiveReceivedAt : Int64) : Except RepositoryError (Tables × SubmitOperationResult) := do
  let found ← liftCorrupt (loadStored P t operation.operationId)
  match found with
  | some existing => do
    let incomingPayload ← canonicalPayload P operation
    let storedPayload ← canonicalPayload P existing.operation
    require (incomingPayload = storedPayload) (.operationConflict operation.operationId)
    .ok (t, { operation := existing, replayed := true })
  | none => do
    validateAdmission P t spaceId operation effectiveReceivedAt
    let (t, stored) ← insertOperation P t operation effectiveReceivedAt
    .ok (t, { operation := stored, replayed := false })

def isGenesisBody : OperationBody → Bool
  | .spaceGenesis _ => true
  | _ => false

def validateSubmission (t : Tables) (spaceId : SpaceId) (request : SubmitOperationRequest) :
    Except RepositoryError Unit := do
  verifyEnvelope P request.operation
  require (request.operation.spaceId = spaceId) (.topology ("operation belongs to " ++
    request.operation.spaceId.toText ++ ", not selected space " ++ spaceId.toText))
  require (0 ≤ request.receivedAtUnixMs.toInt) (.topology "receivedAtUnixMs must be nonnegative")
  require (!isGenesisBody request.operation.body)
    (.topology "space genesis requires trusted bootstrap")
  requireSpace P t spaceId

-- A transaction over the tables, after the clock has been advanced.
def transact {α : Type} (db : Database) (sampledUnixMs : Int64)
    (transaction : Int64 → Except RepositoryError (Tables × α)) :
    Database × Except RepositoryError α :=
  match advanceAdmissionClock db.admissionClock sampledUnixMs with
  | .error error => (db, .error error)
  | .ok effective =>
    let db := { db with admissionClock := effective }
    match (do
      let clock ← readAdmissionClock db.admissionClock
      transaction (laterOf effective clock)) with
    | .error error => (db, .error error)
    | .ok (tables, result) => ({ db with tables }, .ok result)

def submitOperation (db : Database) (spaceId : SpaceId) (request : SubmitOperationRequest) :
    Database × Except RepositoryError SubmitOperationResult :=
  match validateSubmission P db.tables spaceId request with
  | .error error => (db, .error error)
  | .ok () => transact db request.receivedAtUnixMs
      (admitOperation P db.tables spaceId request.operation)

-- The grant that a bootstrap issues to the local writer.
def isWriterGrant (controller : ActorId) (grant : CapabilityGrant) : Bool :=
  grant.subject ≠ controller &&
    grant.actions = [.appendOperation, .readSpace, .writeContent, .linkWorkspace] &&
    grant.schemas = [.event, .profile, .record, .tag] && grant.visibilities = [.pub, .priv] &&
    grant.contentRoles = ["record.media"] && grant.maxResourceByteLength = some 1073741824 &&
    grant.notBeforeUnixMs.isNone && grant.expiresAtUnixMs.isNone && grant.delegationDepth = 0

def genesisController : OperationBody → Except RepositoryError ActorId
  | .spaceGenesis controller => .ok controller
  | _ => .error (.topology "invalid bootstrap genesis")

def initialWriterGrant : OperationBody → Except RepositoryError CapabilityGrant
  | .capabilityGrant grant => .ok grant
  | _ => .error (.topology "invalid initial writer grant")

-- Returns the grant of a well-formed bootstrap.
def validateBootstrap (request : TrustedSpaceBootstrapRequest) :
    Except RepositoryError CapabilityGrant := do
  require (0 ≤ request.receivedAtUnixMs.toInt)
    (.topology "bootstrap receipt time must be nonnegative")
  require (isDisplayName request.displayName)
    (.topology "space display name must contain 1..=128 non-control scalars")
  let controller ← genesisController request.genesis.body
  let grant ← initialWriterGrant request.initialGrant.body
  require (request.genesis.spaceId = request.initialGrant.spaceId &&
      request.initialGrant.actorId = controller && request.initialGrant.causalParents.isEmpty &&
      request.initialGrant.authorization = [request.genesis.operationId] &&
      request.initialGrant.schema = .capabilityGrant &&
      request.initialGrant.entityId ≠ request.genesis.entityId && isWriterGrant controller grant)
    (.topology "bootstrap operations do not form the canonical controller/writer anchor")
  .ok grant

def spaceRow (request : TrustedSpaceBootstrapRequest) (writer : ActorId)
    (effectiveReceivedAt : Int64) : SpaceRow where
  spaceId := request.genesis.spaceId
  genesisOperationId := request.genesis.operationId
  controllerActorId := request.genesis.actorId
  initialGrantOperationId := request.initialGrant.operationId
  localWriterActorId := writer
  displayName := request.displayName
  createdAtUnixMs := effectiveReceivedAt

def spaceDescriptor (row : SpaceRow) : SpaceDescriptor where
  spaceId := row.spaceId
  displayName := row.displayName
  genesisOperationId := row.genesisOperationId
  initialGrantOperationId := row.initialGrantOperationId
  controllerActorId := row.controllerActorId
  localWriterActorId := row.localWriterActorId
  createdAtUnixMs := row.createdAtUnixMs

def sameAnchor (existing expected : SpaceDescriptor) : Bool :=
  existing.displayName = expected.displayName &&
    existing.genesisOperationId = expected.genesisOperationId &&
    existing.initialGrantOperationId = expected.initialGrantOperationId &&
    existing.controllerActorId = expected.controllerActorId &&
    existing.localWriterActorId = expected.localWriterActorId

-- The answer to a bootstrap of a space that is already trusted.
def replayBootstrap (t : Tables) (request : TrustedSpaceBootstrapRequest)
    (existing expected : SpaceDescriptor) :
    Except RepositoryError TrustedSpaceBootstrapResult := do
  require (sameAnchor existing expected) (.genesisConflict existing.spaceId)
  let genesis ← liftCorrupt (loadStored P t request.genesis.operationId)
  let genesis ← okOr genesis (.corruption ("space " ++ existing.spaceId.toText ++
    " references a missing genesis"))
  let initialGrant ← liftCorrupt (loadStored P t request.initialGrant.operationId)
  let initialGrant ← okOr initialGrant (.corruption ("space " ++ existing.spaceId.toText ++
    " references a missing grant"))
  let storedGenesis ← canonicalPayload P genesis.operation
  let incomingGenesis ← canonicalPayload P request.genesis
  require (storedGenesis = incomingGenesis) (.genesisConflict existing.spaceId)
  let storedGrant ← canonicalPayload P initialGrant.operation
  let incomingGrant ← canonicalPayload P request.initialGrant
  require (storedGrant = incomingGrant) (.genesisConflict existing.spaceId)
  .ok { space := existing, genesis, initialGrant, replayed := true }

def withSpace (t : Tables) (row : SpaceRow) : Tables := { t with spaces := t.spaces ++ [row] }

def createSpace (t : Tables) (request : TrustedSpaceBootstrapRequest) (row : SpaceRow)
    (effectiveReceivedAt : Int64) :
    Except RepositoryError (Tables × TrustedSpaceBootstrapResult) := do
  let spaces ← liftStorage (Table.insert spaceConstraints t.spaces row)
  let t := { t with spaces := spaces }
  let (t, genesis) ← insertOperation P t request.genesis effectiveReceivedAt
  (authorizeOperation P.toPrimitives request.initialGrant effectiveReceivedAt
    (capabilityView P t)).mapError .authorization
  let (t, initialGrant) ← insertOperation P t request.initialGrant effectiveReceivedAt
  liftStorage (require (spaceKeysHold t.operations t.capabilityGrants row) (.foreignKey .spaces))
  .ok (t, { space := spaceDescriptor row, genesis, initialGrant, replayed := false })

def establishSpace (t : Tables) (request : TrustedSpaceBootstrapRequest) (writer : ActorId)
    (effectiveReceivedAt : Int64) :
    Except RepositoryError (Tables × TrustedSpaceBootstrapResult) := do
  let row := spaceRow request writer effectiveReceivedAt
  let found ← loadSpace P t request.genesis.spaceId
  match found with
  | some existing => do
    let result ← replayBootstrap P t request existing (spaceDescriptor row)
    .ok (t, result)
  | none => createSpace P t request row effectiveReceivedAt

def verifyBootstrap (request : TrustedSpaceBootstrapRequest) :
    Except RepositoryError CapabilityGrant := do
  verifyEnvelope P request.genesis
  verifyEnvelope P request.initialGrant
  validateBootstrap request

def bootstrapTrustedSpace (db : Database) (request : TrustedSpaceBootstrapRequest) :
    Database × Except RepositoryError TrustedSpaceBootstrapResult :=
  match verifyBootstrap P request with
  | .error error => (db, .error error)
  | .ok grant => transact db request.receivedAtUnixMs
      (establishSpace P db.tables request grant.subject)

-- Every key of the schema includes the space, so after the deletion only the
-- rows of other components can still refer to it; `referenced` says that one
-- does, and then the commit fails.
def deleteSpace (db : Database) (spaceId : SpaceId) (referenced : Bool) :
    Database × Except RepositoryError Unit :=
  if (spaceRow? db.tables spaceId).isNone then (db, .error (.spaceNotFound spaceId))
  else if referenced then (db, .error (.unavailable (.foreignKey .spaces)))
  else ({ db with tables := db.tables.withoutSpace spaceId }, .ok ())

end Transactions

-- The calls of the repository, with whatever they answer.
inductive Step (P : Platform) : Database → Database → Prop
  | bootstrap (db : Database) (request : TrustedSpaceBootstrapRequest) :
      Step P db (bootstrapTrustedSpace P db request).1
  | submit (db : Database) (spaceId : SpaceId) (request : SubmitOperationRequest) :
      Step P db (submitOperation P db spaceId request).1
  | delete (db : Database) (spaceId : SpaceId) (referenced : Bool) :
      Step P db (deleteSpace db spaceId referenced).1

def Reachable (P : Platform) : Database → Prop := Relation.ReflTransGen (Step P) Database.empty

end Fractonica.Store
