import Fractonica.DataModel.Projection
import Fractonica.Lib.Table

namespace Fractonica.Store

open Lib Trust Content DataModel

-- The libraries behind the store: the JSON reader of the envelopes, the JSON
-- functions of the database and the lowercase mapping of strings.
structure Platform extends Primitives where
  readEnvelope : List UInt8 → Except String OperationEnvelope
  jsonValid : List UInt8 → Bool
  jsonIsObject : List UInt8 → Bool
  lowercase : String → String

inductive TableName where
  | spaces
  | operations
  | operationParents
  | operationAuthorizationRefs
  | entityHeads
  | clientEntityVisibility
  | operationResources
  | capabilityGrants
  | capabilityGrantActions
  | capabilityGrantSchemaScopes
  | capabilityGrantVisibilities
  | capabilityGrantContentRoles
  | capabilityGrantRevocations
  | clientOperationProjections
  | peerRequestNonces
deriving DecidableEq

inductive StorageError where
  | check (table : TableName)
  | unique (table : TableName)
  | foreignKey (table : TableName)
  | trigger (message : String)
  | noRows
  | full
deriving DecidableEq

structure SpaceRow where
  spaceId : SpaceId
  genesisOperationId : OperationId
  controllerActorId : ActorId
  initialGrantOperationId : OperationId
  localWriterActorId : ActorId
  displayName : String
  createdAtUnixMs : Int64
deriving DecidableEq

structure OperationRow where
  localSequence : Nat
  operationId : OperationId
  protocolVersion : UInt16
  spaceId : SpaceId
  entityId : EntityId
  schema : EntitySchema
  actorId : ActorId
  occurredAtUnixMs : Int64
  receivedAtUnixMs : Int64
  nonce : OperationNonce
  canonicalPayload : List UInt8
  coseSign1 : List UInt8
  projectionJson : List UInt8
deriving DecidableEq

structure ParentRow where
  spaceId : SpaceId
  entityId : EntityId
  schema : EntitySchema
  operationId : OperationId
  parentOperationId : OperationId
  position : Nat
deriving DecidableEq

structure AuthorizationRow where
  spaceId : SpaceId
  operationId : OperationId
  authorizationOperationId : OperationId
  position : Nat
deriving DecidableEq

structure HeadRow where
  spaceId : SpaceId
  entityId : EntityId
  schema : EntitySchema
  operationId : OperationId
deriving DecidableEq

structure VisibilityRow where
  spaceId : SpaceId
  entityId : EntityId
  schema : EntitySchema
  originOperationId : OperationId
  visibility : Visibility
deriving DecidableEq

structure ResourceRow where
  spaceId : SpaceId
  operationId : OperationId
  position : Nat
  contentId : ContentId
  byteLength : Int64
  mediaType : String
  role : String
  originalName : Option String
deriving DecidableEq

structure GrantRow where
  spaceId : SpaceId
  grantOperationId : OperationId
  issuerActorId : ActorId
  subjectActorId : ActorId
  delegationDepth : UInt8
  notBeforeUnixMs : Option Int64
  expiresAtUnixMs : Option Int64
  maxResourceByteLength : Option Int64
  label : String
deriving DecidableEq

-- The rows of the four tables that hold the sets of a grant.
structure GrantItemRow (α : Type) where
  spaceId : SpaceId
  grantOperationId : OperationId
  position : Nat
  value : α
deriving DecidableEq

structure RevocationRow where
  spaceId : SpaceId
  revocationOperationId : OperationId
  revokerActorId : ActorId
  grantOperationId : OperationId
  reason : CapabilityRevocationReason
  detail : Option String
deriving DecidableEq

structure ProjectionRow where
  spaceId : SpaceId
  operationId : OperationId
  entityId : EntityId
  schema : EntitySchema
  actorId : ActorId
  visibility : Visibility
  tombstone : Bool
  startAtUnixMs : Option Int64
  endAtUnixMs : Option Int64
  sortText : Option String
  resourceCount : Nat
  mediaBytes : Int64
  bodyJson : List UInt8
deriving DecidableEq

-- `lastSequence` is the counter behind the automatically assigned sequence
-- numbers, which deletions do not reset.
structure Tables where
  spaces : List SpaceRow
  operations : List OperationRow
  lastSequence : Nat
  operationParents : List ParentRow
  operationAuthorizationRefs : List AuthorizationRow
  entityHeads : List HeadRow
  clientEntityVisibility : List VisibilityRow
  operationResources : List ResourceRow
  capabilityGrants : List GrantRow
  capabilityGrantActions : List (GrantItemRow CapabilityAction)
  capabilityGrantSchemaScopes : List (GrantItemRow EntitySchema)
  capabilityGrantVisibilities : List (GrantItemRow Visibility)
  capabilityGrantContentRoles : List (GrantItemRow String)
  capabilityGrantRevocations : List RevocationRow
  clientOperationProjections : List ProjectionRow

structure Database where
  admissionClock : Int64
  tables : Tables

def Tables.empty : Tables where
  spaces := []
  operations := []
  lastSequence := 0
  operationParents := []
  operationAuthorizationRefs := []
  entityHeads := []
  clientEntityVisibility := []
  operationResources := []
  capabilityGrants := []
  capabilityGrantActions := []
  capabilityGrantSchemaScopes := []
  capabilityGrantVisibilities := []
  capabilityGrantContentRoles := []
  capabilityGrantRevocations := []
  clientOperationProjections := []

def Database.empty : Database := { admissionClock := 0, tables := .empty }

def isHexDigit (c : Char) : Bool :=
  ('0'.toNat ≤ c.toNat && c.toNat ≤ '9'.toNat) || ('a'.toNat ≤ c.toNat && c.toNat ≤ 'f'.toNat)

-- A label followed by 64 lowercase hexadecimal digits.
def isIdentifierText (label text : String) : Bool :=
  text.toList.length = label.toList.length + 64 &&
    text.toList.take label.toList.length = label.toList &&
    (text.toList.drop label.toList.length).all isHexDigit

def isEntityText (text : String) : Bool :=
  let characters := text.toList
  let digits := characters.filter (· ≠ '-')
  characters.length = 36 && characters[8]? = some '-' && characters[13]? = some '-' &&
    characters[18]? = some '-' && characters[23]? = some '-' && digits.length = 32 &&
    digits.all isHexDigit && text ≠ "00000000-0000-0000-0000-000000000000"

-- The position of the first occurrence, counted from one.
def instr (text : String) (c : Char) : Nat :=
  match text.toList.findIdx? (· = c) with
  | some index => index + 1
  | none => 0

def blobLengthBetween (low high : Nat) (text : String) : Bool :=
  low ≤ (utf8Bytes text).length && (utf8Bytes text).length ≤ high

def hasNoNul (text : String) : Bool := instr text (Char.ofNat 0) = 0

def isRoleCharacter (c : Char) : Bool :=
  ('a'.toNat ≤ c.toNat && c.toNat ≤ 'z'.toNat) || ('0'.toNat ≤ c.toNat && c.toNat ≤ '9'.toNat) ||
    c = '.' || c = '_' || c = '-'

def isRoleText (role : String) : Bool :=
  blobLengthBetween 1 64 role && role.toList.all isRoleCharacter

def SpaceRow.checks (row : SpaceRow) : Bool :=
  isIdentifierText SPACE_PREFIX row.spaceId.toText &&
    row.spaceId.bytes ≠ FixedBytes.replicate 32 0 &&
    isIdentifierText OPERATION_PREFIX row.genesisOperationId.toText &&
    isIdentifierText ACTOR_PREFIX row.controllerActorId.toText &&
    isIdentifierText OPERATION_PREFIX row.initialGrantOperationId.toText &&
    isIdentifierText ACTOR_PREFIX row.localWriterActorId.toText &&
    blobLengthBetween 1 512 row.displayName && hasNoNul row.displayName &&
    0 ≤ row.createdAtUnixMs.toInt &&
    row.initialGrantOperationId ≠ row.genesisOperationId &&
    row.localWriterActorId ≠ row.controllerActorId

def OperationRow.checks (P : Platform) (row : OperationRow) : Bool :=
  isIdentifierText OPERATION_PREFIX row.operationId.toText && row.protocolVersion = 1 &&
    isEntityText row.entityId.toText && isIdentifierText ACTOR_PREFIX row.actorId.toText &&
    0 ≤ row.occurredAtUnixMs.toInt && 0 ≤ row.receivedAtUnixMs.toInt &&
    row.nonce.bytes.bytes.length = 16 &&
    1 ≤ row.canonicalPayload.length && row.canonicalPayload.length ≤ 2097152 &&
    row.canonicalPayload.head? = some 0x8b &&
    80 ≤ row.coseSign1.length && row.coseSign1.length ≤ 2097408 &&
    row.coseSign1.head? = some 0xd2 &&
    2 ≤ row.projectionJson.length && row.projectionJson.length ≤ 8388608 &&
    P.jsonValid row.projectionJson && P.jsonIsObject row.projectionJson

def ResourceRow.checks (row : ResourceRow) : Bool :=
  row.position ≤ 63 && isIdentifierText CONTENT_ID_PREFIX row.contentId.toText &&
    0 ≤ row.byteLength.toInt && row.byteLength.toInt ≤ 1099511627776 &&
    blobLengthBetween 3 127 row.mediaType && 1 < instr row.mediaType '/' &&
    hasNoNul row.mediaType && isRoleText row.role &&
    row.originalName.all fun name =>
      blobLengthBetween 1 255 name && hasNoNul name && instr name '/' = 0 &&
        instr name (Char.ofNat 92) = 0

def GrantRow.checks (row : GrantRow) : Bool :=
  isIdentifierText ACTOR_PREFIX row.subjectActorId.toText && row.delegationDepth.toNat ≤ 16 &&
    row.notBeforeUnixMs.all (fun start => 0 ≤ start.toInt) &&
    row.expiresAtUnixMs.all (fun finish => 0 ≤ finish.toInt) &&
    row.maxResourceByteLength.all (fun most => 0 ≤ most.toInt && most.toInt ≤ 1099511627776) &&
    blobLengthBetween 1 512 row.label && hasNoNul row.label &&
    row.expiresAtUnixMs.all fun finish =>
      row.notBeforeUnixMs.all fun start => start.toInt < finish.toInt

def RevocationRow.checks (row : RevocationRow) : Bool :=
  row.detail.all (fun detail => blobLengthBetween 1 2048 detail && hasNoNul detail) &&
    row.revocationOperationId ≠ row.grantOperationId

def ProjectionRow.checks (P : Platform) (row : ProjectionRow) : Bool :=
  row.schema.isClient && 0 ≤ row.mediaBytes.toInt && P.jsonValid row.bodyJson

section Constraints

-- The constraints of a table depend on the tables that its rows refer to.
variable (P : Platform) (spaces : List SpaceRow) (operations : List OperationRow)
  (grants : List GrantRow)

-- The unique keys of the operations that other tables refer to.
def hasOperation (spaceId : SpaceId) (operationId : OperationId) : Bool :=
  operations.any fun row => row.spaceId = spaceId && row.operationId = operationId

def hasEntityOperation (spaceId : SpaceId) (entityId : EntityId) (schema : EntitySchema)
    (operationId : OperationId) : Bool :=
  operations.any fun row => row.spaceId = spaceId && row.entityId = entityId &&
    row.schema = schema && row.operationId = operationId

def hasActorOperation (spaceId : SpaceId) (operationId : OperationId) (actorId : ActorId)
    (schema : EntitySchema) : Bool :=
  operations.any fun row => row.spaceId = spaceId && row.operationId = operationId &&
    row.actorId = actorId && row.schema = schema

def hasGrant (spaceId : SpaceId) (grantOperationId : OperationId) : Bool :=
  grants.any fun row =>
    row.spaceId = spaceId && row.grantOperationId = grantOperationId

def isGenesis (spaceId : SpaceId) (operationId : OperationId) : Bool :=
  spaces.any fun row => row.spaceId = spaceId && row.genesisOperationId = operationId

-- The keys of a space that refer to its operations are checked on commit.
def spaceConstraints : Table.Constraints StorageError SpaceRow where
  admits row := require row.checks (.check .spaces)
  clash row other := row.spaceId = other.spaceId ||
    row.genesisOperationId = other.genesisOperationId ||
    row.initialGrantOperationId = other.initialGrantOperationId
  duplicate := .unique .spaces
  refers _ := true
  dangling := .foreignKey .spaces

def spaceKeysHold (row : SpaceRow) : Bool :=
  operations.any (fun operation => operation.spaceId = row.spaceId &&
      operation.operationId = row.genesisOperationId &&
      operation.actorId = row.controllerActorId) &&
    grants.any fun grant => grant.spaceId = row.spaceId &&
      grant.grantOperationId = row.initialGrantOperationId &&
      grant.issuerActorId = row.controllerActorId && grant.subjectActorId = row.localWriterActorId

def operationsOneSchemaPerEntity (row : OperationRow) : Except StorageError Unit :=
  require (!operations.any fun existing => existing.spaceId = row.spaceId &&
    existing.entityId = row.entityId && existing.schema ≠ row.schema)
    (.trigger "entity schema mismatch")

def operationsValidateGenesis (row : OperationRow) : Except StorageError Unit :=
  if row.schema = .spaceGenesis || isGenesis spaces row.spaceId row.operationId then
    require (spaces.any fun space => space.spaceId = row.spaceId &&
      space.genesisOperationId = row.operationId && space.controllerActorId = row.actorId &&
      row.schema = .spaceGenesis) (.trigger "invalid space genesis projection")
  else .ok ()

def operationConstraints : Table.Constraints StorageError OperationRow where
  admits row := do
    operationsOneSchemaPerEntity operations row
    operationsValidateGenesis spaces row
    require (row.checks P) (.check .operations)
  clash row other := row.operationId = other.operationId
  duplicate := .unique .operations
  refers row := spaces.any fun space => space.spaceId = row.spaceId
  dangling := .foreignKey .operations

def parentConstraints : Table.Constraints StorageError ParentRow where
  admits row := do
    require (!isGenesis spaces row.spaceId row.operationId)
      (.trigger "space genesis cannot have causal parents")
    require (row.position ≤ 63 && row.operationId ≠ row.parentOperationId)
      (.check .operationParents)
  clash row other := row.spaceId = other.spaceId && row.operationId = other.operationId &&
    (row.parentOperationId = other.parentOperationId || row.position = other.position)
  duplicate := .unique .operationParents
  refers row := hasEntityOperation operations row.spaceId row.entityId row.schema row.operationId &&
    hasEntityOperation operations row.spaceId row.entityId row.schema row.parentOperationId
  dangling := .foreignKey .operationParents

def authorizationConstraints : Table.Constraints StorageError AuthorizationRow where
  admits row := do
    require (!isGenesis spaces row.spaceId row.operationId)
      (.trigger "space genesis cannot have authorization references")
    require (row.position ≤ 63 && row.operationId ≠ row.authorizationOperationId)
      (.check .operationAuthorizationRefs)
  clash row other := row.spaceId = other.spaceId && row.operationId = other.operationId &&
    (row.authorizationOperationId = other.authorizationOperationId ||
      row.position = other.position)
  duplicate := .unique .operationAuthorizationRefs
  refers row := hasOperation operations row.spaceId row.operationId &&
    hasOperation operations row.spaceId row.authorizationOperationId
  dangling := .foreignKey .operationAuthorizationRefs

def headConstraints : Table.Constraints StorageError HeadRow where
  admits _ := .ok ()
  clash row other := row.spaceId = other.spaceId && row.operationId = other.operationId
  duplicate := .unique .entityHeads
  refers row := hasEntityOperation operations row.spaceId row.entityId row.schema row.operationId
  dangling := .foreignKey .entityHeads

def visibilityConstraints : Table.Constraints StorageError VisibilityRow where
  admits row := require row.schema.isClient (.check .clientEntityVisibility)
  clash row other := row.spaceId = other.spaceId &&
    (row.entityId = other.entityId || row.originOperationId = other.originOperationId)
  duplicate := .unique .clientEntityVisibility
  refers row :=
    hasEntityOperation operations row.spaceId row.entityId row.schema row.originOperationId
  dangling := .foreignKey .clientEntityVisibility

def resourceConstraints : Table.Constraints StorageError ResourceRow where
  admits row := require row.checks (.check .operationResources)
  clash row other := row.spaceId = other.spaceId && row.operationId = other.operationId &&
    (row.position = other.position || row.contentId = other.contentId)
  duplicate := .unique .operationResources
  refers row := hasOperation operations row.spaceId row.operationId
  dangling := .foreignKey .operationResources

def grantConstraints : Table.Constraints StorageError GrantRow where
  admits row := require row.checks (.check .capabilityGrants)
  clash row other := row.spaceId = other.spaceId && row.grantOperationId = other.grantOperationId
  duplicate := .unique .capabilityGrants
  refers row :=
    hasActorOperation operations row.spaceId row.grantOperationId row.issuerActorId .capabilityGrant
  dangling := .foreignKey .capabilityGrants

-- The tables of a grant's sets differ in their name, in the highest position
-- and in the check of the value.
def itemConstraints {α : Type} [DecidableEq α] (table : TableName) (last : Nat)
    (check : α → Bool) : Table.Constraints StorageError (GrantItemRow α) where
  admits row := require (row.position ≤ last && check row.value) (.check table)
  clash row other := row.spaceId = other.spaceId &&
    row.grantOperationId = other.grantOperationId &&
    (row.value = other.value || row.position = other.position)
  duplicate := .unique table
  refers row := hasGrant grants row.spaceId row.grantOperationId
  dangling := .foreignKey table

def actionConstraints : Table.Constraints StorageError (GrantItemRow CapabilityAction) :=
  itemConstraints grants .capabilityGrantActions 4 fun _ => true

def schemaScopeConstraints : Table.Constraints StorageError (GrantItemRow EntitySchema) :=
  itemConstraints grants .capabilityGrantSchemaScopes 31 fun _ => true

def grantVisibilityConstraints : Table.Constraints StorageError (GrantItemRow Visibility) :=
  itemConstraints grants .capabilityGrantVisibilities 1 fun _ => true

def contentRoleConstraints : Table.Constraints StorageError (GrantItemRow String) :=
  itemConstraints grants .capabilityGrantContentRoles 63 fun role =>
    isRoleText role && instr role '*' = 0

def revocationConstraints : Table.Constraints StorageError RevocationRow where
  admits row := require row.checks (.check .capabilityGrantRevocations)
  clash row other := row.spaceId = other.spaceId &&
    row.revocationOperationId = other.revocationOperationId
  duplicate := .unique .capabilityGrantRevocations
  refers row :=
    hasActorOperation operations row.spaceId row.revocationOperationId row.revokerActorId
      .capabilityRevoke && hasGrant grants row.spaceId row.grantOperationId
  dangling := .foreignKey .capabilityGrantRevocations

def projectionConstraints : Table.Constraints StorageError ProjectionRow where
  admits row := require (row.checks P) (.check .clientOperationProjections)
  clash row other := row.spaceId = other.spaceId && row.operationId = other.operationId
  duplicate := .unique .clientOperationProjections
  refers row := hasOperation operations row.spaceId row.operationId &&
    hasEntityOperation operations row.spaceId row.entityId row.schema row.operationId
  dangling := .foreignKey .clientOperationProjections

end Constraints

-- The deletion of a space, table by table.
def Tables.withoutSpace (t : Tables) (spaceId : SpaceId) : Tables where
  spaces := t.spaces.filter (·.spaceId ≠ spaceId)
  operations := t.operations.filter (·.spaceId ≠ spaceId)
  lastSequence := t.lastSequence
  operationParents := t.operationParents.filter (·.spaceId ≠ spaceId)
  operationAuthorizationRefs := t.operationAuthorizationRefs.filter (·.spaceId ≠ spaceId)
  entityHeads := t.entityHeads.filter (·.spaceId ≠ spaceId)
  clientEntityVisibility := t.clientEntityVisibility.filter (·.spaceId ≠ spaceId)
  operationResources := t.operationResources.filter (·.spaceId ≠ spaceId)
  capabilityGrants := t.capabilityGrants.filter (·.spaceId ≠ spaceId)
  capabilityGrantActions := t.capabilityGrantActions.filter (·.spaceId ≠ spaceId)
  capabilityGrantSchemaScopes := t.capabilityGrantSchemaScopes.filter (·.spaceId ≠ spaceId)
  capabilityGrantVisibilities := t.capabilityGrantVisibilities.filter (·.spaceId ≠ spaceId)
  capabilityGrantContentRoles := t.capabilityGrantContentRoles.filter (·.spaceId ≠ spaceId)
  capabilityGrantRevocations := t.capabilityGrantRevocations.filter (·.spaceId ≠ spaceId)
  clientOperationProjections := t.clientOperationProjections.filter (·.spaceId ≠ spaceId)

end Fractonica.Store
