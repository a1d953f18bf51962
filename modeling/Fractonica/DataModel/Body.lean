import Fractonica.DataModel.Validation

namespace Fractonica.DataModel

open Lib Trust Content

def BODY_TOMBSTONE : UInt64 := 0
def BODY_RECORD_PUT : UInt64 := 1
def BODY_TAG_PUT : UInt64 := 2
def BODY_EVENT_PUT : UInt64 := 3
def BODY_PROFILE_PUT : UInt64 := 4
def BODY_SPACE_GENESIS : UInt64 := 5
def BODY_CAPABILITY_GRANT : UInt64 := 6
def BODY_CAPABILITY_REVOKE : UInt64 := 7

def visibilityCode : Visibility → UInt64
  | .pub => 0
  | .priv => 1

def actionCode : CapabilityAction → UInt64
  | .appendOperation => 0
  | .issueCapability => 1
  | .revokeCapability => 2
  | .readSpace => 3
  | .writeContent => 4
  | .linkWorkspace => 5

def revocationReasonCode : CapabilityRevocationReason → UInt64
  | .keyCompromised => 0
  | .deviceLost => 1
  | .keyRotated => 2
  | .scopeChanged => 3
  | .administrative => 4

def nonnegativeInteger (value : Int64) : Except DataModelError CanonicalValue :=
  if 0 ≤ value.toInt then .ok (.unsigned (UInt64.ofNat value.toInt.toNat))
  else .error (.negativeOccurredAt value)

def signedInteger (value : Int64) : CanonicalValue :=
  if value.toInt < 0 then .integer value else .unsigned (UInt64.ofNat value.toInt.toNat)

def optionalNonnegativeInteger (value : Option Int64) : Except DataModelError CanonicalValue :=
  match value with
  | none => .ok .null
  | some value => nonnegativeInteger value

def optionalUnsigned (value : Option UInt64) : CanonicalValue :=
  value.elim .null .unsigned

def optionalText (value : Option String) : CanonicalValue :=
  value.elim .null .text

def encodeNumber (P : Primitives) (number : JsonNumber) : Except DataModelError CanonicalValue :=
  match number.asI64.filter (fun value => value.toInt < 0) with
  | some value => .ok (.integer value)
  | none =>
    match number.asU64 with
    | some value => .ok (.unsigned value)
    | none =>
      match number.asF64.filter doubleIsFinite with
      | some bits => .ok (.float bits)
      | none => .error (.unsupportedMetadataNumber (number.render P))

def encodeJsonValue (P : Primitives) : Json → Except DataModelError CanonicalValue
  | .null => .ok .null
  | .bool value => .ok (.bool value)
  | .number number => encodeNumber P number
  | .string value => .ok (.text value)
  | .array values => do
    let values ← items values
    .ok (.array values)
  | .object entries => do
    let entries ← pairs entries
    .ok (.map entries)
where
  items : List Json → Except DataModelError (List CanonicalValue)
    | [] => .ok []
    | value :: rest => do
      let value ← encodeJsonValue P value
      let rest ← items rest
      .ok (value :: rest)
  pairs : List (JsonKey × Json) → Except DataModelError (List (CanonicalValue × CanonicalValue))
    | [] => .ok []
    | (key, value) :: rest => do
      let value ← encodeJsonValue P value
      let rest ← pairs rest
      .ok ((.text key.text, value) :: rest)

def encodeMetadataObject (P : Primitives) (metadata : Metadata) :
    Except DataModelError CanonicalValue := do
  let entries ← encodeJsonValue.pairs P metadata.entries
  .ok (.map entries)

def encodeResource (resource : ResourceRef) : CanonicalValue :=
  .array [
    .bytes resource.contentId.bytes.bytes,
    .unsigned resource.byteLength,
    .text resource.mediaType,
    .text resource.role,
    optionalText resource.originalName]

def encodeTarget : ReferenceTarget → CanonicalValue
  | .actor actorId => .array [.unsigned 0, .bytes actorId.bytes.bytes]
  | .entity spaceId entityId operationId =>
    .array [
      .unsigned 1,
      .bytes spaceId.bytes.bytes,
      .bytes entityId.uuid.bytes.bytes,
      operationId.elim .null fun id => .bytes id.bytes.bytes]

def encodeReferences (references : List EntityReference) : CanonicalValue :=
  .array (references.map fun reference =>
    .array [.text reference.relation, encodeTarget reference.target])

def encodeEncryptedPayload (envelope : EncryptedPayload) : CanonicalValue :=
  let algorithm := match envelope.algorithm with
    | .aes256Gcm => 0
  .array [
    .unsigned algorithm,
    .text envelope.keyId,
    .text envelope.nonceBase64url,
    .text envelope.ciphertextBase64url]

def encodeRecordDocument (P : Primitives) (document : RecordDocument) :
    Except DataModelError CanonicalValue := do
  let start ← nonnegativeInteger document.startAtUnixMs
  let finish ← optionalNonnegativeInteger document.endAtUnixMs
  let metadata ← encodeMetadataObject P document.metadata
  .ok (.array [start, finish, optionalText document.emoji, optionalText document.text, metadata,
    .array (document.resources.map encodeResource), encodeReferences document.references])

def encodeTagDocument (P : Primitives) (document : TagDocument) :
    Except DataModelError CanonicalValue := do
  let metadata ← encodeMetadataObject P document.metadata
  .ok (.array [.text document.name, optionalText document.emoji, optionalText document.notes,
    optionalText document.colorHex, metadata, encodeReferences document.references])

def encodeEventDocument (P : Primitives) (document : EventDocument) :
    Except DataModelError CanonicalValue := do
  let start ← nonnegativeInteger document.startAtUnixMs
  let finish ← optionalNonnegativeInteger document.endAtUnixMs
  let metadata ← encodeMetadataObject P document.metadata
  .ok (.array [start, finish, .text document.label, signedInteger document.typeNumber, metadata,
    encodeReferences document.references])

def encodeProfileDocument (P : Primitives) (document : ProfileDocument) :
    Except DataModelError CanonicalValue := do
  let metadata ← encodeMetadataObject P document.metadata
  .ok (.array [.text document.handle, .text document.displayName,
    .unsigned document.sarosAnchor.toUInt64, document.avatar.elim .null encodeResource, metadata])

def encodeProtected {α : Type} (payload : ProtectedDocument α)
    (encodePublic : α → Except DataModelError CanonicalValue) :
    Except DataModelError CanonicalValue :=
  match payload with
  | .pub document => do
    let document ← encodePublic document
    .ok (.array [.unsigned 0, document, .array []])
  | .priv envelope resources =>
    .ok (.array [.unsigned 1, encodeEncryptedPayload envelope,
      .array (resources.map encodeResource)])

def encodeCapabilityGrant (grant : CapabilityGrant) : Except DataModelError CanonicalValue := do
  let notBefore ← optionalNonnegativeInteger grant.notBeforeUnixMs
  let expiresAt ← optionalNonnegativeInteger grant.expiresAtUnixMs
  .ok (.array [
    .unsigned BODY_CAPABILITY_GRANT,
    .bytes grant.subject.bytes.bytes,
    .array (grant.actions.map fun action => .unsigned (actionCode action)),
    .array (grant.schemas.map fun schema => .text schema.asStr),
    .array (grant.visibilities.map fun visibility => .unsigned (visibilityCode visibility)),
    .array (grant.contentRoles.map .text),
    optionalUnsigned grant.maxResourceByteLength,
    notBefore,
    expiresAt,
    .unsigned grant.delegationDepth.toUInt64,
    .text grant.label])

def encodeCapabilityRevocation (revocation : CapabilityRevocation) :
    Except DataModelError CanonicalValue :=
  .ok (.array [
    .unsigned BODY_CAPABILITY_REVOKE,
    .bytes revocation.grantId.bytes.bytes,
    .unsigned (revocationReasonCode revocation.reason),
    optionalText revocation.detail])

def encodeBody (P : Primitives) (schema : EntitySchema) (body : OperationBody) :
    Except DataModelError CanonicalValue :=
  match schema, body with
  | .record, .tombstone => .ok (.array [.unsigned BODY_TOMBSTONE])
  | .tag, .tombstone => .ok (.array [.unsigned BODY_TOMBSTONE])
  | .event, .tombstone => .ok (.array [.unsigned BODY_TOMBSTONE])
  | .profile, .tombstone => .ok (.array [.unsigned BODY_TOMBSTONE])
  | .record, .putRecord payload => do
    let payload ← encodeProtected payload (encodeRecordDocument P)
    .ok (.array [.unsigned BODY_RECORD_PUT, payload])
  | .tag, .putTag payload => do
    let payload ← encodeProtected payload (encodeTagDocument P)
    .ok (.array [.unsigned BODY_TAG_PUT, payload])
  | .event, .putEvent payload => do
    let payload ← encodeProtected payload (encodeEventDocument P)
    .ok (.array [.unsigned BODY_EVENT_PUT, payload])
  | .profile, .putProfile document => do
    let document ← encodeProfileDocument P document
    .ok (.array [.unsigned BODY_PROFILE_PUT, document])
  | .spaceGenesis, .spaceGenesis controller =>
    .ok (.array [.unsigned BODY_SPACE_GENESIS, .bytes controller.bytes.bytes])
  | .capabilityGrant, .capabilityGrant grant => encodeCapabilityGrant grant
  | .capabilityRevoke, .capabilityRevoke revocation => encodeCapabilityRevocation revocation
  | schema, _ => .error (.schemaBodyMismatch schema)

section Decoding

variable (schema : EntitySchema)

def invalid {α : Type} (detail : String) : Except DataModelError α :=
  .error (.invalidCanonicalBody schema detail)

def required (value : Option CanonicalValue) (detail : String) :
    Except DataModelError CanonicalValue :=
  okOr value (.invalidCanonicalBody schema detail)

def unsigned (value : Option CanonicalValue) (detail : String) : Except DataModelError UInt64 := do
  match ← required schema value detail with
  | .unsigned value => .ok value
  | _ => invalid schema detail

-- `i64::try_from` on an unsigned number.
def int64OfUInt64 (value : UInt64) (detail : String) : Except DataModelError Int64 :=
  if value.toNat < 2 ^ 63 then .ok (Int64.ofInt value.toNat) else invalid schema detail

def nonnegativeI64 (value : Option CanonicalValue) (detail : String) :
    Except DataModelError Int64 := do
  let value ← unsigned schema value detail
  int64OfUInt64 schema value "nonnegative integer exceeds i64"

def optionalNonnegativeI64 (value : Option CanonicalValue) (detail : String) :
    Except DataModelError (Option Int64) := do
  match ← required schema value detail with
  | .null => .ok none
  | .unsigned value => do
    let value ← int64OfUInt64 schema value "optional timestamp exceeds i64"
    .ok (some value)
  | _ => invalid schema detail

def decodeOptionalUnsigned (value : Option CanonicalValue) (detail : String) :
    Except DataModelError (Option UInt64) := do
  match ← required schema value detail with
  | .null => .ok none
  | .unsigned value => .ok (some value)
  | _ => invalid schema detail

def text (value : Option CanonicalValue) (detail : String) : Except DataModelError String := do
  match ← required schema value detail with
  | .text value => .ok value
  | _ => invalid schema detail

def decodeOptionalText (value : Option CanonicalValue) (detail : String) :
    Except DataModelError (Option String) := do
  match ← required schema value detail with
  | .null => .ok none
  | .text value => .ok (some value)
  | _ => invalid schema detail

def fixedBytes (n : Nat) (value : Option CanonicalValue) (detail : String) :
    Except DataModelError (FixedBytes n) := do
  match ← required schema value detail with
  | .bytes bytes => okOr (FixedBytes.ofList? n bytes) (.invalidCanonicalBody schema detail)
  | _ => invalid schema detail

def decodeSignedInteger (value : Option CanonicalValue) (detail : String) :
    Except DataModelError Int64 := do
  match ← required schema value detail with
  | .integer value => .ok value
  | .unsigned value => int64OfUInt64 schema value "signed integer exceeds i64"
  | _ => invalid schema detail

def bodyArray (value : CanonicalValue) : Except DataModelError (List CanonicalValue) :=
  match value with
  | .array [] => invalid schema "schema body must include a kind code"
  | .array fields => .ok fields
  | _ => invalid schema "schema body must be an array"

def exactArray (value : CanonicalValue) (length : Nat) (detail : String) :
    Except DataModelError (List CanonicalValue) :=
  match value with
  | .array fields => if fields.length = length then .ok fields else invalid schema detail
  | _ => invalid schema detail

def decodeArray {α : Type} (value : Option CanonicalValue) (field : String)
    (decode : CanonicalValue → Except DataModelError α) : Except DataModelError (List α) := do
  match ← required schema value field with
  | .array values => values.mapM decode
  | _ => invalid schema "expected an array"

def decodeVisibility (value : Option CanonicalValue) (detail : String) :
    Except DataModelError Visibility := do
  match ← unsigned schema value detail with
  | 0 => .ok .pub
  | 1 => .ok .priv
  | _ => invalid schema "unknown visibility code"

def decodeAction (value : Option CanonicalValue) (detail : String) :
    Except DataModelError CapabilityAction := do
  match ← unsigned schema value detail with
  | 0 => .ok .appendOperation
  | 1 => .ok .issueCapability
  | 2 => .ok .revokeCapability
  | 3 => .ok .readSpace
  | 4 => .ok .writeContent
  | 5 => .ok .linkWorkspace
  | _ => invalid schema "unknown capability action code"

def decodeRevocationReason (value : Option CanonicalValue) :
    Except DataModelError CapabilityRevocationReason := do
  match ← unsigned schema value "revocation reason" with
  | 0 => .ok .keyCompromised
  | 1 => .ok .deviceLost
  | 2 => .ok .keyRotated
  | 3 => .ok .scopeChanged
  | 4 => .ok .administrative
  | _ => invalid schema "unknown revocation reason code"

-- The map cases differ in one check: the outermost object is collected into
-- an ordered map, and a nested one also refuses a repeated key.
def decodeJsonValue :
    CanonicalValue → Except DataModelError { value : Json // value.WellFormed }
  | .null => .ok ⟨.null, trivial⟩
  | .bool value => .ok ⟨.bool value, trivial⟩
  | .integer value => .ok ⟨.number (.ofInt64 value), trivial⟩
  | .unsigned value => .ok ⟨.number (.posInt value), trivial⟩
  | .float bits => do
    let number ← okOr (JsonNumber.ofDouble? bits)
      (.invalidCanonicalBody schema "metadata contains a non-finite number")
    .ok ⟨.number number, trivial⟩
  | .text value => .ok ⟨.string value, trivial⟩
  | .array values => do
    let values ← items values
    .ok ⟨.array (values.map Subtype.val), Json.wellFormed_values values⟩
  | .map entries => do
    let metadata ← pairs true "metadata map keys must be text" entries .empty
    .ok ⟨.object metadata.entries, metadata.wellFormed⟩
  | .bytes _ => invalid schema "metadata cannot contain byte strings"
where
  items : List CanonicalValue → Except DataModelError (List { value : Json // value.WellFormed })
    | [] => .ok []
    | value :: rest => do
      let value ← decodeJsonValue value
      let rest ← items rest
      .ok (value :: rest)
  pairs (unique : Bool) (detail : String) :
      List (CanonicalValue × CanonicalValue) → Metadata → Except DataModelError Metadata
    | [], metadata => .ok metadata
    | (.text key, value) :: rest, metadata => do
      let value ← decodeJsonValue value
      if unique && metadata.contains ⟨key⟩ then invalid schema "metadata map keys must be unique"
      else pairs unique detail rest (metadata.insert ⟨key⟩ value)
    | _ :: _, _ => invalid schema detail

def decodeMetadataObject (value : Option CanonicalValue) : Except DataModelError Metadata := do
  match ← required schema value "record metadata" with
  | .map entries =>
    decodeJsonValue.pairs schema false "record metadata keys must be text" entries .empty
  | _ => invalid schema "record metadata must be a map"

def decodeResource (value : CanonicalValue) : Except DataModelError ResourceRef :=
  match value with
  | .array fields =>
    if fields.length = 5 then do
      let contentId ← fixedBytes schema 32 fields[0]? "resource content ID"
      let byteLength ← unsigned schema fields[1]? "resource byte length"
      let mediaType ← text schema fields[2]? "resource media type"
      let role ← text schema fields[3]? "resource role"
      let originalName ← decodeOptionalText schema fields[4]? "resource original name"
      .ok { contentId := ⟨contentId⟩, byteLength, mediaType, role, originalName }
    else invalid schema "resource reference must contain exactly five fields"
  | _ => invalid schema "resource reference must be an array"

def decodeResources (value : Option CanonicalValue) : Except DataModelError (List ResourceRef) :=
  decodeArray schema value "resources" (decodeResource schema)

def decodeTarget (fields : List CanonicalValue) : Except DataModelError ReferenceTarget := do
  match ← unsigned schema fields[0]? "reference target kind", fields.length with
  | 0, 2 => do
    let actorId ← fixedBytes schema 32 fields[1]? "referenced actor"
    .ok (.actor ⟨actorId⟩)
  | 1, 4 => do
    let operationId ← match ← required schema fields[3]? "referenced operation" with
      | .null => .ok none
      | value => do
        let id ← fixedBytes schema 32 (some value) "referenced operation"
        .ok (some ⟨id⟩)
    let spaceId ← fixedBytes schema 32 fields[1]? "referenced space"
    let entityId ← fixedBytes schema 16 fields[2]? "referenced entity"
    .ok (.entity ⟨spaceId⟩ ⟨⟨entityId⟩⟩ operationId)
  | _, _ => invalid schema "invalid reference target"

def decodeReference (value : CanonicalValue) : Except DataModelError EntityReference := do
  let fields ← exactArray schema value 2 "entity reference"
  let relation ← text schema fields[0]? "reference relation"
  let target ← required schema fields[1]? "reference target"
  let targetFields ← bodyArray schema target
  let target ← decodeTarget schema targetFields
  .ok { relation, target }

def decodeReferences (value : Option CanonicalValue) :
    Except DataModelError (List EntityReference) :=
  decodeArray schema value "entity references" (decodeReference schema)

def decodeEncryptedPayload (value : Option CanonicalValue) :
    Except DataModelError EncryptedPayload := do
  match ← required schema value "encrypted payload" with
  | .array fields =>
    if fields.length ≠ 4 then invalid schema "unsupported encrypted payload"
    else do
      let algorithm ← unsigned schema fields[0]? "encryption algorithm"
      require (algorithm = 0) (.invalidCanonicalBody schema "unsupported encrypted payload")
      let keyId ← text schema fields[1]? "encryption key ID"
      let nonceBase64url ← text schema fields[2]? "encryption nonce"
      let ciphertextBase64url ← text schema fields[3]? "encrypted ciphertext"
      .ok { algorithm := .aes256Gcm, keyId, nonceBase64url, ciphertextBase64url }
  | _ => invalid schema "encrypted payload must be an array"

-- The resources of a protected document, behind its two other fields.
def protectedResources (fields : List CanonicalValue) :
    Except DataModelError (List CanonicalValue) := do
  match ← required schema fields[2]? "protected resources" with
  | .array resources => .ok resources
  | _ => invalid schema "protected resources must be an array"

def decodeProtected {α : Type} (value : Option CanonicalValue)
    (decodePublic : CanonicalValue → Except DataModelError α) :
    Except DataModelError (ProtectedDocument α) := do
  match ← required schema value "protected document" with
  | .array fields =>
    if fields.length ≠ 3 then invalid schema "protected document must contain three fields"
    else do
      let resources ← protectedResources schema fields
      match ← unsigned schema fields[0]? "document visibility", resources with
      | 0, [] => do
        let document ← required schema fields[1]? "public document"
        let document ← decodePublic document
        .ok (.pub document)
      | 1, resources => do
        let envelope ← decodeEncryptedPayload schema fields[1]?
        let resources ← resources.mapM (decodeResource schema)
        .ok (.priv envelope resources)
      | _, _ => invalid schema "invalid protected-document visibility or resources"
  | _ => invalid schema "protected document must be an array"

def decodeRecordDocument (value : CanonicalValue) : Except DataModelError RecordDocument := do
  let fields ← exactArray schema value 7 "record document"
  let startAtUnixMs ← nonnegativeI64 schema fields[0]? "record start"
  let endAtUnixMs ← optionalNonnegativeI64 schema fields[1]? "record end"
  let emoji ← decodeOptionalText schema fields[2]? "record emoji"
  let text ← decodeOptionalText schema fields[3]? "record text"
  let metadata ← decodeMetadataObject schema fields[4]?
  let resources ← decodeResources schema fields[5]?
  let references ← decodeReferences schema fields[6]?
  .ok { startAtUnixMs, endAtUnixMs, emoji, text, metadata, resources, references }

def decodeTagDocument (value : CanonicalValue) : Except DataModelError TagDocument := do
  let fields ← exactArray schema value 6 "tag document"
  let name ← text schema fields[0]? "tag name"
  let emoji ← decodeOptionalText schema fields[1]? "tag emoji"
  let notes ← decodeOptionalText schema fields[2]? "tag notes"
  let colorHex ← decodeOptionalText schema fields[3]? "tag color"
  let metadata ← decodeMetadataObject schema fields[4]?
  let references ← decodeReferences schema fields[5]?
  .ok { name, emoji, notes, colorHex, metadata, references }

def decodeEventDocument (value : CanonicalValue) : Except DataModelError EventDocument := do
  let fields ← exactArray schema value 6 "event document"
  let startAtUnixMs ← nonnegativeI64 schema fields[0]? "event start"
  let endAtUnixMs ← optionalNonnegativeI64 schema fields[1]? "event end"
  let label ← text schema fields[2]? "event label"
  let typeNumber ← decodeSignedInteger schema fields[3]? "event type"
  let metadata ← decodeMetadataObject schema fields[4]?
  let references ← decodeReferences schema fields[5]?
  .ok { startAtUnixMs, endAtUnixMs, label, typeNumber, metadata, references }

-- `u16::try_from` and `u8::try_from`.
def boundedUnsigned (value : UInt64) (bound : Nat) (detail : String) : Except DataModelError Nat :=
  if value.toNat < bound then .ok value.toNat else invalid schema detail

def decodeAvatar (value : Option CanonicalValue) : Except DataModelError (Option ResourceRef) := do
  match ← required schema value "profile avatar" with
  | .null => .ok none
  | value => do
    let avatar ← decodeResource schema value
    .ok (some avatar)

def decodeProfileDocument (value : Option CanonicalValue) :
    Except DataModelError ProfileDocument := do
  let value ← required schema value "profile document"
  let fields ← exactArray schema value 5 "profile document"
  let avatar ← decodeAvatar schema fields[3]?
  let handle ← text schema fields[0]? "profile handle"
  let displayName ← text schema fields[1]? "profile display name"
  let anchor ← unsigned schema fields[2]? "profile Saros anchor"
  let anchor ← boundedUnsigned schema anchor (2 ^ 16) "profile Saros anchor exceeds u16"
  let metadata ← decodeMetadataObject schema fields[4]?
  .ok { handle, displayName, sarosAnchor := UInt16.ofNat anchor, avatar, metadata }

def decodeCapabilityGrant (P : Primitives) (fields : List CanonicalValue) :
    Except DataModelError OperationBody :=
  if fields.length ≠ 11 then invalid schema "capability grant must contain exactly eleven fields"
  else do
    let subject ← fixedBytes schema 32 fields[1]? "grant subject"
    let _ ← liftTrust (ActorId.publicKey P ⟨subject⟩)
    let actions ← decodeArray schema fields[2]? "grant actions" fun value =>
      decodeAction schema (some value) "grant action"
    let schemas ← decodeArray schema fields[3]? "grant schemas" fun value => do
      let name ← text schema (some value) "grant schema"
      EntitySchema.parse name
    let visibilities ← decodeArray schema fields[4]? "grant record visibilities" fun value =>
      decodeVisibility schema (some value) "grant visibility"
    let contentRoles ← decodeArray schema fields[5]? "grant content roles" fun value =>
      text schema (some value) "grant content role"
    let maxResourceByteLength ← decodeOptionalUnsigned schema fields[6]? "grant resource limit"
    let notBeforeUnixMs ← optionalNonnegativeI64 schema fields[7]? "grant not-before"
    let expiresAtUnixMs ← optionalNonnegativeI64 schema fields[8]? "grant expiration"
    let depth ← unsigned schema fields[9]? "grant delegation depth"
    let depth ← boundedUnsigned schema depth (2 ^ 8) "grant delegation depth is outside u8"
    let label ← text schema fields[10]? "grant label"
    .ok (.capabilityGrant { subject := ⟨subject⟩, actions, schemas, visibilities, contentRoles,
                            maxResourceByteLength, notBeforeUnixMs, expiresAtUnixMs,
                            delegationDepth := UInt8.ofNat depth, label })

def decodeCapabilityRevocation (fields : List CanonicalValue) :
    Except DataModelError OperationBody :=
  if fields.length ≠ 4 then
    invalid schema "capability revocation must contain exactly four fields"
  else do
    let grantId ← fixedBytes schema 32 fields[1]? "revoked grant ID"
    let reason ← decodeRevocationReason schema fields[2]?
    let detail ← decodeOptionalText schema fields[3]? "revocation detail"
    .ok (.capabilityRevoke { grantId := ⟨grantId⟩, reason, detail })

-- The body of one schema, after its kind code has been read.
def decodeKind (P : Primitives) (kind : UInt64) (fields : List CanonicalValue) :
    Except DataModelError OperationBody :=
  if schema.isClient ∧ kind = BODY_TOMBSTONE ∧ fields.length = 1 then .ok .tombstone
  else if schema = .record ∧ kind = BODY_RECORD_PUT ∧ fields.length = 2 then do
    let payload ← decodeProtected schema fields[1]? (decodeRecordDocument schema)
    .ok (.putRecord payload)
  else if schema = .tag ∧ kind = BODY_TAG_PUT ∧ fields.length = 2 then do
    let payload ← decodeProtected schema fields[1]? (decodeTagDocument schema)
    .ok (.putTag payload)
  else if schema = .event ∧ kind = BODY_EVENT_PUT ∧ fields.length = 2 then do
    let payload ← decodeProtected schema fields[1]? (decodeEventDocument schema)
    .ok (.putEvent payload)
  else if schema = .profile ∧ kind = BODY_PROFILE_PUT ∧ fields.length = 2 then do
    let document ← decodeProfileDocument schema fields[1]?
    .ok (.putProfile document)
  else if schema = .spaceGenesis ∧ kind = BODY_SPACE_GENESIS ∧ fields.length = 2 then do
    let controller ← fixedBytes schema 32 fields[1]? "genesis controller"
    let _ ← liftTrust (ActorId.publicKey P ⟨controller⟩)
    .ok (.spaceGenesis ⟨controller⟩)
  else if schema = .capabilityGrant ∧ kind = BODY_CAPABILITY_GRANT then
    decodeCapabilityGrant schema P fields
  else if schema = .capabilityRevoke ∧ kind = BODY_CAPABILITY_REVOKE then
    decodeCapabilityRevocation schema fields
  else invalid schema "body kind does not match schema"

def decodeBody (P : Primitives) (value : CanonicalValue) :
    Except DataModelError OperationBody := do
  let fields ← bodyArray schema value
  let kind ← unsigned schema fields[0]? "body kind"
  decodeKind schema P kind fields

end Decoding

end Fractonica.DataModel
