import Fractonica.DataModel.Document
import Fractonica.Lib.Base64

namespace Fractonica.DataModel

open Lib Trust Content

def MAX_EMOJI_CHARS : Nat := 32
def MAX_TEXT_CHARS : Nat := 262144
def MAX_METADATA_ENTRIES : Nat := 128
def MAX_METADATA_KEY_CHARS : Nat := 128
def MAX_METADATA_JSON_BYTES : Nat := 65536
def MAX_METADATA_DEPTH : Nat := 16
def MAX_METADATA_CONTAINER_ITEMS : Nat := 256
def MAX_METADATA_STRING_CHARS : Nat := 16384
def MAX_RECORD_RESOURCES : Nat := 64
def MAX_ENTITY_REFERENCES : Nat := 256
def MAX_RELATION_BYTES : Nat := 64
def MAX_TAG_NAME_CHARS : Nat := 128
def MAX_EVENT_LABEL_CHARS : Nat := 256
def MAX_PROFILE_HANDLE_BYTES : Nat := 32
def MAX_PROFILE_DISPLAY_NAME_CHARS : Nat := 128
def MAX_ENCRYPTED_PAYLOAD_BYTES : Nat := 1048576
def MAX_CAPABILITY_SCHEMAS : Nat := 32
def MAX_CAPABILITY_CONTENT_ROLES : Nat := 64
def MAX_DELEGATION_DEPTH : UInt8 := 16
def MAX_CAPABILITY_LABEL_CHARS : Nat := 128
def MAX_REVOCATION_DETAIL_CHARS : Nat := 512

-- The check of an optional field.
def checkSome {α : Type} (value : Option α) (check : α → Except DataModelError Unit) :
    Except DataModelError Unit :=
  match value with
  | some value => check value
  | none => .ok ()

theorem checkSome_eq_ok {value : Option α} {check : α → Except DataModelError Unit} :
    checkSome value check = .ok u ↔ ∀ found ∈ value, check found = .ok () := by
  cases value <;> simp [checkSome]

def isBoundedLabel (value : String) (maximum : Nat) (allowEmpty : Bool) : Bool :=
  let count := value.toList.length
  (allowEmpty || count ≠ 0) && count ≤ maximum && !value.toList.any isControl

def validateBoundedLabel (field value : String) (maximum : Nat) (allowEmpty : Bool) :
    Except DataModelError Unit :=
  require (isBoundedLabel value maximum allowEmpty)
    (.invalidBoundedLabel field value.toList.length maximum)

def validateOptionalTime (field : String) (value : Option Int64) : Except DataModelError Unit :=
  checkSome value fun value =>
    require (0 ≤ value.toInt) (.negativeCapabilityTime field value)

def validateClientTimes (start : Int64) (finish : Option Int64) : Except DataModelError Unit := do
  require (0 ≤ start.toInt) (.negativeRecordStart start)
  checkSome finish fun finish =>
    require (start.toInt ≤ finish.toInt) (.recordEndBeforeStart start finish)

-- The neighbours of a set must ascend strictly by their keys.
def validateSortedBy {α β : Type} [LinearOrder β] (field : String) (values : List α)
    (key : α → β) : Except DataModelError Unit :=
  require ((values.map key).IsChain (· < ·)) (.capabilitySetNotStrictlySorted field)

theorem validateSortedBy_eq_ok {α β : Type} [LinearOrder β] {field : String} {values : List α}
    {key : α → β} {u : Unit} :
    validateSortedBy field values key = .ok u ↔ (values.map key).Pairwise (· < ·) := by
  rw [validateSortedBy, require_eq_ok, decide_eq_true_eq, List.isChain_iff_pairwise]

def validateNonemptySortedSet {α β : Type} [LinearOrder β] (field : String) (values : List α)
    (key : α → β) : Except DataModelError Unit := do
  require (!values.isEmpty) (.emptyCapabilitySet field)
  validateSortedBy field values key

def validateSetSize {α : Type} (field : String) (values : List α) (maximum : Nat) :
    Except DataModelError Unit :=
  require (values.length ≤ maximum) (.capabilitySetTooLarge field values.length maximum)

def validateMetadataKey (key : JsonKey) : Except DataModelError Unit :=
  require (isBoundedLabel key.text MAX_METADATA_KEY_CHARS false)
    (.invalidMetadataKey key.text MAX_METADATA_KEY_CHARS)

def validateMetadataContainer (depth count : Nat) : Except DataModelError Unit := do
  require (depth ≤ MAX_METADATA_DEPTH) (.metadataTooDeep depth MAX_METADATA_DEPTH)
  require (count ≤ MAX_METADATA_CONTAINER_ITEMS)
    (.metadataContainerTooLarge count MAX_METADATA_CONTAINER_ITEMS)

def validateMetadataValue (P : Primitives) : Json → Nat → Except DataModelError Unit
  | .null, _ => .ok ()
  | .bool _, _ => .ok ()
  | .number number, _ =>
    require (number.asI64.isSome || number.asU64.isSome || number.asF64.any doubleIsFinite)
      (.unsupportedMetadataNumber (number.render P))
  | .string value, _ =>
    require (value.toList.length ≤ MAX_METADATA_STRING_CHARS)
      (.metadataStringTooLong value.toList.length MAX_METADATA_STRING_CHARS)
  | .array values, depth => do
    validateMetadataContainer depth values.length
    items values depth
  | .object entries, depth => do
    validateMetadataContainer depth entries.length
    pairs entries depth
where
  items : List Json → Nat → Except DataModelError Unit
    | [], _ => .ok ()
    | value :: rest, depth => do
      validateMetadataValue P value (depth + 1)
      items rest depth
  pairs : List (JsonKey × Json) → Nat → Except DataModelError Unit
    | [], _ => .ok ()
    | (key, value) :: rest, depth => do
      validateMetadataKey key
      validateMetadataValue P value (depth + 1)
      pairs rest depth

def Metadata.encodedSize (P : Primitives) (metadata : Metadata) : Nat :=
  ((Json.object metadata.entries).render P).length

def validateMetadata (P : Primitives) (metadata : Metadata) : Except DataModelError Unit := do
  require (metadata.entries.length ≤ MAX_METADATA_ENTRIES)
    (.tooManyMetadataEntries metadata.entries.length MAX_METADATA_ENTRIES)
  checkAll (fun entry => do
    validateMetadataKey entry.1
    validateMetadataValue P entry.2 1) metadata.entries
  require (metadata.encodedSize P ≤ MAX_METADATA_JSON_BYTES)
    (.metadataTooLarge (metadata.encodedSize P) MAX_METADATA_JSON_BYTES)

def EntityReference.validate (P : Primitives) (reference : EntityReference) :
    Except DataModelError Unit := do
  require (isToken MAX_RELATION_BYTES reference.relation) (.invalidRelation reference.relation)
  match reference.target with
  | .actor actorId => do
    let _ ← liftTrust (ActorId.publicKey P actorId)
    .ok ()
  | .entity spaceId entityId _ => do
    liftTrust (SpaceId.validate spaceId)
    require (!entityId.uuid.isNil) .nilEntityId

def validateReferences (P : Primitives) (references : List EntityReference) :
    Except DataModelError Unit := do
  require (references.length ≤ MAX_ENTITY_REFERENCES)
    (.tooManyEntityReferences references.length MAX_ENTITY_REFERENCES)
  checkAll (·.validate P) references
  require (references.Nodup) .duplicateEntityReference

-- The loop over the resources, with the content seen so far.
def validateResourcesFrom : Nat → List ContentId → List ResourceRef → Except DataModelError Unit
  | _, _, [] => .ok ()
  | index, seen, resource :: rest => do
    resource.validate.mapError (.invalidResource index)
    require (!seen.contains resource.contentId) (.duplicateResourceContentId resource.contentId)
    validateResourcesFrom (index + 1) (resource.contentId :: seen) rest

def validateResources (resources : List ResourceRef) : Except DataModelError Unit := do
  require (resources.length ≤ MAX_RECORD_RESOURCES)
    (.tooManyResources resources.length MAX_RECORD_RESOURCES)
  validateResourcesFrom 0 [] resources

def isOpaqueEncrypted (resource : ResourceRef) : Bool :=
  resource.mediaType = "application/octet-stream" && resource.role = "encrypted" &&
    resource.originalName.isNone

def validatePrivateResources (resources : List ResourceRef) : Except DataModelError Unit := do
  validateResources resources
  require (resources.all isOpaqueEncrypted)
    (.invalidEncryptedPayload "private resources must use the opaque encrypted descriptor")

def KEY_ID_PREFIX : String := "key:aes256:"

def isLowerHexByte (byte : UInt8) : Bool :=
  isAsciiDigit byte || ('a'.toNat ≤ byte.toNat && byte.toNat ≤ 'f'.toNat)

def isHexByte (byte : UInt8) : Bool :=
  isLowerHexByte byte || ('A'.toNat ≤ byte.toNat && byte.toNat ≤ 'F'.toNat)

def isKeyId (keyId : String) : Bool :=
  let label := utf8Bytes KEY_ID_PREFIX
  let digits := (utf8Bytes keyId).drop label.length
  (utf8Bytes keyId).take label.length = label && digits.length = 64 && digits.all isLowerHexByte

def decodeCanonicalBase64url (value : String) : Option (List UInt8) := do
  let decoded ← Base64.decode (utf8Bytes value)
  if Base64.encode decoded = utf8Bytes value then some decoded else none

def EncryptedPayload.validate (envelope : EncryptedPayload) : Except DataModelError Unit := do
  require (isKeyId envelope.keyId) (.invalidEncryptedPayload "invalid key ID")
  let nonce ← okOr (decodeCanonicalBase64url envelope.nonceBase64url)
    (.invalidEncryptedPayload "invalid nonce")
  require (nonce.length = 12) (.invalidEncryptedPayload "nonce must contain exactly 12 bytes")
  let ciphertext ← okOr (decodeCanonicalBase64url envelope.ciphertextBase64url)
    (.invalidEncryptedPayload "invalid ciphertext")
  require (16 ≤ ciphertext.length ∧ ciphertext.length ≤ MAX_ENCRYPTED_PAYLOAD_BYTES)
    (.invalidEncryptedPayload "ciphertext length is outside the supported bounds")

def RecordDocument.validate (P : Primitives) (document : RecordDocument) :
    Except DataModelError Unit := do
  validateClientTimes document.startAtUnixMs document.endAtUnixMs
  checkSome document.emoji fun emoji =>
    validateBoundedLabel "record emoji" emoji MAX_EMOJI_CHARS false
  checkSome document.text fun text =>
    require (text.toList.length ≤ MAX_TEXT_CHARS) (.textTooLong text.toList.length MAX_TEXT_CHARS)
  validateMetadata P document.metadata
  validateResources document.resources
  validateReferences P document.references

-- A number sign and six digits. The digits are sliced off after one byte.
def isColor (color : String) : Bool :=
  match utf8Bytes color with
  | sign :: digits => digits.length = 6 && sign = 0x23 && digits.all isHexByte
  | [] => false

def TagDocument.validate (P : Primitives) (document : TagDocument) :
    Except DataModelError Unit := do
  validateBoundedLabel "tag name" document.name MAX_TAG_NAME_CHARS false
  checkSome document.emoji fun emoji =>
    validateBoundedLabel "tag emoji" emoji MAX_EMOJI_CHARS false
  checkSome document.notes fun notes =>
    validateBoundedLabel "tag notes" notes MAX_TEXT_CHARS true
  checkSome document.colorHex fun color =>
    require (isColor color) (.invalidClientDocument "invalid tag color")
  validateMetadata P document.metadata
  validateReferences P document.references

def EventDocument.validate (P : Primitives) (document : EventDocument) :
    Except DataModelError Unit := do
  validateClientTimes document.startAtUnixMs document.endAtUnixMs
  validateBoundedLabel "event label" document.label MAX_EVENT_LABEL_CHARS false
  validateMetadata P document.metadata
  validateReferences P document.references

def ProfileDocument.validate (P : Primitives) (document : ProfileDocument) :
    Except DataModelError Unit := do
  require (isToken MAX_PROFILE_HANDLE_BYTES document.handle)
    (.invalidClientDocument "profile handle is invalid")
  validateBoundedLabel "profile display name" document.displayName MAX_PROFILE_DISPLAY_NAME_CHARS
    false
  require (101 ≤ document.sarosAnchor.toNat ∧ document.sarosAnchor.toNat ≤ 161)
    (.invalidClientDocument "profile Saros anchor is outside 101 through 161")
  checkSome document.avatar fun avatar => avatar.validate.mapError (.invalidResource 0)
  validateMetadata P document.metadata

def validateProtected {α : Type} (payload : ProtectedDocument α)
    (validatePublic : α → Except DataModelError Unit) (allowPrivateResources : Bool) :
    Except DataModelError Unit :=
  match payload with
  | .pub document => validatePublic document
  | .priv envelope resources => do
    envelope.validate
    if allowPrivateResources then validatePrivateResources resources
    else
      require resources.isEmpty
        (.invalidEncryptedPayload "this schema cannot carry private resources")

def sortBy {α β : Type} [LinearOrder β] (key : α → β) (values : List α) : List α :=
  values.mergeSort fun left right => key left ≤ key right

def validateContentRole (role : String) : Except DataModelError Unit :=
  require (isToken MAX_RESOURCE_ROLE_BYTES role) (.invalidCapabilityContentRole role)

namespace CapabilityGrant

def normalize (grant : CapabilityGrant) : CapabilityGrant :=
  { grant with
    actions := sortBy CapabilityAction.ctorIdx grant.actions
    schemas := sortBy (fun schema => utf8Bytes schema.asStr) grant.schemas
    visibilities := sortBy Visibility.ctorIdx grant.visibilities
    contentRoles := sortBy utf8Bytes grant.contentRoles }

-- Which fields of a grant must be present together.
def validateScope (grant : CapabilityGrant) : Except DataModelError Unit := do
  require (grant.actions.contains .appendOperation = !grant.schemas.isEmpty)
    (.capabilityScopeMismatch ("appendOperation requires a nonempty schemas set, " ++
      "and schemas require appendOperation"))
  require (grant.schemas.any EntitySchema.isClient = !grant.visibilities.isEmpty)
    (.capabilityScopeMismatch ("client schemas require a nonempty visibility set, " ++
      "and visibility scope requires a client schema"))
  require (grant.actions.contains .writeContent =
      (!grant.contentRoles.isEmpty && grant.maxResourceByteLength.isSome))
    (.capabilityScopeMismatch ("writeContent requires nonempty contentRoles and " ++
      "maxResourceByteLength, and those constraints require writeContent"))

def validate (P : Primitives) (grant : CapabilityGrant) : Except DataModelError Unit := do
  let _ ← liftTrust (ActorId.publicKey P grant.subject)
  validateNonemptySortedSet "actions" grant.actions CapabilityAction.ctorIdx
  validateSetSize "schemas" grant.schemas MAX_CAPABILITY_SCHEMAS
  validateSortedBy "schemas" grant.schemas (fun schema => utf8Bytes schema.asStr)
  validateSortedBy "visibilities" grant.visibilities Visibility.ctorIdx
  validateSetSize "contentRoles" grant.contentRoles MAX_CAPABILITY_CONTENT_ROLES
  validateSortedBy "contentRoles" grant.contentRoles utf8Bytes
  checkAll validateContentRole grant.contentRoles
  require (grant.delegationDepth ≤ MAX_DELEGATION_DEPTH)
    (.delegationTooDeep grant.delegationDepth MAX_DELEGATION_DEPTH)
  validateBoundedLabel "capability label" grant.label MAX_CAPABILITY_LABEL_CHARS false
  validateOptionalTime "notBeforeUnixMs" grant.notBeforeUnixMs
  validateOptionalTime "expiresAtUnixMs" grant.expiresAtUnixMs
  checkSome grant.notBeforeUnixMs fun start =>
    checkSome grant.expiresAtUnixMs fun finish =>
      require (start.toInt < finish.toInt) (.invalidCapabilityWindow start finish)
  grant.validateScope
  checkSome grant.maxResourceByteLength fun maximum =>
    require (maximum.toNat ≤ MAX_CONTENT_BYTE_LENGTH)
      (.capabilityResourceLimitTooLarge maximum MAX_CONTENT_BYTE_LENGTH)

-- What the fields of a valid grant satisfy.
structure Valid (P : Primitives) (grant : CapabilityGrant) : Prop where
  subject : P.validKey grant.subject.bytes = true
  nonempty : grant.actions ≠ []
  actions : (grant.actions.map CapabilityAction.ctorIdx).Pairwise (fun left right => left < right)
  schemaCount : grant.schemas.length ≤ MAX_CAPABILITY_SCHEMAS
  schemas : (grant.schemas.map fun schema => utf8Bytes schema.asStr).Pairwise
    (fun left right => left < right)
  visibilities : (grant.visibilities.map Visibility.ctorIdx).Pairwise
    (fun left right => left < right)
  roleCount : grant.contentRoles.length ≤ MAX_CAPABILITY_CONTENT_ROLES
  contentRoles : (grant.contentRoles.map utf8Bytes).Pairwise (fun left right => left < right)
  roles : ∀ role ∈ grant.contentRoles, isToken MAX_RESOURCE_ROLE_BYTES role = true
  depth : grant.delegationDepth ≤ MAX_DELEGATION_DEPTH
  label : isBoundedLabel grant.label MAX_CAPABILITY_LABEL_CHARS false = true
  notBefore : ∀ start ∈ grant.notBeforeUnixMs, 0 ≤ start.toInt
  expiresAt : ∀ finish ∈ grant.expiresAtUnixMs, 0 ≤ finish.toInt
  window : ∀ start ∈ grant.notBeforeUnixMs, ∀ finish ∈ grant.expiresAtUnixMs,
    start.toInt < finish.toInt
  scope : grant.validateScope = .ok ()
  limit : ∀ maximum ∈ grant.maxResourceByteLength, maximum.toNat ≤ MAX_CONTENT_BYTE_LENGTH

theorem valid_of_validate {grant : CapabilityGrant}
    (h : grant.validate P = .ok ()) : grant.Valid P := by
  simp only [validate, validateNonemptySortedSet, validateSetSize, validateBoundedLabel,
    validateOptionalTime, validateContentRole, bind_eq_ok, require_eq_ok, checkSome_eq_ok,
    checkAll_eq_ok, validateSortedBy_eq_ok, liftTrust_eq_ok, publicKey_eq_ok,
    decide_eq_true_eq] at h
  obtain ⟨-, ⟨hsubject, -⟩, -, ⟨-, hnonempty, hactions⟩, -, hschemaCount, -, hschemas, -,
    hvisibilities, -, hroleCount, -, hcontentRoles, -, hroles, -, hdepth, -, hlabel, -, hnotBefore,
    -, hexpiresAt, -, hwindow, _, hscope, hlimit⟩ := h
  exact ⟨hsubject, by simpa using hnonempty, hactions, hschemaCount, hschemas, hvisibilities,
    hroleCount, hcontentRoles, hroles, hdepth, hlabel, hnotBefore, hexpiresAt, hwindow, hscope,
    hlimit⟩

-- A valid grant that may write content has a limit.
theorem Valid.limit_of_writeContent {grant : CapabilityGrant} (h : grant.Valid P)
    (hwrite : CapabilityAction.writeContent ∈ grant.actions) :
    ∃ most, grant.maxResourceByteLength = some most := by
  have hscope := h.scope
  simp only [validateScope, bind_eq_ok, require_eq_ok, decide_eq_true_eq] at hscope
  obtain ⟨-, -, -, -, hcontent⟩ := hscope
  rw [List.contains_iff_mem.mpr hwrite] at hcontent
  have hsome := (Bool.and_eq_true _ _).mp hcontent.symm
  exact Option.isSome_iff_exists.mp hsome.2

end CapabilityGrant

def CapabilityRevocation.validate (revocation : CapabilityRevocation) :
    Except DataModelError Unit :=
  checkSome revocation.detail fun detail =>
    validateBoundedLabel "revocation detail" detail MAX_REVOCATION_DETAIL_CHARS false

-- The first sixteen bytes of the digest, with the version and variant bits of
-- a version 8 identifier.
def profileEntityId (P : Primitives) (actorId : ActorId) : EntityId :=
  let digest := P.sha256 (utf8Bytes "fractonica-profile-entity" ++ 0 :: actorId.bytes.bytes)
  let bytes := ((digest.bytes.take 16).modify 6 fun byte => (byte &&& 0x0f) ||| 0x80).modify 8
    fun byte => (byte &&& 0x3f) ||| 0x80
  ⟨⟨bytes, by simp [bytes, digest.length_eq]⟩⟩

-- The body fits the schema and the header of its operation.
def OperationBody.validateFor (P : Primitives) (body : OperationBody) (schema : EntitySchema)
    (actorId : ActorId) (entityId : EntityId) (causalParents authorization : List OperationId) :
    Except DataModelError Unit := do
  require (schema = .spaceGenesis || !authorization.isEmpty) .missingAuthorization
  match schema, body with
  | .record, .putRecord payload => validateProtected payload (RecordDocument.validate P) true
  | .tag, .putTag payload => validateProtected payload (TagDocument.validate P) false
  | .event, .putEvent payload => validateProtected payload (EventDocument.validate P) false
  | .profile, .putProfile document => do
    require (entityId = profileEntityId P actorId) .profileEntityMismatch
    document.validate P
  | .record, .tombstone => .ok ()
  | .tag, .tombstone => .ok ()
  | .event, .tombstone => .ok ()
  | .profile, .tombstone =>
    require (entityId = profileEntityId P actorId) .profileEntityMismatch
  | .spaceGenesis, .spaceGenesis controller => do
    let _ ← liftTrust (ActorId.publicKey P controller)
    require (controller = actorId) (.genesisControllerMismatch controller actorId)
    require (causalParents.isEmpty && authorization.isEmpty) .genesisMustBeRoot
  | .capabilityGrant, .capabilityGrant grant => grant.validate P
  | .capabilityRevoke, .capabilityRevoke revocation => revocation.validate
  | schema, _ => .error (.schemaBodyMismatch schema)

end Fractonica.DataModel
