import Fractonica.Trust.Operation

namespace Fractonica.Content

open Lib Trust

def CONTENT_ID_PREFIX : String := "sha-256:"
def MAX_CONTENT_BYTE_LENGTH : Nat := 1099511627776
def MAX_MEDIA_TYPE_BYTES : Nat := 127
def MAX_RESOURCE_ROLE_BYTES : Nat := 64
def MAX_ORIGINAL_NAME_CHARS : Nat := 255

structure ContentId where
  bytes : FixedBytes 32
deriving DecidableEq

def ContentId.toText (id : ContentId) : String :=
  CONTENT_ID_PREFIX ++ String.ofList (lowerHex id.bytes.bytes)

structure ContentDescriptor where
  contentId : ContentId
  byteLength : UInt64
deriving DecidableEq

structure ResourceRef where
  contentId : ContentId
  byteLength : UInt64
  mediaType : String
  role : String
  originalName : Option String
deriving DecidableEq

inductive ContentValidationError where
  | contentTooLarge (byteLength : UInt64) (maximum : Nat)
  | invalidMediaType (value : String) (maximum : Nat)
  | invalidRole (value : String) (maximum : Nat)
  | invalidOriginalName (value : String) (maximum : Nat)
deriving DecidableEq

-- `char::is_control`: the Unicode category Cc.
def isControl (c : Char) : Bool := c.toNat < 0x20 || (0x7f ≤ c.toNat && c.toNat < 0xa0)

def isAsciiAlphanumeric (byte : UInt8) : Bool :=
  isAsciiLowercase byte || ('A'.toNat ≤ byte.toNat && byte.toNat ≤ 'Z'.toNat) || isAsciiDigit byte

def isMediaTokenByte (byte : UInt8) : Bool :=
  isAsciiAlphanumeric byte ||
    [0x21, 0x23, 0x24, 0x25, 0x26, 0x27, 0x2a, 0x2b, 0x2d, 0x2e, 0x5e, 0x5f, 0x60, 0x7c,
    0x7e].contains
      byte

-- The lowercase tokens used for roles, relations and handles.
def isTokenByte (byte : UInt8) : Bool :=
  isAsciiLowercase byte || isAsciiDigit byte || byte = 0x2e || byte = 0x5f || byte = 0x2d

def isToken (maximum : Nat) (value : String) : Bool :=
  !(utf8Bytes value).isEmpty && (utf8Bytes value).length ≤ maximum &&
    (utf8Bytes value).all isTokenByte

def validateByteLength (byteLength : UInt64) : Except ContentValidationError Unit :=
  require (byteLength.toNat ≤ MAX_CONTENT_BYTE_LENGTH)
    (.contentTooLarge byteLength MAX_CONTENT_BYTE_LENGTH)

def isMediaType (mediaType : String) : Bool :=
  let bytes := utf8Bytes mediaType
  !bytes.isEmpty && bytes.length ≤ MAX_MEDIA_TYPE_BYTES &&
    bytes.all (fun byte => 0x21 ≤ byte.toNat && byte.toNat ≤ 0x7e) &&
    match bytes.splitOn 0x2f with
    | [type, subtype] =>
      !type.isEmpty && !subtype.isEmpty && type.all isMediaTokenByte &&
        subtype.all isMediaTokenByte
    | _ => false

def validateMediaType (mediaType : String) : Except ContentValidationError Unit :=
  require (isMediaType mediaType) (.invalidMediaType mediaType MAX_MEDIA_TYPE_BYTES)

def validateRole (role : String) : Except ContentValidationError Unit :=
  require (isToken MAX_RESOURCE_ROLE_BYTES role) (.invalidRole role MAX_RESOURCE_ROLE_BYTES)

def isOriginalName (originalName : String) : Bool :=
  let length := originalName.toList.length
  length ≠ 0 && length ≤ MAX_ORIGINAL_NAME_CHARS && originalName ≠ "." && originalName ≠ ".." &&
    originalName.toList.all (fun c => !(isControl c || c = '/' || c = Char.ofNat 0x5c || c = ':'))

def validateOriginalName (originalName : String) : Except ContentValidationError Unit :=
  require (isOriginalName originalName)
    (.invalidOriginalName originalName MAX_ORIGINAL_NAME_CHARS)

namespace ContentDescriptor

def validate (descriptor : ContentDescriptor) : Except ContentValidationError Unit :=
  validateByteLength descriptor.byteLength

end ContentDescriptor

namespace ResourceRef

def descriptor (resource : ResourceRef) : ContentDescriptor :=
  { contentId := resource.contentId, byteLength := resource.byteLength }

def validate (resource : ResourceRef) : Except ContentValidationError Unit := do
  resource.descriptor.validate
  validateMediaType resource.mediaType
  validateRole resource.role
  match resource.originalName with
  | some originalName => validateOriginalName originalName
  | none => .ok ()

-- What the fields of a valid reference satisfy.
structure Valid (resource : ResourceRef) : Prop where
  byteLength : resource.byteLength.toNat ≤ MAX_CONTENT_BYTE_LENGTH
  mediaType : isMediaType resource.mediaType = true
  role : isToken MAX_RESOURCE_ROLE_BYTES resource.role = true
  originalName : ∀ name ∈ resource.originalName, isOriginalName name = true

theorem validate_eq_ok {resource : ResourceRef} : resource.validate = .ok u ↔ resource.Valid := by
  obtain ⟨id, length, mediaType, role, name⟩ := resource
  simp only [validate, descriptor, ContentDescriptor.validate, validateByteLength,
    validateMediaType, validateRole, require_bind_eq_ok]
  constructor
  · rintro ⟨hlength, hmedia, hrole, hname⟩
    refine ⟨of_decide_eq_true hlength, hmedia, hrole, ?_⟩
    rintro found ⟨⟩
    exact require_eq_ok.mp hname
  · rintro ⟨hlength, hmedia, hrole, hname⟩
    refine ⟨decide_eq_true hlength, hmedia, hrole, ?_⟩
    cases name with
    | none => rfl
    | some name => exact require_eq_ok.mpr (hname name rfl)

end ResourceRef

end Fractonica.Content
