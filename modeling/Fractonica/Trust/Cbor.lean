import Fractonica.Lib.Float
import Fractonica.Lib.Parser
import Mathlib.Data.List.Sort

namespace Fractonica.Trust

open Lib

def MAX_CANONICAL_DEPTH : Nat := 32
def MAX_CANONICAL_CONTAINER_ITEMS : Nat := 4096
def MAX_CANONICAL_BYTES : Nat := 2 * 1024 * 1024

-- The number of values of a machine word.
def USIZE : Nat := 2 ^ 64

-- Floats are kept as the bits of a double.
inductive CanonicalValue where
  | null
  | bool (value : Bool)
  | integer (value : Int64)
  | unsigned (value : UInt64)
  | float (bits : UInt64)
  | bytes (bytes : List UInt8)
  | text (text : String)
  | array (values : List CanonicalValue)
  | map (entries : List (CanonicalValue × CanonicalValue))

inductive CanonicalCborError where
  | encodedTooLarge (bytes maximum : Nat)
  | tooDeep (depth maximum : Nat)
  | containerTooLarge (count maximum : Nat)
  | duplicateMapKey
  | nonCanonicalMapOrder
  | nonFiniteFloat
  | nonCanonical
  | unexpectedEnd
  | trailingData
  | unsupportedType
  | indefiniteOrReserved
  | lengthOutOfRange
  | integerOutOfRange
  | invalidUtf8
deriving DecidableEq, Repr

-- The UTF-8 bytes of a string, and the string a valid byte string denotes.
def utf8Bytes (text : String) : List UInt8 := text.toByteArray.data.toList

def fromUtf8 (bytes : List UInt8) : Option String := String.fromUTF8? ⟨bytes.toArray⟩

def halfOfDouble (bits : UInt64) : UInt16 := UInt16.ofNat (Float.narrow Float.half bits.toNat)
def doubleOfHalf (bits : UInt16) : UInt64 := UInt64.ofNat (Float.widen Float.half bits.toNat)
def singleOfDouble (bits : UInt64) : UInt32 := UInt32.ofNat (Float.narrow Float.single bits.toNat)
def doubleOfSingle (bits : UInt32) : UInt64 := UInt64.ofNat (Float.widen Float.single bits.toNat)
def doubleIsFinite (bits : UInt64) : Bool := Float.double.isFinite bits.toNat

def push (output bytes : List UInt8) : Except CanonicalCborError (List UInt8) :=
  if output.length + bytes.length > MAX_CANONICAL_BYTES then
    .error (.encodedTooLarge (output.length + bytes.length) MAX_CANONICAL_BYTES)
  else .ok (output ++ bytes)

def encodeHead (major : UInt8) (value : UInt64) (output : List UInt8) :
    Except CanonicalCborError (List UInt8) :=
  let lead := major <<< 5
  if value.toNat ≤ 23 then push output [lead ||| value.toUInt8]
  else if value.toNat ≤ 0xff then push output [lead ||| 24, value.toUInt8]
  else if value.toNat ≤ 0xffff then do
    let output ← push output [lead ||| 25]
    push output (toBE 2 value.toNat)
  else if value.toNat ≤ 0xffffffff then do
    let output ← push output [lead ||| 26]
    push output (toBE 4 value.toNat)
  else do
    let output ← push output [lead ||| 27]
    push output (toBE 8 value.toNat)

def encodeFloat (value : UInt64) (output : List UInt8) : Except CanonicalCborError (List UInt8) :=
  if !doubleIsFinite value then .error .nonFiniteFloat
  else if doubleOfHalf (halfOfDouble value) = value then do
    let output ← push output [0xf9]
    push output (toBE 2 (halfOfDouble value).toNat)
  else if doubleOfSingle (singleOfDouble value) = value then do
    let output ← push output [0xfa]
    push output (toBE 4 (singleOfDouble value).toNat)
  else do
    let output ← push output [0xfb]
    push output (toBE 8 value.toNat)

def validateContainer (count : Nat) : Except CanonicalCborError Unit :=
  if count > MAX_CANONICAL_CONTAINER_ITEMS then
    .error (.containerTooLarge count MAX_CANONICAL_CONTAINER_ITEMS)
  else .ok ()

def checkDepth (depth : Nat) : Except CanonicalCborError Unit :=
  if depth > MAX_CANONICAL_DEPTH then .error (.tooDeep depth MAX_CANONICAL_DEPTH) else .ok ()

-- An encoded map key with the encoder of the value stored under it.
abbrev Entry : Type := List UInt8 × (List UInt8 → Except CanonicalCborError (List UInt8))

-- The running total of the encoded key bytes of one map.
def addKeyBytes (total length : Nat) : Except CanonicalCborError Nat :=
  if USIZE ≤ total + length then .error .lengthOutOfRange
  else if total + length > MAX_CANONICAL_BYTES then
    .error (.encodedTooLarge (total + length) MAX_CANONICAL_BYTES)
  else .ok (total + length)

def sortEntries (entries : List Entry) : List Entry :=
  entries.insertionSort (fun left right => left.1 ≤ right.1)

def pushEntries : List Entry → List UInt8 → Except CanonicalCborError (List UInt8)
  | [], output => .ok output
  | (key, encode) :: rest, output => do
    let output ← push output key
    let output ← encode output
    pushEntries rest output

-- The end of the map case: neighbours of the sorted entries must differ.
def pushMap (entries : List Entry) (output : List UInt8) :
    Except CanonicalCborError (List UInt8) := do
  if ¬(entries.map Prod.fst).IsChain (· ≠ ·) then .error .duplicateMapKey
  else do
    let output ← encodeHead 5 (UInt64.ofNat entries.length) output
    pushEntries entries output

-- The entries of a map are sorted by their encoded keys before any value is
-- encoded, so each key is paired with the encoder that will append its value.
def encodeValue : CanonicalValue → Nat → List UInt8 → Except CanonicalCborError (List UInt8)
  | .null, depth, output => do
    checkDepth depth
    push output [0xf6]
  | .bool false, depth, output => do
    checkDepth depth
    push output [0xf4]
  | .bool true, depth, output => do
    checkDepth depth
    push output [0xf5]
  | .integer value, depth, output => do
    checkDepth depth
    if 0 ≤ value.toInt then encodeHead 0 (UInt64.ofNat value.toInt.toNat) output
    else encodeHead 1 (UInt64.ofNat (-1 - value.toInt).toNat) output
  | .unsigned value, depth, output => do
    checkDepth depth
    encodeHead 0 value output
  | .float value, depth, output => do
    checkDepth depth
    encodeFloat value output
  | .bytes bytes, depth, output => do
    checkDepth depth
    let output ← encodeHead 2 (UInt64.ofNat bytes.length) output
    push output bytes
  | .text text, depth, output => do
    checkDepth depth
    let output ← encodeHead 3 (UInt64.ofNat (utf8Bytes text).length) output
    push output (utf8Bytes text)
  | .array values, depth, output => do
    checkDepth depth
    validateContainer values.length
    let output ← encodeHead 4 (UInt64.ofNat values.length) output
    encodeValues values (depth + 1) output
  | .map values, depth, output => do
    checkDepth depth
    validateContainer values.length
    let entries ← encodeKeys values (depth + 1) 0
    pushMap (sortEntries entries) output
where
  encodeValues : List CanonicalValue → Nat → List UInt8 → Except CanonicalCborError (List UInt8)
    | [], _, output => .ok output
    | value :: rest, depth, output => do
      let output ← encodeValue value depth output
      encodeValues rest depth output
  encodeKeys : List (CanonicalValue × CanonicalValue) → Nat → Nat →
      Except CanonicalCborError (List Entry)
    | [], _, _ => .ok []
    | (key, value) :: rest, depth, total => do
      let encodedKey ← encodeValue key depth []
      let total ← addKeyBytes total encodedKey.length
      let entries ← encodeKeys rest depth total
      .ok ((encodedKey, fun output => encodeValue value depth output) :: entries)

def toCanonicalCbor (value : CanonicalValue) : Except CanonicalCborError (List UInt8) :=
  encodeValue value 0 []

abbrev Decoder (α : Type) : Type := Parser CanonicalCborError α

namespace Decoder

def takeByte : Decoder UInt8 := Parser.takeByte .unexpectedEnd

-- The end of the range is computed before the range is looked up. The sum
-- leaves the machine word only when it is far past the end of the input.
def take (length : Nat) : Decoder (List UInt8) :=
  Parser.take (fun offset => if USIZE ≤ offset + length then .lengthOutOfRange else .unexpectedEnd)
    length

def decodeArgument (additional : UInt8) : Decoder UInt64 := do
  if additional ≤ 23 then pure additional.toUInt64
  else if additional = 24 then checkMinimum 24 [← takeByte]
  else if additional = 25 then checkMinimum 0x100 (← take 2)
  else if additional = 26 then checkMinimum 0x10000 (← take 4)
  else if additional = 27 then checkMinimum 0x100000000 (← take 8)
  else throw .indefiniteOrReserved
where
  checkMinimum (minimum : Nat) (bytes : List UInt8) : Decoder UInt64 :=
    if ofBE bytes < minimum then throw .nonCanonical else pure (UInt64.ofNat (ofBE bytes))

-- A length always fits the machine word it is converted to.
def decodeLength (additional : UInt8) : Decoder Nat := do
  let value ← decodeArgument additional
  if USIZE ≤ value.toNat then throw .lengthOutOfRange else pure value.toNat

def ensureFinite (value : UInt64) : Decoder Unit :=
  if doubleIsFinite value then pure () else throw .nonFiniteFloat

def decodeSimple (additional : UInt8) : Decoder CanonicalValue := do
  if additional = 20 then pure (.bool false)
  else if additional = 21 then pure (.bool true)
  else if additional = 22 then pure .null
  else if additional = 25 then
    let value := doubleOfHalf (UInt16.ofNat (ofBE (← take 2)))
    ensureFinite value
    pure (.float value)
  else if additional = 26 then
    let value := doubleOfSingle (UInt32.ofNat (ofBE (← take 4)))
    ensureFinite value
    if doubleOfHalf (halfOfDouble value) = value then throw .nonCanonical
    else pure (.float value)
  else if additional = 27 then
    let value := UInt64.ofNat (ofBE (← take 8))
    ensureFinite value
    if doubleOfSingle (singleOfDouble value) = value then throw .nonCanonical
    else pure (.float value)
  else throw .unsupportedType

def decodeInteger (encoded : UInt64) : Decoder CanonicalValue :=
  let value : Int := -1 - encoded.toNat
  if value < -2 ^ 63 then throw .integerOutOfRange else pure (.integer (Int64.ofInt value))

def decodeText (bytes : List UInt8) : Decoder CanonicalValue :=
  match fromUtf8 bytes with
  | some text => pure (.text text)
  | none => throw .invalidUtf8

def checkContainer (count : Nat) : Decoder Unit :=
  if count > MAX_CANONICAL_CONTAINER_ITEMS then
    throw (.containerTooLarge count MAX_CANONICAL_CONTAINER_ITEMS)
  else pure ()

-- The loop over the entries of a map keeps the bytes of the previous key.
def decodeEntries (decode : Decoder CanonicalValue) :
    Nat → Option (List UInt8) → Decoder (List (CanonicalValue × CanonicalValue))
  | 0, _ => pure []
  | count + 1, previous => do
    let keyStart ← get
    let key ← decode
    let keyEnd ← get
    let keyBytes := keyStart.between keyEnd
    if previous.any (fun previous => ¬previous < keyBytes) then throw .nonCanonicalMapOrder
    else do
      let value ← decode
      let rest ← decodeEntries decode count (some keyBytes)
      pure ((key, value) :: rest)

-- The part of `decode_value` after the initial byte. `decode` reads a value one
-- level deeper.
def decodeItem (decode : Decoder CanonicalValue) (major additional : UInt8) :
    Decoder CanonicalValue := do
  if major = 0 then
    let value ← decodeArgument additional
    pure (.unsigned value)
  else if major = 1 then
    let encoded ← decodeArgument additional
    decodeInteger encoded
  else if major = 2 then
    let length ← decodeLength additional
    let bytes ← take length
    pure (.bytes bytes)
  else if major = 3 then
    let length ← decodeLength additional
    let bytes ← take length
    decodeText bytes
  else if major = 4 then
    let count ← decodeLength additional
    checkContainer count
    let values ← Parser.repeatN decode count
    pure (.array values)
  else if major = 5 then
    let count ← decodeLength additional
    checkContainer count
    let entries ← decodeEntries decode count none
    pure (.map entries)
  else if major = 7 then decodeSimple additional
  else throw .unsupportedType

-- `levels` counts the nesting levels that are still allowed, so the depth of
-- the source is `MAX_CANONICAL_DEPTH + 1 - levels`.
def decodeValue : Nat → Decoder CanonicalValue
  | 0 => throw (.tooDeep (MAX_CANONICAL_DEPTH + 1) MAX_CANONICAL_DEPTH)
  | levels + 1 => do
    let lead ← takeByte
    decodeItem (decodeValue levels) (lead >>> 5) (lead &&& 0x1f)

end Decoder

def fromCanonicalCbor (bytes : List UInt8) : Except CanonicalCborError CanonicalValue := do
  if bytes.length > MAX_CANONICAL_BYTES then
    .error (.encodedTooLarge bytes.length MAX_CANONICAL_BYTES)
  else do
    let (value, cursor) ← (Decoder.decodeValue (MAX_CANONICAL_DEPTH + 1)).run (Cursor.start bytes)
    if cursor.rest ≠ [] then .error .trailingData
    else do
      let encoded ← toCanonicalCbor value
      if encoded ≠ bytes then .error .nonCanonical else .ok value

end Fractonica.Trust
