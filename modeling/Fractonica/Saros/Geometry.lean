import Fractonica.Lib.Result
import Mathlib.Algebra.Group.Nat.Defs

namespace Fractonica.Saros

open Lib

def MAGIC : List UInt8 := [0x45, 0x43, 0x4c, 0x50]
def VERSION : UInt8 := 1
def DIRECTORY_ENTRY_BYTES : Nat := 8
def RECORD_TYPE_BITS : Nat := 5
def RECORD_UNIX_BITS : Nat := 35
def RECORD_SUN_ALTITUDE_BITS : Nat := 7
def RECORD_MAGNITUDE_BITS : Nat := 14
def RECORD_GAMMA_BITS : Nat := 15
def RECORD_DURATION_BITS : Nat := 10
def RECORD_WIDTH_BITS : Nat := 11
def RECORD_POLYGON_COUNT_BITS : Nat := 5
def RECORD_POINT_COUNT_BITS : Nat := 13
def COORDINATE_SCALE : Nat := 1000000

inductive GeoError where
  | truncated
  | invalidMagic
  | unsupportedVersion (version : UInt8)
  | emptyDirectory
  | invalidDirectory
  | seriesNotFound
  | recordOutOfRange
  | invalidRecordOffsets
  | invalidField
  | invalidCoordinate
  | arithmeticOverflow
deriving DecidableEq

structure GeometryPoint where
  longitudeE6 : Int
  latitudeE6 : Int
deriving DecidableEq

structure EclipseMetadata where
  typeIndex : UInt8
  unixSeconds : Int64
  latitudeE6 : Int
  longitudeE6 : Int
  sunAltitudeDegrees : Nat
  magnitudeE4 : Nat
  gammaE4 : Int
  centralDurationSeconds : Option Nat
  centralWidthKm : Option Nat
  polygonCount : Nat
  pathPointCount : Nat
deriving DecidableEq

inductive GeometryEvent where
  | beginPolygon (pointCount : Nat)
  | point (point : GeometryPoint)
  | endPolygon
deriving DecidableEq

def readU16LE (bytes : List UInt8) (offset : Nat) : Except GeoError Nat :=
  match bytes.drop offset with
  | b₀ :: b₁ :: _ => .ok (b₀.toNat + 256 * b₁.toNat)
  | _ => .error .truncated

def readU32LE (bytes : List UInt8) (offset : Nat) : Except GeoError Nat :=
  match bytes.drop offset with
  | b₀ :: b₁ :: b₂ :: b₃ :: _ =>
    .ok (b₀.toNat + 256 * b₁.toNat + 65536 * b₂.toNat + 16777216 * b₃.toNat)
  | _ => .error .truncated

-- A cursor over the bits from `position` up to `limit`.
structure BitReader where
  bytes : List UInt8
  position : Nat
  limit : Nat

namespace BitReader

-- The loop over the bits, most significant first.
def readBits : Nat → BitReader → UInt64 → Except GeoError (UInt64 × BitReader)
  | 0, reader, value => .ok (value, reader)
  | bits + 1, reader, value => do
    let byteIndex := reader.position / 8
    let bitIndex := reader.position % 8
    let byte ← okOr reader.bytes[byteIndex]? .truncated
    let bit := (byte >>> UInt8.ofNat (7 - bitIndex)) &&& 1
    readBits bits { reader with position := reader.position + 1 }
      ((value <<< 1) ||| bit.toUInt64)

def readUint (reader : BitReader) (bits : Nat) : Except GeoError (UInt64 × BitReader) := do
  require (bits ≠ 0 ∧ bits ≤ 64) .invalidField
  require (reader.position + bits ≤ reader.limit) .truncated
  readBits bits reader 0

-- The conversions to narrower words.
def readNarrow (reader : BitReader) (bits bound : Nat) :
    Except GeoError (Nat × BitReader) := do
  let (value, reader) ← reader.readUint bits
  require (value.toNat < bound) .invalidField
  .ok (value.toNat, reader)

def readSigned (reader : BitReader) (bits : Nat) : Except GeoError (Int64 × BitReader) := do
  let (value, reader) ← reader.readUint bits
  if bits = 64 then .ok (value.toInt64, reader)
  else
    let signBit := (1 : UInt64) <<< UInt64.ofNat (bits - 1)
    if value &&& signBit = 0 then
      require (value.toNat < 2 ^ 63) .invalidField
      .ok (value.toInt64, reader)
    else
      let signExtended := value ||| (~~~(0 : UInt64) <<< UInt64.ofNat bits)
      .ok (signExtended.toInt64, reader)

-- A sign bit and a magnitude.
def signed (sign : UInt64) (magnitude : Nat) : Except GeoError Int :=
  if sign = 0 then .ok magnitude
  else if sign = 1 then .ok (-magnitude)
  else .error .invalidField

def readCoordinate (reader : BitReader) (maximum : Nat) : Except GeoError (Int × BitReader) := do
  let (sign, reader) ← reader.readUint 1
  let (magnitude, reader) ← reader.readNarrow 28 (2 ^ 31)
  require (magnitude ≤ maximum) .invalidCoordinate
  let coordinate ← signed sign magnitude
  .ok (coordinate, reader)

def readSignedMagnitude (reader : BitReader) (bits maximum : Nat) :
    Except GeoError (Int × BitReader) := do
  require (2 ≤ bits) .invalidField
  let (sign, reader) ← reader.readUint 1
  let (magnitude, reader) ← reader.readNarrow (bits - 1) (2 ^ 15)
  require (magnitude ≤ maximum) .invalidField
  let value ← signed sign magnitude
  .ok (value, reader)

-- A field that a flag bit announces.
def readOptional (reader : BitReader) (bits : Nat) :
    Except GeoError (Option Nat × BitReader) := do
  let (flag, reader) ← reader.readUint 1
  if flag = 1 then
    let (value, reader) ← reader.readNarrow bits (2 ^ 16)
    .ok (some value, reader)
  else .ok (none, reader)

end BitReader

structure RecordHeader where
  typeIndex : UInt8
  unixSeconds : Int64
  latitudeE6 : Int
  longitudeE6 : Int
  sunAltitudeDegrees : Nat
  magnitudeE4 : Nat
  gammaE4 : Int
  centralDurationSeconds : Option Nat
  centralWidthKm : Option Nat
  polygonCount : Nat

def RecordHeader.read (reader : BitReader) : Except GeoError (RecordHeader × BitReader) := do
  let (typeIndex, reader) ← reader.readNarrow RECORD_TYPE_BITS (2 ^ 8)
  require (typeIndex < 18) .invalidField
  let (unixSeconds, reader) ← reader.readSigned RECORD_UNIX_BITS
  let (latitudeE6, reader) ← reader.readCoordinate (90 * COORDINATE_SCALE)
  let (longitudeE6, reader) ← reader.readCoordinate (180 * COORDINATE_SCALE)
  let (sunAltitudeDegrees, reader) ← reader.readNarrow RECORD_SUN_ALTITUDE_BITS (2 ^ 8)
  let (magnitudeE4, reader) ← reader.readNarrow RECORD_MAGNITUDE_BITS (2 ^ 16)
  let (gammaE4, reader) ← reader.readSignedMagnitude RECORD_GAMMA_BITS 16383
  let (centralDurationSeconds, reader) ← reader.readOptional RECORD_DURATION_BITS
  let (centralWidthKm, reader) ← reader.readOptional RECORD_WIDTH_BITS
  let (polygonCount, reader) ← reader.readNarrow RECORD_POLYGON_COUNT_BITS (2 ^ 8)
  .ok ({
    typeIndex := UInt8.ofNat typeIndex
    unixSeconds
    latitudeE6
    longitudeE6
    sunAltitudeDegrees
    magnitudeE4
    gammaE4
    centralDurationSeconds
    centralWidthKm
    polygonCount }, reader)

section Scan

variable {σ : Type}

-- A callback that keeps its own state; without one nothing is reported.
abbrev Visitor (σ : Type) : Type := Option (σ → GeometryEvent → σ)

def Visitor.call (visitor : Visitor σ) (state : σ) (event : GeometryEvent) : σ :=
  match visitor with
  | some callback => callback state event
  | none => state

-- The points of one polygon.
def scanPoints (visitor : Visitor σ) : Nat → σ → BitReader → Except GeoError (σ × BitReader)
  | 0, state, reader => .ok (state, reader)
  | count + 1, state, reader => do
    let (longitudeE6, reader) ← reader.readCoordinate (180 * COORDINATE_SCALE)
    let (latitudeE6, reader) ← reader.readCoordinate (90 * COORDINATE_SCALE)
    let state := visitor.call state (.point { longitudeE6, latitudeE6 })
    scanPoints visitor count state reader

-- The loop over the polygons, with the number of points so far.
def scanGeometry (visitor : Visitor σ) :
    Nat → Nat → σ → BitReader → Except GeoError (Nat × σ × BitReader)
  | 0, points, state, reader => .ok (points, state, reader)
  | count + 1, points, state, reader => do
    let (pointCount, reader) ← reader.readNarrow RECORD_POINT_COUNT_BITS (2 ^ 16)
    let state := visitor.call state (.beginPolygon pointCount)
    let (state, reader) ← scanPoints visitor pointCount state reader
    let state := visitor.call state .endPolygon
    require (points + pointCount < 2 ^ 32) .arithmeticOverflow
    scanGeometry visitor count (points + pointCount) state reader

end Scan

structure RecordRef where
  saros : Nat
  sequence : Nat
  data : List UInt8
  startBit : Nat
  endBit : Nat

namespace RecordRef

-- The common body of `metadata` and `visit_geometry`.
def scan {σ : Type} (record : RecordRef) (visitor : Visitor σ) (state : σ) :
    Except GeoError (EclipseMetadata × σ) := do
  let reader := BitReader.mk record.data record.startBit record.endBit
  let (header, reader) ← RecordHeader.read reader
  let (pathPointCount, state, reader) ← scanGeometry visitor header.polygonCount 0 state reader
  require (reader.position = record.endBit) .invalidField
  .ok ({
    typeIndex := header.typeIndex
    unixSeconds := header.unixSeconds
    latitudeE6 := header.latitudeE6
    longitudeE6 := header.longitudeE6
    sunAltitudeDegrees := header.sunAltitudeDegrees
    magnitudeE4 := header.magnitudeE4
    gammaE4 := header.gammaE4
    centralDurationSeconds := header.centralDurationSeconds
    centralWidthKm := header.centralWidthKm
    polygonCount := header.polygonCount
    pathPointCount }, state)

def metadata (record : RecordRef) : Except GeoError EclipseMetadata := do
  let (metadata, _) ← record.scan none ()
  .ok metadata

def visitGeometry {σ : Type} (record : RecordRef) (callback : σ → GeometryEvent → σ) (state : σ) :
    Except GeoError (EclipseMetadata × σ) :=
  record.scan (some callback) state

def validate (record : RecordRef) : Except GeoError Unit := do
  let _ ← record.metadata
  .ok ()

end RecordRef

-- The records of one series: their bit offsets, then the bits.
structure Section where
  saros : Nat
  recordCount : Nat
  offsetsBytes : List UInt8
  data : List UInt8

namespace Section

def offset (series : Section) (index : Nat) : Except GeoError Nat :=
  readU32LE series.offsetsBytes (index * 4)

-- The loop over the offsets, each at least the one before it.
def validateOffsetsFrom (series : Section) : List Nat → Option Nat → Except GeoError Unit
  | [], _ => .ok ()
  | index :: indexes, previous => do
    let offset ← series.offset index
    require (offset ≤ series.data.length * 8) .invalidRecordOffsets
    require (¬ previous.any fun previous => offset < previous) .invalidRecordOffsets
    validateOffsetsFrom series indexes (some offset)

def validateOffsets (series : Section) : Except GeoError Unit := do
  series.validateOffsetsFrom (List.range (series.recordCount + 1)) none
  let first ← series.offset 0
  require (first = 0) .invalidRecordOffsets
  let last ← series.offset series.recordCount
  require (last ≠ 0) .invalidRecordOffsets

def openBytes (saros recordCount : Nat) (bytes : List UInt8) : Except GeoError Section := do
  let offsetBytes := (recordCount + 1) * 4
  require (offsetBytes < bytes.length) .truncated
  let series : Section := {
    saros
    recordCount
    offsetsBytes := bytes.take offsetBytes
    data := bytes.drop offsetBytes }
  series.validateOffsets
  .ok series

def record (series : Section) (index : Nat) : Except GeoError RecordRef := do
  require (index < series.recordCount) .recordOutOfRange
  let startBit ← series.offset index
  let endBit ← series.offset (index + 1)
  require (startBit < endBit) .invalidRecordOffsets
  .ok { saros := series.saros, sequence := index, data := series.data, startBit, endBit }

def validate (series : Section) : Except GeoError Unit :=
  checkAll (fun index => do
    let record ← series.record index
    record.validate) (List.range series.recordCount)

end Section

structure DirectoryEntry where
  saros : Nat
  recordCount : Nat
  bitOffset : Nat

-- The container; the sizes are far below those of a word.
structure SingleFile where
  bytes : List UInt8
  directoryStart : Nat
  sectionCount : Nat
  payloadStart : Nat
deriving DecidableEq

namespace SingleFile

def directoryEntry (file : SingleFile) (index : Nat) : Except GeoError DirectoryEntry := do
  require (index < file.sectionCount) .invalidDirectory
  let offset := file.directoryStart + index * DIRECTORY_ENTRY_BYTES
  let saros ← readU16LE file.bytes offset
  let recordCount ← readU16LE file.bytes (offset + 2)
  let bitOffset ← readU32LE file.bytes (offset + 4)
  .ok { saros, recordCount, bitOffset }

def validateDirectoryFrom (file : SingleFile) :
    List Nat → Option DirectoryEntry → Except GeoError Unit
  | [], _ => .ok ()
  | index :: indexes, previous => do
    let entry ← file.directoryEntry index
    require (entry.recordCount ≠ 0 ∧ entry.bitOffset % 8 = 0) .invalidDirectory
    require (¬ previous.any fun previous => entry.saros ≤ previous.saros) .invalidDirectory
    require (¬ previous.any fun previous => entry.bitOffset ≤ previous.bitOffset)
      .invalidDirectory
    require (entry.bitOffset / 8 < file.bytes.length - file.payloadStart) .invalidDirectory
    validateDirectoryFrom file indexes (some entry)

def validateDirectory (file : SingleFile) : Except GeoError Unit :=
  file.validateDirectoryFrom (List.range file.sectionCount) none

def openBytes (bytes : List UInt8) : Except GeoError SingleFile := do
  require (8 ≤ bytes.length) .truncated
  require (bytes.take 4 = MAGIC) .invalidMagic
  let version ← okOr bytes[4]? .truncated
  require (version = VERSION) (.unsupportedVersion version)
  let sectionCount ← readU16LE bytes 6
  require (sectionCount ≠ 0) .emptyDirectory
  let payloadStart := 8 + sectionCount * DIRECTORY_ENTRY_BYTES
  require (payloadStart ≤ bytes.length) .truncated
  let file : SingleFile := { bytes, directoryStart := 8, sectionCount, payloadStart }
  file.validateDirectory
  .ok file

def sectionAt (file : SingleFile) (index : Nat) (entry : DirectoryEntry) :
    Except GeoError Section := do
  let start := file.payloadStart + entry.bitOffset / 8
  let finish ← if index + 1 < file.sectionCount then do
      let next ← file.directoryEntry (index + 1)
      .ok (file.payloadStart + next.bitOffset / 8)
    else .ok file.bytes.length
  require (start < finish ∧ finish ≤ file.bytes.length) .invalidDirectory
  Section.openBytes entry.saros entry.recordCount ((file.bytes.take finish).drop start)

-- The first entry that is not below the series.
def locate (file : SingleFile) (saros low high : Nat) : Except GeoError Nat :=
  if h : low < high then do
    let middle := low + (high - low) / 2
    let entry ← file.directoryEntry middle
    if entry.saros < saros then locate file saros (middle + 1) high
    else locate file saros low middle
  else .ok low
termination_by high - low

-- `section` in the source.
def sectionOf (file : SingleFile) (saros : Nat) : Except GeoError Section := do
  let low ← file.locate saros 0 file.sectionCount
  require (low ≠ file.sectionCount) .seriesNotFound
  let entry ← file.directoryEntry low
  require (entry.saros = saros) .seriesNotFound
  file.sectionAt low entry

def validate (file : SingleFile) : Except GeoError Unit :=
  checkAll (fun index => do
    let entry ← file.directoryEntry index
    let series ← file.sectionAt index entry
    series.validate) (List.range file.sectionCount)

end SingleFile

end Fractonica.Saros
