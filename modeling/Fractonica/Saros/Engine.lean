import Fractonica.Saros.Geometry
import Fractonica.Temporal.Interval

namespace Fractonica.Saros

open Lib Temporal

inductive SarosEngineError where
  | geometry (error : GeoError)
  | temporal (error : TemporalError)
  | geometryUnavailable (saros : Nat)
  | outsideCoverage (saros : Nat)
  | unsupportedSeries (saros : Nat)
  | unsupportedSequence (sequence : Nat)
  | timestampOverflow
deriving DecidableEq

structure SeriesRange where
  first : Nat
  last : Nat

structure EclipseIdentity where
  saros : Nat
  sequence : Nat
  unixSeconds : Int64
deriving DecidableEq

structure SarosReading where
  saros : Nat
  instant : Timestamp
  previous : EclipseIdentity
  next : EclipseIdentity
  clock : ClockReading
  nextFlipAt : Timestamp

structure SarosEngine where
  geometry : SingleFile
  includedSeries : SeriesRange

-- A checked conversion to `u8`.
def tryU8 (value : Nat) (error : SarosEngineError) : Except SarosEngineError UInt8 :=
  if value < 256 then .ok (UInt8.ofNat value) else .error error

-- The two constructors of intervals differ in the type codes alone.
def intervalBetween (saros previousSequence nextSequence : Nat) (previous next : Int64)
    (previousType nextType : UInt8) : Except SarosEngineError Interval := do
  let sarosU8 ← tryU8 saros (.unsupportedSeries saros)
  let previousSequenceU8 ← tryU8 previousSequence (.unsupportedSequence previousSequence)
  let nextSequenceU8 ← tryU8 nextSequence (.unsupportedSequence nextSequence)
  .ok {
    saros := sarosU8
    previous := {
      index := UInt16.ofNat previousSequence
      epochSeconds := previous
      saros := sarosU8
      sequence := previousSequenceU8
      typeCode := previousType }
    next := {
      index := UInt16.ofNat nextSequence
      epochSeconds := next
      saros := sarosU8
      sequence := nextSequenceU8
      typeCode := nextType } }

def intervalFromMetadata (saros previousSequence : Nat) (previous : EclipseMetadata)
    (nextSequence : Nat) (next : EclipseMetadata) : Except SarosEngineError Interval :=
  intervalBetween saros previousSequence nextSequence previous.unixSeconds next.unixSeconds
    previous.typeIndex next.typeIndex

def intervalFromIdentities (previous next : EclipseIdentity) : Except SarosEngineError Interval :=
  intervalBetween previous.saros previous.sequence next.sequence previous.unixSeconds
    next.unixSeconds 0 0

-- The first nanosecond at or after the boundary.
def timestampAtBoundary (interval : Interval) (boundary : PhaseBoundary) :
    Except SarosEngineError Timestamp := do
  interval.validate.mapError .temporal
  let durationSeconds :=
    interval.next.epochSeconds.toInt - interval.previous.epochSeconds.toInt
  require (0 ≤ durationSeconds) .timestampOverflow
  let durationNanoseconds ←
    okOr (checkedMul durationSeconds.toNat NANOSECONDS_PER_SECOND) .timestampOverflow
  let numerator ← okOr (checkedMul durationNanoseconds boundary.numerator) .timestampOverflow
  let rounded ← okOr (checkedAdd numerator (boundary.denominator - 1)) .timestampOverflow
  let offsetNanoseconds := rounded / boundary.denominator
  let secondsOffset := offsetNanoseconds / NANOSECONDS_PER_SECOND
  let nanosecond := offsetNanoseconds % NANOSECONDS_PER_SECOND
  require (nanosecond < 2 ^ 32) .timestampOverflow
  require (secondsOffset < 2 ^ 63) .timestampOverflow
  let epochSeconds := interval.previous.epochSeconds.toInt + secondsOffset
  require (epochSeconds < 2 ^ 63) .timestampOverflow
  (Timestamp.new (Int64.ofInt epochSeconds) (UInt32.ofNat nanosecond)).mapError .temporal

def Section.metadata (series : Section) (index : Nat) :
    Except SarosEngineError EclipseMetadata := do
  let record ← (series.record index).mapError .geometry
  record.metadata.mapError .geometry

-- The first record after the instant, among those from `low` on.
def Section.locate (series : Section) (instant : Timestamp) (low high : Nat) :
    Except SarosEngineError Nat :=
  if low < high then do
    let middle := low + (high - low) / 2
    let metadata ← series.metadata middle
    if metadata.unixSeconds ≤ instant.epochSeconds then locate series instant (middle + 1) high
    else locate series instant low middle
  else .ok low
termination_by high - low

namespace SarosEngine

def geometryAvailable (engine : SarosEngine) (saros : Nat) : Bool :=
  engine.includedSeries.first ≤ saros ∧ saros ≤ engine.includedSeries.last

-- `section` in the source.
def sectionOf (engine : SarosEngine) (saros : Nat) : Except SarosEngineError Section := do
  require (engine.geometryAvailable saros) (.geometryUnavailable saros)
  (engine.geometry.sectionOf saros).mapError fun
    | .seriesNotFound => .geometryUnavailable saros
    | other => .geometry other

def readingAt (engine : SarosEngine) (saros : Nat) (instant : Timestamp)
    (precision : BitPrecision) : Except SarosEngineError SarosReading := do
  let series ← engine.sectionOf saros
  require (2 ≤ series.recordCount) (.outsideCoverage saros)
  let first ← series.metadata 0
  let lastIndex := series.recordCount - 1
  let last ← series.metadata lastIndex
  require (¬(instant < Timestamp.fromEpochSeconds first.unixSeconds ∨
    Timestamp.fromEpochSeconds last.unixSeconds ≤ instant)) (.outsideCoverage saros)
  let low ← series.locate instant 1 lastIndex
  let previousSequence := low - 1
  let previous ← series.metadata previousSequence
  let next ← series.metadata low
  let interval ← intervalFromMetadata saros previousSequence previous low next
  let clock ← (clockReading interval instant precision).mapError .temporal
  let nextFlipAt ← timestampAtBoundary interval clock.nextFlip
  .ok {
    saros
    instant
    previous := { saros, sequence := previousSequence, unixSeconds := previous.unixSeconds }
    next := { saros, sequence := low, unixSeconds := next.unixSeconds }
    clock
    nextFlipAt }

end SarosEngine

end Fractonica.Saros
