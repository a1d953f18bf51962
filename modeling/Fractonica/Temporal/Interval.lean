import Fractonica.Temporal.Phase.Theorems

namespace Fractonica.Temporal

open Lib

structure Timestamp where
  epochSeconds : Int64
  nanosecond : UInt32
  valid : nanosecond.toNat < NANOSECONDS_PER_SECOND
deriving DecidableEq

namespace Timestamp

def new (epochSeconds : Int64) (nanosecond : UInt32) : Except TemporalError Timestamp :=
  if h : nanosecond.toNat < NANOSECONDS_PER_SECOND then .ok ⟨epochSeconds, nanosecond, h⟩
  else .error (.invalidNanosecond nanosecond.toNat)

def fromEpochSeconds (epochSeconds : Int64) : Timestamp := ⟨epochSeconds, 0, by decide⟩

-- The derived order compares the fields in turn.
instance : LT Timestamp where
  lt a b := a.epochSeconds < b.epochSeconds ∨
    a.epochSeconds = b.epochSeconds ∧ a.nanosecond < b.nanosecond

instance : LE Timestamp where
  le a b := a.epochSeconds < b.epochSeconds ∨
    a.epochSeconds = b.epochSeconds ∧ a.nanosecond ≤ b.nanosecond

instance (a b : Timestamp) : Decidable (a < b) :=
  inferInstanceAs (Decidable (_ ∨ _))

instance (a b : Timestamp) : Decidable (a ≤ b) :=
  inferInstanceAs (Decidable (_ ∨ _))

end Timestamp

structure EclipsePoint where
  index : UInt16
  epochSeconds : Int64
  saros : UInt8
  sequence : UInt8
  typeCode : UInt8
deriving DecidableEq

structure Interval where
  saros : UInt8
  previous : EclipsePoint
  next : EclipsePoint
deriving DecidableEq

namespace Interval

def validate (interval : Interval) : Except TemporalError Unit := do
  require (interval.previous.saros = interval.saros ∧ interval.next.saros = interval.saros)
    .mixedSarosSeries
  require (interval.previous.epochSeconds < interval.next.epochSeconds) .invalidInterval

-- The casts to `u128` are of differences that the checks make nonnegative.
def elapsedNanoseconds (interval : Interval) (instant : Timestamp) : Nat :=
  (instant.epochSeconds.toInt - interval.previous.epochSeconds.toInt).toNat *
    NANOSECONDS_PER_SECOND + instant.nanosecond.toNat

def totalNanoseconds (interval : Interval) : Nat :=
  (interval.next.epochSeconds.toInt - interval.previous.epochSeconds.toInt).toNat *
    NANOSECONDS_PER_SECOND

theorem totalNanoseconds_fits (interval : Interval) : interval.totalNanoseconds < U128_SIZE := by
  have hnext := interval.next.epochSeconds.toInt_lt
  have hprevious := interval.previous.epochSeconds.le_toInt
  unfold totalNanoseconds NANOSECONDS_PER_SECOND U128_SIZE
  omega

def phaseAt (interval : Interval) (instant : Timestamp) : Except TemporalError PhaseRatio := do
  interval.validate
  let previous := Timestamp.fromEpochSeconds interval.previous.epochSeconds
  let next := Timestamp.fromEpochSeconds interval.next.epochSeconds
  require (¬(instant < previous ∨ next ≤ instant)) .instantOutsideInterval
  PhaseRatio.new (interval.elapsedNanoseconds instant) interval.totalNanoseconds
    interval.totalNanoseconds_fits

end Interval

structure ClockReading where
  phase : PhaseRatio
  word : PhaseWord64
  projection : PhaseProjection
  progressWithinProjection : PhaseRatio
  nextFlip : PhaseBoundary

-- The loops over the bits do not overflow, so they always return.
def clockReading (interval : Interval) (instant : Timestamp) (precision : BitPrecision) :
    Except TemporalError ClockReading := do
  let phase ← interval.phaseAt instant
  let word := phase.word64.get (word64_isSome phase)
  let projected := (phase.projectWithRemainder precision).get
    (projectWithRemainder_isSome phase precision)
  .ok {
    phase
    word
    projection := projected.1
    progressWithinProjection := projected.2
    nextFlip := projected.1.nextBoundary }

end Fractonica.Temporal
