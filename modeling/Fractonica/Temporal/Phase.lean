import Fractonica.Lib.Result
import Mathlib.Data.Nat.GCD.Basic

namespace Fractonica.Temporal

open Lib

def RADIX : Nat := 8
def BITS_PER_OCTAL_DIGIT : Nat := 3
def PHASE_WORD_BITS : Nat := 64
def PHASE_WORD_OCTAL_DIGITS : Nat := 21
def NANOSECONDS_PER_SECOND : Nat := 1000000000

inductive TemporalError where
  | invalidBitPrecision (bits : UInt8)
  | invalidPhaseRatio
  | invalidInterval
  | invalidNanosecond (nanosecond : Nat)
  | instantOutsideInterval
  | invalidAddressLength (length : Nat)
  | addressOutOfRange
  | mixedSarosSeries
deriving DecidableEq

-- The range of `u128`; an operation outside of it panics.
def U128_SIZE : Nat := 2 ^ 128

def checkedAdd (left right : Nat) : Option Nat :=
  if left + right < U128_SIZE then some (left + right) else none

def checkedSub (left right : Nat) : Option Nat :=
  if right ≤ left then some (left - right) else none

def checkedMul (left right : Nat) : Option Nat :=
  if left * right < U128_SIZE then some (left * right) else none

theorem checkedAdd_eq_some {left right : Nat} (h : checkedAdd left right = some sum) :
    left + right = sum := by
  rw [checkedAdd, Option.ite_none_right_eq_some, Option.some_inj] at h
  exact h.2

theorem checkedMul_eq_some {left right : Nat}
    (h : checkedMul left right = some product) : left * right = product := by
  rw [checkedMul, Option.ite_none_right_eq_some, Option.some_inj] at h
  exact h.2

def greatestCommonDivisor (left right : Nat) : Nat :=
  if right = 0 then left else greatestCommonDivisor right (left % right)
termination_by right
decreasing_by exact Nat.mod_lt _ (by omega)

theorem greatestCommonDivisor_eq (left right : Nat) :
    greatestCommonDivisor left right = Nat.gcd left right := by
  induction left, right using greatestCommonDivisor.induct with
  | case1 left => simp [greatestCommonDivisor]
  | case2 left right hne ih =>
    rw [greatestCommonDivisor, if_neg hne, ih, Nat.gcd_comm, ← Nat.gcd_rec, Nat.gcd_comm]

-- An exact phase in `[0, 1)`, in lowest terms.
structure PhaseRatio where
  numerator : Nat
  denominator : Nat
  lt : numerator < denominator
  fits : denominator < U128_SIZE
  reduced : numerator.Coprime denominator

namespace PhaseRatio

-- Divides by the greatest common divisor.
def fromValidParts (numerator denominator : Nat) (hlt : numerator < denominator)
    (hfits : denominator < U128_SIZE) : PhaseRatio where
  numerator := numerator / greatestCommonDivisor numerator denominator
  denominator := denominator / greatestCommonDivisor numerator denominator
  lt := by
    rw [greatestCommonDivisor_eq]
    exact Nat.div_lt_div_of_lt_of_dvd (Nat.gcd_dvd_right _ _) hlt
  fits := lt_of_le_of_lt (Nat.div_le_self _ _) hfits
  reduced := by
    rw [greatestCommonDivisor_eq]
    exact Nat.coprime_div_gcd_div_gcd (Nat.gcd_pos_of_pos_right _ (Nat.zero_lt_of_lt hlt))

-- The arguments are words, so they are below `U128_SIZE`.
def new (numerator denominator : Nat) (hfits : denominator < U128_SIZE) :
    Except TemporalError PhaseRatio :=
  if h : numerator < denominator then .ok (fromValidParts numerator denominator h hfits)
  else .error .invalidPhaseRatio

end PhaseRatio

-- The binary expansion by remainder arithmetic.
structure PhaseBitIter where
  remainder : Nat
  denominator : Nat

def PhaseRatio.bits (phase : PhaseRatio) : PhaseBitIter where
  remainder := phase.numerator
  denominator := phase.denominator

def PhaseBitIter.nextBit (bits : PhaseBitIter) : Option (UInt8 × PhaseBitIter) := do
  let complement ← checkedSub bits.denominator bits.remainder
  if complement ≤ bits.remainder then
    let remainder ← checkedSub bits.remainder complement
    some (1, { bits with remainder })
  else
    let remainder ← checkedAdd bits.remainder bits.remainder
    some (0, { bits with remainder })

-- The loop that shifts the next `count` bits into a word.
def PhaseBitIter.take : Nat → PhaseBitIter → UInt64 → Option (UInt64 × PhaseBitIter)
  | 0, bits, value => some (value, bits)
  | count + 1, bits, value => do
    let (bit, bits) ← bits.nextBit
    take count bits ((value <<< 1) ||| bit.toUInt64)

structure BitPrecision where
  bits : UInt8
  positive : 1 ≤ bits.toNat
  bounded : bits.toNat ≤ PHASE_WORD_BITS

namespace BitPrecision

def new (bits : UInt8) : Except TemporalError BitPrecision :=
  if h : 1 ≤ bits.toNat ∧ bits.toNat ≤ PHASE_WORD_BITS then .ok ⟨bits, h.1, h.2⟩
  else .error (.invalidBitPrecision bits)

def get (precision : BitPrecision) : Nat := precision.bits.toNat

def fullOctalDigits (precision : BitPrecision) : Nat := precision.get / BITS_PER_OCTAL_DIGIT

def trailingBits (precision : BitPrecision) : Nat := precision.get % BITS_PER_OCTAL_DIGIT

end BitPrecision

-- The right-aligned leading bits of a phase.
structure PhaseProjection where
  precision : BitPrecision
  prefixBits : UInt64

-- A boundary in the closed unit interval.
structure PhaseBoundary where
  numerator : Nat
  denominator : Nat
deriving DecidableEq

namespace PhaseProjection

def denominator (projection : PhaseProjection) : Nat := 2 ^ projection.precision.get

def octalDigitMsb (projection : PhaseProjection) (index : Nat) : Option UInt8 :=
  if projection.precision.fullOctalDigits ≤ index then none
  else
    let consumedBits := (index + 1) * BITS_PER_OCTAL_DIGIT
    let shift := projection.precision.get - consumedBits
    some ((projection.prefixBits >>> UInt64.ofNat shift) &&& 7).toUInt8

-- The last bucket ends at one, in the same denominator.
def nextBoundary (projection : PhaseProjection) : PhaseBoundary where
  numerator := projection.prefixBits.toNat + 1
  denominator := projection.denominator

end PhaseProjection

-- The first 64 bits of a phase.
structure PhaseWord64 where
  raw : UInt64

namespace PhaseWord64

def fromRatio (phase : PhaseRatio) : Option PhaseWord64 := do
  let (value, _) ← phase.bits.take PHASE_WORD_BITS 0
  some ⟨value⟩

def project (word : PhaseWord64) (precision : BitPrecision) : PhaseProjection where
  precision := precision
  prefixBits := word.raw >>> UInt64.ofNat (PHASE_WORD_BITS - precision.get)

def octalDigitMsb (word : PhaseWord64) (index : Nat) : Option UInt8 :=
  if PHASE_WORD_OCTAL_DIGITS ≤ index then none
  else
    let consumedBits := (index + 1) * BITS_PER_OCTAL_DIGIT
    let shift := PHASE_WORD_BITS - consumedBits
    some ((word.raw >>> UInt64.ofNat shift) &&& 7).toUInt8

end PhaseWord64

-- The octal expansion, three bits at a time.
structure OctalDigitIter where
  bits : PhaseBitIter

def OctalDigitIter.next (digits : OctalDigitIter) : Option (UInt8 × OctalDigitIter) := do
  let (high, bits) ← digits.bits.nextBit
  let (middle, bits) ← bits.nextBit
  let (low, bits) ← bits.nextBit
  some ((high <<< 2) ||| (middle <<< 1) ||| low, ⟨bits⟩)

-- The digit after `index` others.
def OctalDigitIter.digitAt : Nat → OctalDigitIter → Option UInt8
  | 0, digits => do
    let (digit, _) ← digits.next
    some digit
  | index + 1, digits => do
    let (_, digits) ← digits.next
    digitAt index digits

namespace PhaseRatio

def word64 (phase : PhaseRatio) : Option PhaseWord64 := PhaseWord64.fromRatio phase

-- A remainder that is no phase cannot come out of the loop.
def projectWithRemainder (phase : PhaseRatio) (precision : BitPrecision) :
    Option (PhaseProjection × PhaseRatio) := do
  let (prefixBits, bits) ← phase.bits.take precision.get 0
  if h : bits.remainder < bits.denominator ∧ bits.denominator < U128_SIZE then
    some ({ precision, prefixBits }, fromValidParts bits.remainder bits.denominator h.1 h.2)
  else none

def project (phase : PhaseRatio) (precision : BitPrecision) : Option PhaseProjection := do
  let (projection, _) ← phase.projectWithRemainder precision
  some projection

def octalDigits (phase : PhaseRatio) : OctalDigitIter := ⟨phase.bits⟩

def octalDigitMsb (phase : PhaseRatio) (index : Nat) : Option UInt8 :=
  phase.octalDigits.digitAt index

end PhaseRatio

def octalPowerU64 (exponent : Nat) : Option Nat :=
  if exponent = 0 ∨ PHASE_WORD_OCTAL_DIGITS < exponent then none else go exponent 1
where
  go : Nat → Nat → Option Nat
    | 0, result => some result
    | count + 1, result => if result * RADIX < 2 ^ 64 then go count (result * RADIX) else none

-- A number of up to 21 octal digits.
structure OctalAddress where
  value : UInt64
  digits : Nat
deriving DecidableEq

namespace OctalAddress

def new (value : UInt64) (digits : Nat) : Except TemporalError OctalAddress := do
  let binCount ← okOr (octalPowerU64 digits) (.invalidAddressLength digits)
  require (value.toNat < binCount) .addressOutOfRange
  .ok { value, digits }

def fromProjection (projection : PhaseProjection) : Except TemporalError OctalAddress := do
  let digits := projection.precision.fullOctalDigits
  require (digits ≠ 0) (.invalidAddressLength 0)
  new (projection.prefixBits >>> UInt64.ofNat projection.precision.trailingBits) digits

def digitMsb (address : OctalAddress) (index : Nat) : Option UInt8 :=
  if address.digits ≤ index then none
  else
    let shift := (address.digits - index - 1) * BITS_PER_OCTAL_DIGIT
    some ((address.value >>> UInt64.ofNat shift) &&& 7).toUInt8

end OctalAddress

end Fractonica.Temporal
