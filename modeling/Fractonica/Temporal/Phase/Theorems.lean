import Fractonica.Lib.Expansion
import Fractonica.Temporal.Phase
import Mathlib.Data.Nat.Cast.Field
import Mathlib.Tactic.FieldSimp

namespace Fractonica.Temporal

open Lib

section Words

variable {value : UInt64}

theorem toNat_shiftIn {bit : UInt8} (hvalue : value.toNat < 2 ^ 63) (hbit : bit.toNat ≤ 1) :
    ((value <<< 1) ||| bit.toUInt64).toNat = 2 * value.toNat + bit.toNat := by
  have hshift : (value <<< 1).toNat = 2 ^ 1 * value.toNat := by
    rw [UInt64.toNat_shiftLeft, Nat.shiftLeft_eq]
    change value.toNat * 2 ^ 1 % 2 ^ 64 = 2 ^ 1 * value.toNat
    omega
  rw [UInt64.toNat_or, hshift, UInt8.toNat_toUInt64, ← Nat.two_pow_add_eq_or_of_lt (by omega)]

theorem toNat_shiftRight (hshift : shift < 64) :
    (value >>> UInt64.ofNat shift).toNat = value.toNat / 2 ^ shift := by
  have hcount : (UInt64.ofNat shift).toNat = shift :=
    UInt64.toNat_ofNat_of_lt' (hshift.trans (by decide))
  rw [UInt64.toNat_shiftRight, hcount, Nat.mod_eq_of_lt hshift, Nat.shiftRight_eq_div_pow]

-- The three bits above a position of a word.
theorem toNat_digit (hshift : shift < 64) :
    ((value >>> UInt64.ofNat shift) &&& 7).toUInt8.toNat = value.toNat / 2 ^ shift % 8 := by
  have hmask : ((value >>> UInt64.ofNat shift) &&& 7).toNat = value.toNat / 2 ^ shift % 8 := by
    rw [UInt64.toNat_and, toNat_shiftRight hshift]
    exact Nat.and_two_pow_sub_one_eq_mod _ 3
  rw [UInt64.toNat_toUInt8, hmask]
  omega

end Words

section Bits

variable {n d count : Nat} {quotient : Nat} {bits : PhaseBitIter} {digits : OctalDigitIter}

-- The state of the iterator after `count` bits of `n / d`.
structure Streams (n d count quotient : Nat) (bits : PhaseBitIter) : Prop where
  denominator : bits.denominator = d
  expands : Expands n d count quotient bits.remainder

-- Neither branch leaves the range of the words.
theorem nextBit_streams (h : Streams n d count quotient bits) (hfits : d < U128_SIZE) :
    ∃ bit next, bits.nextBit = some (bit, next) ∧ bit.toNat ≤ 1 ∧
      Streams n d (count + 1) (2 * quotient + bit.toNat) next := by
  obtain ⟨rfl, hexpands⟩ := h
  have hlt := hexpands.rest_lt
  have hcomplement : checkedSub bits.denominator bits.remainder =
      some (bits.denominator - bits.remainder) := if_pos hlt.le
  by_cases hbit : bits.denominator - bits.remainder ≤ bits.remainder
  · refine ⟨1, { bits with remainder := bits.remainder - (bits.denominator - bits.remainder) },
      ?_, le_rfl, rfl, hexpands.one hbit⟩
    have hsub : checkedSub bits.remainder (bits.denominator - bits.remainder) =
        some (bits.remainder - (bits.denominator - bits.remainder)) := if_pos hbit
    simp only [PhaseBitIter.nextBit, hcomplement, hsub, Option.bind_eq_bind, Option.bind_some,
      if_pos hbit]
  · refine ⟨0, { bits with remainder := bits.remainder + bits.remainder }, ?_, Nat.zero_le _, rfl,
      hexpands.zero (by omega)⟩
    have hadd : checkedAdd bits.remainder bits.remainder =
        some (bits.remainder + bits.remainder) := if_pos (by omega)
    simp only [PhaseBitIter.nextBit, hcomplement, hadd, Option.bind_eq_bind, Option.bind_some,
      if_neg hbit]

-- The loop over the bits of a word; the word never overflows.
theorem take_streams (hlt : n < d) (hfits : d < U128_SIZE) {value : UInt64}
    (h : Streams n d count value.toNat bits) (hcount : count + more ≤ 64) :
    ∃ value' bits', bits.take more value = some (value', bits') ∧
      Streams n d (count + more) value'.toNat bits' := by
  induction more generalizing count value bits with
  | zero => exact ⟨value, bits, rfl, h⟩
  | succ more ih =>
    obtain ⟨bit, next, hnext, hbit, hstreams⟩ := nextBit_streams h hfits
    have hvalue : value.toNat < 2 ^ 63 := by
      have hbound := h.expands.quotient_lt hlt
      have hpower : 2 ^ count ≤ 2 ^ 63 := Nat.pow_le_pow_right (by decide) (by omega)
      omega
    rw [← toNat_shiftIn hvalue hbit] at hstreams
    obtain ⟨value', bits', htake, hlast⟩ := ih hstreams (by omega)
    refine ⟨value', bits', ?_, ?_⟩
    · simp [PhaseBitIter.take, hnext, htake]
    · rw [Nat.add_assoc, Nat.add_comm 1] at hlast
      exact hlast

theorem bits_streams (phase : PhaseRatio) :
    Streams phase.numerator phase.denominator 0 (0 : UInt64).toNat phase.bits :=
  ⟨rfl, .start phase.lt⟩

-- The three bits of a digit.
theorem next_streams (h : Streams n d count quotient digits.bits) (hfits : d < U128_SIZE) :
    ∃ digit next, digits.next = some (digit, next) ∧ digit.toNat < 8 ∧
      Streams n d (count + 3) (8 * quotient + digit.toNat) next.bits := by
  obtain ⟨high, bits, hhigh, hhighBit, h⟩ := nextBit_streams h hfits
  obtain ⟨middle, bits', hmiddle, hmiddleBit, h⟩ := nextBit_streams h hfits
  obtain ⟨low, bits'', hlow, hlowBit, h⟩ := nextBit_streams h hfits
  have hdigit : ((high <<< 2) ||| (middle <<< 1) ||| low).toNat =
      4 * high.toNat + 2 * middle.toNat + low.toNat := by
    have hbits : ∀ bit : UInt8, bit.toNat ≤ 1 → bit = 0 ∨ bit = 1 := by
      intro bit hbit
      rcases Nat.le_one_iff_eq_zero_or_eq_one.mp hbit with hzero | hone
      · exact .inl (UInt8.toNat_inj.mp hzero)
      · exact .inr (UInt8.toNat_inj.mp hone)
    rcases hbits high hhighBit with rfl | rfl <;> rcases hbits middle hmiddleBit with rfl | rfl <;>
      rcases hbits low hlowBit with rfl | rfl <;> rfl
  refine ⟨(high <<< 2) ||| (middle <<< 1) ||| low, ⟨bits''⟩, ?_, ?_, ?_⟩
  · simp [OctalDigitIter.next, hhigh, hmiddle, hlow]
  · rw [hdigit]
    omega
  · rw [hdigit]
    have hquotient : 2 * (2 * (2 * quotient + high.toNat) + middle.toNat) + low.toNat =
        8 * quotient + (4 * high.toNat + 2 * middle.toNat + low.toNat) := by omega
    rw [hquotient] at h
    exact h

theorem digitAt_streams (hfits : d < U128_SIZE) (h : Streams n d count quotient digits.bits) :
    ∃ digit, digits.digitAt index = some digit ∧
      digit.toNat = n * 2 ^ (count + 3 * (index + 1)) / d % 8 := by
  induction index generalizing count quotient digits with
  | zero =>
    obtain ⟨digit, next, hnext, hdigit, hstreams⟩ := next_streams h hfits
    refine ⟨digit, ?_, ?_⟩
    · simp [OctalDigitIter.digitAt, hnext]
    · rw [← hstreams.expands.quotient_eq]
      omega
  | succ index ih =>
    obtain ⟨first, next, hnext, -, hstreams⟩ := next_streams h hfits
    obtain ⟨digit, hdigit, hvalue⟩ := ih hstreams
    refine ⟨digit, ?_, ?_⟩
    · simp [OctalDigitIter.digitAt, hnext, hdigit]
    · rw [hvalue]
      congr 4
      omega

end Bits

section Representations

variable (phase : PhaseRatio) {count numerator denominator exponent : Nat} {word : PhaseWord64}
  {projection : PhaseProjection}

def PhaseRatio.value (phase : PhaseRatio) : ℚ := phase.numerator / phase.denominator

-- The first `count` bits of a phase, as a number.
def PhaseRatio.leading (phase : PhaseRatio) (count : Nat) : Nat :=
  phase.numerator * 2 ^ count / phase.denominator

theorem floor_leading (count : Nat) : ⌊phase.value * 2 ^ count⌋ = (phase.leading count : ℤ) :=
  floor_expansion _ _ _

theorem leading_shift (h : count ≤ more) :
    phase.leading more / 2 ^ (more - count) = phase.leading count :=
  expansion_shift h

theorem leading_lt (count : Nat) : phase.leading count < 2 ^ count := by
  have hpos : 0 < phase.denominator := Nat.zero_lt_of_lt phase.lt
  rw [PhaseRatio.leading, Nat.div_lt_iff_lt_mul hpos, Nat.mul_comm (2 ^ count)]
  exact Nat.mul_lt_mul_of_pos_right phase.lt (by positivity)

theorem value_fromValidParts (hlt : numerator < denominator) (hfits : denominator < U128_SIZE) :
    (PhaseRatio.fromValidParts numerator denominator hlt hfits).value =
      (numerator : ℚ) / denominator := by
  have hgcd : ((greatestCommonDivisor numerator denominator : Nat) : ℚ) ≠ 0 := by
    rw [greatestCommonDivisor_eq]
    exact_mod_cast (Nat.gcd_pos_of_pos_right _ (Nat.zero_lt_of_lt hlt)).ne'
  have hleft : greatestCommonDivisor numerator denominator ∣ numerator := by
    rw [greatestCommonDivisor_eq]
    exact Nat.gcd_dvd_left _ _
  have hright : greatestCommonDivisor numerator denominator ∣ denominator := by
    rw [greatestCommonDivisor_eq]
    exact Nat.gcd_dvd_right _ _
  change ((numerator / greatestCommonDivisor numerator denominator : Nat) : ℚ) /
    ((denominator / greatestCommonDivisor numerator denominator : Nat) : ℚ) = _
  rw [Nat.cast_div hleft hgcd, Nat.cast_div hright hgcd, div_div_div_cancel_right₀ hgcd]

theorem leading_fromValidParts (hlt : numerator < denominator) (hfits : denominator < U128_SIZE)
    (count : Nat) :
    (PhaseRatio.fromValidParts numerator denominator hlt hfits).leading count =
      numerator * 2 ^ count / denominator := by
  have hfloor := floor_leading (PhaseRatio.fromValidParts numerator denominator hlt hfits) count
  rw [value_fromValidParts, floor_expansion] at hfloor
  exact_mod_cast hfloor.symm

theorem value_nonneg : 0 ≤ phase.value := by
  unfold PhaseRatio.value
  positivity

theorem value_lt_one : phase.value < 1 := by
  have hpos : 0 < phase.denominator := Nat.zero_lt_of_lt phase.lt
  rw [PhaseRatio.value, div_lt_one (by exact_mod_cast hpos)]
  exact_mod_cast phase.lt

-- What the loop leaves is what the bits do not say.
theorem projectWithRemainder_eq (precision : BitPrecision) :
    ∃ projection rest, phase.projectWithRemainder precision = some (projection, rest) ∧
      projection.precision = precision ∧
      projection.prefixBits.toNat = phase.leading precision.get ∧
      phase.value = (projection.prefixBits.toNat + rest.value) / 2 ^ precision.get := by
  obtain ⟨value, bits, htake, hdenominator, hexpands⟩ :=
    take_streams phase.lt phase.fits (bits_streams phase)
      (show 0 + precision.get ≤ 64 from (Nat.zero_add _).le.trans precision.bounded)
  rw [Nat.zero_add] at hexpands
  have hvalid : bits.remainder < bits.denominator ∧ bits.denominator < U128_SIZE := by
    rw [hdenominator]
    exact ⟨hexpands.rest_lt, phase.fits⟩
  refine ⟨⟨precision, value⟩, .fromValidParts bits.remainder bits.denominator hvalid.1 hvalid.2,
    ?_, rfl, hexpands.quotient_eq, ?_⟩
  · simp [PhaseRatio.projectWithRemainder, htake, dif_pos hvalid]
  · have hpos : (phase.denominator : ℚ) ≠ 0 := by
      exact_mod_cast (Nat.zero_lt_of_lt phase.lt).ne'
    have hsplit : (phase.numerator : ℚ) * 2 ^ precision.get =
        value.toNat * phase.denominator + bits.remainder := by
      exact_mod_cast hexpands.split
    rw [value_fromValidParts, hdenominator, PhaseRatio.value, eq_div_iff (by positivity)]
    field_simp
    linarith

theorem word64_eq : ∃ word, phase.word64 = some word ∧ word.raw.toNat = phase.leading 64 := by
  obtain ⟨value, bits, htake, -, hexpands⟩ :=
    take_streams phase.lt phase.fits (bits_streams phase) (Nat.le_refl (0 + 64))
  refine ⟨⟨value⟩, ?_, hexpands.quotient_eq⟩
  simp [PhaseRatio.word64, PhaseWord64.fromRatio, PHASE_WORD_BITS, htake]

theorem projectWithRemainder_isSome (precision : BitPrecision) :
    (phase.projectWithRemainder precision).isSome = true := by
  obtain ⟨projection, rest, h, -⟩ := projectWithRemainder_eq phase precision
  rw [h, Option.isSome_some]

theorem word64_isSome : phase.word64.isSome = true := by
  obtain ⟨word, h, -⟩ := word64_eq phase
  rw [h, Option.isSome_some]

theorem project_prefixBits (hword : word.raw.toNat = phase.leading 64) (precision : BitPrecision) :
    (word.project precision).prefixBits.toNat = phase.leading precision.get := by
  have hpositive := precision.positive
  have hbounded := precision.bounded
  rw [PhaseWord64.project, PHASE_WORD_BITS,
    toNat_shiftRight (show 64 - precision.get < 64 by unfold BitPrecision.get; omega), hword]
  exact leading_shift phase hbounded

theorem octalDigitMsb_eq (index : Nat) :
    ∃ digit, phase.octalDigitMsb index = some digit ∧
      digit.toNat = phase.leading (3 * (index + 1)) % 8 := by
  obtain ⟨digit, hdigit, hvalue⟩ :=
    digitAt_streams phase.fits (show Streams _ _ 0 0 phase.octalDigits.bits from bits_streams phase)
  rw [Nat.zero_add] at hvalue
  exact ⟨digit, hdigit, hvalue⟩

-- A digit read from the first `count` bits is the streamed one.
theorem octalDigitMsb_leading {value : UInt64} (hvalue : value.toNat = phase.leading count)
    (hindex : 3 * (index + 1) ≤ count) (hcount : count ≤ 64) :
    some ((value >>> UInt64.ofNat (count - (index + 1) * 3)) &&& 7).toUInt8 =
      phase.octalDigitMsb index := by
  obtain ⟨digit, hdigit, hdigitValue⟩ := octalDigitMsb_eq phase index
  rw [hdigit, Option.some_inj, ← UInt8.toNat_inj, toNat_digit (by omega), hvalue, hdigitValue,
    Nat.mul_comm (index + 1), leading_shift phase hindex]

theorem word_octalDigitMsb (hword : word.raw.toNat = phase.leading 64) (index : Nat) :
    word.octalDigitMsb index = if index < 21 then phase.octalDigitMsb index else none := by
  by_cases hindex : index < 21
  · rw [PhaseWord64.octalDigitMsb, PHASE_WORD_OCTAL_DIGITS, if_neg (by omega), if_pos hindex]
    exact octalDigitMsb_leading phase hword (show 3 * (index + 1) ≤ 64 by omega) le_rfl
  · rw [PhaseWord64.octalDigitMsb, PHASE_WORD_OCTAL_DIGITS, if_pos (by omega), if_neg hindex]

theorem projection_octalDigitMsb
    (hleading : projection.prefixBits.toNat = phase.leading projection.precision.get)
    (index : Nat) :
    projection.octalDigitMsb index =
      if index < projection.precision.fullOctalDigits then phase.octalDigitMsb index else none := by
  by_cases hindex : index < projection.precision.fullOctalDigits
  · rw [PhaseProjection.octalDigitMsb, if_neg (by omega), if_pos hindex]
    unfold BitPrecision.fullOctalDigits BITS_PER_OCTAL_DIGIT at hindex
    exact octalDigitMsb_leading phase hleading (by omega) projection.precision.bounded
  · rw [PhaseProjection.octalDigitMsb, if_pos (by omega), if_neg hindex]

theorem octalPowerU64_go (hresult : result = 8 ^ exponent) (hbound : exponent + count ≤ 21) :
    octalPowerU64.go count result = some (8 ^ (exponent + count)) := by
  induction count generalizing result exponent with
  | zero => rw [octalPowerU64.go, hresult, Nat.add_zero]
  | succ count ih =>
    have hnext : result * RADIX = 8 ^ (exponent + 1) := by rw [hresult, RADIX, pow_succ]
    have hfits : result * RADIX < 2 ^ 64 := by
      rw [hnext]
      exact lt_of_le_of_lt (Nat.pow_le_pow_right (by decide) (show exponent + 1 ≤ 21 by omega))
        (by decide)
    rw [octalPowerU64.go, if_pos hfits, ih hnext (by omega), Nat.add_right_comm, Nat.add_assoc]

theorem octalPowerU64_eq (hpos : 0 < exponent) (hbound : exponent ≤ 21) :
    octalPowerU64 exponent = some (8 ^ exponent) := by
  rw [octalPowerU64, if_neg (by unfold PHASE_WORD_OCTAL_DIGITS; omega),
    octalPowerU64_go (show 1 = 8 ^ 0 from rfl) (by omega), Nat.zero_add]

-- The trailing bits of the projection are no part of the address.
theorem fromProjection_eq
    (hleading : projection.prefixBits.toNat = phase.leading projection.precision.get)
    (hdigits : projection.precision.fullOctalDigits ≠ 0) :
    ∃ address, OctalAddress.fromProjection projection = .ok address ∧
      address.digits = projection.precision.fullOctalDigits ∧
      ∀ index, address.digitMsb index =
        if index < projection.precision.fullOctalDigits then phase.octalDigitMsb index
        else none := by
  have hbounded := projection.precision.bounded
  have hget : projection.precision.get =
      3 * projection.precision.fullOctalDigits + projection.precision.trailingBits :=
    (Nat.div_add_mod _ _).symm
  have hcount : projection.precision.get ≤ 64 := hbounded
  let value := projection.prefixBits >>> UInt64.ofNat projection.precision.trailingBits
  have hvalue : value.toNat = phase.leading (3 * projection.precision.fullOctalDigits) := by
    have hshift := leading_shift phase (show 3 * projection.precision.fullOctalDigits ≤
      3 * projection.precision.fullOctalDigits + projection.precision.trailingBits by omega)
    rw [Nat.add_sub_cancel_left] at hshift
    rw [toNat_shiftRight (by omega), hleading, hget, hshift]
  have hlt : value.toNat < 8 ^ projection.precision.fullOctalDigits := by
    rw [hvalue, show 8 = 2 ^ 3 from rfl, ← pow_mul]
    exact leading_lt phase _
  refine ⟨⟨value, projection.precision.fullOctalDigits⟩, ?_, rfl, ?_⟩
  · simp only [OctalAddress.fromProjection, OctalAddress.new, require, hdigits, ne_eq,
      not_false_eq_true, decide_true, if_true, ok_bind, okOr,
      octalPowerU64_eq (Nat.pos_of_ne_zero hdigits) (by omega), decide_eq_true hlt, value]
  · intro index
    by_cases hindex : index < projection.precision.fullOctalDigits
    · rw [OctalAddress.digitMsb, if_neg (Nat.not_le.mpr hindex), if_pos hindex]
      have hread := octalDigitMsb_leading phase hvalue
        (show 3 * (index + 1) ≤ 3 * projection.precision.fullOctalDigits by omega) (by omega)
      rw [← hread]
      have hposition : (projection.precision.fullOctalDigits - index - 1) * 3 =
          3 * projection.precision.fullOctalDigits - (index + 1) * 3 := by omega
      rw [← hposition]
      rfl
    · rw [OctalAddress.digitMsb, if_pos (Nat.not_lt.mp hindex), if_neg hindex]

-- An octal digit of the exact value.
theorem floor_octalDigit (index : Nat) :
    ⌊phase.value * 8 ^ (index + 1)⌋ % 8 = ((phase.leading (3 * (index + 1)) % 8 : Nat) : ℤ) := by
  rw [show (8 : ℚ) = 2 ^ 3 by norm_num, ← pow_mul, floor_leading]
  norm_cast

end Representations

-- Every phase of two words is projected exactly, at every precision, and all
-- representations agree on its digits.
theorem projection_exact (numerator denominator : Nat) (hlt : numerator < denominator)
    (hfits : denominator < U128_SIZE) :
    ∃ phase word, PhaseRatio.new numerator denominator hfits = .ok phase ∧
      phase.value = (numerator : ℚ) / denominator ∧ phase.word64 = some word ∧
      (∀ precision : BitPrecision, ∃ projection rest,
        phase.projectWithRemainder precision = some (projection, rest) ∧
        (projection.prefixBits.toNat : ℤ) = ⌊phase.value * 2 ^ precision.get⌋ ∧
        phase.value = (projection.prefixBits.toNat + rest.value) / 2 ^ precision.get ∧
        0 ≤ rest.value ∧ rest.value < 1 ∧ word.project precision = projection ∧
        (∀ index, projection.octalDigitMsb index =
          if index < precision.fullOctalDigits then phase.octalDigitMsb index else none) ∧
        (precision.fullOctalDigits ≠ 0 → ∃ address,
          OctalAddress.fromProjection projection = .ok address ∧ ∀ index,
            address.digitMsb index =
              if index < precision.fullOctalDigits then phase.octalDigitMsb index else none)) ∧
      ∀ index, (∃ digit, phase.octalDigitMsb index = some digit ∧
          (digit.toNat : ℤ) = ⌊phase.value * 8 ^ (index + 1)⌋ % 8) ∧
        word.octalDigitMsb index =
          if index < PHASE_WORD_OCTAL_DIGITS then phase.octalDigitMsb index else none := by
  let phase := PhaseRatio.fromValidParts numerator denominator hlt hfits
  obtain ⟨word, hword, hraw⟩ := word64_eq phase
  refine ⟨phase, word, dif_pos hlt, value_fromValidParts hlt hfits, hword, ?_, ?_⟩
  · intro precision
    obtain ⟨projection, rest, hproject, hprecision, hleading, hvalue⟩ :=
      projectWithRemainder_eq phase precision
    subst hprecision
    have hsame : word.project projection.precision = projection := by
      have hbits : (word.project projection.precision).prefixBits = projection.prefixBits := by
        rw [← UInt64.toNat_inj, project_prefixBits phase hraw, hleading]
      exact congrArg (PhaseProjection.mk projection.precision) hbits
    have hfloor : (projection.prefixBits.toNat : ℤ) =
        ⌊phase.value * 2 ^ projection.precision.get⌋ := by
      rw [hleading, floor_leading]
    refine ⟨projection, rest, hproject, hfloor, hvalue, value_nonneg rest, value_lt_one rest,
      hsame, projection_octalDigitMsb phase hleading, ?_⟩
    intro hdigits
    obtain ⟨address, haddress, -, hread⟩ := fromProjection_eq phase hleading hdigits
    exact ⟨address, haddress, hread⟩
  · intro index
    obtain ⟨digit, hdigit, hvalue⟩ := octalDigitMsb_eq phase index
    refine ⟨⟨digit, hdigit, ?_⟩, word_octalDigitMsb phase hraw index⟩
    rw [hvalue, floor_octalDigit]

-- A third, whose digits are 2 and 5 in turn.
theorem projection_exact_third :
    1 < 3 ∧ 3 < U128_SIZE ∧ ∃ phase word, PhaseRatio.new 1 3 (by decide) = .ok phase ∧
      phase.value = ((1 : Nat) : ℚ) / (3 : Nat) ∧ phase.word64 = some word := by
  obtain ⟨phase, word, hnew, hvalue, hword, -⟩ :=
    projection_exact 1 3 (by decide) (by decide)
  exact ⟨by decide, by decide, phase, word, hnew, hvalue, hword⟩

end Fractonica.Temporal
