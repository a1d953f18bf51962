import Fractonica.Temporal.Interval

namespace Fractonica.Temporal

open Lib

namespace Timestamp

variable {a instant : Timestamp}

-- The instant as a number of nanoseconds from the epoch.
def nanoseconds (instant : Timestamp) : Int :=
  instant.epochSeconds.toInt * NANOSECONDS_PER_SECOND + instant.nanosecond.toNat

theorem lt_iff : a < b ↔ a.nanoseconds < b.nanoseconds := by
  have ha := a.valid
  have hb := b.valid
  change (a.epochSeconds < b.epochSeconds ∨
    a.epochSeconds = b.epochSeconds ∧ a.nanosecond < b.nanosecond) ↔ _
  rw [Int64.lt_iff_toInt_lt, ← Int64.toInt_inj, UInt32.lt_iff_toNat_lt]
  unfold nanoseconds NANOSECONDS_PER_SECOND at *
  omega

theorem le_iff : a ≤ b ↔ a.nanoseconds ≤ b.nanoseconds := by
  have ha := a.valid
  have hb := b.valid
  change (a.epochSeconds < b.epochSeconds ∨
    a.epochSeconds = b.epochSeconds ∧ a.nanosecond ≤ b.nanosecond) ↔ _
  rw [Int64.lt_iff_toInt_lt, ← Int64.toInt_inj, UInt32.le_iff_toNat_le]
  unfold nanoseconds NANOSECONDS_PER_SECOND at *
  omega

theorem ext_nanoseconds (h : a.nanoseconds = b.nanoseconds) : a = b := by
  have ha := a.valid
  have hb := b.valid
  have hseconds : a.epochSeconds = b.epochSeconds := by
    rw [← Int64.toInt_inj]
    unfold nanoseconds NANOSECONDS_PER_SECOND at *
    omega
  have hnanosecond : a.nanosecond = b.nanosecond := by
    rw [← UInt32.toNat_inj]
    unfold nanoseconds NANOSECONDS_PER_SECOND at *
    omega
  cases a
  simp_all

theorem nanoseconds_new {nanosecond : UInt32} (h : new seconds nanosecond = .ok instant) :
    instant.nanoseconds = seconds.toInt * NANOSECONDS_PER_SECOND + nanosecond.toNat := by
  unfold new at h
  split at h
  · cases h
    rfl
  · cases h

theorem nanoseconds_fromEpochSeconds (seconds : Int64) :
    (fromEpochSeconds seconds).nanoseconds = seconds.toInt * NANOSECONDS_PER_SECOND := by
  simp [nanoseconds, fromEpochSeconds]

-- A whole second is reached when the seconds are.
theorem fromEpochSeconds_le_iff :
    fromEpochSeconds seconds ≤ instant ↔ seconds ≤ instant.epochSeconds := by
  have hvalid := instant.valid
  rw [le_iff, nanoseconds_fromEpochSeconds, Int64.le_iff_toInt_le]
  unfold nanoseconds NANOSECONDS_PER_SECOND at *
  omega

theorem not_lt : ¬a < b ↔ b ≤ a := by
  rw [lt_iff, le_iff, Int.not_lt]

theorem not_le : ¬a ≤ b ↔ b < a := by
  rw [lt_iff, le_iff, Int.not_le]

end Timestamp

namespace Interval

variable {interval : Interval} {instant : Timestamp}

def start (interval : Interval) : Timestamp :=
  .fromEpochSeconds interval.previous.epochSeconds

def finish (interval : Interval) : Timestamp :=
  .fromEpochSeconds interval.next.epochSeconds

theorem validate_eq_ok : interval.validate = .ok () ↔
    (interval.previous.saros = interval.saros ∧ interval.next.saros = interval.saros) ∧
      interval.previous.epochSeconds < interval.next.epochSeconds := by
  rw [validate, require_bind_eq_ok, require_eq_ok, decide_eq_true_eq, decide_eq_true_eq]

-- The instants of the interval, counted from its start.
structure Covers (interval : Interval) (instant : Timestamp) : Prop where
  valid : interval.validate = .ok ()
  start_le : interval.start ≤ instant
  lt_finish : instant < interval.finish

theorem finish_nanoseconds (hvalid : interval.validate = .ok ()) :
    interval.finish.nanoseconds = interval.start.nanoseconds + interval.totalNanoseconds ∧
      0 < interval.totalNanoseconds := by
  have hlt := Int64.lt_iff_toInt_lt.mp (validate_eq_ok.mp hvalid).2
  simp only [start, finish, Timestamp.nanoseconds_fromEpochSeconds, totalNanoseconds,
    NANOSECONDS_PER_SECOND]
  omega

theorem nanoseconds_eq (hstart : interval.start ≤ instant) :
    instant.nanoseconds = interval.start.nanoseconds + interval.elapsedNanoseconds instant := by
  have hle := Int64.le_iff_toInt_le.mp (Timestamp.fromEpochSeconds_le_iff.mp hstart)
  rw [start, Timestamp.nanoseconds_fromEpochSeconds, elapsedNanoseconds, Timestamp.nanoseconds]
  unfold NANOSECONDS_PER_SECOND
  omega

theorem Covers.elapsed_lt (h : interval.Covers instant) :
    interval.elapsedNanoseconds instant < interval.totalNanoseconds := by
  have hinstant := nanoseconds_eq h.start_le
  obtain ⟨hfinish, -⟩ := finish_nanoseconds h.valid
  have hlt := Timestamp.lt_iff.mp h.lt_finish
  omega

theorem phaseAt_eq_ok : interval.phaseAt instant = .ok phase ↔
    ∃ hcovers : interval.Covers instant, phase =
      .fromValidParts (interval.elapsedNanoseconds instant) interval.totalNanoseconds
        hcovers.elapsed_lt interval.totalNanoseconds_fits := by
  rw [phaseAt, bind_eq_ok]
  constructor
  · rintro ⟨_, hvalid, h⟩
    rw [require_bind_eq_ok, decide_eq_true_eq, not_or, Timestamp.not_lt, Timestamp.not_le] at h
    obtain ⟨⟨hstart, hfinish⟩, h⟩ := h
    have hcovers : interval.Covers instant := ⟨hvalid, hstart, hfinish⟩
    rw [PhaseRatio.new, dif_pos hcovers.elapsed_lt, Except.ok.injEq] at h
    exact ⟨hcovers, h.symm⟩
  · rintro ⟨hcovers, rfl⟩
    refine ⟨(), hcovers.valid, ?_⟩
    rw [require_bind_eq_ok, decide_eq_true_eq, not_or, Timestamp.not_lt, Timestamp.not_le]
    exact ⟨⟨hcovers.start_le, hcovers.lt_finish⟩, dif_pos hcovers.elapsed_lt⟩

-- The phase grows with the time.
theorem phaseAt_lt {later : Timestamp} (h : interval.phaseAt instant = .ok phase)
    (h' : interval.phaseAt later = .ok phase')
    (hlt : instant < later) : phase.value < phase'.value := by
  obtain ⟨hcovers, rfl⟩ := phaseAt_eq_ok.mp h
  obtain ⟨hcovers', rfl⟩ := phaseAt_eq_ok.mp h'
  rw [value_fromValidParts, value_fromValidParts]
  have hpos := (finish_nanoseconds hcovers.valid).2
  have helapsed : interval.elapsedNanoseconds instant < interval.elapsedNanoseconds later := by
    have hinstant := nanoseconds_eq hcovers.start_le
    have hlater := nanoseconds_eq hcovers'.start_le
    have hnanoseconds := Timestamp.lt_iff.mp hlt
    omega
  exact div_lt_div_of_pos_right (by exact_mod_cast helapsed) (by exact_mod_cast hpos)

end Interval

-- What a reading of the clock says about the elapsed time.
structure Reads (interval : Interval) (instant : Timestamp) (precision : BitPrecision)
    (clock : ClockReading) : Prop where
  phase : interval.phaseAt instant = .ok clock.phase
  precision_eq : clock.projection.precision = precision
  prefixBits : clock.projection.prefixBits.toNat =
    interval.elapsedNanoseconds instant * 2 ^ precision.get / interval.totalNanoseconds
  nextFlip : clock.nextFlip =
    ⟨clock.projection.prefixBits.toNat + 1, 2 ^ precision.get⟩

section Clock

variable {precision : BitPrecision}

theorem reads_of_clockReading (h : clockReading interval instant precision = .ok clock) :
    Reads interval instant precision clock := by
  obtain ⟨phase, hphase, hclock⟩ := bind_eq_ok.mp h
  obtain ⟨projection, rest, hproject, hprecision, hbits, -⟩ :=
    projectWithRemainder_eq phase precision
  obtain ⟨hcovers, hparts⟩ := Interval.phaseAt_eq_ok.mp hphase
  rw [Except.ok.injEq] at hclock
  subst hclock
  simp only [hproject, Option.get_some]
  refine ⟨hphase, hprecision, ?_, ?_⟩
  · rw [hbits, hparts, leading_fromValidParts]
  · rw [PhaseProjection.nextBoundary, PhaseProjection.denominator, hprecision]

theorem clockReading_of_covers (precision : BitPrecision) (h : interval.Covers instant) :
    ∃ clock, clockReading interval instant precision = .ok clock := by
  refine ⟨_, bind_eq_ok.mpr ⟨_, Interval.phaseAt_eq_ok.mpr ⟨h, rfl⟩, rfl⟩⟩

theorem Reads.covers (h : Reads interval instant precision clock) : interval.Covers instant := by
  obtain ⟨hcovers, -⟩ := Interval.phaseAt_eq_ok.mp h.phase
  exact hcovers

theorem Reads.projection_eq (h : Reads interval instant precision clock)
    (h' : Reads interval other precision clock')
    (hbits : clock'.projection.prefixBits.toNat = clock.projection.prefixBits.toNat) :
    clock'.projection = clock.projection := by
  have hprecision := h.precision_eq.trans h'.precision_eq.symm
  rw [UInt64.toNat_inj] at hbits
  cases hclock : clock.projection
  cases hclock' : clock'.projection
  simp_all

end Clock

end Fractonica.Temporal
