import Fractonica.Saros.Engine
import Fractonica.Temporal.Interval.Theorems

namespace Fractonica.Saros

open Lib Temporal

section Intervals

variable {interval : Interval} {flip : Timestamp}

-- The phase does not depend on the types of the eclipses.
def untyped (interval : Interval) : Interval where
  saros := interval.saros
  previous := { interval.previous with typeCode := 0 }
  next := { interval.next with typeCode := 0 }

theorem intervalBetween_untyped {saros : Nat} {previous next : Int64}
    (h : intervalBetween saros previousSequence nextSequence previous next previousType
      nextType = .ok interval) :
    intervalBetween saros previousSequence nextSequence previous next 0 0 =
        .ok (untyped interval) ∧
      interval.previous.epochSeconds = previous ∧ interval.next.epochSeconds = next := by
  obtain ⟨sarosU8, hsaros, h⟩ := bind_eq_ok.mp h
  obtain ⟨previousSequenceU8, hprevious, h⟩ := bind_eq_ok.mp h
  obtain ⟨nextSequenceU8, hnext, h⟩ := bind_eq_ok.mp h
  rw [Except.ok.injEq] at h
  subst h
  refine ⟨?_, rfl, rfl⟩
  rw [intervalBetween, hsaros, ok_bind, hprevious, ok_bind, hnext, ok_bind]
  rfl

-- The boundary in nanoseconds from the start, rounded up.
theorem nanoseconds_timestampAtBoundary (h : timestampAtBoundary interval boundary = .ok flip) :
    flip.nanoseconds = interval.start.nanoseconds +
      ((interval.totalNanoseconds * boundary.numerator + (boundary.denominator - 1)) /
        boundary.denominator : Nat) := by
  obtain ⟨_, -, h⟩ := bind_eq_ok.mp h
  obtain ⟨-, h⟩ := require_bind_eq_ok.mp h
  obtain ⟨duration, hduration, h⟩ := bind_eq_ok.mp h
  obtain ⟨numerator, hnumerator, h⟩ := bind_eq_ok.mp h
  obtain ⟨rounded, hrounded, h⟩ := bind_eq_ok.mp h
  obtain ⟨-, h⟩ := require_bind_eq_ok.mp h
  obtain ⟨-, h⟩ := require_bind_eq_ok.mp h
  obtain ⟨hepoch, h⟩ := require_bind_eq_ok.mp h
  rw [okOr_eq_ok] at hduration hnumerator hrounded
  have htotal : interval.totalNanoseconds * boundary.numerator + (boundary.denominator - 1) =
      rounded := by
    rw [← checkedAdd_eq_some hrounded, ← checkedMul_eq_some hnumerator,
      ← checkedMul_eq_some hduration]
    rfl
  rw [htotal]
  generalize rounded / boundary.denominator = offset at *
  have hlower : -2 ^ 63 ≤
      interval.previous.epochSeconds.toInt + (offset / NANOSECONDS_PER_SECOND : Nat) :=
    interval.previous.epochSeconds.le_toInt.trans
      (Int.le_add_of_nonneg_right (Int.natCast_nonneg _))
  have hnanosecond : (UInt32.ofNat (offset % NANOSECONDS_PER_SECOND)).toNat =
      offset % NANOSECONDS_PER_SECOND := by
    apply UInt32.toNat_ofNat_of_lt'
    exact lt_of_lt_of_le (Nat.mod_lt _ (by decide)) (by decide)
  rw [Timestamp.nanoseconds_new (mapError_eq_ok.mp h), Interval.start,
    Timestamp.nanoseconds_fromEpochSeconds, hnanosecond,
    Int64.toInt_ofInt_of_le hlower (of_decide_eq_true hepoch)]
  unfold NANOSECONDS_PER_SECOND
  omega

-- The instants up to the flip stay in the bucket of the reading, and the flip
-- leaves it.
structure Flips (interval : Interval) (instant flip : Timestamp) (precision : BitPrecision)
    (projection : PhaseProjection) : Prop where
  lt : instant < flip
  le_finish : flip ≤ interval.finish
  same : ∀ other, instant ≤ other → other < flip → ∃ clock,
    clockReading interval other precision = .ok clock ∧ clock.projection = projection
  differs : flip = interval.finish ∨ ∃ clock,
    clockReading interval flip precision = .ok clock ∧
      clock.projection.prefixBits ≠ projection.prefixBits

theorem flips_of_boundary {instant : Timestamp} {precision : BitPrecision}
    (hclock : clockReading interval instant precision = .ok clock)
    (hflip : timestampAtBoundary interval clock.nextFlip = .ok flip) :
    Flips interval instant flip precision clock.projection := by
  have hreads := reads_of_clockReading hclock
  have hcovers := hreads.covers
  obtain ⟨hfinish, htotal⟩ := Interval.finish_nanoseconds hcovers.valid
  have hparts : 0 < 2 ^ precision.get := Nat.two_pow_pos _
  have hinstant := Interval.nanoseconds_eq hcovers.start_le
  have hend := nanoseconds_timestampAtBoundary hflip
  rw [hreads.nextFlip] at hend
  have hbucket := hreads.prefixBits.symm
  have hbucketLt : clock.projection.prefixBits.toNat < 2 ^ precision.get := by
    rw [hreads.prefixBits, Nat.div_lt_iff_lt_mul htotal, Nat.mul_comm]
    exact Nat.mul_lt_mul_of_pos_left hcovers.elapsed_lt hparts
  have hafter := lt_bucket_end htotal hparts hbucket
  have hwithin := bucket_end_le interval.totalNanoseconds hparts hbucketLt
  have hcrosses := bucket_end_flips clock.projection.prefixBits.toNat htotal hparts
  generalize hoffset : (interval.totalNanoseconds * (clock.projection.prefixBits.toNat + 1) +
    (2 ^ precision.get - 1)) / 2 ^ precision.get = offset at hend hafter hwithin hcrosses
  refine ⟨Timestamp.lt_iff.mpr (by omega), Timestamp.le_iff.mpr (by omega), ?_, ?_⟩
  · intro other hle hlt
    rw [Timestamp.le_iff] at hle
    rw [Timestamp.lt_iff] at hlt
    have hother : interval.Covers other :=
      ⟨hcovers.valid, Timestamp.le_iff.mpr (by omega), Timestamp.lt_iff.mpr (by omega)⟩
    have helapsed := Interval.nanoseconds_eq hother.start_le
    obtain ⟨clock', hclock'⟩ := clockReading_of_covers precision hother
    have hreads' := reads_of_clockReading hclock'
    refine ⟨clock', hclock', hreads.projection_eq hreads' ?_⟩
    rw [hreads'.prefixBits]
    exact bucket_eq_of_lt htotal hparts hbucket (by omega) (by rw [hoffset]; omega)
  · by_cases heq : flip = interval.finish
    · exact .inl heq
    · right
      have hne : flip.nanoseconds ≠ interval.finish.nanoseconds :=
        fun h => heq (Timestamp.ext_nanoseconds h)
      have hother : interval.Covers flip :=
        ⟨hcovers.valid, Timestamp.le_iff.mpr (by omega), Timestamp.lt_iff.mpr (by omega)⟩
      have helapsed := Interval.nanoseconds_eq hother.start_le
      obtain ⟨clock', hclock'⟩ := clockReading_of_covers precision hother
      have hreads' := reads_of_clockReading hclock'
      refine ⟨clock', hclock', fun h => ?_⟩
      have hsame := hreads'.prefixBits
      rw [h, show interval.elapsedNanoseconds flip = offset by omega] at hsame
      omega

end Intervals

section Search

variable {series : Section}

-- Later records are of later eclipses.
def Section.Chronological (series : Section) : Prop :=
  ∀ {i j : Nat} {earlier later : EclipseMetadata}, i < j → series.metadata i = .ok earlier →
    series.metadata j = .ok later → earlier.unixSeconds < later.unixSeconds

theorem Section.Chronological.le (h : series.Chronological) {later : EclipseMetadata} (hle : i ≤ j)
    (hi : series.metadata i = .ok earlier)
    (hj : series.metadata j = .ok later) : earlier.unixSeconds ≤ later.unixSeconds := by
  rcases Nat.lt_or_eq_of_le hle with hlt | rfl
  · exact Int64.le_of_lt (h hlt hi hj)
  · rw [hi, Except.ok.injEq] at hj
    rw [hj]
    exact Int64.le_refl _

theorem locate_bounds (hle : low ≤ high)
    (h : series.locate instant low high = .ok found) : low ≤ found ∧ found ≤ high := by
  induction low, high using Section.locate.induct with
  | case1 low high hlt middle ih₁ ih₂ =>
    rw [Section.locate, if_pos hlt] at h
    obtain ⟨metadata, -, h⟩ := bind_eq_ok.mp h
    split at h
    · have hbounds := ih₁ (by omega) h
      omega
    · have hbounds := ih₂ (by omega) h
      omega
  | case2 low high hge =>
    rw [Section.locate, if_neg hge, Except.ok.injEq] at h
    omega

-- The search depends on the instant only through its comparisons.
theorem locate_congr (hagree : ∀ {index metadata}, series.metadata index = .ok metadata →
      (metadata.unixSeconds ≤ instant.epochSeconds ↔ metadata.unixSeconds ≤ other.epochSeconds)) :
    series.locate other low high = series.locate instant low high := by
  induction low, high using Section.locate.induct with
  | case1 low high hlt middle ih₁ ih₂ =>
    rw [Section.locate, if_pos hlt, Section.locate, if_pos hlt]
    dsimp only
    cases hmetadata : series.metadata (low + (high - low) / 2) with
    | error e => rw [error_bind, error_bind]
    | ok metadata =>
      rw [ok_bind, ok_bind]
      by_cases hcase : metadata.unixSeconds ≤ instant.epochSeconds
      · rw [if_pos hcase, if_pos ((hagree hmetadata).mp hcase), ih₁]
      · rw [if_neg hcase, if_neg fun h => hcase ((hagree hmetadata).mpr h), ih₂]
  | case2 low high hge =>
    rw [Section.locate, if_neg hge, Section.locate, if_neg hge]

end Search

section Readings

variable {engine : SarosEngine} {saros : Nat} {instant : Timestamp} {precision : BitPrecision}
  {reading : SarosReading} {series : Section} {previous next : EclipseMetadata}

-- The records that the search settles on.
structure Located (series : Section) (instant : Timestamp) (low : Nat)
    (previous next : EclipseMetadata) : Prop where
  enough : 2 ≤ series.recordCount
  covered : ∃ first last, series.metadata 0 = .ok first ∧
    series.metadata (series.recordCount - 1) = .ok last ∧
    .fromEpochSeconds first.unixSeconds ≤ instant ∧ instant < .fromEpochSeconds last.unixSeconds
  found : series.locate instant 1 (series.recordCount - 1) = .ok low
  previous_eq : series.metadata (low - 1) = .ok previous
  next_eq : series.metadata low = .ok next

-- What a reading is made of.
structure Readout (engine : SarosEngine) (saros : Nat) (instant : Timestamp)
    (precision : BitPrecision) (series : Section) (low : Nat) (previous next : EclipseMetadata)
    (interval : Interval) (reading : SarosReading) : Prop where
  series_eq : engine.sectionOf saros = .ok series
  located : Located series instant low previous next
  interval_eq : intervalFromMetadata saros (low - 1) previous low next = .ok interval
  clock_eq : clockReading interval instant precision = .ok reading.clock
  flip_eq : timestampAtBoundary interval reading.clock.nextFlip = .ok reading.nextFlipAt
  reading_eq : reading = {
    saros, instant, clock := reading.clock, nextFlipAt := reading.nextFlipAt
    previous := { saros, sequence := low - 1, unixSeconds := previous.unixSeconds }
    next := { saros, sequence := low, unixSeconds := next.unixSeconds } }

theorem readout_of_readingAt (h : engine.readingAt saros instant precision = .ok reading) :
    ∃ series low previous next interval,
      Readout engine saros instant precision series low previous next interval reading := by
  obtain ⟨series, hseries, h⟩ := bind_eq_ok.mp h
  obtain ⟨henough, h⟩ := require_bind_eq_ok.mp h
  obtain ⟨first, hfirst, h⟩ := bind_eq_ok.mp h
  obtain ⟨last, hlast, h⟩ := bind_eq_ok.mp h
  obtain ⟨hcovered, h⟩ := require_bind_eq_ok.mp h
  obtain ⟨low, hlow, h⟩ := bind_eq_ok.mp h
  obtain ⟨previous, hprevious, h⟩ := bind_eq_ok.mp h
  obtain ⟨next, hnext, h⟩ := bind_eq_ok.mp h
  obtain ⟨interval, hinterval, h⟩ := bind_eq_ok.mp h
  obtain ⟨clock, hclock, h⟩ := bind_eq_ok.mp h
  obtain ⟨flip, hflip, h⟩ := bind_eq_ok.mp h
  rw [Except.ok.injEq] at h
  subst h
  rw [decide_eq_true_eq, not_or, Timestamp.not_lt, Timestamp.not_le] at hcovered
  rw [mapError_eq_ok] at hclock
  exact ⟨series, low, previous, next, interval, hseries,
    ⟨of_decide_eq_true henough, ⟨first, last, hfirst, hlast, hcovered⟩, hlow, hprevious, hnext⟩,
    hinterval, hclock, hflip, rfl⟩

theorem Readout.readingAt
    (h : Readout engine saros instant precision series low previous next interval reading) :
    engine.readingAt saros instant precision = .ok reading := by
  obtain ⟨first, last, hfirst, hlast, hcovered⟩ := h.located.covered
  refine bind_eq_ok.mpr ⟨series, h.series_eq, require_bind_eq_ok.mpr
    ⟨decide_eq_true h.located.enough, bind_eq_ok.mpr ⟨first, hfirst, bind_eq_ok.mpr
      ⟨last, hlast, require_bind_eq_ok.mpr ⟨?_, ?_⟩⟩⟩⟩⟩
  · rw [decide_eq_true_eq, not_or, Timestamp.not_lt, Timestamp.not_le]
    exact hcovered
  · refine bind_eq_ok.mpr ⟨low, h.located.found, bind_eq_ok.mpr
      ⟨previous, h.located.previous_eq, bind_eq_ok.mpr ⟨next, h.located.next_eq, bind_eq_ok.mpr
        ⟨interval, h.interval_eq, bind_eq_ok.mpr
          ⟨reading.clock, mapError_eq_ok.mpr h.clock_eq, bind_eq_ok.mpr
            ⟨reading.nextFlipAt, h.flip_eq, ?_⟩⟩⟩⟩⟩⟩
    rw [Except.ok.injEq]
    exact h.reading_eq.symm

-- In a chronological section the search finds the same records at every
-- instant between them.
theorem Located.of_between (h : Located series instant low previous next)
    (hchronological : series.Chronological)
    (hprevious : previous.unixSeconds ≤ instant.epochSeconds)
    (hnext : instant < .fromEpochSeconds next.unixSeconds) (hle : instant ≤ other)
    (hlt : other < .fromEpochSeconds next.unixSeconds) :
    Located series other low previous next := by
  have henough := h.enough
  obtain ⟨first, last, hfirst, hlast, hfirstLe, -⟩ := h.covered
  obtain ⟨hlower, hupper⟩ := locate_bounds (by omega) h.found
  have hnextLast := hchronological.le hupper h.next_eq hlast
  have hbefore : ∀ {time : Timestamp}, time < .fromEpochSeconds next.unixSeconds →
      ¬ next.unixSeconds ≤ time.epochSeconds := by
    intro time htime hreached
    exact Timestamp.not_lt.mpr (Timestamp.fromEpochSeconds_le_iff.mpr hreached) htime
  have hprevious' : previous.unixSeconds ≤ other.epochSeconds := by
    rw [← Timestamp.fromEpochSeconds_le_iff, Timestamp.le_iff] at hprevious ⊢
    exact hprevious.trans (Timestamp.le_iff.mp hle)
  refine ⟨h.enough, ⟨first, last, hfirst, hlast, ?_, ?_⟩, ?_, h.previous_eq, h.next_eq⟩
  · rw [Timestamp.le_iff] at hfirstLe hle ⊢
    exact hfirstLe.trans hle
  · rw [Timestamp.lt_iff] at hlt ⊢
    refine lt_of_lt_of_le hlt (Timestamp.le_iff.mp ?_)
    exact Timestamp.fromEpochSeconds_le_iff.mpr hnextLast
  · rw [locate_congr, h.found]
    intro index metadata hmetadata
    by_cases hindex : index < low
    · have hearly := hchronological.le (show index ≤ low - 1 by omega) hmetadata h.previous_eq
      exact iff_of_true (Int64.le_trans hearly hprevious) (Int64.le_trans hearly hprevious')
    · have hlate := hchronological.le (Nat.not_lt.mp hindex) h.next_eq hmetadata
      exact iff_of_false (fun hreached => hbefore hnext (Int64.le_trans hlate hreached))
        (fun hreached => hbefore hlt (Int64.le_trans hlate hreached))

end Readings

-- A reading lies between its eclipses, its bucket lasts exactly until the
-- flip it announces, and the phase grows all the while. In a chronological
-- section the engine itself gives the same bucket until then.
theorem next_flip_exact (engine : SarosEngine) (saros : Nat) (instant : Timestamp)
    (precision : BitPrecision) (reading : SarosReading)
    (h : engine.readingAt saros instant precision = .ok reading) :
    ∃ interval, intervalFromIdentities reading.previous reading.next = .ok interval ∧
      .fromEpochSeconds reading.previous.unixSeconds ≤ instant ∧
      instant < .fromEpochSeconds reading.next.unixSeconds ∧
      instant < reading.nextFlipAt ∧
      reading.nextFlipAt ≤ .fromEpochSeconds reading.next.unixSeconds ∧
      (∀ other, instant ≤ other → other < reading.nextFlipAt → ∃ clock,
        clockReading interval other precision = .ok clock ∧
          clock.projection = reading.clock.projection) ∧
      (reading.nextFlipAt = .fromEpochSeconds reading.next.unixSeconds ∨ ∃ clock,
        clockReading interval reading.nextFlipAt precision = .ok clock ∧
          clock.projection.prefixBits ≠ reading.clock.projection.prefixBits) ∧
      (∀ earlier later, .fromEpochSeconds reading.previous.unixSeconds ≤ earlier →
        earlier < later → later < .fromEpochSeconds reading.next.unixSeconds →
        ∃ phase phase', interval.phaseAt earlier = .ok phase ∧
          interval.phaseAt later = .ok phase' ∧ phase.value < phase'.value) ∧
      ∀ series, engine.sectionOf saros = .ok series → series.Chronological →
        ∀ other, instant ≤ other → other < reading.nextFlipAt → ∃ reading',
          engine.readingAt saros other precision = .ok reading' ∧
          reading'.previous = reading.previous ∧ reading'.next = reading.next ∧
          reading'.clock.projection = reading.clock.projection ∧
          reading'.nextFlipAt = reading.nextFlipAt := by
  obtain ⟨series, low, previous, next, interval, hreadout⟩ := readout_of_readingAt h
  obtain ⟨hidentities, hprevious, hnext⟩ := intervalBetween_untyped hreadout.interval_eq
  have hreads := reads_of_clockReading hreadout.clock_eq
  have hcovers := hreads.covers
  have hflips := flips_of_boundary hreadout.clock_eq hreadout.flip_eq
  have hstart : interval.start = .fromEpochSeconds previous.unixSeconds :=
    congrArg Timestamp.fromEpochSeconds hprevious
  have hfinish : interval.finish = .fromEpochSeconds next.unixSeconds :=
    congrArg Timestamp.fromEpochSeconds hnext
  have hpreviousEq : reading.previous =
      { saros, sequence := low - 1, unixSeconds := previous.unixSeconds } := by
    rw [hreadout.reading_eq]
  have hnextEq : reading.next = { saros, sequence := low, unixSeconds := next.unixSeconds } := by
    rw [hreadout.reading_eq]
  rw [hpreviousEq, hnextEq]
  rw [← hstart, ← hfinish]
  refine ⟨untyped interval, hidentities, hcovers.start_le, hcovers.lt_finish, hflips.lt,
    hflips.le_finish, hflips.same, hflips.differs, ?_, ?_⟩
  · intro earlier later hstartLe hlt hltFinish
    have hcoversEarlier : interval.Covers earlier :=
      ⟨hcovers.valid, hstartLe, Timestamp.lt_iff.mpr
        ((Timestamp.lt_iff.mp hlt).trans (Timestamp.lt_iff.mp hltFinish))⟩
    have hcoversLater : interval.Covers later :=
      ⟨hcovers.valid, Timestamp.le_iff.mpr
        ((Timestamp.le_iff.mp hstartLe).trans (Timestamp.lt_iff.mp hlt).le), hltFinish⟩
    have hearlier := Interval.phaseAt_eq_ok.mpr ⟨hcoversEarlier, rfl⟩
    have hlater := Interval.phaseAt_eq_ok.mpr ⟨hcoversLater, rfl⟩
    exact ⟨_, _, hearlier, hlater, Interval.phaseAt_lt hearlier hlater hlt⟩
  · intro series' hseries hchronological other hle hlt
    have hsame : series' = series := by
      rw [hreadout.series_eq, Except.ok.injEq] at hseries
      exact hseries.symm
    subst hsame
    obtain ⟨clock, hclock, hprojection⟩ := hflips.same other hle hlt
    have hreads' := reads_of_clockReading hclock
    have hboundary : clock.nextFlip = reading.clock.nextFlip := by
      rw [hreads'.nextFlip, hreads.nextFlip, hprojection]
    have hbefore : other < .fromEpochSeconds next.unixSeconds := by
      rw [← hfinish]
      exact hreads'.covers.lt_finish
    have hinstant : instant < .fromEpochSeconds next.unixSeconds := by
      rw [← hfinish]
      exact hcovers.lt_finish
    have hreached : previous.unixSeconds ≤ instant.epochSeconds := by
      rw [← Timestamp.fromEpochSeconds_le_iff, ← hstart]
      exact hcovers.start_le
    have hlocated := hreadout.located.of_between hchronological hreached hinstant hle hbefore
    refine ⟨{ reading with instant := other, clock }, ?_, hpreviousEq, hnextEq, hprojection, rfl⟩
    refine Readout.readingAt ⟨hreadout.series_eq, hlocated, hreadout.interval_eq, hclock, ?_, ?_⟩
    · rw [hboundary]
      exact hreadout.flip_eq
    · rw [hreadout.reading_eq]

-- A section of the first two eclipses of series 141, without their paths.
def sampleAsset : List UInt8 :=
  [69, 67, 76, 80, 1, 0, 1, 0, 141, 0, 2, 0, 0, 0, 0, 0, 0, 0, 0, 0,
  141, 0, 0, 0, 26, 1, 0, 0, 93, 97, 56, 181, 200, 0, 0, 0, 0, 0, 0, 0,
  0, 0, 0, 0, 0, 2, 172, 25, 19, 204, 8, 0, 0, 0, 0, 0, 0, 0, 0, 0,
  0, 0, 0, 0]

def sampleEngine : SarosEngine where
  geometry := { bytes := sampleAsset, directoryStart := 8, sectionCount := 1, payloadStart := 16 }
  includedSeries := { first := 101, last := 161 }

def samplePrecision : BitPrecision := ⟨30, by decide, by decide⟩

theorem next_flip_exact_first :
    SingleFile.openBytes sampleAsset = .ok sampleEngine.geometry ∧
      ∃ reading, sampleEngine.readingAt 141 (.fromEpochSeconds (-11000000000)) samplePrecision =
          .ok reading ∧
        .fromEpochSeconds (-11000000000) < reading.nextFlipAt ∧
        reading.nextFlipAt ≤ .fromEpochSeconds reading.next.unixSeconds := by
  refine ⟨by decide +kernel, ?_⟩
  have hok : (sampleEngine.readingAt 141 (.fromEpochSeconds (-11000000000))
      samplePrecision).isOk = true := by decide +kernel
  obtain ⟨reading, hreading⟩ := isOk_iff.mp hok
  obtain ⟨_, -, -, -, hlt, hle, -⟩ := next_flip_exact _ _ _ _ _ hreading
  exact ⟨reading, hreading, hlt, hle⟩

end Fractonica.Saros
