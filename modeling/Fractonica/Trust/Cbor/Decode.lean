import Fractonica.Trust.Cbor.Encoding

namespace Fractonica.Trust

open Lib List

theorem toNat_doubleOfHalf (bits : UInt16) :
    (doubleOfHalf bits).toNat = Float.widen Float.half bits.toNat := by
  unfold doubleOfHalf
  rw [UInt64.toNat_ofNat', Nat.mod_eq_of_lt]
  exact (Float.widen_lt_iff Float.half_narrower).mpr bits.toNat_lt

theorem toNat_doubleOfSingle (bits : UInt32) :
    (doubleOfSingle bits).toNat = Float.widen Float.single bits.toNat := by
  unfold doubleOfSingle
  rw [UInt64.toNat_ofNat', Nat.mod_eq_of_lt]
  exact (Float.widen_lt_iff Float.single_narrower).mpr bits.toNat_lt

theorem halfOfDouble_doubleOfHalf {bits : UInt16} (h : doubleIsFinite (doubleOfHalf bits) = true) :
    halfOfDouble (doubleOfHalf bits) = bits := by
  unfold doubleIsFinite at h
  rw [toNat_doubleOfHalf] at h
  have hfin := Float.isFinite_of_widen Float.half_narrower h
  unfold halfOfDouble
  rw [toNat_doubleOfHalf, Float.narrow_widen Float.half_narrower _ hfin, UInt16.ofNat_toNat]

theorem singleOfDouble_doubleOfSingle {bits : UInt32}
    (h : doubleIsFinite (doubleOfSingle bits) = true) :
    singleOfDouble (doubleOfSingle bits) = bits := by
  unfold doubleIsFinite at h
  rw [toNat_doubleOfSingle] at h
  have hfin := Float.isFinite_of_widen Float.single_narrower h
  unfold singleOfDouble
  rw [toNat_doubleOfSingle, Float.narrow_widen Float.single_narrower _ hfin, UInt32.ofNat_toNat]

-- A value that fits a half fits a single, so the test against a single alone
-- decides whether eight bytes were the shortest form.
theorem doubleOfSingle_of_half {value : UInt64} (hfin : doubleIsFinite value = true)
    (h : doubleOfHalf (halfOfDouble value) = value) :
    doubleOfSingle (singleOfDouble value) = value := by
  have hnat : value.toNat = Float.widen Float.half (halfOfDouble value).toNat := by
    rw [← toNat_doubleOfHalf, h]
  have hhalf : Float.half.isFinite (halfOfDouble value).toNat = true := by
    unfold doubleIsFinite at hfin
    rw [hnat] at hfin
    exact Float.isFinite_of_widen Float.half_narrower hfin
  have hexact := Float.widen_single_widen_half _ hhalf
  rw [← hnat] at hexact
  have hlt : Float.narrow Float.single value.toNat < 2 ^ 32 := by
    refine (Float.widen_lt_iff Float.single_narrower).mp ?_
    rw [hexact]
    exact value.toNat_lt
  rw [← UInt64.toNat_inj, toNat_doubleOfSingle, singleOfDouble, UInt32.toNat_ofNat',
    Nat.mod_eq_of_lt hlt, hexact]

namespace Decoder

theorem takeByte_parses : Parser.Parses takeByte (fun _ => True) (fun byte => [byte]) :=
  Parser.takeByte_parses _

theorem take_parses (length : Nat) :
    Parser.Parses (take length) (fun bytes => bytes.length = length) id :=
  Parser.take_parses _ length

section Arguments

variable {minimum width : Nat} {p : Decoder (List UInt8)} {additional : UInt8}

private theorem checkMinimum_run {bytes : List UInt8} {c c' : Cursor} {value : UInt64} :
    (decodeArgument.checkMinimum minimum bytes).run c = .ok (value, c') ↔
      minimum ≤ ofBE bytes ∧ UInt64.ofNat (ofBE bytes) = value ∧ c = c' := by
  unfold decodeArgument.checkMinimum
  split_ifs with h
  · simp only [Parser.throw_run, false_iff]
    omega
  · simp only [Parser.pure_run]
    have hle : minimum ≤ ofBE bytes := by omega
    simp [hle]

-- An argument of `width` bytes that is not below its minimum.
private theorem wide_parses (hwidth : width ≤ 8)
    (hp : Parser.Parses p (fun bytes => bytes.length = width) id) :
    Parser.Parses (p >>= decodeArgument.checkMinimum minimum)
      (fun value => minimum ≤ value.toNat ∧ value.toNat < 256 ^ width)
      (fun value => toBE width value.toNat) := by
  intro c value c'
  have hpow : 256 ^ width ≤ 2 ^ 64 := by
    calc 256 ^ width ≤ 256 ^ 8 := Nat.pow_le_pow_right (by decide) hwidth
      _ = 2 ^ 64 := by decide
  simp only [Parser.bind_run, checkMinimum_run, hp _ _ _, id]
  constructor
  · rintro ⟨bytes, c₁, ⟨hlen, hread⟩, hmin, rfl, rfl⟩
    have hlt := ofBE_lt bytes
    rw [hlen] at hlt
    have hnat : (UInt64.ofNat (ofBE bytes)).toNat = ofBE bytes := by
      rw [UInt64.toNat_ofNat', Nat.mod_eq_of_lt (by omega)]
    rw [hnat]
    refine ⟨⟨hmin, hlt⟩, ?_⟩
    rwa [← hlen, toBE_ofBE]
  · rintro ⟨⟨hmin, hlt⟩, hread⟩
    have hof := ofBE_toBE width value.toNat hlt
    refine ⟨_, c', ⟨length_toBE _ _, hread⟩, ?_, ?_, rfl⟩
    · rwa [hof]
    · rw [hof, UInt64.ofNat_toNat]

private theorem short_parses :
    Parser.Parses (do return [← takeByte] : Decoder (List UInt8))
      (fun bytes => bytes.length = 1) id := by
  intro c bytes c'
  simp only [Parser.bind_run, Parser.pure_run, takeByte_parses _ _ _, id, true_and]
  constructor
  · rintro ⟨byte, c₁, hread, rfl, rfl⟩
    exact ⟨rfl, hread⟩
  · rintro ⟨hlen, hread⟩
    obtain ⟨byte, rfl⟩ := length_eq_one_iff.mp hlen
    exact ⟨byte, c', hread, rfl, rfl⟩

private theorem argumentCode_le_iff (value : UInt64) (h : additional.toNat ≤ 23) :
    argumentCode value.toNat = additional ↔ value = additional.toUInt64 := by
  have hlt := value.toNat_lt
  rw [← UInt8.toNat_inj, ← UInt64.toNat_inj, UInt8.toNat_toUInt64]
  unfold argumentCode
  split_ifs <;> simp <;> omega

-- The information bits, byte count and least value of the longer arguments.
private def wideClasses : List (UInt8 × Nat × Nat) :=
  [(24, 1, 24), (25, 2, 0x100), (26, 4, 0x10000), (27, 8, 0x100000000)]

private theorem argumentCode_wide_iff (value : UInt64)
    (h : (additional, width, minimum) ∈ wideClasses) :
    argumentCode value.toNat = additional ↔ minimum ≤ value.toNat ∧ value.toNat < 256 ^ width := by
  have hlt := value.toNat_lt
  simp only [wideClasses, mem_cons, Prod.mk.injEq, not_mem_nil, or_false] at h
  rw [← UInt8.toNat_inj]
  rcases h with ⟨rfl, rfl, rfl⟩ | ⟨rfl, rfl, rfl⟩ | ⟨rfl, rfl, rfl⟩ | ⟨rfl, rfl, rfl⟩ <;>
    (unfold argumentCode; split_ifs <;> simp <;> omega)

private theorem argumentBytes_wide {n : Nat} (h : (additional, width, minimum) ∈ wideClasses)
    (hmin : minimum ≤ n) (hmax : n < 256 ^ width) : argumentBytes n = toBE width n := by
  simp only [wideClasses, mem_cons, Prod.mk.injEq, not_mem_nil, or_false] at h
  unfold argumentBytes
  rcases h with ⟨rfl, rfl, rfl⟩ | ⟨rfl, rfl, rfl⟩ | ⟨rfl, rfl, rfl⟩ | ⟨rfl, rfl, rfl⟩
  · rw [if_neg (by omega), if_pos (by omega)]
  · rw [if_neg (by omega), if_neg (by omega), if_pos (by omega)]
  · rw [if_neg (by omega), if_neg (by omega), if_neg (by omega), if_pos (by omega)]
  · rw [if_neg (by omega), if_neg (by omega), if_neg (by omega), if_neg (by omega)]

private theorem wide_argument (h : (additional, width, minimum) ∈ wideClasses) (hwidth : width ≤ 8)
    (hp : Parser.Parses p (fun bytes => bytes.length = width) id) :
    Parser.Parses (p >>= decodeArgument.checkMinimum minimum)
      (fun value => argumentCode value.toNat = additional)
      (fun value => argumentBytes value.toNat) := by
  intro c value c'
  rw [wide_parses hwidth hp]
  beta_reduce
  rw [argumentCode_wide_iff value h]
  apply and_congr_right
  intro hrange
  rw [argumentBytes_wide h hrange.1 hrange.2]

theorem decodeArgument_parses (additional : UInt8) :
    Parser.Parses (decodeArgument additional) (fun value => argumentCode value.toNat = additional)
      (fun value => argumentBytes value.toNat) := by
  intro c value c'
  unfold decodeArgument
  beta_reduce
  by_cases h23 : additional ≤ 23
  · have hle : additional.toNat ≤ 23 := h23
    rw [if_pos h23, Parser.pure_run, argumentCode_le_iff value hle, eq_comm]
    apply and_congr_right
    rintro rfl
    rw [argumentBytes, if_pos (by simpa using hle), Cursor.reads_nil]
  rw [if_neg h23]
  by_cases h24 : additional = 24
  · subst h24
    have hrun := wide_argument (show (24, 1, 24) ∈ wideClasses by decide) (by decide)
      short_parses c value c'
    simpa using hrun
  rw [if_neg h24]
  by_cases h25 : additional = 25
  · subst h25
    exact wide_argument (by decide) (by decide) (take_parses 2) c value c'
  rw [if_neg h25]
  by_cases h26 : additional = 26
  · subst h26
    exact wide_argument (by decide) (by decide) (take_parses 4) c value c'
  rw [if_neg h26]
  by_cases h27 : additional = 27
  · subst h27
    exact wide_argument (by decide) (by decide) (take_parses 8) c value c'
  rw [if_neg h27, Parser.throw_run]
  -- No number has one of the reserved information bits.
  refine iff_of_false id ?_
  rintro ⟨hcode, -⟩
  have hcases : argumentCode value.toNat ≤ 23 ∨ argumentCode value.toNat = 24 ∨
      argumentCode value.toNat = 25 ∨ argumentCode value.toNat = 26 ∨
      argumentCode value.toNat = 27 := by
    unfold argumentCode
    split_ifs with hn
    · left
      rw [UInt8.le_iff_toNat_le, UInt8.toNat_ofNat']
      exact (Nat.mod_le _ _).trans hn
    all_goals simp
  rw [hcode] at hcases
  rcases hcases with h | h | h | h | h
  · exact h23 h
  · exact h24 h
  · exact h25 h
  · exact h26 h
  · exact h27 h

theorem decodeLength_parses (additional : UInt8) :
    Parser.Parses (decodeLength additional)
      (fun length => length < USIZE ∧ argumentCode length = additional) argumentBytes := by
  intro c length c'
  simp only [decodeLength, Parser.bind_run, decodeArgument_parses additional _ _ _]
  constructor
  · rintro ⟨value, c₁, ⟨hcode, hread⟩, hrun⟩
    rw [if_neg (by have := value.toNat_lt; unfold USIZE; omega), Parser.pure_run] at hrun
    obtain ⟨rfl, rfl⟩ := hrun
    exact ⟨⟨value.toNat_lt, hcode⟩, hread⟩
  · rintro ⟨⟨hlt, hcode⟩, hread⟩
    have hnat : (UInt64.ofNat length).toNat = length := by
      exact Nat.mod_eq_of_lt hlt
    refine ⟨UInt64.ofNat length, c', ?_, ?_⟩
    · rw [hnat]
      exact ⟨hcode, hread⟩
    · rw [hnat, if_neg (by omega), Parser.pure_run]
      exact ⟨rfl, rfl⟩

end Arguments

section Items

variable {c c' : Cursor} {value : CanonicalValue} {additional : UInt8} {bits : UInt64}
  {bytes : List UInt8} {levels count : Nat} {decode : Decoder CanonicalValue} {major : UInt8}

private theorem ensureFinite_run {u : Unit} :
    (ensureFinite bits).run c = .ok (u, c') ↔ doubleIsFinite bits = true ∧ c = c' := by
  unfold ensureFinite
  split_ifs with h
  · simp [h]
  · simp [h]

-- The bytes of a float at each of its three widths.
private theorem floatBytes_half {bits : UInt16} (h : doubleIsFinite (doubleOfHalf bits) = true) :
    floatCode (doubleOfHalf bits) = 25 ∧ floatBytes (doubleOfHalf bits) = toBE 2 bits.toNat := by
  have hhalf := halfOfDouble_doubleOfHalf h
  unfold floatCode floatBytes
  rw [hhalf, if_pos rfl, if_pos rfl]
  exact ⟨rfl, rfl⟩

private theorem floatBytes_single {bits : UInt32} (h : doubleIsFinite (doubleOfSingle bits) = true)
    (hnot : doubleOfHalf (halfOfDouble (doubleOfSingle bits)) ≠ doubleOfSingle bits) :
    floatCode (doubleOfSingle bits) = 26 ∧
      floatBytes (doubleOfSingle bits) = toBE 4 bits.toNat := by
  have hsingle := singleOfDouble_doubleOfSingle h
  unfold floatCode floatBytes
  rw [hsingle, if_neg hnot, if_neg hnot, if_pos rfl, if_pos rfl]
  exact ⟨rfl, rfl⟩

private theorem floatBytes_double (h : doubleIsFinite bits = true)
    (hnot : doubleOfSingle (singleOfDouble bits) ≠ bits) :
    floatCode bits = 27 ∧ floatBytes bits = toBE 8 bits.toNat := by
  have hhalf : doubleOfHalf (halfOfDouble bits) ≠ bits := fun he =>
    hnot (doubleOfSingle_of_half h he)
  unfold floatCode floatBytes
  rw [if_neg hhalf, if_neg hhalf, if_neg hnot, if_neg hnot]
  exact ⟨rfl, rfl⟩

-- A word read from its big-endian bytes writes the same bytes back.
private theorem toBE_mod {width modulus : Nat} (hlen : bytes.length = width)
    (hmod : 256 ^ width = modulus) : toBE width (ofBE bytes % modulus) = bytes := by
  subst hlen hmod
  rw [Nat.mod_eq_of_lt (ofBE_lt bytes), toBE_ofBE]

-- A value whose initial byte and tail were read: what every branch of the
-- decoder establishes, and what it needs to accept the value.
def ReadsItem (levels : Nat) (major additional : UInt8) (c : Cursor) (value : CanonicalValue)
    (c' : Cursor) : Prop :=
  Canonical (levels + 1) value ∧ itemMajor value = major ∧ itemAdditional value = additional ∧
    c.Reads (itemTail value) c'

private theorem decodeSimple_sound (h : (decodeSimple additional).run c = .ok (value, c')) :
    ReadsItem levels 7 additional c value c' := by
  unfold decodeSimple at h
  split_ifs at h with h20 h21 h22 h25 h26 h27
  · obtain ⟨rfl, rfl⟩ := Parser.pure_run.mp h
    exact ⟨trivial, rfl, h20.symm, Cursor.reads_nil.mpr rfl⟩
  · obtain ⟨rfl, rfl⟩ := Parser.pure_run.mp h
    exact ⟨trivial, rfl, h21.symm, Cursor.reads_nil.mpr rfl⟩
  · obtain ⟨rfl, rfl⟩ := Parser.pure_run.mp h
    exact ⟨trivial, rfl, h22.symm, Cursor.reads_nil.mpr rfl⟩
  · simp only [Parser.bind_run, take_parses _ _ _ _, ensureFinite_run, Parser.pure_run, id] at h
    obtain ⟨bytes, c₁, ⟨hlen, hread⟩, -, c₂, ⟨hfin, rfl⟩, rfl, rfl⟩ := h
    obtain ⟨hcode, hbytes⟩ := floatBytes_half hfin
    refine ⟨hfin, rfl, hcode.trans h25.symm, ?_⟩
    rw [itemTail, hbytes, UInt16.toNat_ofNat', toBE_mod hlen (by decide)]
    exact hread
  · simp only [Parser.bind_run, take_parses _ _ _ _, ensureFinite_run, id] at h
    obtain ⟨bytes, c₁, ⟨hlen, hread⟩, -, c₂, ⟨hfin, rfl⟩, hrun⟩ := h
    split_ifs at hrun with hnot
    · exact (Parser.throw_run.mp hrun).elim
    obtain ⟨rfl, rfl⟩ := Parser.pure_run.mp hrun
    obtain ⟨hcode, hbytes⟩ := floatBytes_single hfin hnot
    refine ⟨hfin, rfl, hcode.trans h26.symm, ?_⟩
    rw [itemTail, hbytes, UInt32.toNat_ofNat', toBE_mod hlen (by decide)]
    exact hread
  · simp only [Parser.bind_run, take_parses _ _ _ _, ensureFinite_run, id] at h
    obtain ⟨bytes, c₁, ⟨hlen, hread⟩, -, c₂, ⟨hfin, rfl⟩, hrun⟩ := h
    split_ifs at hrun with hnot
    · exact (Parser.throw_run.mp hrun).elim
    obtain ⟨rfl, rfl⟩ := Parser.pure_run.mp hrun
    obtain ⟨hcode, hbytes⟩ := floatBytes_double hfin hnot
    refine ⟨hfin, rfl, hcode.trans h27.symm, ?_⟩
    rw [itemTail, hbytes, UInt64.toNat_ofNat', toBE_mod hlen (by decide)]
    exact hread
  · exact (Parser.throw_run.mp h).elim

private theorem decodeSimple_complete (h : ReadsItem levels 7 additional c value c') :
    (decodeSimple additional).run c = .ok (value, c') := by
  obtain ⟨hcanon, hmajor, rfl, hread⟩ := h
  cases value with
  | integer | unsigned | bytes | text | array | map => simp [itemMajor] at hmajor
  | null =>
    rw [itemTail, Cursor.reads_nil] at hread
    subst hread
    rfl
  | bool value =>
    rw [itemTail, Cursor.reads_nil] at hread
    subst hread
    cases value <;> rfl
  | float value =>
    have hfin : doubleIsFinite value = true := hcanon
    rw [itemTail, floatBytes] at hread
    rw [itemAdditional, floatCode]
    by_cases hhalf : doubleOfHalf (halfOfDouble value) = value
    · rw [if_pos hhalf] at hread ⊢
      have hlt := (halfOfDouble value).toNat_lt
      refine Parser.bind_run.mpr ⟨_, c', (take_parses _ _ _ _).mpr ⟨length_toBE _ _, hread⟩, ?_⟩
      rw [ofBE_toBE _ _ hlt, UInt16.ofNat_toNat, hhalf]
      exact Parser.bind_run.mpr ⟨(), c', ensureFinite_run.mpr ⟨hfin, rfl⟩, rfl⟩
    rw [if_neg hhalf] at hread ⊢
    by_cases hsingle : doubleOfSingle (singleOfDouble value) = value
    · rw [if_pos hsingle] at hread ⊢
      have hlt := (singleOfDouble value).toNat_lt
      refine Parser.bind_run.mpr ⟨_, c', (take_parses _ _ _ _).mpr ⟨length_toBE _ _, hread⟩, ?_⟩
      rw [ofBE_toBE _ _ hlt, UInt32.ofNat_toNat, hsingle]
      refine Parser.bind_run.mpr ⟨(), c', ensureFinite_run.mpr ⟨hfin, rfl⟩, ?_⟩
      rw [if_neg hhalf]
      rfl
    · rw [if_neg hsingle] at hread ⊢
      have hlt := value.toNat_lt
      refine Parser.bind_run.mpr ⟨_, c', (take_parses _ _ _ _).mpr ⟨length_toBE _ _, hread⟩, ?_⟩
      rw [ofBE_toBE _ _ hlt, UInt64.ofNat_toNat]
      refine Parser.bind_run.mpr ⟨(), c', ensureFinite_run.mpr ⟨hfin, rfl⟩, ?_⟩
      rw [if_neg hsingle]
      rfl

private theorem checkContainer_run {u : Unit} :
    (checkContainer count).run c = .ok (u, c') ↔
      count ≤ MAX_CANONICAL_CONTAINER_ITEMS ∧ c = c' := by
  unfold checkContainer
  split_ifs with h
  · simp only [Parser.throw_run, false_iff]
    omega
  · simp only [Parser.pure_run, true_and]
    have hle : count ≤ MAX_CANONICAL_CONTAINER_ITEMS := by omega
    simp [hle]

private theorem decodeInteger_run {encoded : UInt64} :
    (decodeInteger encoded).run c = .ok (value, c') ↔
      ∃ integer : Int64, value = .integer integer ∧ integer.toInt < 0 ∧
        (-1 - integer.toInt).toNat = encoded.toNat ∧ c = c' := by
  unfold decodeInteger
  dsimp only
  split_ifs with h
  · simp only [Parser.throw_run, false_iff]
    rintro ⟨integer, -, hneg, hnat, -⟩
    have hle := integer.le_toInt
    omega
  · rw [Parser.pure_run]
    have hnat : (Int64.ofInt (-1 - (encoded.toNat : Int))).toInt = -1 - (encoded.toNat : Int) := by
      rw [Int64.toInt_ofInt_of_le (by omega) (by omega)]
    constructor
    · rintro ⟨rfl, rfl⟩
      refine ⟨_, rfl, ?_, ?_, rfl⟩
      · rw [hnat]
        omega
      · rw [hnat]
        omega
    · rintro ⟨integer, rfl, hneg, henc, rfl⟩
      have heq : -1 - (encoded.toNat : Int) = integer.toInt := by omega
      rw [heq, Int64.ofInt_toInt]
      exact ⟨rfl, rfl⟩

private theorem decodeText_run :
    (decodeText bytes).run c = .ok (value, c') ↔
      ∃ text, value = .text text ∧ utf8Bytes text = bytes ∧ c = c' := by
  unfold decodeText
  cases htext : fromUtf8 bytes with
  | none =>
    simp only [Parser.throw_run, false_iff]
    rintro ⟨text, -, hbytes, -⟩
    rw [fromUtf8_eq_some.mpr hbytes] at htext
    cases htext
  | some text =>
    rw [Parser.pure_run]
    constructor
    · rintro ⟨rfl, rfl⟩
      exact ⟨text, rfl, fromUtf8_eq_some.mp htext, rfl⟩
    · rintro ⟨other, rfl, hbytes, rfl⟩
      rw [fromUtf8_eq_some.mpr hbytes, Option.some.injEq] at htext
      exact ⟨htext ▸ rfl, rfl⟩

-- The map loop: the keys ascend, starting above the previous key.
private theorem decodeEntries_run {good : CanonicalValue → Prop}
    (hdecode : Parser.Parses decode good encoding) {previous : Option (List UInt8)}
    {entries : List (CanonicalValue × CanonicalValue)} {c c' : Cursor} :
    (decodeEntries decode count previous).run c = .ok (entries, c') ↔
      entries.length = count ∧ (∀ entry ∈ entries, good entry.1 ∧ good entry.2) ∧
        (previous.toList ++ entries.map (fun entry => encoding entry.1)).IsChain (· < ·) ∧
        c.Reads (entries.flatMap entryBytes) c' := by
  induction count generalizing previous entries c c' with
  | zero =>
    rw [decodeEntries, Parser.pure_run, length_eq_zero_iff]
    constructor
    · rintro ⟨rfl, rfl⟩
      cases previous <;> simp
    · rintro ⟨rfl, -, -, hread⟩
      exact ⟨rfl, Cursor.reads_nil.mp hread⟩
  | succ count ih =>
    have hget : ∀ {c c₁ c₂ : Cursor},
        (get : Decoder Cursor).run c = .ok (c₁, c₂) ↔ c = c₁ ∧ c = c₂ := by
      intro c c₁ c₂
      simp [StateT.run_get]
    simp only [decodeEntries, Parser.bind_run, hget, hdecode _ _ _]
    constructor
    · rintro ⟨_, _, ⟨rfl, rfl⟩, key, c₁, ⟨hkey, hk⟩, _, _, ⟨rfl, rfl⟩, hrun⟩
      rw [hk.between_eq] at hrun
      split_ifs at hrun with hprev
      · exact (Parser.throw_run.mp hrun).elim
      simp only [Parser.bind_run, hdecode _ _ _, ih, Parser.pure_run] at hrun
      obtain ⟨value, c₂, ⟨hvalue, hv⟩, rest, c₃, ⟨hlen, hgood, hchain, hrest⟩, rfl, rfl⟩ := hrun
      refine ⟨by simp [hlen], ?_, ?_, ?_⟩
      · exact forall_mem_cons.mpr ⟨⟨hkey, hvalue⟩, hgood⟩
      · cases previous with
        | none => exact hchain
        | some previous =>
          refine isChain_cons_cons.mpr ⟨?_, hchain⟩
          simpa using hprev
      · rw [flatMap_cons, entryBytes]
        exact (hk.append hv).append hrest
    · rintro ⟨hlen, hgood, hchain, hread⟩
      cases entries with
      | nil => simp at hlen
      | cons entry rest =>
        obtain ⟨key, value⟩ := entry
        rw [flatMap_cons, entryBytes, Cursor.reads_append] at hread
        obtain ⟨c₂, hentry, hrest⟩ := hread
        obtain ⟨c₁, hk, hv⟩ := Cursor.reads_append.mp hentry
        rw [forall_mem_cons] at hgood
        obtain ⟨⟨hkey, hvalue⟩, hgood⟩ := hgood
        have hprev : ¬previous.any (fun previous => ¬previous < encoding key) = true := by
          cases previous with
          | none => simp
          | some previous => simpa using (isChain_cons_cons.mp hchain).1
        have hchain' : (encoding key :: rest.map (fun entry => encoding entry.1)).IsChain
            (· < ·) := by
          cases previous with
          | none => exact hchain
          | some previous => exact (isChain_cons_cons.mp hchain).2
        refine ⟨c, c, ⟨rfl, rfl⟩, key, c₁, ⟨hkey, hk⟩, c₁, c₁, ⟨rfl, rfl⟩, ?_⟩
        rw [hk.between_eq, if_neg hprev]
        simp only [Parser.bind_run, hdecode _ _ _, ih, Parser.pure_run]
        exact ⟨value, c₂, ⟨hvalue, hv⟩, rest, c', ⟨by simpa using hlen, hgood, hchain', hrest⟩,
          rfl, rfl⟩

private theorem isChain_iff_ascending {keys : List (List UInt8)} :
    keys.IsChain (· < ·) ↔ keys.Pairwise (· < ·) :=
  isChain_iff_pairwise

private theorem decodeItem_sound (hdecode : Parser.Parses decode (Canonical levels) encoding)
    (h : (decodeItem decode major additional).run c = .ok (value, c')) :
    ReadsItem levels major additional c value c' := by
  unfold decodeItem at h
  split_ifs at h with h0 h1 h2 h3 h4 h5 h7
  · simp only [Parser.bind_run, decodeArgument_parses additional _ _ _, Parser.pure_run] at h
    obtain ⟨argument, c₁, ⟨hcode, hread⟩, rfl, rfl⟩ := h
    exact ⟨trivial, h0.symm, hcode, hread⟩
  · simp only [Parser.bind_run, decodeArgument_parses additional _ _ _, decodeInteger_run] at h
    obtain ⟨encoded, c₁, ⟨hcode, hread⟩, integer, rfl, hneg, hnat, rfl⟩ := h
    rw [← hnat] at hcode hread
    exact ⟨hneg, h1.symm, hcode, hread⟩
  · simp only [Parser.bind_run, decodeLength_parses additional _ _ _, take_parses _ _ _ _,
      Parser.pure_run] at h
    obtain ⟨length, c₁, ⟨⟨hlt, hcode⟩, hread⟩, bytes, c₂, ⟨rfl, hbytes⟩, rfl, rfl⟩ := h
    exact ⟨hlt, h2.symm, hcode, hread.append hbytes⟩
  · simp only [Parser.bind_run, decodeLength_parses additional _ _ _, take_parses _ _ _ _,
      decodeText_run] at h
    obtain ⟨length, c₁, ⟨⟨hlt, hcode⟩, hread⟩, bytes, c₂, ⟨rfl, hbytes⟩, text, rfl, rfl, rfl⟩ := h
    exact ⟨hlt, h3.symm, hcode, hread.append hbytes⟩
  · simp only [Parser.bind_run, decodeLength_parses additional _ _ _, checkContainer_run,
      Parser.repeatN_parses hdecode _ _ _ _, Parser.pure_run] at h
    obtain ⟨count, c₁, ⟨⟨-, hcode⟩, hread⟩, -, c₂, ⟨hmax, rfl⟩, values, c₃,
      ⟨⟨rfl, hvalues⟩, hitems⟩, rfl, rfl⟩ := h
    exact ⟨⟨hmax, hvalues⟩, h4.symm, hcode, hread.append hitems⟩
  · simp only [Parser.bind_run, decodeLength_parses additional _ _ _, checkContainer_run,
      decodeEntries_run hdecode, Parser.pure_run] at h
    obtain ⟨count, c₁, ⟨⟨-, hcode⟩, hread⟩, -, c₂, ⟨hmax, rfl⟩, entries, c₃,
      ⟨rfl, hentries, hkeys, hpairs⟩, rfl, rfl⟩ := h
    exact ⟨⟨hmax, hentries, isChain_iff_ascending.mp hkeys⟩, h5.symm, hcode, hread.append hpairs⟩
  · exact h7 ▸ decodeSimple_sound h
  · exact (Parser.throw_run.mp h).elim

private theorem decodeItem_complete (hdecode : Parser.Parses decode (Canonical levels) encoding)
    (h : ReadsItem levels major additional c value c') :
    (decodeItem decode major additional).run c = .ok (value, c') := by
  by_cases h7 : major = 7
  · subst h7
    exact decodeSimple_complete h
  obtain ⟨hcanon, rfl, rfl, hread⟩ := h
  have hcount : ∀ {n : Nat}, n ≤ MAX_CANONICAL_CONTAINER_ITEMS → n < USIZE := by
    intro n hn
    exact lt_of_le_of_lt hn (by decide)
  cases value with
  | null | bool | float => exact (h7 rfl).elim
  | unsigned argument =>
    exact Parser.bind_run.mpr
      ⟨argument, c', (decodeArgument_parses _ _ _ _).mpr ⟨rfl, hread⟩, rfl⟩
  | integer integer =>
    have hneg : integer.toInt < 0 := hcanon
    have hle := integer.le_toInt
    have hnat : (UInt64.ofNat (-1 - integer.toInt).toNat).toNat = (-1 - integer.toInt).toNat := by
      rw [UInt64.toNat_ofNat', Nat.mod_eq_of_lt (by omega)]
    refine Parser.bind_run.mpr ⟨UInt64.ofNat (-1 - integer.toInt).toNat, c', ?_, ?_⟩
    · rw [decodeArgument_parses]
      beta_reduce
      rw [hnat]
      exact ⟨rfl, hread⟩
    · exact decodeInteger_run.mpr ⟨integer, rfl, hneg, hnat.symm, rfl⟩
  | bytes bytes =>
    obtain ⟨c₁, hhead, hbytes⟩ := Cursor.reads_append.mp hread
    refine Parser.bind_run.mpr
      ⟨_, c₁, (decodeLength_parses _ _ _ _).mpr ⟨⟨hcanon, rfl⟩, hhead⟩, ?_⟩
    exact Parser.bind_run.mpr ⟨bytes, c', (take_parses _ _ _ _).mpr ⟨rfl, hbytes⟩, rfl⟩
  | text text =>
    obtain ⟨c₁, hhead, hbytes⟩ := Cursor.reads_append.mp hread
    refine Parser.bind_run.mpr
      ⟨_, c₁, (decodeLength_parses _ _ _ _).mpr ⟨⟨hcanon, rfl⟩, hhead⟩, ?_⟩
    exact Parser.bind_run.mpr ⟨_, c', (take_parses _ _ _ _).mpr ⟨rfl, hbytes⟩,
      decodeText_run.mpr ⟨text, rfl, rfl, rfl⟩⟩
  | array values =>
    obtain ⟨hmax, hvalues⟩ := hcanon
    obtain ⟨c₁, hhead, hitems⟩ := Cursor.reads_append.mp hread
    refine Parser.bind_run.mpr
      ⟨_, c₁, (decodeLength_parses _ _ _ _).mpr ⟨⟨hcount hmax, rfl⟩, hhead⟩, ?_⟩
    refine Parser.bind_run.mpr ⟨(), c₁, checkContainer_run.mpr ⟨hmax, rfl⟩, ?_⟩
    exact Parser.bind_run.mpr
      ⟨values, c', (Parser.repeatN_parses hdecode _ _ _ _).mpr ⟨⟨rfl, hvalues⟩, hitems⟩, rfl⟩
  | map entries =>
    obtain ⟨hmax, hentries, hkeys⟩ := hcanon
    obtain ⟨c₁, hhead, hpairs⟩ := Cursor.reads_append.mp hread
    refine Parser.bind_run.mpr
      ⟨_, c₁, (decodeLength_parses _ _ _ _).mpr ⟨⟨hcount hmax, rfl⟩, hhead⟩, ?_⟩
    refine Parser.bind_run.mpr ⟨(), c₁, checkContainer_run.mpr ⟨hmax, rfl⟩, ?_⟩
    exact Parser.bind_run.mpr ⟨entries, c', (decodeEntries_run hdecode).mpr
      ⟨rfl, hentries, isChain_iff_ascending.mpr hkeys, hpairs⟩, rfl⟩

end Items

-- The decoder accepts exactly the encodings of the canonical values.
theorem decodeValue_parses (levels : Nat) :
    Parser.Parses (decodeValue levels) (Canonical levels) encoding := by
  induction levels with
  | zero =>
    intro c value c'
    rw [decodeValue, Parser.throw_run]
    exact iff_of_false id (fun h => h.1)
  | succ levels ih =>
    intro c value c'
    rw [decodeValue, Parser.bind_run, encoding_eq_item]
    simp only [takeByte_parses _ _ _, true_and]
    constructor
    · rintro ⟨lead, c₁, hlead, hrun⟩
      obtain ⟨hcanon, hmajor, hadditional, hread⟩ := decodeItem_sound ih hrun
      refine ⟨hcanon, ?_⟩
      rw [hmajor, hadditional, leadByte_split]
      exact hlead.append hread
    · rintro ⟨hcanon, hread⟩
      rw [← singleton_append, Cursor.reads_append] at hread
      obtain ⟨c₁, hlead, htail⟩ := hread
      refine ⟨_, c₁, hlead, ?_⟩
      rw [major_leadByte (itemMajor_lt value) (itemAdditional_lt value),
        additional_leadByte (itemMajor_lt value) (itemAdditional_lt value)]
      exact decodeItem_complete ih ⟨hcanon, rfl, rfl, htail⟩

end Decoder

end Fractonica.Trust
