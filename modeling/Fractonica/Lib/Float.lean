import Mathlib.Data.Nat.Log
import Mathlib.Tactic.Ring

namespace Fractonica.Lib.Float

-- A binary interchange format, by the widths of its exponent and fraction.
structure Format where
  exponentBits : Nat
  fractionBits : Nat

def half : Format := ⟨5, 10⟩
def single : Format := ⟨8, 23⟩
def double : Format := ⟨11, 52⟩

namespace Format

def bias (f : Format) : Nat := 2 ^ (f.exponentBits - 1) - 1

-- The exponent of the infinities and the NaNs.
def topExponent (f : Format) : Nat := 2 ^ f.exponentBits - 1

def sign (f : Format) (bits : Nat) : Nat := bits / 2 ^ f.fractionBits / 2 ^ f.exponentBits

def exponent (f : Format) (bits : Nat) : Nat := bits / 2 ^ f.fractionBits % 2 ^ f.exponentBits

def fraction (f : Format) (bits : Nat) : Nat := bits % 2 ^ f.fractionBits

def pack (f : Format) (sign exponent fraction : Nat) : Nat :=
  (sign * 2 ^ f.exponentBits + exponent) * 2 ^ f.fractionBits + fraction

def isFinite (f : Format) (bits : Nat) : Bool := f.exponent bits != f.topExponent

variable (f : Format)

theorem pack_fields (bits : Nat) :
    f.pack (f.sign bits) (f.exponent bits) (f.fraction bits) = bits := by
  unfold pack sign exponent fraction
  rw [Nat.div_add_mod', Nat.div_add_mod']

theorem exponent_lt (bits : Nat) : f.exponent bits < 2 ^ f.exponentBits :=
  Nat.mod_lt _ (Nat.two_pow_pos _)

theorem fraction_lt (bits : Nat) : f.fraction bits < 2 ^ f.fractionBits :=
  Nat.mod_lt _ (Nat.two_pow_pos _)

private theorem pack_div (s e m : Nat) (hm : m < 2 ^ f.fractionBits) :
    f.pack s e m / 2 ^ f.fractionBits = s * 2 ^ f.exponentBits + e := by
  unfold pack
  rw [Nat.mul_comm, Nat.mul_add_div (Nat.two_pow_pos _), Nat.div_eq_of_lt hm, Nat.add_zero]

theorem sign_pack (he : e < 2 ^ f.exponentBits) (hm : m < 2 ^ f.fractionBits) :
    f.sign (f.pack s e m) = s := by
  rw [sign, pack_div f s e m hm, Nat.mul_comm, Nat.mul_add_div (Nat.two_pow_pos _),
    Nat.div_eq_of_lt he, Nat.add_zero]

theorem exponent_pack (he : e < 2 ^ f.exponentBits)
    (hm : m < 2 ^ f.fractionBits) : f.exponent (f.pack s e m) = e := by
  rw [exponent, pack_div f s e m hm, Nat.mul_comm, Nat.mul_add_mod, Nat.mod_eq_of_lt he]

theorem fraction_pack (hm : m < 2 ^ f.fractionBits) : f.fraction (f.pack s e m) = m := by
  unfold fraction pack
  rw [Nat.mul_comm, Nat.mul_add_mod, Nat.mod_eq_of_lt hm]

end Format

-- Division by a power of two, rounded to nearest with ties to even.
def roundShift (n k : Nat) : Nat :=
  let q := n / 2 ^ k
  let r := n % 2 ^ k
  if 2 * r > 2 ^ k ∨ (2 * r = 2 ^ k ∧ q % 2 = 1) then q + 1 else q

theorem roundShift_mul (q k : Nat) : roundShift (q * 2 ^ k) k = q := by
  have hr : q * 2 ^ k % 2 ^ k = 0 := Nat.mul_mod_left q _
  have hq : q * 2 ^ k / 2 ^ k = q := Nat.mul_div_left q (Nat.two_pow_pos k)
  simp only [roundShift, hr, hq]
  split
  · omega
  · rfl

-- The double with the value of a narrower number. A subnormal is normalised
-- to the exponent of its highest set bit.
def widen (f : Format) (bits : Nat) : Nat :=
  let s := f.sign bits
  let e := f.exponent bits
  let m := f.fraction bits
  if e = f.topExponent then double.pack s double.topExponent (m * 2 ^ (52 - f.fractionBits))
  else if e = 0 then
    if m = 0 then double.pack s 0 0
    else double.pack s (Nat.log2 m + 1024 - f.bias - f.fractionBits)
      ((m - 2 ^ Nat.log2 m) * 2 ^ (52 - Nat.log2 m))
  else double.pack s (e + 1023 - f.bias) (m * 2 ^ (52 - f.fractionBits))

-- The nearest narrower number. A carry out of the fraction moves into the
-- exponent because the two fields are adjacent.
def narrow (f : Format) (bits : Nat) : Nat :=
  let s := double.sign bits
  let e := double.exponent bits
  let m := double.fraction bits
  let significand := if e = 0 then m else 2 ^ 52 + m
  if e = double.topExponent then
    f.pack s f.topExponent
      (if m = 0 then 0 else 2 ^ (f.fractionBits - 1) ||| m / 2 ^ (52 - f.fractionBits))
  else if 1023 < e + f.bias then
    let magnitude := (e + f.bias - 1024) * 2 ^ f.fractionBits +
      roundShift significand (52 - f.fractionBits)
    if f.topExponent * 2 ^ f.fractionBits ≤ magnitude then f.pack s f.topExponent 0
    else s * 2 ^ f.exponentBits * 2 ^ f.fractionBits + magnitude
  else
    s * 2 ^ f.exponentBits * 2 ^ f.fractionBits +
      roundShift significand (52 - f.fractionBits + (1024 - f.bias - max e 1))

-- The bounds that hold of the half and the single format.
structure Narrower (f : Format) : Prop where
  fraction_lt : f.fractionBits < 52
  top_eq : f.topExponent = 2 * f.bias + 1
  bias_pos : 0 < f.bias
  bias_lt : f.bias + f.fractionBits < 1023

theorem half_narrower : Narrower half := by constructor <;> decide

theorem single_narrower : Narrower single := by constructor <;> decide

section Exactness

variable {f : Format} {bits : Nat}

-- A double whose exponent is in the normal range of the target and whose
-- fraction fits narrows to the same fields.
theorem narrow_pack (hf : Narrower f) (he : e ≠ 0) (htop : e < f.topExponent)
    (hm : m < 2 ^ f.fractionBits) :
    narrow f (double.pack s (e + 1023 - f.bias) (m * 2 ^ (52 - f.fractionBits))) =
      f.pack s e m := by
  have hb := hf.bias_lt
  have ht := hf.top_eq
  have hfl := hf.fraction_lt
  have hpow : 2 ^ f.fractionBits * 2 ^ (52 - f.fractionBits) = 2 ^ 52 := by
    rw [← Nat.pow_add]
    congr 1
    omega
  have hm' : m * 2 ^ (52 - f.fractionBits) < 2 ^ 52 := by
    rw [← hpow]
    exact Nat.mul_lt_mul_of_pos_right hm (Nat.two_pow_pos _)
  have he' : e + 1023 - f.bias < 2 ^ 11 := by omega
  have hsig : 2 ^ 52 + m * 2 ^ (52 - f.fractionBits) =
      (2 ^ f.fractionBits + m) * 2 ^ (52 - f.fractionBits) := by
    rw [Nat.add_mul, hpow]
  have hexp : e + 1023 - f.bias + f.bias - 1024 = e - 1 := by omega
  have hround : (e - 1) * 2 ^ f.fractionBits + (2 ^ f.fractionBits + m) =
      e * 2 ^ f.fractionBits + m := by
    obtain ⟨e, rfl⟩ := Nat.exists_eq_succ_of_ne_zero he
    rw [Nat.succ_sub_one, Nat.succ_mul]
    omega
  have hsmall : ¬f.topExponent * 2 ^ f.fractionBits ≤ e * 2 ^ f.fractionBits + m := by
    have hmul : (e + 1) * 2 ^ f.fractionBits ≤ f.topExponent * 2 ^ f.fractionBits :=
      Nat.mul_le_mul_right _ htop
    rw [Nat.add_mul, Nat.one_mul] at hmul
    omega
  have hnz : e + 1023 - f.bias ≠ 0 := by omega
  have hnt : e + 1023 - f.bias ≠ double.topExponent := by
    change _ ≠ 2047
    omega
  unfold narrow
  simp only [Format.sign_pack double he' hm', Format.exponent_pack double he' hm',
    Format.fraction_pack double hm', if_neg hnz, if_neg hnt, hsig, roundShift_mul, hexp, hround]
  rw [if_pos (by omega), if_neg hsmall]
  unfold Format.pack
  ring

theorem narrow_zero (hf : Narrower f) (s : Nat) : narrow f (double.pack s 0 0) = f.pack s 0 0 := by
  have hb := hf.bias_lt
  have hround := roundShift_mul 0 (52 - f.fractionBits + (1024 - f.bias - max 0 1))
  rw [Nat.zero_mul] at hround
  unfold narrow
  simp only [Format.sign_pack double (s := s) (e := 0) (m := 0) (by decide) (by decide),
    Format.exponent_pack double (s := s) (e := 0) (m := 0) (by decide) (by decide),
    Format.fraction_pack double (s := s) (e := 0) (m := 0) (by decide), if_true]
  rw [if_neg (by decide), if_neg (by omega), hround]
  unfold Format.pack
  ring

-- A subnormal fits because its highest bit is below the fraction width.
theorem narrow_subnormal (hf : Narrower f) (hlo : 2 ^ k ≤ m) (hhi : m < 2 ^ (k + 1))
    (hk : k < f.fractionBits) :
    narrow f (double.pack s (k + 1024 - f.bias - f.fractionBits) ((m - 2 ^ k) * 2 ^ (52 - k))) =
      f.pack s 0 m := by
  have hb := hf.bias_lt
  have hfl := hf.fraction_lt
  have hpow : 2 ^ k * 2 ^ (52 - k) = 2 ^ 52 := by
    rw [← Nat.pow_add]
    congr 1
    omega
  have hlt : (m - 2 ^ k) * 2 ^ (52 - k) < 2 ^ 52 := by
    rw [← hpow]
    apply Nat.mul_lt_mul_of_pos_right _ (Nat.two_pow_pos _)
    omega
  have he : k + 1024 - f.bias - f.fractionBits < 2 ^ 11 := by omega
  have hnz : k + 1024 - f.bias - f.fractionBits ≠ 0 := by omega
  have hsig : 2 ^ 52 + (m - 2 ^ k) * 2 ^ (52 - k) = m * 2 ^ (52 - k) := by
    rw [← hpow, ← Nat.add_mul, Nat.add_sub_cancel' hlo]
  have hshift : 52 - f.fractionBits +
      (1024 - f.bias - max (k + 1024 - f.bias - f.fractionBits) 1) = 52 - k := by
    omega
  unfold narrow
  simp only [Format.sign_pack double he hlt, Format.exponent_pack double he hlt,
    Format.fraction_pack double hlt, if_neg hnz, hsig, hshift, roundShift_mul]
  rw [if_neg (by change _ ≠ 2047; omega), if_neg (by omega)]
  unfold Format.pack
  ring

theorem lt_topExponent (bits : Nat) (hfin : f.isFinite bits = true) :
    f.exponent bits < f.topExponent := by
  have hlt := f.exponent_lt bits
  have hne : f.exponent bits ≠ f.topExponent := by simpa [Format.isFinite] using hfin
  unfold Format.topExponent at hne ⊢
  omega

theorem narrow_widen (hf : Narrower f) (bits : Nat) (hfin : f.isFinite bits = true) :
    narrow f (widen f bits) = bits := by
  have htop := lt_topExponent bits hfin
  have hm := f.fraction_lt bits
  have hpack := f.pack_fields bits
  unfold widen
  simp only [if_neg htop.ne]
  split
  · rename_i he
    rw [he] at hpack
    split
    · rename_i hz
      rw [hz] at hpack
      rw [narrow_zero hf, hpack]
    · rename_i hz
      rw [narrow_subnormal hf (Nat.log2_self_le hz) Nat.lt_log2_self
        ((Nat.log2_lt hz).mpr hm), hpack]
  · rename_i he
    rw [narrow_pack hf he htop hm, hpack]

theorem widen_pack (he : e ≠ 0) (htop : e < f.topExponent) (hm : m < 2 ^ f.fractionBits) :
    widen f (f.pack s e m) = double.pack s (e + 1023 - f.bias) (m * 2 ^ (52 - f.fractionBits)) := by
  have he' : e < 2 ^ f.exponentBits := by
    unfold Format.topExponent at htop
    omega
  unfold widen
  simp only [Format.sign_pack f he' hm, Format.exponent_pack f he' hm, Format.fraction_pack f hm,
    if_neg htop.ne, if_neg he]

theorem double_pack_lt (hs : s < 2) (he : e < 2 ^ 11) (hm : m < 2 ^ 52) :
    double.pack s e m < 2 ^ 64 := by
  change (s * 2 ^ 11 + e) * 2 ^ 52 + m < 2 ^ 64
  omega

-- Both widened fields stay inside the fields of a double.
theorem widen_fields (hf : Narrower f) (bits : Nat) :
    ∃ e m, e < 2 ^ 11 ∧ m < 2 ^ 52 ∧ widen f bits = double.pack (f.sign bits) e m ∧
      (f.isFinite bits = false → e = double.topExponent) := by
  have hfl := hf.fraction_lt
  have ht := hf.top_eq
  have hb := hf.bias_lt
  have hm := f.fraction_lt bits
  have hscale : f.fraction bits * 2 ^ (52 - f.fractionBits) < 2 ^ 52 := by
    have hpow : 2 ^ f.fractionBits * 2 ^ (52 - f.fractionBits) = 2 ^ 52 := by
      rw [← Nat.pow_add]
      congr 1
      omega
    rw [← hpow]
    exact Nat.mul_lt_mul_of_pos_right hm (Nat.two_pow_pos _)
  by_cases htop : f.exponent bits = f.topExponent
  · refine ⟨double.topExponent, _, by decide, hscale, ?_, fun _ => rfl⟩
    unfold widen
    simp only [if_pos htop]
  · have hfin : f.isFinite bits = true := by simpa [Format.isFinite] using htop
    have he := lt_topExponent bits hfin
    have hnot : ∀ e, f.isFinite bits = false → e = double.topExponent := by simp [hfin]
    by_cases hzero : f.exponent bits = 0
    · by_cases hz : f.fraction bits = 0
      · refine ⟨0, 0, by decide, by decide, ?_, hnot _⟩
        unfold widen
        simp only [if_neg htop, if_pos hzero, if_pos hz]
      · have hk : Nat.log2 (f.fraction bits) < f.fractionBits := (Nat.log2_lt hz).mpr hm
        have hhi := Nat.lt_log2_self (n := f.fraction bits)
        refine ⟨Nat.log2 (f.fraction bits) + 1024 - f.bias - f.fractionBits,
          (f.fraction bits - 2 ^ Nat.log2 (f.fraction bits)) *
            2 ^ (52 - Nat.log2 (f.fraction bits)), by omega, ?_, ?_, hnot _⟩
        · have hpow : 2 ^ Nat.log2 (f.fraction bits) * 2 ^ (52 - Nat.log2 (f.fraction bits)) =
              2 ^ 52 := by
            rw [← Nat.pow_add]
            congr 1
            omega
          rw [← hpow]
          apply Nat.mul_lt_mul_of_pos_right _ (Nat.two_pow_pos _)
          omega
        · unfold widen
          simp only [if_neg htop, if_pos hzero, if_neg hz]
    · refine ⟨f.exponent bits + 1023 - f.bias, _, by omega, hscale, ?_, hnot _⟩
      unfold widen
      simp only [if_neg htop, if_neg hzero]

-- Widening keeps the sign, so it stays in range in both directions.
theorem widen_lt_iff (hf : Narrower f) :
    widen f bits < 2 ^ 64 ↔ bits < 2 * (2 ^ f.exponentBits * 2 ^ f.fractionBits) := by
  obtain ⟨e, m, he, hm, heq, -⟩ := widen_fields hf bits
  have hsign : f.sign bits < 2 ↔ bits < 2 * (2 ^ f.exponentBits * 2 ^ f.fractionBits) := by
    unfold Format.sign
    rw [Nat.div_div_eq_div_mul, Nat.div_lt_iff_lt_mul (Nat.mul_pos (Nat.two_pow_pos _)
      (Nat.two_pow_pos _)), Nat.mul_comm (2 ^ f.fractionBits)]
  rw [heq, ← hsign]
  refine ⟨fun h => ?_, fun h => double_pack_lt h he hm⟩
  by_contra hge
  have hpack : 2 * 2 ^ 11 * 2 ^ 52 ≤ double.pack (f.sign bits) e m := by
    have hle : 2 * 2 ^ 11 ≤ f.sign bits * 2 ^ 11 + e := by omega
    exact (Nat.mul_le_mul_right _ hle).trans (Nat.le_add_right _ _)
  omega

theorem isFinite_of_widen (hf : Narrower f)
    (hfin : double.isFinite (widen f bits) = true) : f.isFinite bits = true := by
  obtain ⟨e, m, he, hm, heq, htop⟩ := widen_fields hf bits
  by_contra hnot
  have he' := htop (by simpa using hnot)
  rw [heq, Format.isFinite, Format.exponent_pack double he hm, he'] at hfin
  simp at hfin

end Exactness

-- Every finite half is exactly a single: it is zero or it lies in the normal
-- range of the wider format.
theorem widen_single_widen_half (bits : Nat) (hfin : half.isFinite bits = true) :
    widen single (narrow single (widen half bits)) = widen half bits := by
  have htop : half.exponent bits < 31 := lt_topExponent bits hfin
  have hm : half.fraction bits < 1024 := half.fraction_lt bits
  have hexact : ∀ s e m, e ≠ 0 → e < 255 → m < 2 ^ 23 →
      widen single (narrow single (double.pack s (e + 1023 - 127) (m * 2 ^ 29))) =
        double.pack s (e + 1023 - 127) (m * 2 ^ 29) := by
    intro s e m he ht hm
    have h := narrow_pack (f := single) (s := s) single_narrower he ht hm
    have h' := widen_pack (f := single) (s := s) he ht hm
    exact (congrArg (widen single) h).trans h'
  unfold widen
  simp only [show half.exponent bits ≠ half.topExponent from htop.ne, if_false]
  split
  · split
    · exact (congrArg (widen single) (narrow_zero single_narrower _)).trans (by
        unfold widen
        simp only [Format.sign_pack single (e := 0) (m := 0) (by decide) (by decide),
          Format.exponent_pack single (e := 0) (m := 0) (by decide) (by decide),
          Format.fraction_pack single (e := 0) (m := 0) (by decide)]
        rfl)
    · rename_i hz
      have hk : Nat.log2 (half.fraction bits) < 10 := (Nat.log2_lt hz).mpr hm
      have hhi := Nat.lt_log2_self (n := half.fraction bits)
      generalize Nat.log2 (half.fraction bits) = k at *
      have hpow : 2 ^ k * 2 ^ (23 - k) = 2 ^ 23 := by
        rw [← Nat.pow_add]
        congr 1
        omega
      have hlt : (half.fraction bits - 2 ^ k) * 2 ^ (23 - k) < 2 ^ 23 := by
        rw [← hpow]
        apply Nat.mul_lt_mul_of_pos_right _ (Nat.two_pow_pos _)
        omega
      have hsplit : (half.fraction bits - 2 ^ k) * 2 ^ (52 - k) =
          (half.fraction bits - 2 ^ k) * 2 ^ (23 - k) * 2 ^ 29 := by
        rw [Nat.mul_assoc, ← Nat.pow_add]
        congr 2
        omega
      have he : k + 1024 - half.bias - half.fractionBits = k + 103 + 1023 - 127 := by
        change k + 1024 - 15 - 10 = _
        omega
      rw [hsplit, he]
      exact hexact _ _ _ (by omega) (by omega) hlt
  · rename_i he
    have hsplit : half.fraction bits * 2 ^ (52 - half.fractionBits) =
        half.fraction bits * 2 ^ 13 * 2 ^ 29 := by
      rw [Nat.mul_assoc, ← Nat.pow_add]
      rfl
    have hexp : half.exponent bits + 1023 - half.bias = half.exponent bits + 112 + 1023 - 127 := by
      change half.exponent bits + 1023 - 15 = _
      omega
    rw [hsplit, hexp]
    exact hexact _ _ _ (by omega) (by omega) (by omega)

end Fractonica.Lib.Float
