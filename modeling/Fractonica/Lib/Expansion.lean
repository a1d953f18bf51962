import Mathlib.Algebra.Order.Floor.Ring
import Mathlib.Data.Rat.Floor
import Mathlib.Tactic.Linarith
import Mathlib.Tactic.Positivity
import Mathlib.Tactic.Ring

namespace Fractonica.Lib

-- After `count` steps of binary long division of `n` by `d`, the quotient is
-- `quotient` and the remainder is `rest`.
structure Expands (n d count quotient rest : Nat) : Prop where
  split : n * 2 ^ count = quotient * d + rest
  rest_lt : rest < d

namespace Expands

variable {rest : Nat}

theorem start (h : n < d) : Expands n d 0 0 n :=
  ⟨by simp, h⟩

-- The next bit is one if the doubled remainder reaches the divisor.
theorem one (h : Expands n d count quotient rest) (hbit : d - rest ≤ rest) :
    Expands n d (count + 1) (2 * quotient + 1) (rest - (d - rest)) := by
  have hlt := h.rest_lt
  refine ⟨?_, by omega⟩
  have hrest : d + (rest - (d - rest)) = 2 * rest := by omega
  calc n * 2 ^ (count + 1) = 2 * (n * 2 ^ count) := by ring
    _ = 2 * (quotient * d + rest) := by rw [h.split]
    _ = 2 * quotient * d + 2 * rest := by ring
    _ = 2 * quotient * d + (d + (rest - (d - rest))) := by rw [hrest]
    _ = (2 * quotient + 1) * d + (rest - (d - rest)) := by ring

theorem zero (h : Expands n d count quotient rest) (hbit : rest < d - rest) :
    Expands n d (count + 1) (2 * quotient) (rest + rest) := by
  refine ⟨?_, by omega⟩
  calc n * 2 ^ (count + 1) = 2 * (n * 2 ^ count) := by ring
    _ = 2 * (quotient * d + rest) := by rw [h.split]
    _ = 2 * quotient * d + (rest + rest) := by ring

theorem pos (h : Expands n d count quotient rest) : 0 < d :=
  Nat.zero_lt_of_lt h.rest_lt

theorem quotient_eq (h : Expands n d count quotient rest) : quotient = n * 2 ^ count / d := by
  rw [h.split, Nat.mul_comm quotient d, Nat.mul_add_div h.pos, Nat.div_eq_of_lt h.rest_lt,
    Nat.add_zero]

theorem quotient_lt (h : Expands n d count quotient rest) (hn : n < d) : quotient < 2 ^ count := by
  rw [h.quotient_eq, Nat.div_lt_iff_lt_mul h.pos, Nat.mul_comm (2 ^ count) d]
  exact Nat.mul_lt_mul_of_pos_right hn (by positivity)

end Expands

-- A shorter expansion is the longer one without its last bits.
theorem expansion_shift (h : count ≤ more) :
    n * 2 ^ more / d / 2 ^ (more - count) = n * 2 ^ count / d := by
  obtain ⟨extra, rfl⟩ := Nat.exists_eq_add_of_le h
  rw [Nat.add_sub_cancel_left, Nat.div_div_eq_div_mul, pow_add, ← Nat.mul_assoc,
    Nat.mul_div_mul_right _ _ (by positivity)]

theorem floor_expansion (n d count : Nat) :
    ⌊(n : ℚ) / d * 2 ^ count⌋ = ((n * 2 ^ count / d : Nat) : ℤ) := by
  have hcast : (n : ℚ) / d * 2 ^ count = ((n * 2 ^ count : Nat) : ℚ) / (d : Nat) := by
    push_cast
    ring
  rw [hcast, Rat.floor_natCast_div_natCast]
  norm_cast

section Buckets

-- Division that rounds up.
theorem lt_ceil_iff (hparts : 0 < parts) :
    x < (total + (parts - 1)) / parts ↔ x * parts < total := by
  rw [← Nat.succ_le_iff, Nat.le_div_iff_mul_le hparts, Nat.succ_mul]
  omega

variable {bucket : Nat}

-- The points of one bucket are those from its start up to the first point of
-- the next one, however the boundary is rounded.
theorem bucket_eq_of_lt (htotal : 0 < total) (hparts : 0 < parts) (hx : x * parts / total = bucket)
    (hle : x ≤ y)
    (hy : y < (total * (bucket + 1) + (parts - 1)) / parts) : y * parts / total = bucket := by
  have hlower : bucket ≤ y * parts / total := by
    rw [← hx]
    exact Nat.div_le_div_right (Nat.mul_le_mul_right parts hle)
  have hupper : y * parts / total < bucket + 1 := by
    rw [Nat.div_lt_iff_lt_mul htotal, Nat.mul_comm (bucket + 1)]
    exact (lt_ceil_iff hparts).mp hy
  omega

theorem lt_bucket_end (htotal : 0 < total) (hparts : 0 < parts) (hx : x * parts / total = bucket) :
    x < (total * (bucket + 1) + (parts - 1)) / parts := by
  rw [lt_ceil_iff hparts, Nat.mul_comm total, ← Nat.div_lt_iff_lt_mul htotal]
  omega

theorem bucket_end_flips (bucket : Nat) (htotal : 0 < total) (hparts : 0 < parts) :
    bucket < (total * (bucket + 1) + (parts - 1)) / parts * parts / total := by
  rw [← Nat.succ_le_iff, Nat.le_div_iff_mul_le htotal, Nat.mul_comm]
  exact Nat.not_lt.mp fun h => lt_irrefl _ ((lt_ceil_iff hparts).mpr h)

theorem bucket_end_le (total : Nat) (hparts : 0 < parts) (hbucket : bucket < parts) :
    (total * (bucket + 1) + (parts - 1)) / parts ≤ total := by
  refine Nat.not_lt.mp fun h => ?_
  have hlt := (lt_ceil_iff hparts).mp h
  exact absurd hlt (Nat.not_lt.mpr (Nat.mul_le_mul_left total hbucket))

end Buckets

end Fractonica.Lib
