import Fractonica.Lib.Result

namespace Fractonica.Lib

open List

-- A writer extends an output buffer of bounded length, or fails.
abbrev Writer (ε : Type) : Type := List UInt8 → Except ε (List UInt8)

namespace Writer

variable {ε : Type} {limit : Nat} {f : Writer ε} {p q : Prop} {b : List UInt8}

-- Started within the limit, `f` succeeds exactly when `p` holds and the output
-- still fits after `bytes`, and then it appends `bytes`.
def Writes (limit : Nat) (f : Writer ε) (p : Prop) (bytes : List UInt8) : Prop :=
  ∀ output output', output.length ≤ limit →
    (f output = .ok output' ↔ p ∧ output' = output ++ bytes ∧ output'.length ≤ limit)

theorem Writes.seq (hf : Writes limit f p a) (hg : Writes limit g q b) :
    Writes limit (fun output => f output >>= g) (p ∧ q) (a ++ b) := by
  intro output output' hle
  rw [bind_eq_ok]
  constructor
  · rintro ⟨middle, hrun, hrest⟩
    obtain ⟨hp, rfl, hmiddle⟩ := (hf _ _ hle).mp hrun
    obtain ⟨hq, rfl, hlast⟩ := (hg _ _ hmiddle).mp hrest
    exact ⟨⟨hp, hq⟩, by rw [append_assoc], hlast⟩
  · rintro ⟨⟨hp, hq⟩, rfl, hlast⟩
    have hmiddle : (output ++ a).length ≤ limit := by
      simp only [length_append] at hlast ⊢
      omega
    refine ⟨output ++ a, (hf _ _ hle).mpr ⟨hp, rfl, hmiddle⟩, ?_⟩
    exact (hg _ _ hmiddle).mpr ⟨hq, by rw [append_assoc], hlast⟩

-- A computation in front that yields `x` exactly when `p` holds.
theorem Writes.after {check : Except ε α} (next : α → Writer ε)
    (hcheck : ∀ y, check = .ok y ↔ p ∧ y = x) (hf : p → Writes limit (next x) q b) :
    Writes limit (fun output => check >>= fun y => next y output) (p ∧ q) b := by
  intro output output' hle
  rw [bind_eq_ok]
  constructor
  · rintro ⟨y, hy, hrun⟩
    obtain ⟨hp, rfl⟩ := (hcheck y).mp hy
    obtain ⟨hq, hout⟩ := (hf hp _ _ hle).mp hrun
    exact ⟨⟨hp, hq⟩, hout⟩
  · rintro ⟨⟨hp, hq⟩, hout⟩
    exact ⟨x, (hcheck x).mpr ⟨hp, rfl⟩, (hf hp _ _ hle).mpr ⟨hq, hout⟩⟩

theorem Writes.guard {check : Except ε Unit} (hcheck : check = .ok () ↔ p)
    (hf : p → Writes limit f q b) :
    Writes limit (fun output => check >>= fun _ => f output) (p ∧ q) b := by
  have hunit : ∀ y, check = .ok y ↔ p ∧ y = () := by
    intro y
    rw [hcheck, and_iff_left rfl]
  exact Writes.after (fun _ => f) hunit hf

theorem Writes.unless [Decidable p] {e : ε} (hf : Writes limit f q b) :
    Writes limit (fun output => if ¬p then .error e else f output) (p ∧ q) b := by
  intro output output' hle
  beta_reduce
  by_cases hp : p
  · rw [if_neg (not_not.mpr hp), hf output output' hle, and_iff_right hp]
  · rw [if_pos hp]
    simp [hp]

-- The condition only matters when the bytes fit at all.
theorem Writes.congr (hf : Writes limit f p b) (h : b.length ≤ limit → (p ↔ q)) :
    Writes limit f q b := by
  intro output output' hle
  rw [hf output output' hle]
  constructor
  · rintro ⟨hp, rfl, hout⟩
    rw [length_append] at hout
    exact ⟨(h (by omega)).mp hp, rfl, by rwa [length_append]⟩
  · rintro ⟨hq, rfl, hout⟩
    rw [length_append] at hout
    exact ⟨(h (by omega)).mpr hq, rfl, by rwa [length_append]⟩

-- A writer of too many bytes always fails, whatever the bytes are.
theorem Writes.overflow (hf : Writes limit f p a) (ha : limit < a.length) (hb : limit < b.length) :
    Writes limit f q b := by
  intro output output' hle
  rw [hf output output' hle]
  refine iff_of_false ?_ ?_
  · rintro ⟨-, rfl, hout⟩
    rw [length_append] at hout
    omega
  · rintro ⟨-, rfl, hout⟩
    rw [length_append] at hout
    omega

theorem writes_nil : Writes limit (fun output => (.ok output : Except ε (List UInt8))) True [] := by
  intro output output' hle
  rw [Except.ok.injEq, append_nil, true_and]
  constructor
  · rintro rfl
    exact ⟨rfl, hle⟩
  · rintro ⟨rfl, -⟩
    rfl

theorem writes_false (h : ∀ output, ∃ e, f output = .error e) : Writes limit f False b := by
  intro output output' _
  obtain ⟨e, he⟩ := h output
  simp [he]

end Writer

end Fractonica.Lib
