import Mathlib.Algebra.Group.Nat.Defs
import Mathlib.Data.List.Lex
import Mathlib.Data.List.Induction

namespace Fractonica.Lib

open List

instance instLinearOrderUInt8 : LinearOrder UInt8 where
  le_refl := UInt8.le_refl
  le_trans _ _ _ := UInt8.le_trans
  lt_iff_le_not_ge a b := by
    simp only [UInt8.lt_iff_toNat_lt, UInt8.le_iff_toNat_le]
    omega
  le_antisymm _ _ := UInt8.le_antisymm
  le_total := UInt8.le_total
  toDecidableLE := inferInstance
  toDecidableEq := inferInstance
  toDecidableLT := inferInstance

-- The `width` big-endian bytes of a number.
def toBE : Nat → Nat → List UInt8
  | 0, _ => []
  | width + 1, n => toBE width (n / 256) ++ [UInt8.ofNat (n % 256)]

-- The number a big-endian byte string stands for.
def ofBE (bytes : List UInt8) : Nat :=
  bytes.foldl (fun total byte => total * 256 + byte.toNat) 0

@[simp] theorem length_toBE (width n : Nat) : (toBE width n).length = width := by
  induction width generalizing n with
  | zero => rfl
  | succ width ih => simp [toBE, ih]

theorem ofBE_append (bytes : List UInt8) (byte : UInt8) :
    ofBE (bytes ++ [byte]) = ofBE bytes * 256 + byte.toNat := by
  simp [ofBE]

theorem ofBE_lt (bytes : List UInt8) : ofBE bytes < 256 ^ bytes.length := by
  induction bytes using List.reverseRecOn with
  | nil => simp [ofBE]
  | append_singleton bytes byte ih =>
    have hbyte := byte.toNat_lt
    rw [ofBE_append, length_append, length_singleton, Nat.pow_succ]
    omega

theorem ofBE_toBE (width n : Nat) (hn : n < 256 ^ width) : ofBE (toBE width n) = n := by
  induction width generalizing n with
  | zero =>
    simp [toBE, ofBE]
    omega
  | succ width ih =>
    have hq : n / 256 < 256 ^ width := by
      omega
    have hlow : (UInt8.ofNat (n % 256)).toNat = n % 256 :=
      UInt8.toNat_ofNat_of_lt' (by simp [UInt8.size]; omega)
    rw [toBE, ofBE_append, ih _ hq, hlow]
    omega

theorem toBE_ofBE (bytes : List UInt8) : toBE bytes.length (ofBE bytes) = bytes := by
  induction bytes using List.reverseRecOn with
  | nil => rfl
  | append_singleton bytes byte ih =>
    have hbyte := byte.toNat_lt
    have hq : (ofBE bytes * 256 + byte.toNat) / 256 = ofBE bytes := by omega
    have hr : (ofBE bytes * 256 + byte.toNat) % 256 = byte.toNat := by omega
    rw [length_append, length_singleton, toBE, ofBE_append, hq, hr, ih,
      UInt8.ofNat_toNat]

-- Blocks of one size can be told apart in their concatenation.
theorem map_eq_of_flatMap_eq {α β : Type} (hwidth : 0 < width) {f : α → List β}
    (hf : ∀ a, (f a).length = width) {left right : List α}
    (h : left.flatMap f = right.flatMap f) : left.map f = right.map f := by
  induction left generalizing right with
  | nil =>
    cases right with
    | nil => rfl
    | cons b right =>
      have hlength := congrArg List.length h
      simp only [flatMap_nil, flatMap_cons, length_nil, length_append,
        hf] at hlength
      omega
  | cons a left ih =>
    cases right with
    | nil =>
      have hlength := congrArg List.length h
      simp only [flatMap_nil, flatMap_cons, length_nil, length_append,
        hf] at hlength
      omega
    | cons b right =>
      obtain ⟨hhead, htail⟩ := append_inj h ((hf a).trans (hf b).symm)
      rw [map_cons, map_cons, hhead, ih htail]

theorem length_flatMap_eq {α β : Type} {f : α → List β} (hf : ∀ a, (f a).length = width)
    (values : List α) : (values.flatMap f).length = values.length * width := by
  rw [length_flatMap, map_congr_left fun a _ => hf a, map_const',
    sum_replicate_nat]

-- A byte string of a fixed length, the `[u8; N]` of a wire format.
structure FixedBytes (n : Nat) where
  bytes : List UInt8
  length_eq : bytes.length = n
deriving DecidableEq

namespace FixedBytes

@[ext] theorem ext {a b : FixedBytes n} (h : a.bytes = b.bytes) : a = b := by
  cases b
  cases h
  rfl

theorem bytes_injective (n : Nat) : Function.Injective (FixedBytes.bytes (n := n)) :=
  fun _ _ => ext

instance (n : Nat) : LinearOrder (FixedBytes n) :=
  LinearOrder.lift' FixedBytes.bytes (bytes_injective n)

def ofNat {n : Nat} (value : Nat) : FixedBytes n := ⟨toBE n value, length_toBE n value⟩

-- The conversion of a slice, which fails unless the length is exact.
def ofList? (n : Nat) (bytes : List UInt8) : Option (FixedBytes n) :=
  if h : bytes.length = n then some ⟨bytes, h⟩ else none

@[simp] theorem ofList?_bytes (b : FixedBytes n) : ofList? n b.bytes = some b := by
  simp [ofList?, b.length_eq]

theorem ofList?_eq_some {bytes : List UInt8} : ofList? n bytes = some b ↔ b.bytes = bytes := by
  constructor
  · intro h
    unfold ofList? at h
    split at h
    · cases h
      rfl
    · cases h
  · rintro rfl
    exact ofList?_bytes b

-- The array of `n` equal bytes.
def replicate (n : Nat) (byte : UInt8) : FixedBytes n :=
  ⟨List.replicate n byte, length_replicate⟩

end FixedBytes

end Fractonica.Lib
