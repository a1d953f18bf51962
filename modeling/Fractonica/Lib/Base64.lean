import Fractonica.Lib.Bytes

namespace Fractonica.Lib.Base64

open List

-- The URL-safe alphabet, as ASCII bytes.
def symbol (n : Nat) : UInt8 :=
  if n < 26 then UInt8.ofNat ('A'.toNat + n)
  else if n < 52 then UInt8.ofNat ('a'.toNat + (n - 26))
  else if n < 62 then UInt8.ofNat ('0'.toNat + (n - 52))
  else if n = 62 then UInt8.ofNat '-'.toNat
  else UInt8.ofNat '_'.toNat

def value? (byte : UInt8) : Option Nat :=
  (List.range 64).find? (fun n => symbol n = byte)

-- Without padding: the last group has two or three symbols.
def encode : List UInt8 → List UInt8
  | [] => []
  | [a] => [symbol (a.toNat / 4), symbol (a.toNat % 4 * 16)]
  | [a, b] =>
    [symbol (a.toNat / 4), symbol (a.toNat % 4 * 16 + b.toNat / 16), symbol (b.toNat % 16 * 4)]
  | a :: b :: c :: rest =>
    symbol (a.toNat / 4) :: symbol (a.toNat % 4 * 16 + b.toNat / 16) ::
      symbol (b.toNat % 16 * 4 + c.toNat / 64) :: symbol (c.toNat % 64) :: encode rest

-- The bits of a last group that no byte uses must be zero.
def decode : List UInt8 → Option (List UInt8)
  | [] => some []
  | [_] => none
  | [p, q] => do
    let p ← value? p
    let q ← value? q
    if q % 16 = 0 then some [UInt8.ofNat (p * 4 + q / 16)] else none
  | [p, q, r] => do
    let p ← value? p
    let q ← value? q
    let r ← value? r
    if r % 4 = 0 then some [UInt8.ofNat (p * 4 + q / 16), UInt8.ofNat (q % 16 * 16 + r / 4)]
    else none
  | p :: q :: r :: s :: rest => do
    let p ← value? p
    let q ← value? q
    let r ← value? r
    let s ← value? s
    let rest ← decode rest
    some (UInt8.ofNat (p * 4 + q / 16) :: UInt8.ofNat (q % 16 * 16 + r / 4) ::
      UInt8.ofNat (r % 4 * 64 + s) :: rest)

-- Three bytes take four symbols, and a shorter last group one symbol more
-- than it has bytes.
theorem length_encode (bytes : List UInt8) :
    (encode bytes).length = (4 * bytes.length + 2) / 3 := by
  induction bytes using encode.induct with
  | case1 => rfl
  | case2 a => simp [encode]
  | case3 a b => simp [encode]
  | case4 a b c rest ih =>
    simp only [encode, length_cons, ih]
    omega

theorem symbol_injOn (hm : m < 64) (hn : n < 64) (h : symbol m = symbol n) : m = n := by
  have hvalue : ∀ k < 64, value? (symbol k) = some k := by decide
  have hsame := hvalue m hm
  rw [h, hvalue n hn] at hsame
  exact (Option.some.inj hsame).symm

theorem encode_injective : Function.Injective encode := by
  intro left
  induction left using encode.induct with
  | case1 =>
    intro right h
    have hlength := congrArg List.length h
    rw [length_encode, length_encode, length_nil] at hlength
    exact (eq_nil_of_length_eq_zero (by omega)).symm
  | case2 a =>
    intro right h
    have ha := a.toNat_lt
    match right with
    | [] => cases h
    | [a'] =>
      have ha' := a'.toNat_lt
      simp only [encode, List.cons.injEq, and_true] at h
      have hhigh := symbol_injOn (by omega) (by omega) h.1
      have hlow := symbol_injOn (by omega) (by omega) h.2
      rw [UInt8.toNat.inj (a := a) (b := a') (by omega)]
    | [a', b'] => simp [encode] at h
    | a' :: b' :: c' :: rest => simp [encode] at h
  | case3 a b =>
    intro right h
    have ha := a.toNat_lt
    have hb := b.toNat_lt
    match right with
    | [] => cases h
    | [a'] => simp [encode] at h
    | [a', b'] =>
      have ha' := a'.toNat_lt
      have hb' := b'.toNat_lt
      simp only [encode, List.cons.injEq, and_true] at h
      have hfirst := symbol_injOn (by omega) (by omega) h.1
      have hsecond := symbol_injOn (by omega) (by omega) h.2.1
      have hthird := symbol_injOn (by omega) (by omega) h.2.2
      rw [UInt8.toNat.inj (a := a) (b := a') (by omega),
        UInt8.toNat.inj (a := b) (b := b') (by omega)]
    | a' :: b' :: c' :: rest => simp [encode] at h
  | case4 a b c rest ih =>
    intro right h
    have ha := a.toNat_lt
    have hb := b.toNat_lt
    have hc := c.toNat_lt
    match right with
    | [] => cases h
    | [a'] => simp [encode] at h
    | [a', b'] => simp [encode] at h
    | a' :: b' :: c' :: rest' =>
      have ha' := a'.toNat_lt
      have hb' := b'.toNat_lt
      have hc' := c'.toNat_lt
      simp only [encode, List.cons.injEq] at h
      obtain ⟨h₁, h₂, h₃, h₄, hrest⟩ := h
      have hfirst := symbol_injOn (by omega) (by omega) h₁
      have hsecond := symbol_injOn (by omega) (by omega) h₂
      have hthird := symbol_injOn (by omega) (by omega) h₃
      have hfourth := symbol_injOn (by omega) (by omega) h₄
      rw [UInt8.toNat.inj (a := a) (b := a') (by omega),
        UInt8.toNat.inj (a := b) (b := b') (by omega),
        UInt8.toNat.inj (a := c) (b := c') (by omega), ih hrest]

end Fractonica.Lib.Base64
