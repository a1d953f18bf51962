import Mathlib.Order.Basic
import Mathlib.Data.List.Sort

namespace Fractonica.Lib.BinarySearch

open List

variable {α β : Type} [LinearOrder β]

-- The loop of the standard library's search: the position at which the
-- element must be if it is present at all. The size shrinks in every round,
-- so the size itself is enough fuel.
def locate (key : α → β) (values : List α) (target : β) : Nat → Nat → Nat → Nat
  | 0, _, base => base
  | fuel + 1, size, base =>
    if size ≤ 1 then base
    else
      let half := size / 2
      let mid := base + half
      let base := if (values[mid]?).any (fun value => target < key value) then base else mid
      locate key values target fuel (size - half) base

def contains (key : α → β) (values : List α) (target : β) : Bool :=
  (values[locate key values target values.length values.length 0]?).any
    (fun value => key value = target)

-- What is found is a member, in any list.
theorem mem_of_contains {key : α → β} {values : List α} {target : β}
    (h : contains key values target = true) : ∃ value ∈ values, key value = target := by
  obtain ⟨value, hvalue, hkey⟩ := (Option.any_eq_true _ _).mp h
  exact ⟨value, mem_of_getElem? hvalue, of_decide_eq_true hkey⟩

section Sorted

variable {key : α → β} {values : List α} {target : β}

theorem key_lt_of_lt (hsorted : (values.map key).Pairwise (fun left right => left < right))
    {i j : Nat} {left right : α} (hij : i < j) (hi : values[i]? = some left)
    (hj : values[j]? = some right) : key left < key right := by
  rw [pairwise_map] at hsorted
  obtain ⟨hilt, hieq⟩ := List.getElem?_eq_some_iff.mp hi
  obtain ⟨hjlt, hjeq⟩ := List.getElem?_eq_some_iff.mp hj
  have hlt := pairwise_iff_getElem.mp hsorted i j hilt hjlt hij
  rwa [hieq, hjeq] at hlt

-- The window always contains the position of the target.
theorem locate_eq (hsorted : (values.map key).Pairwise (fun left right => left < right))
    {index : Nat} {found : α} (hfound : values[index]? = some found) (hkey : key found = target)
    (fuel size base : Nat) (hfuel : size ≤ fuel + 1) (hend : base + size ≤ values.length)
    (hlower : base ≤ index) (hupper : index < base + size) :
    locate key values target fuel size base = index := by
  induction fuel generalizing size base with
  | zero =>
    rw [locate]
    omega
  | succ fuel ih =>
    rw [locate]
    by_cases hone : size ≤ 1
    · rw [if_pos hone]
      omega
    · rw [if_neg hone]
      dsimp only
      have hmid : base + size / 2 < values.length := by omega
      have hget : values[base + size / 2]? = some values[base + size / 2] :=
        getElem?_eq_getElem hmid
      rw [hget, Option.any_some]
      by_cases hbefore : index < base + size / 2
      · have hlt := key_lt_of_lt hsorted hbefore hfound hget
        rw [hkey] at hlt
        rw [if_pos (decide_eq_true hlt)]
        exact ih (size - size / 2) base (by omega) (by omega) hlower (by omega)
      · have hle : key values[base + size / 2] ≤ target := by
          rcases Nat.lt_or_eq_of_le (Nat.not_lt.mp hbefore) with hlt | heq
          · have hlt := key_lt_of_lt hsorted hlt hget hfound
            exact (hkey ▸ hlt).le
          · have hsame : values[base + size / 2]? = some found := heq ▸ hfound
            rw [Option.some.inj (hget.symm.trans hsame), hkey]
        have hnot : ¬decide (target < key values[base + size / 2]) = true := by
          simpa using hle
        rw [if_neg hnot]
        exact ih (size - size / 2) (base + size / 2) (by omega) (by omega) (by omega) (by omega)

-- In a sorted list every member is found.
theorem contains_iff (hsorted : (values.map key).Pairwise (fun left right => left < right)) :
    contains key values target = true ↔ ∃ value ∈ values, key value = target := by
  constructor
  · exact mem_of_contains
  · rintro ⟨found, hmem, hkey⟩
    obtain ⟨index, hlt, hget⟩ := getElem_of_mem hmem
    have hfound : values[index]? = some found := List.getElem?_eq_some_iff.mpr ⟨hlt, hget⟩
    rw [contains, locate_eq hsorted hfound hkey values.length values.length 0 (by omega) (by omega)
      (by omega) (by omega), hfound]
    exact decide_eq_true hkey

end Sorted

end Fractonica.Lib.BinarySearch
