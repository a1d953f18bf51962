import Mathlib.Data.List.Sort
import Fractonica.Lib.Paging

namespace Fractonica.Lib.Keyset

open List

section Ordering

variable {α κ : Type} [LinearOrder κ] (key : α → κ)

def ordered (rows : List α) : List α := rows.mergeSort fun a b => key a ≤ key b

variable {key} {rows : List α}

theorem ordered_perm : (ordered key rows).Perm rows := mergeSort_perm _ _

theorem ordered_sorted : (ordered key rows).Pairwise fun a b => key a ≤ key b := by
  have hsorted : (ordered key rows).Pairwise fun a b => decide (key a ≤ key b) = true := by
    apply pairwise_mergeSort
    · intro a b c hab hbc
      exact decide_eq_true ((of_decide_eq_true hab).trans (of_decide_eq_true hbc))
    · intro a b
      simpa using le_total (key a) (key b)
  exact hsorted.imp of_decide_eq_true

theorem ordered_strict (hkeys : (rows.map key).Nodup) :
    (ordered key rows).Pairwise fun a b => key a < key b := by
  have hnodup : ((ordered key rows).map key).Nodup :=
    (ordered_perm.map key).nodup_iff.mpr hkeys
  have hne : (ordered key rows).Pairwise fun a b => key a ≠ key b := pairwise_map.mp hnodup
  exact hne.imp₂ (fun a b hne hle => lt_of_le_of_ne hle hne) ordered_sorted

-- Rows without ties have only one order.
theorem ordered_eq {sorted : List α} (hperm : rows.Perm sorted)
    (hsorted : sorted.Pairwise fun a b => key a < key b) : ordered key rows = sorted := by
  have hkeys : (rows.map key).Nodup := by
    rw [(hperm.map key).nodup_iff]
    exact pairwise_map.mpr (hsorted.imp fun hlt => ne_of_lt hlt)
  refine List.Perm.eq_of_pairwise ?_ (ordered_strict hkeys) hsorted (ordered_perm.trans hperm)
  intro a b _ _ hab hba
  exact absurd hba (lt_asymm hab)

theorem ordered_filter (hkeys : (rows.map key).Nodup) (keep : α → Bool) :
    ordered key (rows.filter keep) = (ordered key rows).filter keep :=
  ordered_eq (ordered_perm.symm.filter keep) ((ordered_strict hkeys).sublist filter_sublist)

theorem ordered_map {β : Type} (f : β → α) (items : List β) :
    ordered key (items.map f) = (ordered (key ∘ f) items).map f := by
  unfold ordered
  rw [map_mergeSort]
  intro a _ b _
  rfl

-- The rows behind the last one of a front are the others.
theorem filter_behind {front back : List α} {last : α}
    (hsorted : (front ++ back).Pairwise fun a b => key a < key b)
    (hlast : front.getLast? = some last) :
    ((front ++ back).filter fun a => key last < key a) = back := by
  obtain ⟨init, rfl⟩ := getLast?_eq_some_iff.mp hlast
  obtain ⟨hfront, -, hcross⟩ := pairwise_append.mp hsorted
  obtain ⟨-, -, hinit⟩ := pairwise_append.mp hfront
  have hpassed : ((init ++ [last]).filter fun a => key last < key a) = [] := by
    apply filter_eq_nil_iff.mpr
    intro a ha
    rw [decide_eq_true_eq, not_lt]
    rcases mem_append.mp ha with ha | ha
    · exact (hinit a ha last mem_cons_self).le
    · rw [mem_singleton.mp ha]
  have hkept : (back.filter fun a => key last < key a) = back :=
    filter_eq_self.mpr fun a ha =>
      decide_eq_true (hcross last (mem_append_right _ mem_cons_self) a ha)
  rw [filter_append, hpassed, hkept, nil_append]

-- A value below all the others can stand for the missing ones.
theorem getD_lt_iff {bottom : κ} {left right : Option κ} (hleft : ∀ value ∈ left, bottom < value)
    (hright : ∀ value ∈ right, bottom < value) :
    left.getD bottom < right.getD bottom ↔ left < right := by
  cases left with
  | none =>
    cases right with
    | none => simp
    | some last => simpa using hright last rfl
  | some first =>
    cases right with
    | none => simpa using (hleft first rfl).le
    | some last => simp

theorem getD_inj_iff {bottom : κ} {left right : Option κ} (hleft : ∀ value ∈ left, bottom < value)
    (hright : ∀ value ∈ right, bottom < value) :
    left.getD bottom = right.getD bottom ↔ left = right := by
  cases left with
  | none =>
    cases right with
    | none => simp
    | some last => simpa using (hright last rfl).ne
  | some first =>
    cases right with
    | none => simpa using (hleft first rfl).ne'
    | some last => simp

end Ordering

section Following

variable {ε π α γ : Type} (items : π → List α) (next : π → Option γ)

-- Every page is fetched with the cursor that came with the page before it.
def follow (fetch : Option γ → Except ε π) : Nat → Option γ → Option (Except ε (List α))
  | 0, _ => none
  | fuel + 1, cursor =>
    match fetch cursor with
    | .error error => some (.error error)
    | .ok page =>
      match next page with
      | none => some (.ok (items page))
      | some cursor => (follow fetch fuel (some cursor)).map fun rest =>
        rest.map (items page ++ ·)

-- A page continues where the last row in front of it ended, and comes with a cursor
-- if there are more rows.
def Serves (fetch : Option γ → Except ε π) (cursorOf : α → γ) (limit : Nat) (all : List α) :
    Prop :=
  ∀ front back, all = front ++ back → ∃ page, fetch (front.getLast?.map cursorOf) = .ok page ∧
    items page = back.take limit ∧
    next page = if limit < back.length then (back.take limit).getLast?.map cursorOf else none

variable {items next} {fetch : Option γ → Except ε π} {cursorOf : α → γ} {limit : Nat}

theorem Serves.follow_eq {all : List α} (h : Serves items next fetch cursorOf limit all)
    (hlimit : 0 < limit) (hsplit : all = front ++ back) (hfuel : back.length < fuel) :
    follow items next fetch fuel (front.getLast?.map cursorOf) = some (.ok back) := by
  induction fuel generalizing front back with
  | zero => omega
  | succ fuel ih =>
    obtain ⟨page, hpage, hitems, hnext⟩ := h front back hsplit
    simp only [follow, hpage, hnext]
    by_cases hmore : limit < back.length
    · have hne : back.take limit ≠ [] := by
        intro hnil
        have hlength := congrArg List.length hnil
        rw [length_take, length_nil] at hlength
        omega
      have hlast : (front ++ back.take limit).getLast? = (back.take limit).getLast? :=
        getLast?_append_of_ne_nil _ hne
      have hall : all = (front ++ back.take limit) ++ back.drop limit := by
        rw [hsplit, append_assoc, take_append_drop]
      have hrest := ih hall (by rw [length_drop]; omega)
      rw [hlast, getLast?_eq_some_getLast hne, Option.map_some] at hrest
      rw [if_pos hmore, getLast?_eq_some_getLast hne]
      simp only [Option.map_some, hrest, hitems]
      exact congrArg (some ∘ Except.ok) (take_append_drop limit back)
    · simp only [if_neg hmore, hitems]
      rw [take_of_length_le (by omega)]

theorem Serves.follow_all {all : List α} (h : Serves items next fetch cursorOf limit all)
    (hlimit : 0 < limit) : follow items next fetch (all.length + 1) none = some (.ok all) := by
  have hsplit : all = [] ++ all := rfl
  exact h.follow_eq hlimit hsplit (Nat.lt_succ_self _)

end Following

end Fractonica.Lib.Keyset
