import Mathlib.Data.List.Sort
import Mathlib.Order.Basic

open List

namespace Fractonica.Lib

-- A sorted list ascends strictly as soon as neighbours differ.
theorem isChain_ne_iff {α : Type*} [PartialOrder α] {values : List α}
    (h : values.Pairwise (· ≤ ·)) : values.IsChain (· ≠ ·) ↔ values.Pairwise (· < ·) := by
  rw [← isChain_iff_pairwise]
  constructor
  · intro hne
    induction values with
    | nil => exact .nil
    | cons first rest ih =>
      cases rest with
      | nil => exact .singleton first
      | cons second rest =>
        rw [isChain_cons_cons] at hne ⊢
        rw [pairwise_cons] at h
        exact ⟨lt_of_le_of_ne (h.1 second (by simp)) hne.1, ih h.2 hne.2⟩
  · intro hlt
    exact hlt.imp (fun _ _ hab => ne_of_lt hab)

end Fractonica.Lib

namespace Fractonica.Lib.SortedMap

variable {κ ν : Type} [LinearOrder κ]

-- An ordered map is its entries in strictly ascending key order.
def Sorted (entries : List (κ × ν)) : Prop :=
  entries.Pairwise (fun left right => left.1 < right.1)

instance (entries : List (κ × ν)) : Decidable (Sorted entries) :=
  inferInstanceAs (Decidable (entries.Pairwise _))

-- Replaces the value of a key that is already present.
def insert (key : κ) (value : ν) : List (κ × ν) → List (κ × ν)
  | [] => [(key, value)]
  | (k, v) :: rest =>
    if key < k then (key, value) :: (k, v) :: rest
    else if key = k then (key, value) :: rest
    else (k, v) :: insert key value rest

def contains (key : κ) (entries : List (κ × ν)) : Bool :=
  entries.any (fun entry => entry.1 = key)

theorem mem_insert_imp {key : κ} {value : ν} {entries : List (κ × ν)} {entry : κ × ν}
    (h : entry ∈ insert key value entries) : entry = (key, value) ∨ entry ∈ entries := by
  induction entries with
  | nil => simpa [insert] using h
  | cons first rest ih =>
    simp only [insert] at h
    split at h
    · simpa using h
    · split at h
      · rcases mem_cons.mp h with h | h
        · exact .inl h
        · exact .inr (mem_cons_of_mem _ h)
      · rcases mem_cons.mp h with h | h
        · exact .inr (by simp [h])
        · rcases ih h with h | h
          · exact .inl h
          · exact .inr (mem_cons_of_mem _ h)

theorem mem_insert_self {key : κ} {value : ν} (entries : List (κ × ν)) :
    (key, value) ∈ insert key value entries := by
  induction entries with
  | nil => exact mem_singleton_self _
  | cons first rest ih =>
    simp only [insert]
    split_ifs <;> simp [ih]

theorem mem_insert_of_ne {key : κ} {value : ν} {entries : List (κ × ν)} {entry : κ × ν}
    (h : entry ∈ entries) (hne : entry.1 ≠ key) : entry ∈ insert key value entries := by
  induction entries with
  | nil => cases h
  | cons first rest ih =>
    simp only [insert]
    split_ifs with hlt heq
    · exact mem_cons_of_mem _ h
    · rcases mem_cons.mp h with rfl | h
      · exact absurd heq.symm hne
      · exact mem_cons_of_mem _ h
    · rcases mem_cons.mp h with rfl | h
      · exact mem_cons_self
      · exact mem_cons_of_mem _ (ih h)

theorem sorted_insert (key : κ) (value : ν) {entries : List (κ × ν)} (h : Sorted entries) :
    Sorted (insert key value entries) := by
  induction entries with
  | nil => exact pairwise_singleton _ _
  | cons first rest ih =>
    obtain ⟨k, v⟩ := first
    have hfirst : ∀ entry ∈ rest, k < entry.1 := (pairwise_cons.mp h).1
    have hrest : Sorted rest := (pairwise_cons.mp h).2
    simp only [insert]
    split
    · rename_i hlt
      refine pairwise_cons.mpr ⟨?_, h⟩
      intro entry he
      rcases mem_cons.mp he with rfl | he
      · exact hlt
      · exact hlt.trans (hfirst entry he)
    · split
      · rename_i heq
        subst heq
        exact pairwise_cons.mpr ⟨hfirst, hrest⟩
      · rename_i hlt hne
        refine pairwise_cons.mpr ⟨?_, ih hrest⟩
        intro entry he
        rcases mem_insert_imp he with rfl | he
        · exact lt_of_le_of_ne (not_lt.mp hlt) (Ne.symm hne)
        · exact hfirst entry he

-- A fresh key only adds its entry.
theorem insert_perm {key : κ} (value : ν) {entries : List (κ × ν)}
    (h : contains key entries = false) :
    (insert key value entries).Perm ((key, value) :: entries) := by
  induction entries with
  | nil => exact .refl _
  | cons first rest ih =>
    obtain ⟨k, v⟩ := first
    simp only [contains, any_cons, Bool.or_eq_false_iff, decide_eq_false_iff_not] at h
    simp only [insert]
    split
    · exact .refl _
    · rw [if_neg (Ne.symm h.1)]
      exact ((ih h.2).cons (k, v)).trans (.swap _ _ _)

theorem contains_perm {key : κ} {left right : List (κ × ν)} (h : left.Perm right) :
    contains key left = contains key right := by
  unfold contains
  rw [Bool.eq_iff_iff, any_eq_true, any_eq_true]
  simp only [h.mem_iff]

-- Insertion of fresh keys one after another, in any order.
theorem foldl_insert_perm (entries : List (κ × ν)) (hn : (entries.map Prod.fst).Nodup)
    (start : List (κ × ν)) (hfresh : ∀ entry ∈ entries, contains entry.1 start = false) :
    (entries.foldl (fun acc entry => insert entry.1 entry.2 acc) start).Perm
      (start ++ entries) := by
  induction entries generalizing start with
  | nil => simp
  | cons entry rest ih =>
    rw [map_cons, nodup_cons] at hn
    have hstep := insert_perm entry.2 (hfresh entry (by simp))
    have hrest : ∀ other ∈ rest, contains other.1 (insert entry.1 entry.2 start) = false := by
      intro other ho
      have hne : entry.1 ≠ other.1 := by
        intro he
        exact hn.1 (he ▸ mem_map_of_mem ho)
      rw [contains_perm hstep]
      have hf := hfresh other (mem_cons_of_mem _ ho)
      simp only [contains] at hf
      simp only [contains, any_cons, hf, Bool.or_false, decide_eq_false_iff_not]
      exact hne
    have htail := ih hn.2 _ hrest
    have hmove : ((entry :: start) ++ rest).Perm (start ++ entry :: rest) := by
      simpa using perm_middle.symm
    exact htail.trans ((hstep.append_right rest).trans hmove)

theorem foldl_insert_sorted (entries : List (κ × ν)) {start : List (κ × ν)} (h : Sorted start) :
    Sorted (entries.foldl (fun acc entry => insert entry.1 entry.2 acc) start) := by
  induction entries generalizing start with
  | nil => exact h
  | cons entry rest ih => exact ih (sorted_insert entry.1 entry.2 h)

theorem Sorted.nodup_keys {entries : List (κ × ν)} (h : Sorted entries) :
    (entries.map Prod.fst).Nodup := by
  rw [nodup_iff_pairwise_ne, pairwise_map]
  exact h.imp (fun hlt => hlt.ne)

theorem Sorted.eq_of_perm {left right : List (κ × ν)} (hl : Sorted left) (hr : Sorted right)
    (h : left.Perm right) : left = right := by
  have hasymm : ∀ a b : κ × ν, a ∈ left → b ∈ right → a.1 < b.1 → b.1 < a.1 → a = b := by
    intro a b _ _ hab hba
    exact absurd (hab.trans hba) (lt_irrefl _)
  exact h.eq_of_pairwise hasymm hl hr

-- Inserting the entries of a map one after another, in any order, rebuilds it.
theorem Sorted.foldl_insert_eq {entries order : List (κ × ν)} (h : Sorted entries)
    (hp : order.Perm entries) :
    order.foldl (fun acc entry => insert entry.1 entry.2 acc) [] = entries := by
  have hn : (order.map Prod.fst).Nodup := (hp.map Prod.fst).nodup_iff.mpr h.nodup_keys
  have hperm := foldl_insert_perm order hn [] (by simp [contains])
  apply Sorted.eq_of_perm (foldl_insert_sorted order List.Pairwise.nil) h
  exact hperm.trans (by simpa using hp)

def get? (key : κ) (entries : List (κ × ν)) : Option ν :=
  (entries.find? fun entry => entry.1 = key).map Prod.snd

theorem Sorted.get?_eq_some {entries : List (κ × ν)} (h : Sorted entries) {key : κ} {value : ν} :
    get? key entries = some value ↔ (key, value) ∈ entries := by
  rw [get?, Option.map_eq_some_iff]
  constructor
  · rintro ⟨⟨k, v⟩, hfound, rfl⟩
    obtain rfl : k = key := by simpa using find?_some hfound
    exact mem_of_find?_eq_some hfound
  · intro hmem
    refine ⟨(key, value), ?_, rfl⟩
    obtain ⟨front, back, rfl⟩ := append_of_mem hmem
    rw [find?_append, find?_eq_none.mpr, Option.none_or,
      find?_cons_of_pos (by simp)]
    intro other hother
    have hlt := (pairwise_append.mp h).2.2 other hother (key, value) mem_cons_self
    simpa using ne_of_lt hlt

theorem Sorted.lookup_eq_some [BEq κ] [LawfulBEq κ] {entries : List (κ × ν)} (h : Sorted entries)
    {key : κ} {value : ν} : entries.lookup key = some value ↔ (key, value) ∈ entries := by
  rw [lookup_eq_some_iff]
  constructor
  · rintro ⟨front, back, rfl, -⟩
    simp
  · intro hmem
    obtain ⟨front, back, rfl⟩ := append_of_mem hmem
    refine ⟨front, back, rfl, fun other hother => ?_⟩
    have hlt := (pairwise_append.mp h).2.2 other hother (key, value) mem_cons_self
    simpa using ne_of_gt hlt

theorem contains_iff {key : κ} {entries : List (κ × ν)} :
    contains key entries = true ↔ key ∈ entries.map Prod.fst := by
  simp [contains]

end Fractonica.Lib.SortedMap

namespace Fractonica.Lib.SortedSet

variable {κ : Type} [LinearOrder κ] {key other : κ} {keys : List κ}

-- An ordered set is its members in strictly ascending order.
def insert (key : κ) : List κ → List κ
  | [] => [key]
  | k :: rest =>
    if key < k then key :: k :: rest
    else if key = k then k :: rest
    else k :: insert key rest

def remove (key : κ) (keys : List κ) : List κ := keys.filter (· ≠ key)

theorem mem_insert : other ∈ insert key keys ↔ other = key ∨ other ∈ keys := by
  induction keys with
  | nil => simp [insert]
  | cons k rest ih =>
    simp only [insert]
    split_ifs with hlt heq
    · simp
    · simp [heq]
    · rw [mem_cons, ih, mem_cons, or_left_comm]

theorem pairwise_insert (h : keys.Pairwise (· < ·)) : (insert key keys).Pairwise (· < ·) := by
  induction keys with
  | nil => exact pairwise_singleton _ _
  | cons k rest ih =>
    obtain ⟨hfirst, hrest⟩ := pairwise_cons.mp h
    simp only [insert]
    split_ifs with hlt heq
    · refine pairwise_cons.mpr ⟨?_, h⟩
      intro member hmember
      rcases mem_cons.mp hmember with rfl | hmember
      · exact hlt
      · exact hlt.trans (hfirst member hmember)
    · exact h
    · refine pairwise_cons.mpr ⟨?_, ih hrest⟩
      intro member hmember
      rcases mem_insert.mp hmember with rfl | hmember
      · exact lt_of_le_of_ne (not_lt.mp hlt) (Ne.symm heq)
      · exact hfirst member hmember

theorem mem_remove : other ∈ remove key keys ↔ other ∈ keys ∧ other ≠ key := by
  simp [remove]

theorem pairwise_remove (h : keys.Pairwise (· < ·)) : (remove key keys).Pairwise (· < ·) :=
  h.filter _

-- Each of several members is removed.
theorem mem_foldl_remove {removed : List κ} :
    other ∈ removed.foldl (fun keys key => remove key keys) keys ↔
      other ∈ keys ∧ other ∉ removed := by
  induction removed generalizing keys with
  | nil => simp
  | cons first rest ih => rw [foldl_cons, ih, mem_remove, mem_cons, not_or, and_assoc]

theorem pairwise_foldl_remove {removed : List κ} (h : keys.Pairwise (· < ·)) :
    (removed.foldl (fun keys key => remove key keys) keys).Pairwise (· < ·) := by
  induction removed generalizing keys with
  | nil => exact h
  | cons first rest ih => exact ih (pairwise_remove h)

theorem eq_of_mem_iff {left right : List κ} (hleft : left.Pairwise (· < ·))
    (hright : right.Pairwise (· < ·)) (h : ∀ key, key ∈ left ↔ key ∈ right) : left = right := by
  have hperm : left.Perm right :=
    (perm_ext_iff_of_nodup (hleft.imp ne_of_lt) (hright.imp ne_of_lt)).mpr h
  exact hperm.eq_of_pairwise' (hleft.imp le_of_lt) (hright.imp le_of_lt)

end Fractonica.Lib.SortedSet
