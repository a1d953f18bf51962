import Mathlib.Data.List.Basic

namespace Fractonica.Lib.Paging

open List

variable {α : Type} (rank : α → Nat)

-- The items that a cursor has passed, and those still behind it.
def upTo (items : List α) (cursor : Nat) : List α := items.filter fun a => rank a ≤ cursor

def behind (items : List α) (cursor : Nat) : List α := items.filter fun a => cursor < rank a

-- The cursor moves to the last item of a page, and stays on an empty one.
def next (page : List α) (cursor : Nat) : Nat := (page.getLast?.map rank).getD cursor

-- The rows in front of the extra one that a page fetches to look ahead.
def trim (limit : Nat) (fetched : List α) : List α :=
  if limit < fetched.length then fetched.dropLast else fetched

theorem trim_take (limit : Nat) (items : List α) :
    trim limit (items.take (limit + 1)) = items.take limit := by
  unfold trim
  rw [length_take]
  split_ifs with hmore
  · rw [dropLast_eq_take, length_take, take_take]
    congr 1
    omega
  · rw [take_of_length_le (by omega), take_of_length_le (by omega)]

theorem looksAhead (limit : Nat) (items : List α) :
    limit < (items.take (limit + 1)).length ↔ limit < items.length := by
  rw [length_take]
  omega

variable {rank} {cursor limit : Nat}

theorem upTo_eq_nil (h : ∀ a ∈ items, cursor < rank a) : upTo rank items cursor = [] := by
  apply filter_eq_nil_iff.mpr
  intro a ha
  have hlt := h a ha
  rw [decide_eq_true_eq]
  omega

-- The items that arrive later are behind the cursor.
theorem upTo_extend {new : List α} (hnew : ∀ a ∈ new, cursor < rank a) :
    upTo rank (items ++ new) cursor = upTo rank items cursor := by
  have hdropped : upTo rank new cursor = [] := upTo_eq_nil hnew
  rw [upTo, filter_append]
  exact (congrArg _ hdropped).trans (append_nil _)

-- A cursor between two halves separates them.
theorem upTo_append (hlow : ∀ a ∈ low, rank a ≤ cursor)
    (hhigh : ∀ a ∈ high, cursor < rank a) : upTo rank (low ++ high) cursor = low := by
  rw [upTo_extend hhigh]
  exact filter_eq_self.mpr fun a ha => decide_eq_true (hlow a ha)

theorem upTo_append_behind (cursor : Nat) (hsorted : items.Pairwise fun a b => rank a < rank b) :
    upTo rank items cursor ++ behind rank items cursor = items := by
  induction items with
  | nil => rfl
  | cons first rest ih =>
    obtain ⟨hfirst, hrest⟩ := pairwise_cons.mp hsorted
    by_cases hle : rank first ≤ cursor
    · rw [upTo, behind, filter_cons_of_pos (by simpa using hle),
        filter_cons_of_neg (by simpa using hle), cons_append]
      exact congrArg (first :: ·) (ih hrest)
    · -- Everything comes after the first item.
      have hall : ∀ a ∈ first :: rest, cursor < rank a := by
        intro a ha
        rcases mem_cons.mp ha with rfl | ha
        · omega
        · have hlt := hfirst a ha
          omega
      have hbehind : behind rank (first :: rest) cursor = first :: rest :=
        filter_eq_self.mpr fun a ha => decide_eq_true (hall a ha)
      rw [hbehind, upTo_eq_nil hall, nil_append]

theorem upTo_next_append {rest : List α} (hlow : ∀ a ∈ low, rank a ≤ cursor)
    (hhigh : ∀ a ∈ page ++ rest, cursor < rank a)
    (hsorted : (page ++ rest).Pairwise fun a b => rank a < rank b) :
    upTo rank ((low ++ page) ++ rest) (next rank page cursor) = low ++ page := by
  rcases eq_nil_or_concat' page with rfl | ⟨front, last, rfl⟩
  · apply upTo_append
    · rw [append_nil]
      exact hlow
    · exact hhigh
  · have hlast : next rank (front ++ [last]) cursor = rank last := by
      rw [next, getLast?_append_of_ne_nil _ (by simp)]
      rfl
    obtain ⟨hpage, -, hcross⟩ := pairwise_append.mp hsorted
    rw [hlast]
    apply upTo_append
    · intro a ha
      rcases mem_append.mp ha with ha | ha
      · have hlt := hhigh last (by simp)
        have hle := hlow a ha
        omega
      · rcases mem_append.mp ha with ha | ha
        · exact Nat.le_of_lt ((pairwise_append.mp hpage).2.2 a ha last (by simp))
        · obtain rfl := mem_singleton.mp ha
          exact Nat.le_refl _
    · intro a ha
      exact hcross last (by simp) a ha

-- A page leads from one cursor to the next without a gap.
theorem upTo_next (hsorted : items.Pairwise fun a b => rank a < rank b) (limit : Nat) :
    upTo rank items (next rank ((behind rank items cursor).take limit) cursor) =
      upTo rank items cursor ++ (behind rank items cursor).take limit := by
  have hlow : ∀ a ∈ upTo rank items cursor, rank a ≤ cursor := by
    intro a ha
    exact of_decide_eq_true (mem_filter.mp ha).2
  have hhigh : ∀ a ∈ behind rank items cursor, cursor < rank a := by
    intro a ha
    exact of_decide_eq_true (mem_filter.mp ha).2
  have hbehind : (behind rank items cursor).Pairwise fun a b => rank a < rank b :=
    hsorted.sublist filter_sublist
  have hsplit := upTo_append_behind cursor hsorted
  rw [← take_append_drop limit (behind rank items cursor)] at hhigh hbehind hsplit
  have hpage := upTo_next_append hlow hhigh hbehind
  rwa [append_assoc, hsplit] at hpage

-- Without an extra row the page was the last one.
theorem upTo_next_eq_self_iff (hsorted : items.Pairwise fun a b => rank a < rank b) :
    upTo rank items (next rank ((behind rank items cursor).take limit) cursor) = items ↔
      (behind rank items cursor).length ≤ limit := by
  rw [upTo_next hsorted]
  constructor
  · intro hall
    have hsplit := upTo_append_behind cursor hsorted
    have hlength := congrArg List.length (hall.trans hsplit.symm)
    rw [length_append, length_append, length_take] at hlength
    omega
  · intro hlength
    rw [take_of_length_le hlength, upTo_append_behind cursor hsorted]

-- An item is among the first ones if there are not too many up to it.
theorem mem_take (hsorted : items.Pairwise fun a b => rank a < rank b) (ha : a ∈ items)
    (hfew : (upTo rank items (rank a)).length ≤ limit) : a ∈ items.take limit := by
  have hmem : a ∈ upTo rank items (rank a) :=
    mem_filter.mpr ⟨ha, decide_eq_true (Nat.le_refl _)⟩
  rw [← upTo_append_behind (rank a) hsorted, take_append, take_of_length_le hfew]
  exact mem_append_left _ hmem

end Fractonica.Lib.Paging
