import Mathlib.Data.List.MinMax

namespace Fractonica.Lib.History

open List

-- A history is a list of entries, each with the identifiers of its parents.
variable {α κ : Type} [DecidableEq κ] (key : α → κ) (parents : α → List κ)

-- The entries that no entry names as a parent.
def isHead (log : List α) (a : α) : Bool := !log.any fun b => (parents b).contains (key a)

def heads (log : List α) : List α := log.filter (isHead key parents log)

variable {key parents} {log : List α}

theorem isHead_iff {a : α} : isHead key parents log a = true ↔ ∀ b ∈ log, key a ∉ parents b := by
  simp [isHead]

theorem mem_heads {a : α} : a ∈ heads key parents log ↔ a ∈ log ∧ ∀ b ∈ log, key a ∉ parents b := by
  rw [heads, mem_filter, isHead_iff]

-- A new entry replaces the heads that it names.
theorem heads_append {a : α} (hfresh : ∀ b ∈ log, key a ∉ parents b) (hself : key a ∉ parents a) :
    heads key parents (log ++ [a]) =
      (heads key parents log).filter (fun b => !(parents a).contains (key b)) ++ [a] := by
  have hnew : isHead key parents (log ++ [a]) a = true := by
    apply isHead_iff.mpr
    intro b hb
    rcases mem_append.mp hb with hb | hb
    · exact hfresh b hb
    · rw [mem_singleton.mp hb]
      exact hself
  have hold : log.filter (isHead key parents (log ++ [a])) =
      (heads key parents log).filter (fun b => !(parents a).contains (key b)) := by
    rw [heads, filter_filter]
    apply filter_congr
    intro b _
    simp only [isHead, any_append, any_cons, any_nil, Bool.or_false, Bool.not_or]
    exact Bool.and_comm _ _
  rw [heads, filter_append, hold, filter_cons, if_pos hnew, filter_nil]

-- A part of the history that contains the children of its entries has the
-- heads of the whole.
theorem heads_filter {keep : α → Bool}
    (hclosed : ∀ a ∈ log, ∀ b ∈ log, keep a = true → key a ∈ parents b → keep b = true) :
    heads key parents (log.filter keep) = (heads key parents log).filter keep := by
  rw [heads, heads, filter_filter, filter_filter]
  apply filter_congr
  intro a ha
  by_cases hkeep : keep a = true
  · rw [hkeep, Bool.and_true, Bool.true_and]
    apply Bool.eq_iff_iff.mpr
    rw [isHead_iff, isHead_iff]
    constructor
    · intro h b hb hnames
      have hb' := hclosed a ha b hb hkeep hnames
      exact h b (mem_filter.mpr ⟨hb, hb'⟩) hnames
    · intro h b hb
      exact h b (mem_filter.mp hb).1
  · rw [Bool.eq_false_iff.mpr hkeep, Bool.and_false, Bool.false_and]

-- The heads do not depend on the order of the entries.
theorem heads_perm {log' : List α} (h : log.Perm log') :
    (heads key parents log).Perm (heads key parents log') := by
  have hsame : heads key parents log = log.filter (isHead key parents log') := by
    apply filter_congr
    intro a _
    rw [Bool.eq_iff_iff, isHead_iff, isHead_iff]
    simp only [h.mem_iff]
  rw [hsame]
  exact h.filter _

section ParentsFirst

omit [DecidableEq κ]

variable (key parents) in
-- Every entry comes after the entries that it names.
def ParentsFirst (log : List α) : Prop :=
  ∀ front a back, log = front ++ a :: back → ∀ parent ∈ parents a, parent ∈ front.map key

theorem parentsFirst_nil : ParentsFirst key parents [] := by
  intro front a back h
  simp at h

theorem parentsFirst_append {a : α} :
    ParentsFirst key parents (log ++ [a]) ↔
      ParentsFirst key parents log ∧ ∀ parent ∈ parents a, parent ∈ log.map key := by
  constructor
  · intro h
    refine ⟨?_, h log a [] rfl⟩
    rintro front b back rfl
    exact h front b (back ++ [a]) (by simp)
  · rintro ⟨h, ha⟩ front b back hsplit
    rcases eq_nil_or_concat back with rfl | ⟨rest, last, rfl⟩
    · obtain ⟨rfl, hlast⟩ := append_inj' hsplit rfl
      obtain rfl := singleton_injective hlast
      exact ha
    · have hassoc : log ++ [a] = (front ++ b :: rest) ++ [last] := by simp [hsplit]
      obtain ⟨rfl, -⟩ := append_inj' hassoc rfl
      exact h front b rest rfl

theorem ParentsFirst.of_append {rest : List α} (h : ParentsFirst key parents (log ++ rest)) :
    ParentsFirst key parents log := by
  rintro front a back rfl
  exact h front a (back ++ rest) (by simp)

theorem ParentsFirst.mem_keys (h : ParentsFirst key parents log) (hb : b ∈ log)
    (hparent : parent ∈ parents b) : parent ∈ log.map key := by
  obtain ⟨front, back, rfl⟩ := append_of_mem hb
  have hfront := h front b back rfl parent hparent
  rw [map_append]
  exact mem_append_left _ hfront

end ParentsFirst

-- An entry under a fresh key replaces the heads that it names.
theorem ParentsFirst.heads_append {a : α} (h : ParentsFirst key parents (log ++ [a]))
    (hfresh : key a ∉ log.map key) :
    heads key parents (log ++ [a]) =
      (heads key parents log).filter (fun b => !(parents a).contains (key b)) ++ [a] := by
  obtain ⟨hlog, ha⟩ := parentsFirst_append.mp h
  refine History.heads_append ?_ fun hself => hfresh (ha _ hself)
  exact fun b hb hnames => hfresh (hlog.mem_keys hb hnames)

section Ranked

variable {rank : α → Nat}

-- The last entry is a head.
theorem exists_head (hne : log ≠ [])
    (hrank : ∀ a ∈ log, ∀ b ∈ log, key a ∈ parents b → rank a < rank b) :
    ∃ a, a ∈ heads key parents log := by
  cases hmax : log.argmax rank with
  | none => exact absurd (argmax_eq_none.mp hmax) hne
  | some last =>
    have hlast : last ∈ log := argmax_mem hmax
    refine ⟨last, mem_heads.mpr ⟨hlast, ?_⟩⟩
    intro b hb hnames
    have hlt := hrank last hlast b hb hnames
    have hle := le_of_mem_argmax hb hmax
    omega

omit [DecidableEq κ] in
-- The first entry has no parents.
theorem exists_origin (hne : log ≠ [])
    (hparents : ∀ b ∈ log, ∀ parent ∈ parents b, ∃ a ∈ log, rank a < rank b) :
    ∃ a ∈ log, parents a = [] := by
  cases hmin : log.argmin rank with
  | none => exact absurd (argmin_eq_none.mp hmin) hne
  | some first =>
    have hfirst : first ∈ log := argmin_mem hmin
    refine ⟨first, hfirst, ?_⟩
    apply eq_nil_iff_forall_not_mem.mpr
    intro parent hparent
    obtain ⟨a, ha, hlt⟩ := hparents first hfirst parent hparent
    have hle := le_of_mem_argmin ha hmin
    omega

end Ranked

end Fractonica.Lib.History
