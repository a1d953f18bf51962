import Fractonica.Lib.Result
import Mathlib.Data.List.Nodup

namespace Fractonica.Lib.Table

open List

variable {ε Row : Type} {row : Row} {α κ : Type}

-- The constraints of a table: what triggers and checks say about a row, the
-- keys that no two rows share, and the rows it refers to.
structure Constraints (ε Row : Type) where
  admits : Row → Except ε Unit
  clash : Row → Row → Bool
  duplicate : ε
  refers : Row → Bool
  dangling : ε

-- The table `rows` can take the rows of `new`, one after the other.
structure Accepts (c : Constraints ε Row) (rows new : List Row) : Prop where
  admits : ∀ row ∈ new, c.admits row = .ok ()
  refers : ∀ row ∈ new, c.refers row = true
  fresh : ∀ row ∈ new, ∀ other ∈ rows, c.clash row other = false
  distinct : new.Pairwise (fun earlier later => c.clash later earlier = false)

def insert (c : Constraints ε Row) (rows : List Row) (row : Row) : Except ε (List Row) := do
  c.admits row
  require (!rows.any (c.clash row)) c.duplicate
  require (c.refers row) c.dangling
  .ok (rows ++ [row])

def insertAll (c : Constraints ε Row) : List Row → List Row → Except ε (List Row)
  | rows, [] => .ok rows
  | rows, row :: rest => do
    let rows ← insert c rows row
    insertAll c rows rest

-- `INSERT OR IGNORE`: a row whose key is taken is dropped.
def insertOrIgnore (clash : Row → Row → Bool) (rows : List Row) (row : Row) : List Row :=
  if rows.any (clash row) then rows else rows ++ [row]

def insertAllOrIgnore (clash : Row → Row → Bool) (rows new : List Row) : List Row :=
  new.foldl (insertOrIgnore clash) rows

variable {c : Constraints ε Row} {rows : List Row}

theorem accepts_nil : Accepts c rows [] :=
  ⟨by simp, by simp, by simp, .nil⟩

theorem accepts_cons {rest : List Row} :
    Accepts c rows (row :: rest) ↔ Accepts c rows [row] ∧ Accepts c (rows ++ [row]) rest := by
  constructor
  · rintro ⟨hadmits, hrefers, hfresh, hdistinct⟩
    rw [forall_mem_cons] at hadmits hrefers hfresh
    rw [pairwise_cons] at hdistinct
    refine ⟨⟨by simpa using hadmits.1, by simpa using hrefers.1, by simpa using hfresh.1,
      pairwise_singleton _ _⟩, hadmits.2, hrefers.2, ?_, hdistinct.2⟩
    intro later hlater other hother
    rcases mem_append.mp hother with hother | hother
    · exact hfresh.2 later hlater other hother
    · rw [mem_singleton.mp hother]
      exact hdistinct.1 later hlater
  · rintro ⟨hone, hrest⟩
    refine ⟨?_, ?_, ?_, ?_⟩
    · exact forall_mem_cons.mpr ⟨hone.admits row mem_cons_self, hrest.admits⟩
    · exact forall_mem_cons.mpr ⟨hone.refers row mem_cons_self, hrest.refers⟩
    · refine forall_mem_cons.mpr ⟨hone.fresh row mem_cons_self, ?_⟩
      intro later hlater other hother
      exact hrest.fresh later hlater other (mem_append_left _ hother)
    · refine pairwise_cons.mpr ⟨?_, hrest.distinct⟩
      intro later hlater
      exact hrest.fresh later hlater row (mem_append_right _ mem_cons_self)

theorem insert_eq_ok :
    insert c rows row = .ok rows' ↔ Accepts c rows [row] ∧ rows' = rows ++ [row] := by
  simp only [insert, bind_eq_ok, require_eq_ok, Bool.not_eq_eq_eq_not, Bool.not_true,
    any_eq_false, Bool.not_eq_true, Except.ok.injEq]
  constructor
  · rintro ⟨_, hadmits, -, hfresh, -, hrefers, rfl⟩
    exact ⟨⟨by simpa using hadmits, by simpa using hrefers, by simpa using hfresh,
      pairwise_singleton _ _⟩, rfl⟩
  · rintro ⟨⟨hadmits, hrefers, hfresh, -⟩, rfl⟩
    exact ⟨(), hadmits row mem_cons_self, (), hfresh row mem_cons_self, (),
      hrefers row mem_cons_self, rfl⟩

theorem insertAll_eq_ok {new : List Row} :
    insertAll c rows new = .ok rows' ↔ Accepts c rows new ∧ rows' = rows ++ new := by
  induction new generalizing rows with
  | nil =>
    rw [insertAll, Except.ok.injEq, append_nil]
    exact ⟨fun h => ⟨accepts_nil, h.symm⟩, fun h => h.2.symm⟩
  | cons row rest ih =>
    rw [insertAll, bind_eq_ok, accepts_cons]
    constructor
    · rintro ⟨next, hnext, hrest⟩
      obtain ⟨hone, rfl⟩ := insert_eq_ok.mp hnext
      obtain ⟨hothers, rfl⟩ := ih.mp hrest
      exact ⟨⟨hone, hothers⟩, by simp⟩
    · rintro ⟨⟨hone, hothers⟩, rfl⟩
      exact ⟨rows ++ [row], insert_eq_ok.mpr ⟨hone, rfl⟩, ih.mpr ⟨hothers, by simp⟩⟩

-- The rows that a log produces, entry by entry: what a condition on the entries
-- leaves of them.
theorem filter_owned {log : List α} {rowsOf : α → List Row}
    (h : ∀ a ∈ log, ∀ row ∈ rowsOf a, keep row = keepOwner a) :
    (log.flatMap rowsOf).filter keep = (log.filter keepOwner).flatMap rowsOf := by
  induction log with
  | nil => rfl
  | cons a rest ih =>
    obtain ⟨ha, hrest⟩ := forall_mem_cons.mp h
    rw [flatMap_cons, filter_append, ih hrest]
    by_cases hkeep : keepOwner a = true
    · have hall : (rowsOf a).filter keep = rowsOf a :=
        filter_eq_self.mpr fun row hrow => (ha row hrow).trans hkeep
      rw [hall, filter_cons_of_pos hkeep, flatMap_cons]
    · have hnone : (rowsOf a).filter keep = [] := by
        apply filter_eq_nil_iff.mpr
        intro row hrow
        rwa [ha row hrow]
      rw [hnone, filter_cons_of_neg hkeep, nil_append]

theorem filter_flatMap {key : Row → κ} {owner : α → κ}
    (hkey : ∀ a, ∀ row ∈ rowsOf a, key row = owner a) (keep : κ → Bool) (log : List α) :
    (log.flatMap rowsOf).filter (fun row => keep (key row)) =
      (log.filter fun a => keep (owner a)).flatMap rowsOf :=
  filter_owned fun a _ row hrow => congrArg keep (hkey a row hrow)

-- The lookup by a key that no two rows share.
theorem find?_key [DecidableEq κ] {key : Row → κ} (hkeys : (rows.map key).Nodup)
    (hrow : row ∈ rows) : rows.find? (fun other => key other = key row) = some row := by
  cases hfound : rows.find? (fun other => key other = key row) with
  | none => exact absurd (decide_eq_true rfl) (find?_eq_none.mp hfound row hrow)
  | some other =>
    have hsame : key other = key row := of_decide_eq_true (find?_some hfound :)
    rw [inj_on_of_nodup_map hkeys (mem_of_find?_eq_some hfound) hrow hsame]

-- The rows of a list carry the positions of their values, so they differ where
-- the values do.
theorem pairwise_mapIdx {values : List α} {row : Nat → α → Row} (hvalues : values.Pairwise apart)
    (h : ∀ i j a b, i < j → apart a b → related (row i a) (row j b)) :
    (values.mapIdx row).Pairwise related := by
  rw [pairwise_iff_getElem] at hvalues ⊢
  intro i j hi hj hlt
  rw [length_mapIdx] at hi hj
  rw [getElem_mapIdx, getElem_mapIdx]
  exact h i j _ _ hlt (hvalues i j hi hj hlt)

theorem forall_mapIdx {values : List α} {row : Nat → α → Row} {good : Row → Prop}
    (h : ∀ i, ∀ value ∈ values, i < values.length → good (row i value)) :
    ∀ r ∈ values.mapIdx row, good r := by
  intro r hr
  obtain ⟨i, hi, rfl⟩ := mem_mapIdx.mp hr
  exact h i _ (getElem_mem hi) hi

-- The numbered rows of an owner that has no row yet.
theorem accepts_mapIdx {values : List α} {row : Nat → α → Row} {id : κ} (owner : Row → κ)
    (howner : ∀ i value, owner (row i value) = id)
    (hadmits : ∀ i, ∀ value ∈ values, i < values.length → c.admits (row i value) = .ok ())
    (hrefers : ∀ i, ∀ value ∈ values, c.refers (row i value) = true)
    (hother : ∀ row other, owner row ≠ owner other → c.clash row other = false)
    (hfresh : ∀ other ∈ rows, owner other ≠ id) (hvalues : values.Pairwise apart)
    (hdistinct : ∀ i j a b, i < j → apart a b → c.clash (row j b) (row i a) = false) :
    Accepts c rows (values.mapIdx row) where
  admits := forall_mapIdx hadmits
  refers := forall_mapIdx fun i value hvalue _ => hrefers i value hvalue
  fresh := by
    refine forall_mapIdx fun i value _ _ other hrow => hother _ _ ?_
    rw [howner]
    exact (hfresh other hrow).symm
  distinct := pairwise_mapIdx hvalues hdistinct

-- A row that shares its owner with no row of the log's entries is new.
theorem owner_ne {log : List α} {id : κ} (owner : Row → κ) (key : α → κ)
    (howner : ∀ a, ∀ row ∈ rowsOf a, owner row = key a)
    (hfresh : ∀ a ∈ log, key a ≠ id) : ∀ row ∈ log.flatMap rowsOf, owner row ≠ id := by
  intro row hrow
  obtain ⟨a, ha, hmem⟩ := mem_flatMap.mp hrow
  rw [howner a row hmem]
  exact hfresh a ha

section Joins

variable {Other : Type} {others : List Other} {on : Row → Other → Bool}

-- A row appears once for every row of the other table that it meets.
def join (on : Row → Other → Bool) (rows : List Row) (others : List Other) : List Row :=
  rows.flatMap fun row => (others.filter (on row)).map fun _ => row

theorem length_filter_le_one {key : Row → κ} (hkeys : (rows.map key).Nodup) {id : κ}
    (hkeep : ∀ row ∈ rows, keep row = true → key row = id) : (rows.filter keep).length ≤ 1 := by
  have hnodup : ((rows.filter keep).map key).Nodup :=
    hkeys.sublist (filter_sublist.map _)
  have hsame : (rows.filter keep).map key = List.replicate (rows.filter keep).length id := by
    rw [eq_replicate_iff, length_map]
    refine ⟨rfl, ?_⟩
    intro found hfound
    obtain ⟨row, hrow, rfl⟩ := mem_map.mp hfound
    obtain ⟨hmem, hkept⟩ := mem_filter.mp hrow
    exact hkeep row hmem hkept
  rw [hsame] at hnodup
  exact nodup_replicate.mp hnodup

theorem join_eq_filter (h : ∀ row ∈ rows, (others.filter (on row)).length ≤ 1) :
    join on rows others = rows.filter fun row => others.any (on row) := by
  unfold join
  induction rows with
  | nil => rfl
  | cons row rest ih =>
    obtain ⟨hrow, hrest⟩ := forall_mem_cons.mp h
    rw [flatMap_cons, ih hrest]
    by_cases hmeets : others.any (on row) = true
    · obtain ⟨other, hother, hon⟩ := any_eq_true.mp hmeets
      have hmem : other ∈ others.filter (on row) := mem_filter.mpr ⟨hother, hon⟩
      have hpos := length_pos_of_mem hmem
      have hlength : (others.filter (on row)).length = 1 := by omega
      obtain ⟨found, hone⟩ := length_eq_one_iff.mp hlength
      rw [hone, filter_cons, if_pos hmeets]
      rfl
    · have hnone : others.filter (on row) = [] := by
        apply filter_eq_nil_iff.mpr
        intro other hother hon
        exact hmeets (any_eq_true.mpr ⟨other, hother, hon⟩)
      rw [hnone, filter_cons, if_neg hmeets]
      rfl

end Joins

end Fractonica.Lib.Table
