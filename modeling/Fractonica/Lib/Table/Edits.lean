import Fractonica.Lib.Table
import Mathlib.Logic.Relation

namespace Fractonica.Lib.Table

open List

variable {Row κ : Type} {clash : Row → Row → Bool} {row : Row} {good : Row → Prop}

-- What the statements on a table may do: `change` relates a row to what an update
-- makes of it, `fresh` says which rows are added.
structure Rules (Row κ : Type) where
  key : Row → κ
  change : Row → Row → Prop
  fresh : Row → Prop

-- One statement. An update keeps the keys, and only a free key is added.
inductive Edit (r : Rules Row κ) : List Row → List Row → Prop
  | update {rows : List Row} (f : Row → Row)
      (h : ∀ row ∈ rows, f row = row ∨ r.key (f row) = r.key row ∧ r.change row (f row)) :
      Edit r rows (rows.map f)
  | insert {rows : List Row} (row : Row) (free : ∀ other ∈ rows, r.key other ≠ r.key row)
      (h : r.fresh row) : Edit r rows (rows ++ [row])

def Edits (r : Rules Row κ) : List Row → List Row → Prop := Relation.ReflTransGen (Edit r)

variable {r : Rules Row κ} {rows new : List Row}

theorem Edits.refl : Edits r rows rows :=
  Relation.ReflTransGen.refl

theorem Edits.trans (h : Edits r rows rows') (h' : Edits r rows' rows'') : Edits r rows rows'' :=
  Relation.ReflTransGen.trans h h'

theorem Edit.edits (h : Edit r rows rows') : Edits r rows rows' :=
  Relation.ReflTransGen.single h

-- An update of the rows that satisfy a condition.
theorem Edits.updateWhere {select : Row → Bool} {update : Row → Row}
    (hkey : ∀ row ∈ rows, select row = true → r.key (update row) = r.key row)
    (hchange : ∀ row ∈ rows, select row = true → r.change row (update row)) :
    Edits r rows (rows.map fun row => if select row then update row else row) := by
  refine (Edit.update _ ?_).edits
  intro row hrow
  by_cases hselect : select row = true
  · simp only [hselect, if_true]
    exact .inr ⟨hkey row hrow hselect, hchange row hrow hselect⟩
  · simp only [hselect, Bool.false_eq_true, if_false]
    exact .inl trivial

theorem Edits.insertOrIgnore
    (hclash : ∀ row other, clash row other = true ↔ r.key row = r.key other)
    (hfresh : r.fresh row) : Edits r rows (insertOrIgnore clash rows row) := by
  rw [Table.insertOrIgnore]
  by_cases htaken : rows.any (clash row) = true
  · rw [if_pos htaken]
    exact .refl
  · rw [if_neg htaken]
    refine (Edit.insert row ?_ hfresh).edits
    intro other hother hkey
    exact htaken (any_eq_true.mpr ⟨other, hother, (hclash row other).mpr hkey.symm⟩)

theorem Edits.insertAllOrIgnore
    (hclash : ∀ row other, clash row other = true ↔ r.key row = r.key other)
    (hfresh : ∀ row ∈ new, r.fresh row) : Edits r rows (insertAllOrIgnore clash rows new) := by
  induction new generalizing rows with
  | nil => exact .refl
  | cons row rest ih =>
    rw [forall_mem_cons] at hfresh
    exact (Edits.insertOrIgnore hclash hfresh.1).trans (ih hfresh.2)

theorem Edit.keys_nodup (h : Edit r rows rows') (hkeys : (rows.map r.key).Nodup) :
    (rows'.map r.key).Nodup := by
  cases h with
  | update f h =>
    have hsame : (rows.map f).map r.key = rows.map r.key := by
      rw [map_map]
      refine map_congr_left fun row hrow => ?_
      rcases h row hrow with heq | ⟨hkey, -⟩
      · rw [Function.comp_apply, heq]
      · exact hkey
    rw [hsame]
    exact hkeys
  | insert row free h =>
    rw [map_append, nodup_append]
    refine ⟨hkeys, nodup_singleton _, ?_⟩
    intro a ha b hb hab
    obtain ⟨other, hother, rfl⟩ := mem_map.mp ha
    rw [map_singleton, mem_singleton] at hb
    exact free other hother (hab.trans hb)

theorem Edits.keys_nodup (h : Edits r rows rows') (hkeys : (rows.map r.key).Nodup) :
    (rows'.map r.key).Nodup := by
  induction h with
  | refl => exact hkeys
  | tail _ hstep ih => exact hstep.keys_nodup ih

-- What new rows have and changes keep, every row has.
theorem Edit.forall_mem (h : Edit r rows rows') (hfresh : ∀ row, r.fresh row → good row)
    (hchange : ∀ row row', r.key row' = r.key row → r.change row row' → good row → good row')
    (hgood : ∀ row ∈ rows, good row) : ∀ row ∈ rows', good row := by
  cases h with
  | update f h =>
    intro row' hrow'
    obtain ⟨row, hrow, rfl⟩ := mem_map.mp hrow'
    rcases h row hrow with heq | ⟨hkey, hstep⟩
    · rw [heq]
      exact hgood row hrow
    · exact hchange row _ hkey hstep (hgood row hrow)
  | insert row free h =>
    intro other hother
    rcases mem_append.mp hother with hother | hother
    · exact hgood other hother
    · rw [mem_singleton.mp hother]
      exact hfresh row h

theorem Edits.forall_mem (h : Edits r rows rows') (hfresh : ∀ row, r.fresh row → good row)
    (hchange : ∀ row row', r.key row' = r.key row → r.change row row' → good row → good row')
    (hgood : ∀ row ∈ rows, good row) : ∀ row ∈ rows', good row := by
  induction h with
  | refl => exact hgood
  | tail _ hstep ih => exact hstep.forall_mem hfresh hchange ih

theorem Edit.kept (h : Edit r rows rows') (hrow : row ∈ rows) :
    ∃ row' ∈ rows', r.key row' = r.key row ∧ (row' = row ∨ r.change row row') := by
  cases h with
  | update f h =>
    refine ⟨f row, mem_map_of_mem hrow, ?_⟩
    rcases h row hrow with heq | ⟨hkey, hstep⟩
    · rw [heq]
      exact ⟨rfl, .inl rfl⟩
    · exact ⟨hkey, .inr hstep⟩
  | insert other free h => exact ⟨row, mem_append_left _ hrow, rfl, .inl rfl⟩

-- No row is lost, and what changes keep of a row is kept.
theorem Edits.kept (stable : Row → Prop) (h : Edits r rows rows')
    (hstable : ∀ row row', r.change row row' → stable row → stable row') (hrow : row ∈ rows) :
    ∃ row' ∈ rows', r.key row' = r.key row ∧ (stable row → stable row') := by
  induction h with
  | refl => exact ⟨row, hrow, rfl, id⟩
  | tail _ hstep ih =>
    obtain ⟨middle, hmiddle, hkey, himplies⟩ := ih
    obtain ⟨row', hrow', hkey', heq | hchange⟩ := hstep.kept hmiddle
    · subst heq
      exact ⟨row', hrow', hkey, himplies⟩
    · exact ⟨row', hrow', hkey'.trans hkey, fun h => hstable _ _ hchange (himplies h)⟩

end Fractonica.Lib.Table
