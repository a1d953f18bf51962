import Fractonica.Trust.Cbor.Theorems

namespace Fractonica.Trust

open Lib List

-- A value that is written within a number of levels and of bytes.
structure Compact (value : CanonicalValue) (levels size : Nat) : Prop where
  canonical : Canonical levels (normalize value)
  size : (encoding (normalize value)).length ≤ size

-- The fields of one array.
structure CompactFields (values : List CanonicalValue) (levels size : Nat) : Prop where
  canonical : ∀ value ∈ values, Canonical levels (normalize value)
  size : ((values.map normalize).flatMap encoding).length ≤ size

-- The entries of one map.
structure CompactEntries (entries : List (CanonicalValue × CanonicalValue)) (levels size : Nat) :
    Prop where
  canonical : ∀ entry ∈ entries,
    Canonical levels (normalize entry.1) ∧ Canonical levels (normalize entry.2)
  size : ((entries.map normalizeEntry).flatMap entryBytes).length ≤ size

variable {value : CanonicalValue} {size : Nat}

theorem length_head_le (major : UInt8) (n : Nat) : (head major n).length ≤ 9 := by
  rw [length_head, length_argumentBytes]
  split_ifs <;> omega

theorem compact_null : Compact .null (levels + 1) 1 := ⟨trivial, le_rfl⟩

theorem compact_bool (value : Bool) : Compact (.bool value) (levels + 1) 1 := by
  cases value <;> exact ⟨trivial, le_rfl⟩

theorem compact_unsigned (value : UInt64) : Compact (.unsigned value) (levels + 1) 9 :=
  ⟨trivial, length_head_le 0 _⟩

theorem compact_integer (value : Int64) : Compact (.integer value) (levels + 1) 9 := by
  by_cases hvalue : 0 ≤ value.toInt
  · have hnormal : normalize (.integer value) = .unsigned (UInt64.ofNat value.toInt.toNat) :=
      if_pos hvalue
    exact ⟨by rw [hnormal]; trivial, by rw [hnormal]; exact length_head_le 0 _⟩
  · have hnormal : normalize (.integer value) = .integer value := if_neg hvalue
    exact ⟨by rw [hnormal]; exact Int.not_le.mp hvalue, by rw [hnormal]; exact length_head_le 1 _⟩

theorem compact_float {bits : UInt64} (h : doubleIsFinite bits = true) :
    Compact (.float bits) (levels + 1) 9 := by
  refine ⟨h, ?_⟩
  change (leadByte 7 (floatCode bits) :: floatBytes bits).length ≤ 9
  rw [length_cons, floatBytes]
  split_ifs <;> simp

theorem compact_bytes {bytes : List UInt8} (h : bytes.length ≤ size)
    (hsize : size < USIZE) : Compact (.bytes bytes) (levels + 1) (size + 9) := by
  refine ⟨Nat.lt_of_le_of_lt h hsize, ?_⟩
  have hhead := length_head_le 2 bytes.length
  change (head 2 bytes.length ++ bytes).length ≤ size + 9
  rw [length_append]
  omega

theorem compact_text {text : String} (h : (utf8Bytes text).length ≤ size)
    (hsize : size < USIZE) : Compact (.text text) (levels + 1) (size + 9) := by
  refine ⟨Nat.lt_of_le_of_lt h hsize, ?_⟩
  have hhead := length_head_le 3 (utf8Bytes text).length
  change (head 3 (utf8Bytes text).length ++ utf8Bytes text).length ≤ size + 9
  rw [length_append]
  omega

theorem Compact.weaken (h : Compact value levels size) (hsize : size ≤ size') :
    Compact value levels size' := ⟨h.canonical, h.size.trans hsize⟩

section Containers

theorem compactFields_nil : CompactFields [] levels 0 := ⟨by simp, le_rfl⟩

theorem Compact.cons (h : Compact value levels size) (hrest : CompactFields values levels size') :
    CompactFields (value :: values) levels (size + size') := by
  refine ⟨forall_mem_cons.mpr ⟨h.canonical, hrest.canonical⟩, ?_⟩
  rw [map_cons, flatMap_cons, length_append]
  exact Nat.add_le_add h.size hrest.size

theorem compactFields_map {α : Type} {items : List α} {encode : α → CanonicalValue}
    {bound : α → Nat} (h : ∀ item ∈ items, Compact (encode item) levels (bound item)) :
    CompactFields (items.map encode) levels (items.map bound).sum := by
  induction items with
  | nil => exact compactFields_nil
  | cons item rest ih =>
    obtain ⟨hitem, hrest⟩ := forall_mem_cons.mp h
    exact hitem.cons (ih hrest)

theorem CompactFields.array (h : CompactFields values levels size)
    (hcount : values.length ≤ MAX_CANONICAL_CONTAINER_ITEMS) :
    Compact (.array values) (levels + 1) (size + 9) := by
  have hhead := length_head_le 4 (values.map normalize).length
  have hsize := h.size
  refine ⟨?_, ?_⟩
  · rw [normalize_array]
    refine ⟨by rwa [length_map], ?_⟩
    intro value hvalue
    obtain ⟨original, horiginal, rfl⟩ := mem_map.mp hvalue
    exact h.canonical original horiginal
  · rw [normalize_array, encoding_array, length_append]
    omega

-- An array with a fixed number of fields.
theorem CompactFields.tuple (h : CompactFields values levels size) (hcount : values.length ≤ 16) :
    Compact (.array values) (levels + 1) (size + 9) :=
  h.array (hcount.trans (by decide))

-- A list of similar values.
theorem compact_array {count : Nat} {α : Type} {items : List α} {encode : α → CanonicalValue}
    (h : ∀ item ∈ items, Compact (encode item) levels size) (hcount : items.length ≤ count)
    (hmost : count ≤ MAX_CANONICAL_CONTAINER_ITEMS) :
    Compact (.array (items.map encode)) (levels + 1) (count * size + 9) := by
  have hlength : (items.map encode).length ≤ MAX_CANONICAL_CONTAINER_ITEMS := by
    rw [length_map]
    exact hcount.trans hmost
  have harray := (compactFields_map h).array hlength
  rw [map_const', sum_replicate_nat] at harray
  exact harray.weaken (Nat.add_le_add_right (Nat.mul_le_mul_right size hcount) 9)

variable {entries : List (CanonicalValue × CanonicalValue)}

theorem length_entries_perm {left right : List (CanonicalValue × CanonicalValue)}
    (h : left.Perm right) : (left.flatMap entryBytes).length = (right.flatMap entryBytes).length :=
  (h.flatMap_right entryBytes).length_eq

-- Keys that differ are strictly ordered once they are sorted.
theorem ascending_keys (hkeys : (entries.map fun entry => encoding entry.1).Nodup) :
    ((entries.insertionSort keyLe).map fun entry => encoding entry.1).Pairwise (· < ·) := by
  have hsorted : (entries.insertionSort keyLe).Pairwise keyLe := pairwise_insertionSort _ _
  have hperm := (perm_insertionSort keyLe entries).map fun entry => encoding entry.1
  have hnodup := hperm.nodup_iff.mpr hkeys
  rw [pairwise_map]
  rw [List.Nodup, pairwise_map] at hnodup
  exact hsorted.imp₂ (fun left right hle hne => lt_of_le_of_ne hle hne) hnodup

theorem compactEntries_map {α : Type} {items : List α}
    {encode : α → CanonicalValue × CanonicalValue} {key bound : α → Nat}
    (hkey : ∀ item ∈ items, Compact (encode item).1 levels (key item))
    (hvalue : ∀ item ∈ items, Compact (encode item).2 levels (bound item)) :
    CompactEntries (items.map encode) levels (items.map fun item => key item + bound item).sum := by
  induction items with
  | nil => exact ⟨by simp, le_rfl⟩
  | cons item rest ih =>
    obtain ⟨hfirst, hkeys⟩ := forall_mem_cons.mp hkey
    obtain ⟨hitem, hvalues⟩ := forall_mem_cons.mp hvalue
    obtain ⟨hcanonical, hsize⟩ := ih hkeys hvalues
    have hone := Nat.add_le_add hfirst.size hitem.size
    refine ⟨forall_mem_cons.mpr ⟨⟨hfirst.canonical, hitem.canonical⟩, hcanonical⟩, ?_⟩
    rw [map_cons, map_cons, flatMap_cons, length_append, map_cons,
      sum_cons]
    refine Nat.add_le_add ?_ hsize
    rwa [normalizeEntry, entryBytes, length_append]

theorem CompactEntries.map (h : CompactEntries entries levels size)
    (hcount : entries.length ≤ MAX_CANONICAL_CONTAINER_ITEMS)
    (hkeys : (entries.map fun entry => encoding (normalize entry.1)).Nodup) :
    Compact (.map entries) (levels + 1) (size + 9) := by
  have hperm := perm_insertionSort keyLe (entries.map normalizeEntry)
  have hlength := length_entries_perm hperm
  have hhead := length_head_le 5 ((entries.map normalizeEntry).insertionSort keyLe).length
  have hsize := h.size
  refine ⟨?_, ?_⟩
  · rw [normalize_map]
    refine ⟨?_, ?_, ascending_keys ?_⟩
    · rwa [length_insertionSort, length_map]
    · intro entry hentry
      obtain ⟨original, horiginal, rfl⟩ := mem_map.mp (hperm.mem_iff.mp hentry)
      exact h.canonical original horiginal
    · rwa [map_map]
  · rw [normalize_map, encoding_map, length_append, hlength]
    omega

end Containers

-- What is compact enough is written.
theorem Compact.written (h : Compact value (MAX_CANONICAL_DEPTH + 1) size)
    (hsize : size ≤ MAX_CANONICAL_BYTES) :
    toCanonicalCbor value = .ok (encoding (normalize value)) :=
  toCanonicalCbor_eq_ok.mpr ⟨h.canonical, rfl, h.size.trans hsize⟩

end Fractonica.Trust
