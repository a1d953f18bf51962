import Fractonica.Replication.Inventory.Theorems
import Mathlib.Algebra.BigOperators.Group.List.Basic
import Mathlib.Data.UInt

namespace Fractonica.Replication

open Lib List

-- A key that has its value already is inserted without effect.
theorem mem_insert_iff {unique : InventoryTree.Unique}
    (h : ∀ existing, (key, existing) ∈ unique.val → existing = digest) :
    (found, value) ∈ SortedMap.insert key digest unique.val ↔
      (found, value) = (key, digest) ∨ (found, value) ∈ unique.val := by
  refine ⟨SortedMap.mem_insert_imp, ?_⟩
  rintro (hnew | hold)
  · rw [hnew]
    exact SortedMap.mem_insert_self _
  · by_cases hkey : found = key
    · subst hkey
      rw [h value hold]
      exact SortedMap.mem_insert_self _
    · exact SortedMap.mem_insert_of_ne hold hkey

-- All entries are collected as long as no key has two values.
theorem collect_eq_ok {unique result : InventoryTree.Unique} :
    InventoryTree.collect entries unique = .ok result ↔ ∀ key value,
      (key, value) ∈ result.val ↔ (key, value) ∈ unique.val ∨ ⟨key, value⟩ ∈ entries := by
  induction entries generalizing unique with
  | nil =>
    simp only [InventoryTree.collect, Except.ok.injEq, not_mem_nil, or_false]
    constructor
    · rintro rfl _ _
      rfl
    · intro h
      have hperm := (perm_ext_iff_of_nodup unique.property.nodup_keys.of_map
        result.property.nodup_keys.of_map).mpr fun entry => (h entry.1 entry.2).symm
      exact Subtype.ext (unique.property.eq_of_perm result.property hperm)
  | cons entry rest ih =>
    have hagree : (¬(unique.val.lookup entry.key).any fun existing =>
        existing ≠ entry.valueDigest) ↔
          ∀ existing, (entry.key, existing) ∈ unique.val → existing = entry.valueDigest := by
      simp only [← unique.property.lookup_eq_some]
      cases unique.val.lookup entry.key <;> simp
    have hstep : (∀ existing, (entry.key, existing) ∈ unique.val →
        existing = entry.valueDigest) → ∀ key value,
          ((key, value) ∈ SortedMap.insert entry.key entry.valueDigest unique.val ∨
            ⟨key, value⟩ ∈ rest ↔ (key, value) ∈ unique.val ∨ ⟨key, value⟩ ∈ entry :: rest) := by
      intro hkept key value
      rw [mem_insert_iff hkept, mem_cons, InventoryEntry.ext_iff, Prod.mk.injEq]
      tauto
    rw [InventoryTree.collect, require_bind_eq_ok, ih, decide_eq_true_eq, hagree]
    constructor
    · rintro ⟨hkept, hresult⟩ key value
      exact (hresult key value).trans (hstep hkept key value)
    · intro hresult
      have hkept : ∀ existing, (entry.key, existing) ∈ unique.val →
          existing = entry.valueDigest := by
        intro existing hold
        have hnew := (hresult entry.key entry.valueDigest).mpr (.inr mem_cons_self)
        have hboth := (hresult entry.key existing).mpr (.inl hold)
        exact congrArg Prod.snd (inj_on_of_nodup_map result.property.nodup_keys hboth hnew rfl)
      exact ⟨hkept, fun key value => (hresult key value).trans (hstep hkept key value).symm⟩

theorem build_eq_ok {tree : InventoryTree} :
    InventoryTree.build namespaceBytes entries = .ok tree ↔
      tree.namespaceBytes = namespaceBytes ∧ ∀ entry, entry ∈ tree.entries ↔ entry ∈ entries := by
  unfold InventoryTree.build
  split_ifs with hnamed
  · rw [bind_eq_ok]
    constructor
    · rintro ⟨unique, hcollect, hvalue⟩
      cases hvalue
      refine ⟨rfl, fun entry => ?_⟩
      have hmem := collect_eq_ok.mp hcollect entry.key entry.valueDigest
      simpa [InventoryEntry.ext_iff] using hmem
    · rintro ⟨rfl, hmem⟩
      refine ⟨⟨tree.entries.map fun entry => (entry.key, entry.valueDigest),
        pairwise_map.mpr tree.sorted⟩, collect_eq_ok.mpr fun key value => ?_, ?_⟩
      · simp only [← hmem, mem_map, Prod.mk.injEq, not_mem_nil, false_or]
        constructor
        · rintro ⟨_, hentry, rfl, rfl⟩
          exact hentry
        · intro hentry
          exact ⟨_, hentry, rfl, rfl⟩
      · cases tree
        simp [Function.comp_def]
  · refine iff_of_false nofun ?_
    rintro ⟨rfl, -⟩
    exact hnamed tree.named

theorem last_digit (key : FixedBytes 32) :
    octalDigit key (MAX_OCTAL_DEPTH - 1) = 0 ∨ octalDigit key (MAX_OCTAL_DEPTH - 1) = 4 := by
  have hbit := bitAt_le key ((MAX_OCTAL_DEPTH - 1) * 3)
  have hnext : bitAt key ((MAX_OCTAL_DEPTH - 1) * 3 + 1) = 0 := if_neg (by decide)
  have hlast : bitAt key ((MAX_OCTAL_DEPTH - 1) * 3 + 2) = 0 := if_neg (by decide)
  rw [← UInt8.toNat_inj, ← UInt8.toNat_inj, toNat_octalDigit, hnext, hlast]
  simp only [UInt8.toNat_zero, UInt8.reduceToNat]
  omega

theorem validatePrefix_eq_ok : validatePrefix path = .ok () ↔
    path.length ≤ MAX_OCTAL_DEPTH ∧ (∀ digit ∈ path, digit.toNat < RADIX) ∧
      (path.length = MAX_OCTAL_DEPTH → path.getLast? = some 0 ∨ path.getLast? = some 4) := by
  simp only [validatePrefix, require_bind_eq_ok, require_eq_ok, decide_eq_true_eq, all_eq_true,
    and_assoc]

-- The digits of the keys below a path lead to valid paths.
theorem validatePrefix_append {tree : InventoryTree} (hpath : validatePrefix path = .ok ())
    (hdepth : path.length + (remaining + 1) = MAX_OCTAL_DEPTH)
    (h : entry ∈ tree.under (path ++ [digit])) : validatePrefix (path ++ [digit]) = .ok () := by
  obtain ⟨-, hdigits, -⟩ := validatePrefix_eq_ok.mp hpath
  obtain ⟨-, rfl⟩ := mem_under_append.mp h
  refine validatePrefix_eq_ok.mpr ⟨?_, ?_, ?_⟩
  · rw [length_append, length_singleton]
    omega
  · exact forall_mem_append.mpr ⟨hdigits, forall_mem_singleton.mpr (octalDigit_lt _ _)⟩
  · intro hlength
    rw [length_append, length_singleton] at hlength
    rw [getLast?_concat, Option.some_inj, Option.some_inj,
      show path.length = MAX_OCTAL_DEPTH - 1 by omega]
    exact last_digit entry.key

section Children

variable {sha256 : List UInt8 → InventoryDigest} {namespaceBytes : List UInt8}

theorem digits_summaryChildren :
    (summaryChildren sha256 namespaceBytes remaining path entries).map (·.digit) =
      digits.filter fun digit => childEntries path entries digit ≠ [] := by
  rw [summaryChildren, map_filterMap, ← filterMap_eq_filter]
  congr 1
  funext digit
  by_cases h : childEntries path entries digit = [] <;> simp [h, Option.guard]

theorem count_summarizeFrom :
    (summarizeFrom sha256 namespaceBytes remaining path entries).count =
      UInt64.ofNat entries.length := by
  cases remaining with
  | zero => rfl
  | succ remaining =>
    rw [summarizeFrom]
    split <;> rfl

-- Every entry is in one of the children.
theorem sum_childEntries (path : List UInt8) (entries : List InventoryEntry) :
    (digits.map fun digit => (childEntries path entries digit).length).sum = entries.length := by
  have hone : ∀ found ∈ digits,
      (digits.map fun digit => if found = digit then 1 else 0).sum = 1 := by decide +kernel
  induction entries with
  | nil => rfl
  | cons entry rest ih =>
    have hlength : ∀ digit, (childEntries path (entry :: rest) digit).length =
        (if octalDigit entry.key path.length = digit then 1 else 0) +
          (childEntries path rest digit).length := by
      intro digit
      by_cases h : octalDigit entry.key path.length = digit <;>
        simp [childEntries, h, Nat.add_comm]
    rw [funext hlength, sum_map_add, ih, length_cons, Nat.add_comm,
      hone _ (mem_digits.mpr (octalDigit_lt entry.key path.length))]

theorem sum_summaryChildren :
    ((summaryChildren sha256 namespaceBytes remaining path entries).map (·.count)).sum =
      UInt64.ofNat entries.length := by
  rw [← sum_childEntries path entries, summaryChildren]
  induction digits with
  | nil => rfl
  | cons digit rest ih =>
    rw [filterMap_cons, map_cons, sum_cons, UInt64.ofNat_add, ← ih]
    by_cases h : childEntries path entries digit = []
    · simp [h]
    · simp [h, count_summarizeFrom]

-- Nothing is left to split at the full depth.
theorem summarizeFrom_more (hdepth : path.length + remaining = MAX_OCTAL_DEPTH)
    (h : Below path entries) (more : Nat) :
    summarizeFrom sha256 namespaceBytes (remaining + more) path entries =
      summarizeFrom sha256 namespaceBytes remaining path entries := by
  induction remaining generalizing path entries with
  | zero =>
    have hsmall : entries.length ≤ BUCKET_CAPACITY := (h.length_le_one hdepth).trans (by decide)
    rw [(summarizeFrom_bucket (.inr hsmall)).1, (summarizeFrom_bucket (.inl rfl)).1]
  | succ remaining ih =>
    have hchild : ∀ digit, summarizeFrom sha256 namespaceBytes (remaining + more) (path ++ [digit])
        (childEntries path entries digit) = summarizeFrom sha256 namespaceBytes remaining
          (path ++ [digit]) (childEntries path entries digit) :=
      fun digit => ih (length_append_digit hdepth) (h.child digit)
    rw [Nat.add_right_comm, summarizeFrom, summarizeFrom]
    simp only [hchild]

end Children

-- A child has the count and the digest of the summary at its own path, the children
-- are those that are not empty, and together they count what is below. The recursion
-- ends by itself at the full depth. The order of the entries and their repetitions do
-- not matter.
theorem inventory_hierarchy (sha256 : List UInt8 → InventoryDigest) :
    (∀ (tree : InventoryTree) path summary, tree.summary sha256 path = .ok summary →
      (∀ child ∈ summary.children, ∃ below,
        tree.summary sha256 (path ++ [child.digit]) = .ok below ∧
          child.count = below.count ∧ child.hash = below.hash) ∧
      (summary.children ≠ [] →
        summary.children.map (·.digit) =
            (digits.filter fun digit => tree.under (path ++ [digit]) ≠ []) ∧
          (summary.children.map (·.count)).sum = summary.count) ∧
      ∀ more, summarizeFrom sha256 tree.namespaceBytes (MAX_OCTAL_DEPTH - path.length + more) path
        (tree.under path) = summary) ∧
    ∀ namespaceBytes entries other, (∀ entry, entry ∈ entries ↔ entry ∈ other) →
      ∀ tree, InventoryTree.build namespaceBytes entries = .ok tree ↔
        InventoryTree.build namespaceBytes other = .ok tree := by
  refine ⟨?_, ?_⟩
  · intro tree path summary hsummary
    obtain ⟨_, hpath, hvalue⟩ := bind_eq_ok.mp hsummary
    cases hvalue
    have hdepth : path.length + (MAX_OCTAL_DEPTH - path.length) = MAX_OCTAL_DEPTH :=
      Nat.add_sub_cancel' (validatePrefix_eq_ok.mp hpath).1
    have hsummaryAt : tree.summarizeEntries sha256 path (tree.under path) =
        summaryAt sha256 tree path := rfl
    have hmore : ∀ more, summarizeFrom sha256 tree.namespaceBytes
        (MAX_OCTAL_DEPTH - path.length + more) path (tree.under path) =
          summaryAt sha256 tree path :=
      fun more => summarizeFrom_more hdepth (below_under tree path) more
    rw [hsummaryAt]
    rcases summaryAt_cases sha256 tree hdepth with
      ⟨hchildren, -⟩ | ⟨less, hless, -, hchildren, -⟩
    · rw [hchildren]
      exact ⟨forall_mem_nil _, fun hne => absurd rfl hne, hmore⟩
    · rw [hless] at hdepth
      rw [hchildren]
      refine ⟨?_, fun _ => ⟨?_, ?_⟩, hmore⟩
      · intro child hchild
        obtain ⟨hdigit, hne, hcount, hhash⟩ := mem_summaryChildren.mp hchild
        rw [← under_append] at hne
        rw [childSummary, ← under_append] at hcount hhash
        obtain ⟨entry, hentry⟩ := exists_mem_of_ne_nil _ hne
        have hvalid := validatePrefix_append hpath hdepth hentry
        refine ⟨summaryAt sha256 tree (path ++ [child.digit]),
          bind_eq_ok.mpr ⟨(), hvalid, rfl⟩, ?_⟩
        rw [summaryAt_eq (length_append_digit hdepth)]
        exact ⟨hcount, hhash⟩
      · simp only [digits_summaryChildren, under_append]
      · rw [sum_summaryChildren]
        exact count_summarizeFrom.symm
  · intro namespaceBytes entries other hsame tree
    rw [build_eq_ok, build_eq_ok]
    simp only [hsame]

end Fractonica.Replication
