import Fractonica.Replication.Inventory
import Mathlib.Data.List.Nodup
import Mathlib.Data.Set.Function

namespace Fractonica.Replication

open Lib List

-- The bits of a key, followed by zeros.
def bitAt (key : FixedBytes 32) (bit : Nat) : Nat :=
  if bit < 256 then (key.bytes[bit / 8]?.getD 0).toNat / 2 ^ (7 - bit % 8) % 2 else 0

theorem bitAt_le (key : FixedBytes 32) (bit : Nat) : bitAt key bit ≤ 1 := by
  unfold bitAt
  split
  · omega
  · omega

theorem toNat_keyBit {key : FixedBytes 32} (hbit : bit < 256) :
    (keyBit key bit).toNat = bitAt key bit := by
  have hshift : (UInt8.ofNat (7 - bit % 8)).toNat = 7 - bit % 8 :=
    UInt8.toNat_ofNat_of_lt' (by simp [UInt8.size]; omega)
  rw [bitAt, if_pos hbit, keyBit, UInt8.toNat_and, UInt8.toNat_shiftRight, hshift,
    Nat.mod_eq_of_lt (show 7 - bit % 8 < 8 by omega), Nat.shiftRight_eq_div_pow]
  exact Nat.and_two_pow_sub_one_eq_mod _ 1

-- One round of the loop over the bits of a digit.
def shiftBit (key : FixedBytes 32) (digit : UInt8) (bit : Nat) : UInt8 :=
  if bit < KEY_BYTES * 8 then (digit <<< 1) ||| keyBit key bit else digit <<< 1

theorem toNat_shiftBit {key : FixedBytes 32} (hdigit : digit.toNat < 128) :
    (shiftBit key digit bit).toNat = 2 * digit.toNat + bitAt key bit := by
  have hshift : (digit <<< 1).toNat = 2 ^ 1 * digit.toNat := by
    rw [UInt8.toNat_shiftLeft, Nat.shiftLeft_eq]
    change digit.toNat * 2 ^ 1 % 2 ^ 8 = 2 ^ 1 * digit.toNat
    omega
  have hle := bitAt_le key bit
  unfold shiftBit
  by_cases hbit : bit < KEY_BYTES * 8
  · rw [if_pos hbit, UInt8.toNat_or, hshift, toNat_keyBit hbit,
      ← Nat.two_pow_add_eq_or_of_lt (by omega)]
  · have hzero : bitAt key bit = 0 := if_neg hbit
    rw [if_neg hbit, hshift, hzero]
    omega

theorem toNat_octalDigit (key : FixedBytes 32) (depth : Nat) :
    (octalDigit key depth).toNat = 4 * bitAt key (depth * 3) + 2 * bitAt key (depth * 3 + 1) +
      bitAt key (depth * 3 + 2) := by
  have h₀ := bitAt_le key (depth * 3)
  have h₁ := bitAt_le key (depth * 3 + 1)
  let first := shiftBit key 0 (depth * 3)
  let second := shiftBit key first (depth * 3 + 1)
  have hfirst : first.toNat = 2 * 0 + bitAt key (depth * 3) := toNat_shiftBit (by decide)
  have hsecond : second.toNat = 2 * first.toNat + bitAt key (depth * 3 + 1) :=
    toNat_shiftBit (by omega)
  have hdigit : octalDigit key depth = shiftBit key second (depth * 3 + 2) := rfl
  rw [hdigit, toNat_shiftBit (by omega)]
  omega

theorem octalDigit_lt (key : FixedBytes 32) (depth : Nat) : (octalDigit key depth).toNat < 8 := by
  have h₀ := bitAt_le key (depth * 3)
  have h₁ := bitAt_le key (depth * 3 + 1)
  have h₂ := bitAt_le key (depth * 3 + 2)
  rw [toNat_octalDigit]
  omega

theorem mem_digits : digit ∈ digits ↔ digit.toNat < 8 := by
  rw [digits, mem_map]
  constructor
  · rintro ⟨n, hn, rfl⟩
    exact lt_of_le_of_lt (Nat.mod_le _ _) (mem_range.mp hn)
  · intro h
    exact ⟨digit.toNat, mem_range.mpr h, UInt8.ofNat_toNat⟩

-- The digits are the whole key.
theorem key_ext
    (h : ∀ depth < MAX_OCTAL_DEPTH, octalDigit a depth = octalDigit b depth) : a = b := by
  have hbits : ∀ bit < 256, bitAt a bit = bitAt b bit := by
    intro bit hbit
    have hdigit := h (bit / 3) (by unfold MAX_OCTAL_DEPTH; omega)
    rw [← UInt8.toNat_inj, toNat_octalDigit, toNat_octalDigit] at hdigit
    have ha₁ := bitAt_le a (bit / 3 * 3 + 1)
    have ha₂ := bitAt_le a (bit / 3 * 3 + 2)
    have hb₁ := bitAt_le b (bit / 3 * 3 + 1)
    have hb₂ := bitAt_le b (bit / 3 * 3 + 2)
    rcases (by omega : bit = bit / 3 * 3 ∨ bit = bit / 3 * 3 + 1 ∨ bit = bit / 3 * 3 + 2) with
      hbit | hbit | hbit <;> rw [hbit] <;> omega
  apply FixedBytes.ext
  apply ext_getElem (by rw [a.length_eq, b.length_eq])
  intro index ha hb
  have hindex : index < 32 := by
    rw [← a.length_eq]
    exact ha
  have hbyte : ∀ offset < 8, a.bytes[index].toNat / 2 ^ (7 - offset) % 2 =
      b.bytes[index].toNat / 2 ^ (7 - offset) % 2 := by
    intro offset hoffset
    have hbit := hbits (index * 8 + offset) (by omega)
    rw [bitAt, bitAt, if_pos (by omega), if_pos (by omega),
      show (index * 8 + offset) / 8 = index by omega,
      show (index * 8 + offset) % 8 = offset by omega, getElem?_eq_getElem ha,
      getElem?_eq_getElem hb] at hbit
    exact hbit
  rw [← UInt8.toNat_inj]
  apply Nat.eq_of_testBit_eq
  intro bit
  by_cases hbit : bit < 8
  · have hsame := hbyte (7 - bit) (by omega)
    rw [show 7 - (7 - bit) = bit by omega] at hsame
    rw [Nat.testBit_eq_decide_div_mod_eq, Nat.testBit_eq_decide_div_mod_eq, hsame]
  · have hpower : 2 ^ 8 ≤ 2 ^ bit := Nat.pow_le_pow_right (by decide) (Nat.not_lt.mp hbit)
    rw [Nat.testBit_lt_two_pow (lt_of_lt_of_le a.bytes[index].toNat_lt hpower),
      Nat.testBit_lt_two_pow (lt_of_lt_of_le b.bytes[index].toNat_lt hpower)]

section Paths

theorem length_append_digit {path : List UInt8}
    (h : path.length + (remaining + 1) = MAX_OCTAL_DEPTH) :
    (path ++ [digit]).length + remaining = MAX_OCTAL_DEPTH := by
  rw [length_append, length_singleton]
  omega

theorem keyHasPrefix_append :
    keyHasPrefix key (path ++ [digit]) = true ↔
      keyHasPrefix key path = true ∧ octalDigit key path.length = digit := by
  simp [keyHasPrefix, zipIdx_append]

theorem octalDigit_of_keyHasPrefix (h : keyHasPrefix key path = true) {depth : Nat}
    (hdepth : depth < path.length) : octalDigit key depth = path[depth] := by
  rw [keyHasPrefix, all_eq_true] at h
  have hmem : (path[depth], depth) ∈ path.zipIdx :=
    mem_zipIdx_iff_getElem?.mpr (getElem?_eq_getElem hdepth)
  exact of_decide_eq_true (h _ hmem)

-- At the full depth a path is a key.
theorem key_eq_of_keyHasPrefix (hlength : path.length = MAX_OCTAL_DEPTH)
    (ha : keyHasPrefix a path = true) (hb : keyHasPrefix b path = true) : a = b := by
  apply key_ext
  intro depth hdepth
  rw [← hlength] at hdepth
  rw [octalDigit_of_keyHasPrefix ha hdepth, octalDigit_of_keyHasPrefix hb hdepth]

-- Entries below a path, in the order of their keys.
structure Below (path : List UInt8) (entries : List InventoryEntry) : Prop where
  sorted : entries.Pairwise fun left right => left.key < right.key
  under : ∀ entry ∈ entries, keyHasPrefix entry.key path = true

variable {entries : List InventoryEntry} {key : FixedBytes 32}

theorem Below.child (h : Below path entries) (digit : UInt8) :
    Below (path ++ [digit]) (childEntries path entries digit) := by
  refine ⟨h.sorted.filter _, ?_⟩
  intro entry hentry
  obtain ⟨hmem, hdigit⟩ := mem_filter.mp hentry
  exact keyHasPrefix_append.mpr ⟨h.under entry hmem, of_decide_eq_true hdigit⟩

theorem Below.length_le_one (h : Below path entries) (hlength : path.length = MAX_OCTAL_DEPTH) :
    entries.length ≤ 1 := by
  cases entries with
  | nil => exact Nat.zero_le 1
  | cons first rest =>
    cases rest with
    | nil => exact Nat.le_refl 1
    | cons second rest =>
      have hlt := (pairwise_cons.mp h.sorted).1 second (by simp)
      have heq := key_eq_of_keyHasPrefix hlength (h.under first (by simp))
        (h.under second (by simp))
      exact absurd hlt (by rw [heq]; exact lt_irrefl _)

-- Sorted entries are determined by their members.
theorem Below.ext (h : Below path entries) (h' : Below path other)
    (hmem : ∀ entry, entry ∈ entries ↔ entry ∈ other) : entries = other := by
  have hnodup : ∀ {list : List InventoryEntry},
      list.Pairwise (fun left right => left.key < right.key) → list.Nodup := by
    intro list hlist
    exact hlist.imp fun hlt heq => absurd hlt (by rw [heq]; exact lt_irrefl _)
  have hperm : entries.Perm other :=
    (perm_ext_iff_of_nodup (hnodup h.sorted) (hnodup h'.sorted)).mpr hmem
  exact hperm.eq_of_pairwise (fun _ _ _ _ hlt hgt => absurd hgt (lt_asymm hlt)) h.sorted h'.sorted

theorem mem_of_childEntries
    (h : ∀ digit ∈ digits, childEntries path entries digit = childEntries path other digit)
    (entry : InventoryEntry) : entry ∈ entries ↔ entry ∈ other := by
  have hmem : ∀ list, entry ∈ list ↔
      entry ∈ childEntries path list (octalDigit entry.key path.length) := by
    simp [childEntries]
  rw [hmem entries, hmem other, h _ (mem_digits.mpr (octalDigit_lt _ _))]

end Paths

section Inputs

theorem digestInput_inj {count : UInt64} {namespaceBytes : List UInt8}
    (h : digestInput domain namespaceBytes path count payload =
      digestInput domain namespaceBytes path count' payload') : payload = payload' := by
  simp only [digestInput, append_cancel_left_eq] at h
  exact (append_inj h (by rw [length_toBE, length_toBE])).2

theorem digestInput_empty_ne {count : UInt64} {namespaceBytes : List UInt8} :
    digestInput EMPTY_DOMAIN namespaceBytes path count payload ≠
      digestInput NODE_DOMAIN namespaceBytes path count' payload' := by
  intro h
  have hbyte := congrArg (fun bytes => bytes[21]?) h
  simp only [digestInput] at hbyte
  rw [getElem?_append_left (by decide), getElem?_append_left (by decide)] at hbyte
  exact absurd hbyte (by decide)

theorem leafInput_inj {namespaceBytes : List UInt8}
    (h : leafInput namespaceBytes a = leafInput namespaceBytes b) : a = b := by
  simp only [leafInput, append_cancel_left_eq] at h
  obtain ⟨hkey, hvalue⟩ := append_inj h (by rw [a.key.length_eq, b.key.length_eq])
  exact InventoryEntry.ext (FixedBytes.ext hkey) (FixedBytes.ext hvalue)

theorem length_childBytes (child : InventoryChild) : (childBytes child).length = 41 := by
  rw [childBytes, length_cons, length_append, length_toBE, child.hash.length_eq]

theorem childBytes_inj (h : childBytes a = childBytes b) : a.digit = b.digit ∧ a.hash = b.hash := by
  obtain ⟨hdigit, hrest⟩ := List.cons.inj h
  exact ⟨hdigit, FixedBytes.ext (append_inj hrest (by rw [length_toBE, length_toBE])).2⟩

variable (sha256 : List UInt8 → InventoryDigest) (namespaceBytes : List UInt8)
  {count count' : UInt64} {payload payload' : List UInt8} {digit : UInt8} {entry : InventoryEntry}

-- What the hash of a bucket is computed from.
def bucketInputs (path : List UInt8) (entries : List InventoryEntry) : List (List UInt8) :=
  if entries.isEmpty then [digestInput EMPTY_DOMAIN namespaceBytes path 0 []]
  else digestInput NODE_DOMAIN namespaceBytes path (UInt64.ofNat entries.length)
      (leaves sha256 namespaceBytes entries) :: entries.map (leafInput namespaceBytes)

def summaryChildren (remaining : Nat) (path : List UInt8) (entries : List InventoryEntry) :
    List InventoryChild :=
  digits.filterMap fun digit =>
    if (childEntries path entries digit).isEmpty then none
    else
      let child := summarizeFrom sha256 namespaceBytes remaining (path ++ [digit])
        (childEntries path entries digit)
      some { digit, count := child.count, hash := child.hash }

abbrev childSummary (remaining : Nat) (path : List UInt8) (entries : List InventoryEntry)
    (digit : UInt8) : InventorySummary :=
  summarizeFrom sha256 namespaceBytes remaining (path ++ [digit]) (childEntries path entries digit)

-- Everything that is hashed for a summary, down to its leaves.
def hashedInputs : Nat → List UInt8 → List InventoryEntry → List (List UInt8)
  | 0, path, entries => bucketInputs sha256 namespaceBytes path entries
  | remaining + 1, path, entries =>
    if entries.length ≤ BUCKET_CAPACITY then bucketInputs sha256 namespaceBytes path entries
    else
      digestInput NODE_DOMAIN namespaceBytes path (UInt64.ofNat entries.length)
          ((summaryChildren sha256 namespaceBytes remaining path entries).flatMap childBytes) ::
        digits.flatMap fun digit =>
          if (childEntries path entries digit).isEmpty then []
          else hashedInputs remaining (path ++ [digit]) (childEntries path entries digit)

variable {sha256 namespaceBytes} {entries other : List InventoryEntry}

-- A summary is a bucket or a node with the summaries of its children.
theorem summarizeFrom_bucket (h : remaining = 0 ∨ entries.length ≤ BUCKET_CAPACITY) :
    summarizeFrom sha256 namespaceBytes remaining path entries =
        bucket sha256 namespaceBytes path entries ∧
      hashedInputs sha256 namespaceBytes remaining path entries =
        bucketInputs sha256 namespaceBytes path entries := by
  cases remaining with
  | zero => exact ⟨rfl, rfl⟩
  | succ remaining =>
    have hsmall : entries.length ≤ BUCKET_CAPACITY := by
      rcases h with h | h
      · omega
      · exact h
    rw [summarizeFrom, if_pos hsmall, hashedInputs, if_pos hsmall]
    exact ⟨rfl, rfl⟩

theorem summarizeFrom_node (h : ¬entries.length ≤ BUCKET_CAPACITY) :
    (summarizeFrom sha256 namespaceBytes (remaining + 1) path entries).hash =
        nodeHash sha256 namespaceBytes path (UInt64.ofNat entries.length)
          (summaryChildren sha256 namespaceBytes remaining path entries) ∧
      (summarizeFrom sha256 namespaceBytes (remaining + 1) path entries).children =
        summaryChildren sha256 namespaceBytes remaining path entries := by
  rw [summarizeFrom, if_neg h]
  exact ⟨rfl, rfl⟩

theorem mem_hashedInputs_node (h : ¬entries.length ≤ BUCKET_CAPACITY) :
    digestInput NODE_DOMAIN namespaceBytes path (UInt64.ofNat entries.length)
        ((summaryChildren sha256 namespaceBytes remaining path entries).flatMap childBytes) ∈
      hashedInputs sha256 namespaceBytes (remaining + 1) path entries := by
  rw [hashedInputs, if_neg h]
  exact mem_cons_self

theorem mem_hashedInputs_child (h : ¬entries.length ≤ BUCKET_CAPACITY) (hdigit : digit ∈ digits)
    (hne : childEntries path entries digit ≠ [])
    (hinput : input ∈ hashedInputs sha256 namespaceBytes remaining (path ++ [digit])
      (childEntries path entries digit)) :
    input ∈ hashedInputs sha256 namespaceBytes (remaining + 1) path entries := by
  rw [hashedInputs, if_neg h]
  refine mem_cons_of_mem _ (mem_flatMap.mpr ⟨digit, hdigit, ?_⟩)
  rw [if_neg (by simpa using hne)]
  exact hinput

theorem mem_childEntries :
    entry ∈ childEntries path entries digit ↔
      entry ∈ entries ∧ octalDigit entry.key path.length = digit := by
  rw [childEntries, mem_filter, decide_eq_true_eq]

theorem mem_summaryChildren {child : InventoryChild} :
    child ∈ summaryChildren sha256 namespaceBytes remaining path entries ↔
      child.digit ∈ digits ∧ childEntries path entries child.digit ≠ [] ∧
        child.count = (childSummary sha256 namespaceBytes remaining path entries
          child.digit).count ∧
        child.hash = (childSummary sha256 namespaceBytes remaining path entries
          child.digit).hash := by
  rw [summaryChildren, mem_filterMap]
  constructor
  · rintro ⟨digit, hdigit, hchild⟩
    split at hchild
    · cases hchild
    · rename_i hempty
      rw [Option.some_inj] at hchild
      subst hchild
      exact ⟨hdigit, by simpa using hempty, rfl, rfl⟩
  · rintro ⟨hdigit, hne, hcount, hhash⟩
    refine ⟨child.digit, hdigit, ?_⟩
    rw [if_neg (by simpa using hne), Option.some_inj, ← hcount, ← hhash]

theorem summaryChild_mem (hdigit : digit ∈ digits) (hne : childEntries path entries digit ≠ []) :
    let child := childSummary sha256 namespaceBytes remaining path entries digit
    ⟨digit, child.count, child.hash⟩ ∈
      summaryChildren sha256 namespaceBytes remaining path entries :=
  mem_summaryChildren.mpr ⟨hdigit, hne, rfl, rfl⟩

-- Every entry is below one of the children.
theorem exists_summaryChild (sha256 : List UInt8 → InventoryDigest) (namespaceBytes : List UInt8)
    (remaining : Nat) (path : List UInt8) (h : entry ∈ entries) :
    ∃ child ∈ summaryChildren sha256 namespaceBytes remaining path entries,
      child.digit = octalDigit entry.key path.length :=
  ⟨_, summaryChild_mem (mem_digits.mpr (octalDigit_lt _ _))
    (ne_nil_of_mem (mem_childEntries.mpr ⟨h, rfl⟩)), rfl⟩

theorem summaryChildren_ne_nil (h : ¬entries.length ≤ BUCKET_CAPACITY) :
    summaryChildren sha256 namespaceBytes remaining path entries ≠ [] := by
  cases entries with
  | nil => exact absurd (Nat.zero_le _) h
  | cons entry rest =>
    obtain ⟨child, hchild, -⟩ := exists_summaryChild sha256 namespaceBytes remaining path
      (mem_cons_self : entry ∈ entry :: rest)
    exact ne_nil_of_mem hchild

end Inputs

section Soundness

variable {sha256 : List UInt8 → InventoryDigest} {namespaceBytes : List UInt8}
  {entries : List InventoryEntry}

-- No two inputs of the two summaries have one digest.
def CollisionFree (sha256 : List UInt8 → InventoryDigest) (left right : List (List UInt8)) :
    Prop :=
  Set.InjOn sha256 { input | input ∈ left ∨ input ∈ right }

theorem CollisionFree.child (h : CollisionFree sha256
      (hashedInputs sha256 namespaceBytes (remaining + 1) path entries)
      (hashedInputs sha256 namespaceBytes (remaining + 1) path other))
    (hlarge : ¬entries.length ≤ BUCKET_CAPACITY) (hlarge' : ¬other.length ≤ BUCKET_CAPACITY)
    (hdigit : digit ∈ digits) (hne : childEntries path entries digit ≠ [])
    (hne' : childEntries path other digit ≠ []) :
    CollisionFree sha256
      (hashedInputs sha256 namespaceBytes remaining (path ++ [digit])
        (childEntries path entries digit))
      (hashedInputs sha256 namespaceBytes remaining (path ++ [digit])
        (childEntries path other digit)) := by
  refine h.mono ?_
  rintro input (hleft | hright)
  · exact .inl (mem_hashedInputs_child hlarge hdigit hne hleft)
  · exact .inr (mem_hashedInputs_child hlarge' hdigit hne' hright)

-- Replayed digests do not collide if they are distinct and all inputs recorded.
theorem collisionFree_of_recorded {recorded : List (List UInt8 × InventoryDigest)}
    {left right : List (List UInt8)} (hdistinct : (recorded.map Prod.snd).Nodup)
    (hrecorded : ∀ input ∈ left ++ right, (recorded.lookup input).isSome = true) :
    CollisionFree (fun input => (recorded.lookup input).getD absent) left right := by
  have hlookup : ∀ input, input ∈ left ∨ input ∈ right →
      ∃ digest, (input, digest) ∈ recorded ∧ (recorded.lookup input).getD absent = digest := by
    intro input hinput
    obtain ⟨digest, hdigest⟩ :=
      Option.isSome_iff_exists.mp (hrecorded input (mem_append.mpr hinput))
    obtain ⟨before, after, hsplit, -⟩ := lookup_eq_some_iff.mp hdigest
    refine ⟨digest, ?_, by rw [hdigest, Option.getD_some]⟩
    rw [hsplit]
    exact mem_append_right _ mem_cons_self
  intro a ha b hb heq
  obtain ⟨digest, hmem, hdigest⟩ := hlookup a ha
  obtain ⟨digest', hmem', hdigest'⟩ := hlookup b hb
  have hsame : digest = digest' := hdigest.symm.trans (heq.trans hdigest')
  exact congrArg Prod.fst (inj_on_of_nodup_map hdistinct hmem hmem' hsame)

theorem leaves_inj (hfree : ∀ a ∈ entries, ∀ b ∈ other,
      sha256 (leafInput namespaceBytes a) = sha256 (leafInput namespaceBytes b) →
        leafInput namespaceBytes a = leafInput namespaceBytes b)
    (h : leaves sha256 namespaceBytes entries = leaves sha256 namespaceBytes other) :
    entries = other := by
  have hmap := map_eq_of_flatMap_eq (by decide)
    (fun entry => (sha256 (leafInput namespaceBytes entry)).length_eq) h
  have hlength : entries.length = other.length := by
    simpa using congrArg List.length hmap
  apply ext_getElem hlength
  intro index hleft hright
  have hdigest : (sha256 (leafInput namespaceBytes entries[index])).bytes =
      (sha256 (leafInput namespaceBytes other[index])).bytes := by
    have hget := congrArg (fun list => list[index]?) hmap
    simpa [getElem?_eq_getElem hleft, getElem?_eq_getElem hright] using hget
  exact leafInput_inj (hfree _ (getElem_mem hleft) _ (getElem_mem hright)
    (FixedBytes.ext hdigest))

theorem bucketHash_inj (hfree : CollisionFree sha256
      (bucketInputs sha256 namespaceBytes path entries)
      (bucketInputs sha256 namespaceBytes path other))
    (h : bucketHash sha256 namespaceBytes path entries =
      bucketHash sha256 namespaceBytes path other) : entries = other := by
  cases entries with
  | nil =>
    cases other with
    | nil => rfl
    | cons entry rest =>
      exact absurd (hfree (.inl mem_cons_self) (.inr mem_cons_self) h) digestInput_empty_ne
  | cons first others =>
    cases other with
    | nil =>
      exact absurd (hfree (.inr mem_cons_self) (.inl mem_cons_self) h.symm) digestInput_empty_ne
    | cons entry rest =>
      refine leaves_inj ?_ (digestInput_inj (hfree (.inl mem_cons_self) (.inr mem_cons_self) h))
      intro a ha b hb hdigest
      exact hfree (.inl (mem_cons_of_mem _ (mem_map_of_mem ha)))
        (.inr (mem_cons_of_mem _ (mem_map_of_mem hb))) hdigest

-- A bucket and a node have payloads of different lengths.
theorem bucketHash_ne_nodeHash {count : UInt64} (hsmall : entries.length ≤ BUCKET_CAPACITY)
    (hfree : ∀ input ∈ bucketInputs sha256 namespaceBytes path entries,
      sha256 input = nodeHash sha256 namespaceBytes path count children →
        input = digestInput NODE_DOMAIN namespaceBytes path count (children.flatMap childBytes)) :
    bucketHash sha256 namespaceBytes path entries ≠
      nodeHash sha256 namespaceBytes path count children := by
  intro h
  cases entries with
  | nil => exact absurd (hfree _ mem_cons_self h) digestInput_empty_ne
  | cons entry rest =>
    have hpayload := congrArg List.length (digestInput_inj (hfree _ mem_cons_self h))
    rw [leaves, length_flatMap_eq
      (fun entry => (sha256 (leafInput namespaceBytes entry)).length_eq),
      length_flatMap_eq length_childBytes] at hpayload
    rw [length_cons] at hsmall hpayload
    unfold BUCKET_CAPACITY at hsmall
    omega

-- Equal children have equal digits and digests.
theorem childEntries_transfer
    (h : (summaryChildren sha256 namespaceBytes remaining path entries).map childBytes =
      (summaryChildren sha256 namespaceBytes remaining path other).map childBytes)
        (hdigit : digit ∈ digits) (hne : childEntries path entries digit ≠ []) :
    childEntries path other digit ≠ [] ∧
      (childSummary sha256 namespaceBytes remaining path entries digit).hash =
        (childSummary sha256 namespaceBytes remaining path other digit).hash := by
  have hbytes : childBytes _ ∈
      (summaryChildren sha256 namespaceBytes remaining path entries).map childBytes :=
    mem_map_of_mem (summaryChild_mem hdigit hne)
  rw [h] at hbytes
  obtain ⟨child, hmem, heq⟩ := mem_map.mp hbytes
  obtain ⟨hsame, hhash⟩ := childBytes_inj heq
  obtain ⟨-, hne', -, hchildHash⟩ := mem_summaryChildren.mp hmem
  rw [hsame] at hne' hchildHash
  exact ⟨hne', hhash.symm.trans hchildHash⟩

-- The digest of a summary determines the entries below it; by induction on
-- the depth that remains.
theorem entries_eq_of_hash_eq (hdepth : path.length + remaining = MAX_OCTAL_DEPTH)
    (hentries : Below path entries) (hother : Below path other)
    (hfree : CollisionFree sha256 (hashedInputs sha256 namespaceBytes remaining path entries)
      (hashedInputs sha256 namespaceBytes remaining path other))
    (h : (summarizeFrom sha256 namespaceBytes remaining path entries).hash =
      (summarizeFrom sha256 namespaceBytes remaining path other).hash) : entries = other := by
  induction remaining generalizing path entries other with
  | zero => exact bucketHash_inj hfree h
  | succ remaining ih =>
    by_cases hsmall : entries.length ≤ BUCKET_CAPACITY
    · rw [(summarizeFrom_bucket (.inr hsmall)).1] at h
      rw [(summarizeFrom_bucket (.inr hsmall)).2] at hfree
      by_cases hsmall' : other.length ≤ BUCKET_CAPACITY
      · rw [(summarizeFrom_bucket (.inr hsmall')).1] at h
        rw [(summarizeFrom_bucket (.inr hsmall')).2] at hfree
        exact bucketHash_inj hfree h
      · rw [(summarizeFrom_node hsmall').1] at h
        refine absurd h (bucketHash_ne_nodeHash hsmall ?_)
        intro input hinput hdigest
        exact hfree (.inl hinput) (.inr (mem_hashedInputs_node hsmall')) hdigest
    · rw [(summarizeFrom_node hsmall).1] at h
      by_cases hsmall' : other.length ≤ BUCKET_CAPACITY
      · rw [(summarizeFrom_bucket (.inr hsmall')).1] at h
        rw [(summarizeFrom_bucket (.inr hsmall')).2] at hfree
        refine absurd h.symm (bucketHash_ne_nodeHash hsmall' ?_)
        intro input hinput hdigest
        exact hfree (.inr hinput) (.inl (mem_hashedInputs_node hsmall)) hdigest
      · rw [(summarizeFrom_node hsmall').1] at h
        have hinput := hfree (.inl (mem_hashedInputs_node hsmall))
          (.inr (mem_hashedInputs_node hsmall')) h
        have hchildren := map_eq_of_flatMap_eq (by decide) length_childBytes
          (digestInput_inj hinput)
        have hsame : ∀ digit ∈ digits,
            childEntries path entries digit = childEntries path other digit := by
          intro digit hdigit
          by_cases hne : childEntries path entries digit = []
          · by_cases hne' : childEntries path other digit = []
            · rw [hne, hne']
            · exact absurd hne (childEntries_transfer hchildren.symm hdigit hne').1
          · obtain ⟨hne', hhash⟩ := childEntries_transfer hchildren hdigit hne
            exact ih (length_append_digit hdepth) (hentries.child digit) (hother.child digit)
              (hfree.child hsmall hsmall' hdigit hne hne') hhash
        exact hentries.ext hother (mem_of_childEntries hsame)

end Soundness

section Descent

variable (sha256 : List UInt8 → InventoryDigest) (left right : InventoryTree)
  {entry : InventoryEntry} {digit : UInt8}

def symmetricDifference (xs ys : List InventoryEntry) : List InventoryEntry :=
  xs.filter (fun entry => entry ∉ ys) ++ ys.filter (fun entry => entry ∉ xs)

-- The summary of a path that is known to be valid.
def summaryAt (tree : InventoryTree) (path : List UInt8) : InventorySummary :=
  tree.summarizeEntries sha256 path (tree.under path)

-- All entries below a path, read from summaries.
def gather (tree : InventoryTree) : Nat → List UInt8 → List InventoryEntry
  | 0, path => (summaryAt sha256 tree path).entries
  | remaining + 1, path =>
    let summary := summaryAt sha256 tree path
    if summary.children.isEmpty then summary.entries
    else summary.children.flatMap fun child => gather tree remaining (path ++ [child.digit])

def childHash (summary : InventorySummary) (digit : UInt8) : Option InventoryDigest :=
  (summary.children.find? fun child => child.digit = digit).map InventoryChild.hash

-- The comparison of two trees by their summaries, which leaves out the
-- children whose digests are the same.
def descend : Nat → List UInt8 → List InventoryEntry
  | 0, path => symmetricDifference (gather sha256 left 0 path) (gather sha256 right 0 path)
  | remaining + 1, path =>
    if (summaryAt sha256 left path).children.isEmpty ∨
        (summaryAt sha256 right path).children.isEmpty then
      symmetricDifference (gather sha256 left (remaining + 1) path)
        (gather sha256 right (remaining + 1) path)
    else
      digits.flatMap fun digit =>
        if childHash (summaryAt sha256 left path) digit =
            childHash (summaryAt sha256 right path) digit then []
        else descend remaining (path ++ [digit])

def differences (path : List UInt8) : List InventoryEntry :=
  if (summaryAt sha256 left path).hash = (summaryAt sha256 right path).hash then []
  else descend sha256 left right (MAX_OCTAL_DEPTH - path.length) path

variable {sha256 left right} {tree : InventoryTree}

theorem below_under (tree : InventoryTree) (path : List UInt8) : Below path (tree.under path) :=
  ⟨tree.sorted.filter _, fun _ hentry => (mem_filter.mp hentry).2⟩

theorem under_append (tree : InventoryTree) (path : List UInt8) (digit : UInt8) :
    tree.under (path ++ [digit]) = childEntries path (tree.under path) digit := by
  rw [InventoryTree.under, InventoryTree.under, childEntries, filter_filter]
  refine filter_congr fun entry _ => ?_
  rw [Bool.eq_iff_iff, keyHasPrefix_append, Bool.and_eq_true, decide_eq_true_eq, and_comm]

theorem mem_under_append :
    entry ∈ tree.under (path ++ [digit]) ↔
      entry ∈ tree.under path ∧ octalDigit entry.key path.length = digit := by
  rw [under_append, mem_childEntries]

theorem summaryAt_eq (hdepth : path.length + remaining = MAX_OCTAL_DEPTH) :
    summaryAt sha256 tree path =
      summarizeFrom sha256 tree.namespaceBytes remaining path (tree.under path) := by
  rw [summaryAt, InventoryTree.summarizeEntries,
    show MAX_OCTAL_DEPTH - path.length = remaining by omega]

-- A summary without children has its entries, one with children has none.
theorem summaryAt_cases (sha256 : List UInt8 → InventoryDigest) (tree : InventoryTree)
    (hdepth : path.length + remaining = MAX_OCTAL_DEPTH) :
    ((summaryAt sha256 tree path).children = [] ∧
        (summaryAt sha256 tree path).entries = tree.under path) ∨
      ∃ less, remaining = less + 1 ∧ ¬(tree.under path).length ≤ BUCKET_CAPACITY ∧
        (summaryAt sha256 tree path).children =
          summaryChildren sha256 tree.namespaceBytes less path (tree.under path) ∧
        (summaryAt sha256 tree path).children ≠ [] := by
  rw [summaryAt_eq hdepth]
  by_cases hbucket : remaining = 0 ∨ (tree.under path).length ≤ BUCKET_CAPACITY
  · rw [(summarizeFrom_bucket hbucket).1]
    exact .inl ⟨rfl, rfl⟩
  · obtain ⟨hpos, hlarge⟩ := not_or.mp hbucket
    obtain ⟨less, rfl⟩ := Nat.exists_eq_succ_of_ne_zero hpos
    rw [(summarizeFrom_node hlarge).2]
    exact .inr ⟨less, rfl, hlarge, rfl, summaryChildren_ne_nil hlarge⟩

theorem children_eq_nil (hdepth : path.length + remaining = MAX_OCTAL_DEPTH)
    (h : tree.under path = []) : (summaryAt sha256 tree path).children = [] := by
  rcases summaryAt_cases sha256 tree hdepth with ⟨hchildren, -⟩ | ⟨_, -, hlarge, -⟩
  · exact hchildren
  · rw [h] at hlarge
    exact absurd (Nat.zero_le _) hlarge

theorem mem_gather (hdepth : path.length + remaining = MAX_OCTAL_DEPTH) (entry : InventoryEntry) :
    entry ∈ gather sha256 tree remaining path ↔ entry ∈ tree.under path := by
  induction remaining generalizing path with
  | zero =>
    rcases summaryAt_cases sha256 tree hdepth with ⟨-, hentries⟩ | ⟨_, h, -⟩
    · rw [gather, hentries]
    · omega
  | succ remaining ih =>
    rw [gather]
    rcases summaryAt_cases sha256 tree hdepth with
      ⟨hchildren, hentries⟩ | ⟨less, hless, -, hchildren, hne⟩
    · rw [if_pos (List.isEmpty_iff.mpr hchildren), hentries]
    · obtain rfl : remaining = less := by omega
      rw [if_neg (by simpa using hne), hchildren, mem_flatMap]
      constructor
      · rintro ⟨child, -, hentry⟩
        rw [ih (length_append_digit hdepth), mem_under_append] at hentry
        exact hentry.1
      · intro hentry
        obtain ⟨child, hchild, hdigit⟩ := exists_summaryChild sha256 tree.namespaceBytes
          remaining path hentry
        refine ⟨child, hchild, ?_⟩
        rw [ih (length_append_digit hdepth), mem_under_append]
        exact ⟨hentry, hdigit.symm⟩

theorem mem_symmetricDifference :
    entry ∈ symmetricDifference xs ys ↔ ¬(entry ∈ xs ↔ entry ∈ ys) := by
  simp only [symmetricDifference, mem_append, mem_filter, decide_eq_true_eq]
  tauto

-- Where one of the summaries is a bucket, everything is compared.
theorem mem_descend_bucket (hdepth : path.length + remaining = MAX_OCTAL_DEPTH)
    (hbucket : (summaryAt sha256 left path).children = [] ∨
      (summaryAt sha256 right path).children = []) (entry : InventoryEntry) :
    entry ∈ descend sha256 left right remaining path ↔
      ¬(entry ∈ left.under path ↔ entry ∈ right.under path) := by
  cases remaining with
  | zero => rw [descend, mem_symmetricDifference, mem_gather hdepth, mem_gather hdepth]
  | succ remaining =>
    rw [descend, if_pos (by simpa using hbucket), mem_symmetricDifference, mem_gather hdepth,
      mem_gather hdepth]

theorem childHash_eq {entries : List InventoryEntry} {summary : InventorySummary}
    {namespaceBytes : List UInt8}
    (hchildren : summary.children = summaryChildren sha256 namespaceBytes less path entries)
    (hdigit : digit ∈ digits) :
    childHash summary digit = if childEntries path entries digit = [] then none
      else some (childSummary sha256 namespaceBytes less path entries digit).hash := by
  rw [childHash, hchildren]
  cases hfind : (summaryChildren sha256 namespaceBytes less path entries).find?
      fun child => child.digit = digit with
  | none =>
    have hempty : childEntries path entries digit = [] := by
      by_contra hne
      exact find?_eq_none.mp hfind _ (summaryChild_mem hdigit hne) (decide_eq_true rfl)
    rw [if_pos hempty, Option.map_none]
  | some child =>
    have hsame : child.digit = digit := of_decide_eq_true (find?_some hfind :)
    obtain ⟨-, hne, -, hhash⟩ := mem_summaryChildren.mp (mem_of_find?_eq_some hfind)
    rw [hsame] at hne hhash
    rw [if_neg hne, Option.map_some, hhash]

-- The descent finds the symmetric difference; by induction on the depth that
-- remains, and at each node over the digits.
theorem mem_descend (hnamespace : left.namespaceBytes = right.namespaceBytes)
    (hdepth : path.length + remaining = MAX_OCTAL_DEPTH) (hfree : CollisionFree sha256
      (hashedInputs sha256 left.namespaceBytes remaining path (left.under path))
      (hashedInputs sha256 left.namespaceBytes remaining path (right.under path)))
    (entry : InventoryEntry) :
    entry ∈ descend sha256 left right remaining path ↔
      ¬(entry ∈ left.under path ↔ entry ∈ right.under path) := by
  induction remaining generalizing path with
  | zero =>
    rcases summaryAt_cases sha256 left hdepth with ⟨hchildren, -⟩ | ⟨_, h, -⟩
    · exact mem_descend_bucket hdepth (.inl hchildren) entry
    · omega
  | succ remaining ih =>
    rcases summaryAt_cases sha256 left hdepth with
      ⟨hchildren, -⟩ | ⟨less, hless, hlarge, hchildren, hne⟩
    · exact mem_descend_bucket hdepth (.inl hchildren) entry
    rcases summaryAt_cases sha256 right hdepth with
      ⟨hchildren', -⟩ | ⟨less', hless', hlarge', hchildren', hne'⟩
    · exact mem_descend_bucket hdepth (.inr hchildren') entry
    obtain rfl : remaining = less := by omega
    obtain rfl : remaining = less' := by omega
    rw [← hnamespace] at hchildren'
    have hdescend : ∀ digit ∈ digits,
        (entry ∈ descend sha256 left right remaining (path ++ [digit]) ↔
          ¬(entry ∈ left.under (path ++ [digit]) ↔ entry ∈ right.under (path ++ [digit]))) := by
      intro digit hdigit
      have hdepth' : (path ++ [digit]).length + remaining = MAX_OCTAL_DEPTH :=
        length_append_digit hdepth
      by_cases hleft : left.under (path ++ [digit]) = []
      · exact mem_descend_bucket hdepth' (.inl (children_eq_nil hdepth' hleft)) entry
      by_cases hright : right.under (path ++ [digit]) = []
      · exact mem_descend_bucket hdepth' (.inr (children_eq_nil hdepth' hright)) entry
      refine ih hdepth' ?_
      rw [under_append] at hleft hright ⊢
      rw [under_append]
      exact hfree.child hlarge hlarge' hdigit hleft hright
    have hagree : ∀ digit ∈ digits,
        childHash (summaryAt sha256 left path) digit =
          childHash (summaryAt sha256 right path) digit →
        left.under (path ++ [digit]) = right.under (path ++ [digit]) := by
      intro digit hdigit hhash
      rw [childHash_eq hchildren hdigit, childHash_eq hchildren' hdigit] at hhash
      rw [under_append, under_append]
      split_ifs at hhash with hleft hright hright
      · rw [hleft, hright]
      · exact entries_eq_of_hash_eq (length_append_digit hdepth)
          ((below_under left path).child digit) ((below_under right path).child digit)
          (hfree.child hlarge hlarge' hdigit hleft hright) (Option.some.inj hhash)
    rw [descend, if_neg (by simpa using ⟨hne, hne'⟩), mem_flatMap]
    constructor
    · rintro ⟨digit, hdigit, hentry⟩ hiff
      split at hentry
      · cases hentry
      · rw [hdescend digit hdigit, mem_under_append, mem_under_append, hiff] at hentry
        exact hentry Iff.rfl
    · intro hdiffers
      have hdigit : octalDigit entry.key path.length ∈ digits :=
        mem_digits.mpr (octalDigit_lt _ _)
      refine ⟨_, hdigit, ?_⟩
      split
      · rename_i hhash
        have hsame : entry ∈ left.under (path ++ [octalDigit entry.key path.length]) ↔
            entry ∈ right.under (path ++ [octalDigit entry.key path.length]) := by
          rw [hagree _ hdigit hhash]
        rw [mem_under_append, mem_under_append] at hsame
        exact absurd (by simpa using hsame) hdiffers
      · rw [hdescend _ hdigit, mem_under_append, mem_under_append]
        simpa using hdiffers

end Descent

-- Two trees of one namespace have the same digest below a path exactly if they
-- hold the same entries there, and comparing them by their digests finds what
-- is in one of them only.
theorem inventory_sound (sha256 : List UInt8 → InventoryDigest) (left right : InventoryTree)
    (hnamespace : left.namespaceBytes = right.namespaceBytes) (path : List UInt8)
    (hpath : validatePrefix path = .ok ()) (hfree : CollisionFree sha256
      (hashedInputs sha256 left.namespaceBytes (MAX_OCTAL_DEPTH - path.length) path
        (left.under path))
      (hashedInputs sha256 right.namespaceBytes (MAX_OCTAL_DEPTH - path.length) path
        (right.under path))) :
    ∃ summary summary', left.summary sha256 path = .ok summary ∧
      right.summary sha256 path = .ok summary' ∧
      (summary.hash = summary'.hash ↔ ∀ entry, keyHasPrefix entry.key path = true →
        (entry ∈ left.entries ↔ entry ∈ right.entries)) ∧
      ∀ entry, entry ∈ differences sha256 left right path ↔
        keyHasPrefix entry.key path = true ∧ ¬(entry ∈ left.entries ↔ entry ∈ right.entries) := by
  have hlength : path.length ≤ MAX_OCTAL_DEPTH :=
    (of_decide_eq_true (require_bind_eq_ok.mp hpath).1).1
  have hdepth : path.length + (MAX_OCTAL_DEPTH - path.length) = MAX_OCTAL_DEPTH := by omega
  have hunder : ∀ {tree : InventoryTree} {entry : InventoryEntry}, entry ∈ tree.under path ↔
      entry ∈ tree.entries ∧ keyHasPrefix entry.key path = true := mem_filter
  rw [← hnamespace] at hfree
  have hhash : (summaryAt sha256 left path).hash = (summaryAt sha256 right path).hash ↔
      ∀ entry, keyHasPrefix entry.key path = true →
        (entry ∈ left.entries ↔ entry ∈ right.entries) := by
    rw [summaryAt_eq hdepth, summaryAt_eq hdepth, ← hnamespace]
    constructor
    · intro h entry hentry
      have hsame := entries_eq_of_hash_eq hdepth (below_under left path) (below_under right path)
        hfree h
      have hmem : entry ∈ left.under path ↔ entry ∈ right.under path := by rw [hsame]
      rw [hunder, hunder] at hmem
      simpa [hentry] using hmem
    · intro h
      have hsame : left.under path = right.under path := by
        refine (below_under left path).ext (below_under right path) fun entry => ?_
        rw [hunder, hunder]
        exact and_congr_left fun hentry => h entry hentry
      rw [hsame]
  refine ⟨summaryAt sha256 left path, summaryAt sha256 right path,
    bind_eq_ok.mpr ⟨(), hpath, rfl⟩, bind_eq_ok.mpr ⟨(), hpath, rfl⟩, hhash, ?_⟩
  intro entry
  unfold differences
  by_cases heq : (summaryAt sha256 left path).hash = (summaryAt sha256 right path).hash
  · rw [if_pos heq]
    have hsame := hhash.mp heq entry
    exact iff_of_false not_mem_nil fun h => h.2 (hsame h.1)
  · rw [if_neg heq, mem_descend hnamespace hdepth hfree, hunder, hunder]
    by_cases hentry : keyHasPrefix entry.key path = true
    · simp [hentry]
    · simp [hentry]

namespace Sample

def digest (value : Nat) : InventoryDigest := ⟨toBE 32 value, length_toBE 32 value⟩

def operations : List UInt8 := Utf8.encode "operations".toList

def entry (key value : Nat) : InventoryEntry where
  key := digest (key * 2 ^ 248)
  valueDigest := .replicate 32 (UInt8.ofNat value)

-- Nine entries, and the same with the last value changed.
def left : InventoryTree where
  namespaceBytes := operations
  entries := (List.range 9).map fun n => entry n n
  named := by decide
  sorted := by decide

def right : InventoryTree where
  namespaceBytes := operations
  entries := (List.range 8).map (fun n => entry n n) ++ [entry 8 99]
  named := by decide
  sorted := by decide

-- The SHA-256 digests of the leaves, the changed one last.
def leafDigests : List InventoryDigest :=
  [digest 0xc6182f995b16d127f93076dd1900e957444a851c54153977c61c914535133c92,
   digest 0x3b4dba01ca422e1603f014012914ba341a3328fbd112d40d7e94730af7128b8c,
   digest 0xfffe40a660053753f9afb666dc63e14fd4a1b4963e4c18672c536f9c4f204e69,
   digest 0x2f4d0e81b161fb4e56162715c9985b07755cbce1c3fe8d7c58986389f06e46be,
   digest 0x37bc8a08764d9362b216c5d169093e9b73e16b07aada91a0b5c04b4323254c87,
   digest 0xe07a9c89a825142f8997a78c1c85a93c586f79b33693a171226c097de95727b6,
   digest 0x3f4f1cb4522d99579380a3017883db3aec94615c431fd0303120dd01548b6ec6,
   digest 0x948110cf2a5b33fa2482816d4293cba62d1759970701ee91d7bedc5650b988b7,
   digest 0x9a3a9433f5248df7be800ca15914a1a9bf78ead553cd19590f2471b034410fc6,
   digest 0xdb3bf6dbbbd63d0d939bf42c555725af7f471a7c6272f4bc86adfab29d568f5e]

-- Those of the three buckets and the changed one, and of the nodes above them.
def summaryDigests : List InventoryDigest :=
  [digest 0xc827515b44644008d1b492f5c6517447e96fdfe2f8ff7b529e64a95da8e6798d,
   digest 0x9dd0a5fe714153c2f1613efe2376c7c8fdb09bdda0d6a744edc25bb4e3affa63,
   digest 0x7e07be659659d4c401799009aeb4cc8a3f2fc767b7caf89292b6308847d2393c,
   digest 0x3a6c6210172bf8af30363c4cd1e51b0536c99201a7a6324a2b89190063c522a4,
   digest 0x76117b3a126c45c63cb0b34971c419960aab64b64fa45cf0653473c61db6ac72,
   digest 0xe8b95ba601691e536c9ce89b9196f240cec416e23a69e3504f965ce1aee1ef28,
   digest 0xeeec076e45edacae92a229c72915f6a27e9c14ae239aefb2fd3c28927d07f10f,
   digest 0xf56b2103df02d446ec847b819bd3e58efdff5d5cdc7e7e92506b3e21a04c63a9]

def leafInputs : List (List UInt8) :=
  (left.entries ++ [entry 8 99]).map (leafInput operations)

def bucketInput (path : List UInt8) (first count : Nat) : List UInt8 :=
  digestInput NODE_DOMAIN operations path (UInt64.ofNat count)
    (((leafDigests.drop first).take count).flatMap FixedBytes.bytes)

-- The children are given by their digits, counts and recorded digests.
def nodeInput (path : List UInt8) (children : List (UInt8 × UInt64 × Nat)) : List UInt8 :=
  digestInput NODE_DOMAIN operations path 9 (children.flatMap fun (digit, count, index) =>
    childBytes ⟨digit, count, summaryDigests.getD index (digest 0)⟩)

def summaryInputs : List (List UInt8) :=
  [bucketInput [0, 0] 0 4, bucketInput [0, 1] 4 4, bucketInput [0, 2] 8 1, bucketInput [0, 2] 9 1,
   nodeInput [0] [(0, 4, 0), (1, 4, 1), (2, 1, 2)], nodeInput [0] [(0, 4, 0), (1, 4, 1), (2, 1, 3)],
   nodeInput [] [(0, 9, 4)], nodeInput [] [(0, 9, 5)]]

def recorded : List (List UInt8 × InventoryDigest) :=
  (leafInputs ++ summaryInputs).zip (leafDigests ++ summaryDigests)

def sha256 (input : List UInt8) : InventoryDigest := (recorded.lookup input).getD (digest 0)

end Sample

open Sample (left operations right sha256)

theorem inventory_sound_edit :
    left.namespaceBytes = right.namespaceBytes ∧ validatePrefix [] = .ok () ∧
      ∀ entry, entry ∈ differences sha256 left right [] ↔
        keyHasPrefix entry.key [] = true ∧ ¬(entry ∈ left.entries ↔ entry ∈ right.entries) := by
  have hfree : CollisionFree sha256
      (hashedInputs sha256 operations MAX_OCTAL_DEPTH []
        (left.under []))
      (hashedInputs sha256 operations MAX_OCTAL_DEPTH []
        (right.under [])) := by
    apply collisionFree_of_recorded
    · decide +kernel
    · decide +kernel
  obtain ⟨_, _, -, -, -, hdifferences⟩ :=
    inventory_sound sha256 left right rfl [] rfl hfree
  exact ⟨rfl, rfl, hdifferences⟩

end Fractonica.Replication
