import Fractonica.Lib.SortedMap
import Fractonica.Lib.Writer
import Fractonica.Trust.Cbor.Encoding

namespace Fractonica.Trust

open Fractonica.Lib Fractonica.Lib.Writer List

variable {depth : Nat} {values : List CanonicalValue}
  {entries : List (CanonicalValue × CanonicalValue)}

theorem push_writes (bytes : List UInt8) :
    Writes MAX_CANONICAL_BYTES (fun output => push output bytes) True bytes := by
  intro output output' _
  simp only [push, true_and]
  split_ifs with h
  · refine iff_of_false (by simp) ?_
    rintro ⟨rfl, hle⟩
    rw [length_append] at hle
    omega
  · rw [Except.ok.injEq]
    constructor
    · rintro rfl
      refine ⟨rfl, ?_⟩
      rw [length_append]
      omega
    · rintro ⟨rfl, -⟩
      rfl

private theorem pushTwo_writes (first second : List UInt8) :
    Writes MAX_CANONICAL_BYTES
      (fun output => do
        let output ← push output first
        push output second) True (first ++ second) :=
  ((push_writes first).seq (push_writes second)).congr (fun _ => by simp)

theorem encodeHead_writes (major : UInt8) (value : UInt64) :
    Writes MAX_CANONICAL_BYTES (encodeHead major value) True (head major value.toNat) := by
  unfold encodeHead head argumentCode argumentBytes leadByte
  by_cases h0 : value.toNat ≤ 23
  · have hbyte : value.toUInt8 = UInt8.ofNat value.toNat := rfl
    simp only [if_pos h0, hbyte]
    exact push_writes _
  simp only [if_neg h0]
  by_cases h1 : value.toNat ≤ 0xff
  · have hbyte : [value.toUInt8] = toBE 1 value.toNat := by
      have hmod : value.toNat % 256 = value.toNat := Nat.mod_eq_of_lt (by omega)
      simp only [toBE, hmod, nil_append]
      rfl
    simp only [if_pos h1, ← hbyte]
    exact push_writes _
  simp only [if_neg h1]
  by_cases h2 : value.toNat ≤ 0xffff
  · simp only [if_pos h2]
    exact pushTwo_writes _ _
  simp only [if_neg h2]
  by_cases h3 : value.toNat ≤ 0xffffffff
  · simp only [if_pos h3]
    exact pushTwo_writes _ _
  · simp only [if_neg h3]
    exact pushTwo_writes _ _

theorem encodeFloat_writes (value : UInt64) :
    Writes MAX_CANONICAL_BYTES (encodeFloat value) (doubleIsFinite value = true)
      (leadByte 7 (floatCode value) :: floatBytes value) := by
  unfold encodeFloat floatCode floatBytes
  by_cases hfin : doubleIsFinite value = true
  · simp only [hfin, Bool.not_true, Bool.false_eq_true, if_false]
    by_cases hhalf : doubleOfHalf (halfOfDouble value) = value
    · simp only [if_pos hhalf]
      exact pushTwo_writes _ _
    simp only [if_neg hhalf]
    by_cases hsingle : doubleOfSingle (singleOfDouble value) = value
    · simp only [if_pos hsingle]
      exact pushTwo_writes _ _
    · simp only [if_neg hsingle]
      exact pushTwo_writes _ _
  · refine (writes_false fun output => ⟨.nonFiniteFloat, ?_⟩).congr fun _ => by simp [hfin]
    simp [hfin]

-- The head of a byte or text string followed by its bytes. A length that does
-- not fit the head is far above the output limit.
theorem encodeString_writes (major : UInt8) (bytes : List UInt8) :
    Writes MAX_CANONICAL_BYTES
      (fun output => do
        let output ← encodeHead major (UInt64.ofNat bytes.length) output
        push output bytes) True (head major bytes.length ++ bytes) := by
  have hseq := (encodeHead_writes major (UInt64.ofNat bytes.length)).seq (push_writes bytes)
  by_cases hlen : bytes.length ≤ MAX_CANONICAL_BYTES
  · have hnat : (UInt64.ofNat bytes.length).toNat = bytes.length := by
      exact Nat.mod_eq_of_lt (lt_of_le_of_lt hlen (by decide))
    rw [hnat] at hseq
    exact hseq.congr fun _ => by simp
  · refine hseq.overflow ?_ ?_ <;>
    · rw [length_append]
      omega

theorem validateContainer_eq_ok (count : Nat) :
    validateContainer count = .ok () ↔ count ≤ MAX_CANONICAL_CONTAINER_ITEMS := by
  unfold validateContainer
  split_ifs with h
  · simp only [false_iff]
    omega
  · simp only [true_iff]
    omega

theorem checkDepth_eq_ok : checkDepth depth = .ok () ↔ depth ≤ MAX_CANONICAL_DEPTH := by
  unfold checkDepth
  split_ifs with h
  · simp only [false_iff]
    omega
  · simp only [true_iff]
    omega

-- The nesting levels left at a depth.
def levelsAt (depth : Nat) : Nat := MAX_CANONICAL_DEPTH + 1 - depth

theorem levelsAt_of_le (h : depth ≤ MAX_CANONICAL_DEPTH) :
    levelsAt depth = levelsAt (depth + 1) + 1 := by
  unfold levelsAt
  omega

theorem levelsAt_of_lt (h : ¬depth ≤ MAX_CANONICAL_DEPTH) : levelsAt depth = 0 := by
  unfold levelsAt
  omega

-- The depth check turns the conditions of one level into canonicity.
theorem checkDepth_writes {value : CanonicalValue}
    (hf : Writes MAX_CANONICAL_BYTES f q (encoding value))
    (hq : (encoding value).length ≤ MAX_CANONICAL_BYTES →
      (q ↔ Canonical (levelsAt (depth + 1) + 1) value)) :
    Writes MAX_CANONICAL_BYTES (fun output => checkDepth depth >>= fun _ => f output)
      (Canonical (levelsAt depth) value) (encoding value) := by
  refine (Writes.guard checkDepth_eq_ok fun _ => hf).congr fun hlen => ?_
  by_cases hdepth : depth ≤ MAX_CANONICAL_DEPTH
  · rw [levelsAt_of_le hdepth, hq hlen]
    exact and_iff_right hdepth
  · rw [levelsAt_of_lt hdepth]
    exact iff_of_false (fun h => hdepth h.1) id

-- What is proved of each value by induction.
def EncodesValue (value : CanonicalValue) : Prop :=
  ∀ depth, Writes MAX_CANONICAL_BYTES (encodeValue value depth)
    (Canonical (levelsAt depth) (normalize value)) (encoding (normalize value))

theorem encodeValues_writes (ih : ∀ value ∈ values, EncodesValue value) (depth : Nat) :
    Writes MAX_CANONICAL_BYTES (encodeValue.encodeValues values depth)
      (∀ value ∈ values, Canonical (levelsAt depth) (normalize value))
      ((values.map normalize).flatMap encoding) := by
  induction values with
  | nil => exact writes_nil.congr fun _ => by simp
  | cons value rest ihrest =>
    rw [forall_mem_cons] at ih
    have hrest := ihrest ih.2
    have hseq := (ih.1 depth).seq hrest
    exact hseq.congr fun _ => by rw [forall_mem_cons]

-- The entry a map encoder builds before sorting.
def encodedEntry (depth : Nat) (entry : CanonicalValue × CanonicalValue) : Entry :=
  (encoding (normalize entry.1), fun output => encodeValue entry.2 depth output)

def keyBytesLength (entries : List (CanonicalValue × CanonicalValue)) : Nat :=
  (entries.map (fun entry => (encoding (normalize entry.1)).length)).sum

theorem addKeyBytes_eq_ok {length : Nat} :
    addKeyBytes total length = .ok result ↔
      total + length ≤ MAX_CANONICAL_BYTES ∧ result = total + length := by
  have hsize : MAX_CANONICAL_BYTES < USIZE := by decide
  unfold addKeyBytes
  split_ifs with h1 h2
  · simp only [false_iff]
    omega
  · simp only [false_iff]
    omega
  · rw [Except.ok.injEq]
    omega

theorem encodeKeys_eq_ok (ih : ∀ entry ∈ entries, EncodesValue entry.1)
    (htotal : total ≤ MAX_CANONICAL_BYTES) :
    encodeValue.encodeKeys entries depth total = .ok encoded ↔
      (∀ entry ∈ entries, Canonical (levelsAt depth) (normalize entry.1)) ∧
        total + keyBytesLength entries ≤ MAX_CANONICAL_BYTES ∧
        encoded = entries.map (encodedEntry depth) := by
  induction entries generalizing total encoded with
  | nil => simpa [encodeValue.encodeKeys, keyBytesLength, eq_comm] using fun _ => htotal
  | cons entry rest ihrest =>
    obtain ⟨key, value⟩ := entry
    rw [forall_mem_cons] at ih
    have hkey : ∀ {bytes : List UInt8}, encodeValue key depth [] = .ok bytes ↔
        Canonical (levelsAt depth) (normalize key) ∧ bytes = encoding (normalize key) ∧
          bytes.length ≤ MAX_CANONICAL_BYTES := ih.1 depth [] _ (Nat.zero_le _)
    have hsum : keyBytesLength ((key, value) :: rest) =
        (encoding (normalize key)).length + keyBytesLength rest := by
      simp [keyBytesLength]
    rw [encodeValue.encodeKeys, hsum, forall_mem_cons, map_cons]
    simp only [bind_eq_ok, addKeyBytes_eq_ok, hkey]
    constructor
    · rintro ⟨_, ⟨hcanon, rfl, -⟩, _, ⟨hle, rfl⟩, encodedRest, hrest, hok⟩
      obtain ⟨hcanons, hsums, rfl⟩ := (ihrest ih.2 hle).mp hrest
      cases hok
      exact ⟨⟨hcanon, hcanons⟩, by omega, rfl⟩
    · rintro ⟨⟨hcanon, hcanons⟩, hle, rfl⟩
      refine ⟨_, ⟨hcanon, rfl, by omega⟩, _, ⟨by omega, rfl⟩, _, ?_, rfl⟩
      exact (ihrest ih.2 (by omega)).mpr ⟨hcanons, by omega, rfl⟩

theorem pushEntries_writes (ih : ∀ entry ∈ entries, EncodesValue entry.2) (depth : Nat) :
    Writes MAX_CANONICAL_BYTES (pushEntries (entries.map (encodedEntry depth)))
      (∀ entry ∈ entries, Canonical (levelsAt depth) (normalize entry.2))
      ((entries.map normalizeEntry).flatMap entryBytes) := by
  induction entries with
  | nil => exact writes_nil.congr fun _ => by simp
  | cons entry rest ihrest =>
    rw [forall_mem_cons] at ih
    have hseq := (push_writes (encoding (normalize entry.1))).seq
      ((ih.1 depth).seq (ihrest ih.2))
    rw [← append_assoc] at hseq
    exact hseq.congr fun _ => by rw [forall_mem_cons, true_and]

-- Sorting by encoded keys commutes with building the entries and with
-- normalising them.
def encodedKeyLe (left right : CanonicalValue × CanonicalValue) : Prop :=
  encoding (normalize left.1) ≤ encoding (normalize right.1)

instance : DecidableRel encodedKeyLe := fun left right =>
  inferInstanceAs (Decidable (encoding (normalize left.1) ≤ encoding (normalize right.1)))

instance : IsTrans (CanonicalValue × CanonicalValue) encodedKeyLe :=
  ⟨fun _ _ _ => le_trans⟩

instance : Std.Total encodedKeyLe :=
  ⟨fun left right => le_total (encoding (normalize left.1)) (encoding (normalize right.1))⟩

theorem sortEntries_encodedEntry (entries : List (CanonicalValue × CanonicalValue)) (depth : Nat) :
    sortEntries (entries.map (encodedEntry depth)) =
      (entries.insertionSort encodedKeyLe).map (encodedEntry depth) := by
  refine (map_insertionSort encodedKeyLe _ _ _ ?_).symm
  intro left _ right _
  rfl

theorem insertionSort_normalizeEntry (entries : List (CanonicalValue × CanonicalValue)) :
    (entries.map normalizeEntry).insertionSort keyLe =
      (entries.insertionSort encodedKeyLe).map normalizeEntry := by
  refine (map_insertionSort encodedKeyLe keyLe _ _ ?_).symm
  intro left _ right _
  rfl

-- The keys alone are never longer than the entries.
theorem keyBytesLength_le (entries : List (CanonicalValue × CanonicalValue)) :
    keyBytesLength entries ≤ ((entries.map normalizeEntry).flatMap entryBytes).length := by
  induction entries with
  | nil => exact Nat.le_refl _
  | cons entry rest ih =>
    simp only [keyBytesLength, map_cons, sum_cons, flatMap_cons,
      length_append, entryBytes, normalizeEntry] at ih ⊢
    omega

theorem keyBytesLength_insertionSort (entries : List (CanonicalValue × CanonicalValue)) :
    keyBytesLength (entries.insertionSort encodedKeyLe) = keyBytesLength entries :=
  ((perm_insertionSort encodedKeyLe entries).map _).sum_nat

private theorem length_lt_of_append_le {first second : List UInt8}
    (h : (first ++ second).length ≤ MAX_CANONICAL_BYTES) : second.length < USIZE := by
  have hsize : MAX_CANONICAL_BYTES < USIZE := by decide
  rw [length_append] at h
  omega

-- The head of a container whose length passed the check.
private theorem encodeHead_count {count : Nat} (major : UInt8)
    (h : count ≤ MAX_CANONICAL_CONTAINER_ITEMS) :
    Writes MAX_CANONICAL_BYTES (encodeHead major (UInt64.ofNat count)) True (head major count) := by
  have hnat : (UInt64.ofNat count).toNat = count := by
    rw [UInt64.toNat_ofNat']
    exact Nat.mod_eq_of_lt (lt_of_le_of_lt h (by decide))
  have hwrite := encodeHead_writes major (UInt64.ofNat count)
  rwa [hnat] at hwrite

private theorem encodeArray_encodesValue
    (ih : ∀ value ∈ values, EncodesValue value) : EncodesValue (.array values) := by
  intro depth
  have hbytes : encoding (normalize (.array values)) =
      head 4 values.length ++ (values.map normalize).flatMap encoding := by
    rw [normalize_array, encoding_array, length_map]
  have hbody := Writes.guard (validateContainer_eq_ok values.length) fun hcount =>
    (encodeHead_count 4 hcount).seq (encodeValues_writes ih (depth + 1))
  rw [← hbytes] at hbody
  refine checkDepth_writes hbody fun _ => ?_
  simp [normalize_array, Canonical]

private theorem pushMap_writes {values : List (CanonicalValue × CanonicalValue)}
    (ih : ∀ entry ∈ values, EncodesValue entry.2)
    (hcount : values.length ≤ MAX_CANONICAL_CONTAINER_ITEMS) (depth : Nat) :
    Writes MAX_CANONICAL_BYTES
      (pushMap (sortEntries (values.map (encodedEntry depth))))
      ((((values.insertionSort encodedKeyLe).map normalizeEntry).map
          (fun entry => encoding entry.1)).Pairwise (· < ·) ∧
        ∀ entry ∈ values, Canonical (levelsAt depth) (normalize entry.2))
      (encoding (normalize (.map values))) := by
  rw [sortEntries_encodedEntry, normalize_map, insertionSort_normalizeEntry, encoding_map,
    length_map]
  have hmem : ∀ {entry}, entry ∈ values.insertionSort encodedKeyLe ↔ entry ∈ values :=
    mem_insertionSort _
  have hlength : (values.insertionSort encodedKeyLe).length = values.length :=
    length_insertionSort _ _
  -- The keys the duplicate check compares are sorted, so it decides strictness.
  have hkeys : ((values.insertionSort encodedKeyLe).map (encodedEntry depth)).map Prod.fst =
      ((values.insertionSort encodedKeyLe).map normalizeEntry).map
        (fun entry => encoding entry.1) := by
    rw [map_map, map_map]
    rfl
  have hsorted : (((values.insertionSort encodedKeyLe).map normalizeEntry).map
      (fun entry => encoding entry.1)).Pairwise (· ≤ ·) := by
    rw [map_map, pairwise_map]
    exact pairwise_insertionSort encodedKeyLe values
  have hentries := pushEntries_writes (fun entry he => ih entry (hmem.mp he)) depth
  have hhead := (encodeHead_count 5 hcount).seq hentries
  unfold pushMap
  rw [hkeys, length_map, hlength]
  refine hhead.unless.congr fun _ => ?_
  rw [isChain_ne_iff hsorted, true_and]
  simp only [hmem]

private theorem encodeMap_encodesValue {values : List (CanonicalValue × CanonicalValue)}
    (ih : ∀ entry ∈ values, EncodesValue entry.1 ∧ EncodesValue entry.2) :
    EncodesValue (.map values) := by
  intro depth
  have hkeys : ∀ encoded, encodeValue.encodeKeys values (depth + 1) 0 = .ok encoded ↔
      ((∀ entry ∈ values, Canonical (levelsAt (depth + 1)) (normalize entry.1)) ∧
        keyBytesLength values ≤ MAX_CANONICAL_BYTES) ∧
        encoded = values.map (encodedEntry (depth + 1)) := by
    intro encoded
    rw [encodeKeys_eq_ok (fun entry he => (ih entry he).1) (Nat.zero_le _), Nat.zero_add,
      and_assoc]
  have hbody := Writes.guard (validateContainer_eq_ok values.length) fun hcount =>
    Writes.after (fun encoded => pushMap (sortEntries encoded)) hkeys fun _ =>
      pushMap_writes (fun entry he => (ih entry he).2) hcount (depth + 1)
  refine checkDepth_writes hbody fun hlen => ?_
  rw [normalize_map, insertionSort_normalizeEntry] at hlen ⊢
  have hsum : keyBytesLength values ≤ MAX_CANONICAL_BYTES := by
    rw [encoding_map, length_append] at hlen
    have hle := keyBytesLength_le (values.insertionSort encodedKeyLe)
    rw [keyBytesLength_insertionSort] at hle
    omega
  have hmem : ∀ {entry}, entry ∈ values.insertionSort encodedKeyLe ↔ entry ∈ values :=
    mem_insertionSort _
  simp only [Canonical, length_map, length_insertionSort, forall_mem_map, hmem, hsum,
    and_true, normalizeEntry]
  constructor
  · rintro ⟨hcount, hcanon, hascending, hcanon'⟩
    exact ⟨hcount, fun entry he => ⟨hcanon entry he, hcanon' entry he⟩, hascending⟩
  · rintro ⟨hcount, hcanon, hascending⟩
    exact ⟨hcount, fun entry he => (hcanon entry he).1, hascending,
      fun entry he => (hcanon entry he).2⟩

-- The encoder succeeds exactly on the values whose normal form is canonical
-- and fits, and appends the encoding of the normal form.
theorem encodeValue_encodesValue (value : CanonicalValue) : EncodesValue value := by
  induction value using CanonicalValue.memberInduction with
  | null =>
    intro depth
    exact checkDepth_writes (push_writes _) fun _ => Iff.rfl
  | bool value =>
    intro depth
    cases value with
    | false => exact checkDepth_writes (push_writes _) fun _ => Iff.rfl
    | true => exact checkDepth_writes (push_writes _) fun _ => Iff.rfl
  | integer value =>
    intro depth
    have hlo := value.le_toInt
    have hhi := value.toInt_lt
    by_cases hsign : 0 ≤ value.toInt
    · have hwrite := encodeHead_writes 0 (UInt64.ofNat value.toInt.toNat)
      simp only [normalize, if_pos hsign, encodeValue]
      exact checkDepth_writes hwrite fun _ => Iff.rfl
    · have hnat : (UInt64.ofNat (-1 - value.toInt).toNat).toNat = (-1 - value.toInt).toNat := by
        rw [UInt64.toNat_ofNat', Nat.mod_eq_of_lt (by omega)]
      have hwrite := encodeHead_writes 1 (UInt64.ofNat (-1 - value.toInt).toNat)
      rw [hnat] at hwrite
      simp only [normalize, if_neg hsign, encodeValue]
      refine checkDepth_writes hwrite fun _ => ?_
      exact iff_of_true trivial (not_le.mp hsign)
  | unsigned value =>
    intro depth
    exact checkDepth_writes (encodeHead_writes 0 value) fun _ => Iff.rfl
  | float value =>
    intro depth
    exact checkDepth_writes (encodeFloat_writes value) fun _ => Iff.rfl
  | bytes bytes =>
    intro depth
    refine checkDepth_writes (encodeString_writes 2 bytes) fun hlen => ?_
    exact iff_of_true trivial (length_lt_of_append_le hlen)
  | text text =>
    intro depth
    refine checkDepth_writes (encodeString_writes 3 (utf8Bytes text)) fun hlen => ?_
    exact iff_of_true trivial (length_lt_of_append_le hlen)
  | array values ih => exact encodeArray_encodesValue ih
  | map values ih => exact encodeMap_encodesValue ih

end Fractonica.Trust
