import Fractonica.Trust.Cbor

namespace Fractonica.Trust

open Lib List

theorem fromUtf8_eq_some {bytes : List UInt8} {text : String} :
    fromUtf8 bytes = some text ↔ utf8Bytes text = bytes := by
  unfold fromUtf8 String.fromUTF8? utf8Bytes
  refine ⟨fun h => ?_, fun h => ?_⟩
  · split at h
    · cases h
      rfl
    · cases h
  · subst h
    have heq : (⟨text.toByteArray.data.toList.toArray⟩ : ByteArray) = text.toByteArray := by simp
    rw [heq, dif_pos text.isValidUTF8]
    rfl

-- The initial byte of an item: a major type and five bits of information.
def leadByte (major additional : UInt8) : UInt8 := major <<< 5 ||| additional

private theorem forall_byte {p : UInt8 → Prop} (h : ∀ i : Fin 256, p (UInt8.ofNat i)) (b : UInt8) :
    p b := by
  have hb := h ⟨b.toNat, b.toNat_lt⟩
  rwa [UInt8.ofNat_toNat] at hb

theorem leadByte_split (lead : UInt8) : leadByte (lead >>> 5) (lead &&& 0x1f) = lead :=
  forall_byte (p := fun lead => leadByte (lead >>> 5) (lead &&& 0x1f) = lead)
    (by decide +kernel) lead

private theorem leadByte_fields : ∀ major : Fin 8, ∀ additional : Fin 32,
    leadByte (UInt8.ofNat major) (UInt8.ofNat additional) >>> 5 = UInt8.ofNat major ∧
      leadByte (UInt8.ofNat major) (UInt8.ofNat additional) &&& 0x1f = UInt8.ofNat additional := by
  decide

theorem major_leadByte (hm : major.toNat < 8)
    (ha : additional.toNat < 32) : leadByte major additional >>> 5 = major := by
  have h := (leadByte_fields ⟨major.toNat, hm⟩ ⟨additional.toNat, ha⟩).1
  simpa using h

theorem additional_leadByte (hm : major.toNat < 8)
    (ha : additional.toNat < 32) : leadByte major additional &&& 0x1f = additional := by
  have h := (leadByte_fields ⟨major.toNat, hm⟩ ⟨additional.toNat, ha⟩).2
  simpa using h

-- The shortest form of an argument: the five bits, and the bytes after them.
def argumentCode (n : Nat) : UInt8 :=
  if n ≤ 23 then UInt8.ofNat n
  else if n ≤ 0xff then 24
  else if n ≤ 0xffff then 25
  else if n ≤ 0xffffffff then 26
  else 27

def argumentBytes (n : Nat) : List UInt8 :=
  if n ≤ 23 then []
  else if n ≤ 0xff then toBE 1 n
  else if n ≤ 0xffff then toBE 2 n
  else if n ≤ 0xffffffff then toBE 4 n
  else toBE 8 n

def head (major : UInt8) (n : Nat) : List UInt8 :=
  leadByte major (argumentCode n) :: argumentBytes n

theorem argumentCode_lt (n : Nat) : (argumentCode n).toNat < 32 := by
  unfold argumentCode
  split_ifs with h
  · simp only [UInt8.toNat_ofNat']
    omega
  all_goals decide

theorem length_argumentBytes (n : Nat) :
    (argumentBytes n).length =
      if n ≤ 23 then 0 else if n ≤ 0xff then 1 else if n ≤ 0xffff then 2
      else if n ≤ 0xffffffff then 4 else 8 := by
  unfold argumentBytes
  split_ifs <;> simp

theorem length_head (major : UInt8) (n : Nat) :
    (head major n).length = (argumentBytes n).length + 1 := rfl

-- The width and the bits of the shortest exact form of a float.
def floatCode (value : UInt64) : UInt8 :=
  if doubleOfHalf (halfOfDouble value) = value then 25
  else if doubleOfSingle (singleOfDouble value) = value then 26
  else 27

def floatBytes (value : UInt64) : List UInt8 :=
  if doubleOfHalf (halfOfDouble value) = value then toBE 2 (halfOfDouble value).toNat
  else if doubleOfSingle (singleOfDouble value) = value then toBE 4 (singleOfDouble value).toNat
  else toBE 8 value.toNat

-- The encoding of a value in normal form, without limits.
def encoding : CanonicalValue → List UInt8
  | .null => [0xf6]
  | .bool false => [0xf4]
  | .bool true => [0xf5]
  | .integer value => head 1 (-1 - value.toInt).toNat
  | .unsigned value => head 0 value.toNat
  | .float value => leadByte 7 (floatCode value) :: floatBytes value
  | .bytes bytes => head 2 bytes.length ++ bytes
  | .text text => head 3 (utf8Bytes text).length ++ utf8Bytes text
  | .array values => head 4 values.length ++ items values
  | .map values => head 5 values.length ++ pairs values
where
  items : List CanonicalValue → List UInt8
    | [] => []
    | value :: rest => encoding value ++ items rest
  pairs : List (CanonicalValue × CanonicalValue) → List UInt8
    | [] => []
    | (key, value) :: rest => encoding key ++ encoding value ++ pairs rest

def entryBytes (entry : CanonicalValue × CanonicalValue) : List UInt8 :=
  encoding entry.1 ++ encoding entry.2

theorem encoding_items (values : List CanonicalValue) :
    encoding.items values = values.flatMap encoding := by
  induction values with
  | nil => rfl
  | cons value rest ih => rw [encoding.items, ih, flatMap_cons]

theorem encoding_pairs (values : List (CanonicalValue × CanonicalValue)) :
    encoding.pairs values = values.flatMap entryBytes := by
  induction values with
  | nil => rfl
  | cons entry rest ih =>
    rw [encoding.pairs, ih, flatMap_cons]
    rfl

theorem encoding_array (values : List CanonicalValue) :
    encoding (.array values) = head 4 values.length ++ values.flatMap encoding := by
  rw [encoding, encoding_items]

theorem encoding_map (values : List (CanonicalValue × CanonicalValue)) :
    encoding (.map values) = head 5 values.length ++ values.flatMap entryBytes := by
  rw [encoding, encoding_pairs]

-- The three parts of an encoding: the two fields of the initial byte, and the
-- bytes after it.
def itemMajor : CanonicalValue → UInt8
  | .unsigned _ => 0
  | .integer _ => 1
  | .bytes _ => 2
  | .text _ => 3
  | .array _ => 4
  | .map _ => 5
  | .null | .bool _ | .float _ => 7

def itemAdditional : CanonicalValue → UInt8
  | .unsigned value => argumentCode value.toNat
  | .integer value => argumentCode (-1 - value.toInt).toNat
  | .bytes bytes => argumentCode bytes.length
  | .text text => argumentCode (utf8Bytes text).length
  | .array values => argumentCode values.length
  | .map values => argumentCode values.length
  | .bool false => 20
  | .bool true => 21
  | .null => 22
  | .float value => floatCode value

def itemTail : CanonicalValue → List UInt8
  | .unsigned value => argumentBytes value.toNat
  | .integer value => argumentBytes (-1 - value.toInt).toNat
  | .bytes bytes => argumentBytes bytes.length ++ bytes
  | .text text => argumentBytes (utf8Bytes text).length ++ utf8Bytes text
  | .array values => argumentBytes values.length ++ values.flatMap encoding
  | .map values => argumentBytes values.length ++ values.flatMap entryBytes
  | .null | .bool _ => []
  | .float value => floatBytes value

theorem encoding_eq_item (value : CanonicalValue) :
    encoding value = leadByte (itemMajor value) (itemAdditional value) :: itemTail value := by
  cases value with
  | null => rfl
  | bool value => cases value <;> rfl
  | array values => rw [encoding_array]; rfl
  | map values => rw [encoding_map]; rfl
  | integer | unsigned | float | bytes | text => rfl

theorem itemMajor_lt (value : CanonicalValue) : (itemMajor value).toNat < 8 := by
  cases value <;> simp [itemMajor]

theorem itemAdditional_lt (value : CanonicalValue) : (itemAdditional value).toNat < 32 := by
  cases value with
  | null => decide
  | bool value => cases value <;> decide
  | float value =>
    rw [itemAdditional, floatCode]
    split_ifs <;> decide
  | integer | unsigned | bytes | text | array | map => exact argumentCode_lt _

-- The values the decoder returns when `levels` nesting levels are left.
def Canonical : Nat → CanonicalValue → Prop
  | 0, _ => False
  | _ + 1, .null => True
  | _ + 1, .bool _ => True
  | _ + 1, .integer value => value.toInt < 0
  | _ + 1, .unsigned _ => True
  | _ + 1, .float value => doubleIsFinite value = true
  | _ + 1, .bytes bytes => bytes.length < USIZE
  | _ + 1, .text text => (utf8Bytes text).length < USIZE
  | levels + 1, .array values =>
    values.length ≤ MAX_CANONICAL_CONTAINER_ITEMS ∧ ∀ value ∈ values, Canonical levels value
  | levels + 1, .map values =>
    values.length ≤ MAX_CANONICAL_CONTAINER_ITEMS ∧
      (∀ entry ∈ values, Canonical levels entry.1 ∧ Canonical levels entry.2) ∧
      (values.map (fun entry => encoding entry.1)).Pairwise (· < ·)

def keyLe (left right : CanonicalValue × CanonicalValue) : Prop :=
  encoding left.1 ≤ encoding right.1

instance : DecidableRel keyLe := fun left right =>
  inferInstanceAs (Decidable (encoding left.1 ≤ encoding right.1))

instance : IsTrans (CanonicalValue × CanonicalValue) keyLe :=
  ⟨fun _ _ _ => le_trans⟩

instance : Std.Total keyLe := ⟨fun left right => le_total (encoding left.1) (encoding right.1)⟩

-- Nonnegative integers become unsigned and map entries are sorted by their
-- encoded keys.
def normalize : CanonicalValue → CanonicalValue
  | .null => .null
  | .bool value => .bool value
  | .integer value =>
    if 0 ≤ value.toInt then .unsigned (UInt64.ofNat value.toInt.toNat) else .integer value
  | .unsigned value => .unsigned value
  | .float value => .float value
  | .bytes bytes => .bytes bytes
  | .text text => .text text
  | .array values => .array (items values)
  | .map values => .map ((pairs values).insertionSort keyLe)
where
  items : List CanonicalValue → List CanonicalValue
    | [] => []
    | value :: rest => normalize value :: items rest
  pairs : List (CanonicalValue × CanonicalValue) → List (CanonicalValue × CanonicalValue)
    | [] => []
    | (key, value) :: rest => (normalize key, normalize value) :: pairs rest

@[simp] theorem normalize_unsigned (value : UInt64) :
    normalize (.unsigned value) = .unsigned value := rfl

def normalizeEntry (entry : CanonicalValue × CanonicalValue) : CanonicalValue × CanonicalValue :=
  (normalize entry.1, normalize entry.2)

theorem normalize_items (values : List CanonicalValue) :
    normalize.items values = values.map normalize := by
  induction values with
  | nil => rfl
  | cons value rest ih => rw [normalize.items, ih, map_cons]

theorem normalize_pairs (values : List (CanonicalValue × CanonicalValue)) :
    normalize.pairs values = values.map normalizeEntry := by
  induction values with
  | nil => rfl
  | cons entry rest ih =>
    rw [normalize.pairs, ih, map_cons]
    rfl

theorem normalize_array (values : List CanonicalValue) :
    normalize (.array values) = .array (values.map normalize) := by
  rw [normalize, normalize_items]

theorem normalize_map (values : List (CanonicalValue × CanonicalValue)) :
    normalize (.map values) = .map ((values.map normalizeEntry).insertionSort keyLe) := by
  rw [normalize, normalize_pairs]

private theorem sizeOf_entry (entry : CanonicalValue × CanonicalValue) :
    sizeOf entry = 1 + sizeOf entry.1 + sizeOf entry.2 := rfl

-- Induction over values with the hypotheses for the members of a container.
@[elab_as_elim] theorem CanonicalValue.memberInduction {motive : CanonicalValue → Prop}
    (null : motive .null) (bool : ∀ value, motive (.bool value))
    (integer : ∀ value, motive (.integer value)) (unsigned : ∀ value, motive (.unsigned value))
    (float : ∀ value, motive (.float value)) (bytes : ∀ bytes, motive (.bytes bytes))
    (text : ∀ text, motive (.text text))
    (array : ∀ values, (∀ value ∈ values, motive value) → motive (.array values))
    (map : ∀ values, (∀ entry ∈ values, motive entry.1 ∧ motive entry.2) → motive (.map values))
    (value : CanonicalValue) : motive value :=
  match value with
  | .null => null
  | .bool value => bool value
  | .integer value => integer value
  | .unsigned value => unsigned value
  | .float value => float value
  | .bytes content => bytes content
  | .text content => text content
  | .array values => array values fun value _ =>
    value.memberInduction null bool integer unsigned float bytes text array map
  | .map values => map values fun entry h =>
    have _hsize := sizeOf_lt_of_mem h
    have _hentry := sizeOf_entry entry
    ⟨entry.1.memberInduction null bool integer unsigned float bytes text array map,
      entry.2.memberInduction null bool integer unsigned float bytes text array map⟩

theorem Canonical.exists_succ (h : Canonical levels value) : ∃ below, levels = below + 1 := by
  cases levels with
  | zero => exact h.elim
  | succ below => exact ⟨below, rfl⟩

-- A value in normal form is its own normal form.
theorem normalize_eq_self {value : CanonicalValue} (h : Canonical levels value) :
    normalize value = value := by
  induction value using CanonicalValue.memberInduction generalizing levels with
  | null | bool | unsigned | float | bytes | text => rfl
  | integer value =>
    obtain ⟨levels, rfl⟩ := h.exists_succ
    have hneg : value.toInt < 0 := h
    rw [normalize, if_neg (by omega)]
  | array values ih =>
    obtain ⟨levels, rfl⟩ := h.exists_succ
    rw [normalize_array]
    congr 1
    refine (map_congr_left fun value hv => ih value hv (h.2 value hv)).trans ?_
    exact map_id'' (fun _ => rfl) values
  | map values ih =>
    obtain ⟨levels, rfl⟩ := h.exists_succ
    obtain ⟨-, hmem, hsorted⟩ := h
    have hmap : values.map normalizeEntry = values := by
      refine (map_congr_left fun entry he => ?_).trans
        (map_id'' (fun _ => rfl) values)
      exact Prod.ext ((ih entry he).1 (hmem entry he).1) ((ih entry he).2 (hmem entry he).2)
    have hpair : values.Pairwise keyLe := by
      rw [pairwise_map] at hsorted
      exact hsorted.imp (fun hlt => hlt.le)
    rw [normalize_map, hmap, hpair.insertionSort_eq]

end Fractonica.Trust
