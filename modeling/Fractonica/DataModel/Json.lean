import Fractonica.Lib.SortedMap
import Fractonica.Trust.Cbor.Encoding
import Fractonica.Trust.Identity

namespace Fractonica.DataModel

open Lib Trust List

-- A string as the key of an object. Strings are ordered by their bytes.
structure JsonKey where
  text : String
deriving DecidableEq

theorem utf8Bytes_injective : Function.Injective utf8Bytes := by
  intro left right h
  have hleft := fromUtf8_eq_some.mpr (Eq.refl (utf8Bytes left))
  have hright := fromUtf8_eq_some.mpr (Eq.refl (utf8Bytes right))
  rw [h] at hleft
  exact Option.some.inj (hleft.symm.trans hright)

theorem JsonKey.bytes_injective : Function.Injective (fun key : JsonKey => utf8Bytes key.text) := by
  intro left right h
  exact congrArg JsonKey.mk (utf8Bytes_injective h)

instance : LinearOrder JsonKey :=
  LinearOrder.lift' (fun key : JsonKey => utf8Bytes key.text) JsonKey.bytes_injective

-- The three forms of a number: an integer is kept exactly, and a float is
-- always finite.
inductive JsonNumber where
  | posInt (value : UInt64)
  | negInt (value : Int64) (negative : value.toInt < 0)
  | float (bits : UInt64) (finite : doubleIsFinite bits = true)

namespace JsonNumber

def ofInt64 (value : Int64) : JsonNumber :=
  if h : value.toInt < 0 then .negInt value h else .posInt (UInt64.ofNat value.toInt.toNat)

def ofDouble? (bits : UInt64) : Option JsonNumber :=
  if h : doubleIsFinite bits = true then some (.float bits h) else none

def asI64 : JsonNumber → Option Int64
  | .posInt value => if value.toNat < 2 ^ 63 then some (Int64.ofInt value.toNat) else none
  | .negInt value _ => some value
  | .float _ _ => none

def asU64 : JsonNumber → Option UInt64
  | .posInt value => some value
  | _ => none

-- Only asked for a number that has no integer form.
def asF64 : JsonNumber → Option UInt64
  | .float bits _ => some bits
  | _ => none

-- Floats are compared as numbers, so the two zeros are equal.
def beq : JsonNumber → JsonNumber → Bool
  | .posInt left, .posInt right => left = right
  | .negInt left _, .negInt right _ => left = right
  | .float left _, .float right _ =>
    left = right || (left.toNat % 2 ^ 63 = 0 && right.toNat % 2 ^ 63 = 0)
  | _, _ => false

end JsonNumber

inductive Json where
  | null
  | bool (value : Bool)
  | number (value : JsonNumber)
  | string (value : String)
  | array (values : List Json)
  | object (entries : List (JsonKey × Json))

namespace Json

def beq : Json → Json → Bool
  | .null, .null => true
  | .bool left, .bool right => left = right
  | .number left, .number right => left.beq right
  | .string left, .string right => left = right
  | .array left, .array right => items left right
  | .object left, .object right => pairs left right
  | _, _ => false
where
  items : List Json → List Json → Bool
    | [], [] => true
    | left :: lefts, right :: rights => beq left right && items lefts rights
    | _, _ => false
  pairs : List (JsonKey × Json) → List (JsonKey × Json) → Bool
    | [], [] => true
    | (key, left) :: lefts, (key', right) :: rights =>
      key = key' && beq left right && pairs lefts rights
    | _, _ => false

-- Every object is an ordered map.
def WellFormed : Json → Prop
  | .null => True
  | .bool _ => True
  | .number _ => True
  | .string _ => True
  | .array values => items values
  | .object entries => SortedMap.Sorted entries ∧ pairs entries
where
  items : List Json → Prop
    | [] => True
    | value :: rest => WellFormed value ∧ items rest
  pairs : List (JsonKey × Json) → Prop
    | [] => True
    | (_, value) :: rest => WellFormed value ∧ pairs rest

theorem wellFormed_array : (Json.array values).WellFormed ↔ ∀ value ∈ values, value.WellFormed := by
  rw [WellFormed]
  induction values with
  | nil => simp [WellFormed.items]
  | cons value rest ih => rw [WellFormed.items, ih, forall_mem_cons]

theorem wellFormed_values (values : List { value : Json // value.WellFormed }) :
    (Json.array (values.map Subtype.val)).WellFormed := by
  apply wellFormed_array.mpr
  intro value hvalue
  obtain ⟨found, -, rfl⟩ := mem_map.mp hvalue
  exact found.property

theorem wellFormed_object {entries : List (JsonKey × Json)} :
    (Json.object entries).WellFormed ↔
      SortedMap.Sorted entries ∧ ∀ entry ∈ entries, entry.2.WellFormed := by
  have hpairs : WellFormed.pairs entries ↔ ∀ entry ∈ entries, entry.2.WellFormed := by
    induction entries with
    | nil => simp [WellFormed.pairs]
    | cons entry rest ih =>
      rw [WellFormed.pairs, ih, forall_mem_cons]
  rw [WellFormed, hpairs]

private theorem sizeOf_member (entry : JsonKey × Json) :
    sizeOf entry = 1 + sizeOf entry.1 + sizeOf entry.2 := rfl

-- Induction over documents with the hypotheses for the members of a container.
@[elab_as_elim] theorem memberInduction {motive : Json → Prop} (null : motive .null)
    (bool : ∀ value, motive (.bool value)) (number : ∀ value, motive (.number value))
    (string : ∀ value, motive (.string value))
    (array : ∀ values, (∀ value ∈ values, motive value) → motive (.array values))
    (object : ∀ entries, (∀ entry ∈ entries, motive entry.2) → motive (.object entries))
    (value : Json) : motive value :=
  match value with
  | .null => null
  | .bool value => bool value
  | .number value => number value
  | .string value => string value
  | .array values => array values fun value _ =>
    value.memberInduction null bool number string array object
  | .object entries => object entries fun entry h =>
    have _hsize := sizeOf_lt_of_mem h
    have _hentry := sizeOf_member entry
    entry.2.memberInduction null bool number string array object

end Json

-- The escape of one byte of a string. Only ASCII bytes are escaped.
def escapeByte (byte : UInt8) : List UInt8 :=
  if byte = 0x22 then [0x5c, 0x22]
  else if byte = 0x5c then [0x5c, 0x5c]
  else if byte = 0x08 then [0x5c, 0x62]
  else if byte = 0x09 then [0x5c, 0x74]
  else if byte = 0x0a then [0x5c, 0x6e]
  else if byte = 0x0c then [0x5c, 0x66]
  else if byte = 0x0d then [0x5c, 0x72]
  else if byte.toNat < 0x20 then
    [0x5c, 0x75, 0x30, 0x30] ++ (lowerHex [byte]).map fun digit => UInt8.ofNat digit.toNat
  else [byte]

def quote (bytes : List UInt8) : List UInt8 := 0x22 :: (bytes.flatMap escapeByte ++ [0x22])

def decimal (n : Nat) : List UInt8 :=
  (Nat.toDigits 10 n).map fun digit => UInt8.ofNat digit.toNat

def JsonNumber.render (P : Primitives) : JsonNumber → List UInt8
  | .posInt value => decimal value.toNat
  | .negInt value _ => 0x2d :: decimal value.toInt.natAbs
  | .float bits _ => P.floatText bits

-- The compact text, with members separated by single commas.
def Json.render (P : Primitives) : Json → List UInt8
  | .null => utf8Bytes "null"
  | .bool true => utf8Bytes "true"
  | .bool false => utf8Bytes "false"
  | .number value => value.render P
  | .string value => quote (utf8Bytes value)
  | .array values => 0x5b :: ([0x2c].intercalate (items values) ++ [0x5d])
  | .object entries => 0x7b :: ([0x2c].intercalate (pairs entries) ++ [0x7d])
where
  items : List Json → List (List UInt8)
    | [] => []
    | value :: rest => render P value :: items rest
  pairs : List (JsonKey × Json) → List (List UInt8)
    | [] => []
    | (key, value) :: rest =>
      (quote (utf8Bytes key.text) ++ 0x3a :: render P value) :: pairs rest

-- The entries of a metadata object.
structure Metadata where
  entries : List (JsonKey × Json)
  wellFormed : (Json.object entries).WellFormed

namespace Metadata

def empty : Metadata := ⟨[], Json.wellFormed_object.mpr ⟨.nil, by simp⟩⟩

def contains (metadata : Metadata) (key : JsonKey) : Bool :=
  SortedMap.contains key metadata.entries

def insert (metadata : Metadata) (key : JsonKey) (value : { value : Json // value.WellFormed }) :
    Metadata where
  entries := SortedMap.insert key value.val metadata.entries
  wellFormed := by
    obtain ⟨hsorted, hmembers⟩ := Json.wellFormed_object.mp metadata.wellFormed
    refine Json.wellFormed_object.mpr ⟨SortedMap.sorted_insert key value.val hsorted, ?_⟩
    intro entry hentry
    rcases SortedMap.mem_insert_imp hentry with rfl | hentry
    · exact value.property
    · exact hmembers entry hentry

@[ext] theorem ext {left right : Metadata} (h : left.entries = right.entries) : left = right := by
  cases right
  cases h
  rfl

end Metadata

instance : BEq Metadata :=
  ⟨fun left right => (Json.object left.entries).beq (.object right.entries)⟩

end Fractonica.DataModel
