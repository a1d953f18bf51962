import Fractonica.Lib.Bytes
import Fractonica.Lib.Result
import Fractonica.Lib.SortedMap
import Fractonica.Lib.Utf8

namespace Fractonica.Replication

open Lib

def RADIX : Nat := 8
def BUCKET_CAPACITY : Nat := 8
def KEY_BYTES : Nat := 32
def MAX_OCTAL_DEPTH : Nat := 86
def MAX_NAMESPACE_BYTES : Nat := 32

abbrev InventoryDigest : Type := FixedBytes 32

def EMPTY_DOMAIN : List UInt8 :=
  Utf8.encode "fractonica.inventory.empty.v1".toList ++ [0]
def LEAF_DOMAIN : List UInt8 :=
  Utf8.encode "fractonica.inventory.leaf.v1".toList ++ [0]
def NODE_DOMAIN : List UInt8 :=
  Utf8.encode "fractonica.inventory.node.v1".toList ++ [0]

@[ext]
structure InventoryEntry where
  key : FixedBytes 32
  valueDigest : InventoryDigest
deriving DecidableEq

structure InventoryChild where
  digit : UInt8
  count : UInt64
  hash : InventoryDigest
deriving DecidableEq

structure InventorySummary where
  path : List UInt8
  count : UInt64
  hash : InventoryDigest
  children : List InventoryChild
  entries : List InventoryEntry
deriving DecidableEq

inductive InventoryError where
  | invalidNamespace
  | invalidPrefix
  | conflictingEntry (key : FixedBytes 32)
deriving DecidableEq

-- A named set of entries, one for each key, in the order of the keys.
structure InventoryTree where
  namespaceBytes : List UInt8
  entries : List InventoryEntry
  named : namespaceBytes ≠ [] ∧ namespaceBytes.length ≤ MAX_NAMESPACE_BYTES
  sorted : entries.Pairwise fun left right => left.key < right.key

def keyBit (key : FixedBytes 32) (bit : Nat) : UInt8 :=
  ((key.bytes[bit / 8]?.getD 0) >>> UInt8.ofNat (7 - bit % 8)) &&& 1

-- Three bits of the key; there is one bit left for the last digit.
def octalDigit (key : FixedBytes 32) (depth : Nat) : UInt8 :=
  let startBit := depth * 3
  (List.range 3).foldl (fun digit offset =>
    let digit := digit <<< 1
    let bit := startBit + offset
    if bit < KEY_BYTES * 8 then digit ||| keyBit key bit else digit) 0

def keyHasPrefix (key : FixedBytes 32) (path : List UInt8) : Bool :=
  path.zipIdx.all fun (digit, depth) => octalDigit key depth = digit

def validatePrefix (path : List UInt8) : Except InventoryError Unit := do
  require (path.length ≤ MAX_OCTAL_DEPTH ∧ path.all fun digit => digit.toNat < RADIX)
    .invalidPrefix
  require (path.length = MAX_OCTAL_DEPTH → path.getLast? = some 0 ∨ path.getLast? = some 4)
    .invalidPrefix

namespace InventoryTree

-- The ordered map that the entries are collected in.
abbrev Unique : Type :=
  { unique : List (FixedBytes 32 × InventoryDigest) // SortedMap.Sorted unique }

def collect : List InventoryEntry → Unique → Except InventoryError Unique
  | [], unique => .ok unique
  | entry :: entries, unique => do
    require (¬(unique.val.lookup entry.key).any fun existing => existing ≠ entry.valueDigest)
      (.conflictingEntry entry.key)
    collect entries ⟨SortedMap.insert entry.key entry.valueDigest unique.val,
      SortedMap.sorted_insert _ _ unique.property⟩

def build (namespaceBytes : List UInt8) (entries : List InventoryEntry) :
    Except InventoryError InventoryTree :=
  if named : namespaceBytes ≠ [] ∧ namespaceBytes.length ≤ MAX_NAMESPACE_BYTES then do
    let unique ← collect entries ⟨[], List.Pairwise.nil⟩
    .ok {
      namespaceBytes
      entries := unique.val.map fun entry => { key := entry.1, valueDigest := entry.2 }
      named
      sorted := by
        rw [List.pairwise_map]
        exact unique.property }
  else .error .invalidNamespace

end InventoryTree

section Hashing

-- What is hashed for a summary.
def digestInput (domain namespaceBytes path : List UInt8) (count : UInt64)
    (payload : List UInt8) : List UInt8 :=
  domain ++ (toBE 2 namespaceBytes.length ++ (namespaceBytes ++
    (toBE 2 path.length ++ (path ++ (toBE 8 count.toNat ++ payload)))))

def leafInput (namespaceBytes : List UInt8) (entry : InventoryEntry) : List UInt8 :=
  LEAF_DOMAIN ++ (toBE 2 namespaceBytes.length ++ (namespaceBytes ++
    (entry.key.bytes ++ entry.valueDigest.bytes)))

def childBytes (child : InventoryChild) : List UInt8 :=
  child.digit :: (toBE 8 child.count.toNat ++ child.hash.bytes)

variable (sha256 : List UInt8 → InventoryDigest) (namespaceBytes : List UInt8)

def digestParts (domain path : List UInt8) (count : UInt64) (payload : List UInt8) :
    InventoryDigest :=
  sha256 (digestInput domain namespaceBytes path count payload)

def leaves (entries : List InventoryEntry) : List UInt8 :=
  entries.flatMap fun entry => (sha256 (leafInput namespaceBytes entry)).bytes

def bucketHash (path : List UInt8) (entries : List InventoryEntry) : InventoryDigest :=
  if entries.isEmpty then digestParts sha256 namespaceBytes EMPTY_DOMAIN path 0 []
  else digestParts sha256 namespaceBytes NODE_DOMAIN path (UInt64.ofNat entries.length)
    (leaves sha256 namespaceBytes entries)

def nodeHash (path : List UInt8) (count : UInt64) (children : List InventoryChild) :
    InventoryDigest :=
  digestParts sha256 namespaceBytes NODE_DOMAIN path count (children.flatMap childBytes)

def bucket (path : List UInt8) (entries : List InventoryEntry) : InventorySummary where
  path := path
  count := UInt64.ofNat entries.length
  hash := bucketHash sha256 namespaceBytes path entries
  children := []
  entries := entries

def childEntries (path : List UInt8) (entries : List InventoryEntry) (digit : UInt8) :
    List InventoryEntry :=
  entries.filter fun entry => octalDigit entry.key path.length = digit

def digits : List UInt8 := (List.range RADIX).map UInt8.ofNat

-- The depth that remains is `MAX_OCTAL_DEPTH` less the length of the path.
def summarizeFrom : Nat → List UInt8 → List InventoryEntry → InventorySummary
  | 0, path, entries => bucket sha256 namespaceBytes path entries
  | remaining + 1, path, entries =>
    if entries.length ≤ BUCKET_CAPACITY then bucket sha256 namespaceBytes path entries
    else
      let children := digits.filterMap fun digit =>
        if (childEntries path entries digit).isEmpty then none
        else
          let child := summarizeFrom remaining (path ++ [digit]) (childEntries path entries digit)
          some { digit, count := child.count, hash := child.hash }
      { path
        count := UInt64.ofNat entries.length
        hash := nodeHash sha256 namespaceBytes path (UInt64.ofNat entries.length) children
        children
        entries := [] }

end Hashing

namespace InventoryTree

variable (sha256 : List UInt8 → InventoryDigest) (tree : InventoryTree)

def under (path : List UInt8) : List InventoryEntry :=
  tree.entries.filter fun entry => keyHasPrefix entry.key path

def summarizeEntries (path : List UInt8) (entries : List InventoryEntry) : InventorySummary :=
  summarizeFrom sha256 tree.namespaceBytes (MAX_OCTAL_DEPTH - path.length) path entries

def summary (path : List UInt8) : Except InventoryError InventorySummary := do
  validatePrefix path
  .ok (tree.summarizeEntries sha256 path (tree.under path))

end InventoryTree

end Fractonica.Replication
