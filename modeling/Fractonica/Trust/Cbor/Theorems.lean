import Fractonica.Trust.Cbor.Decode
import Fractonica.Trust.Cbor.Encode

namespace Fractonica.Trust

open Lib List

variable {value : CanonicalValue} {bytes : List UInt8}

theorem toCanonicalCbor_eq_ok :
    toCanonicalCbor value = .ok bytes ↔
      Canonical (MAX_CANONICAL_DEPTH + 1) (normalize value) ∧ bytes = encoding (normalize value) ∧
        bytes.length ≤ MAX_CANONICAL_BYTES :=
  encodeValue_encodesValue value 0 [] bytes (Nat.zero_le _)

-- A complete run of the decoder, without the length check in front of it.
theorem decodeValue_complete_iff :
    (∃ cursor, (Decoder.decodeValue (MAX_CANONICAL_DEPTH + 1)).run (Cursor.start bytes) =
        .ok (value, cursor) ∧ cursor.rest = []) ↔
      Canonical (MAX_CANONICAL_DEPTH + 1) value ∧ encoding value = bytes := by
  constructor
  · rintro ⟨cursor, hrun, hend⟩
    obtain ⟨hcanon, hread⟩ := (Decoder.decodeValue_parses _ _ _ _).mp hrun
    exact ⟨hcanon, ((Cursor.reads_start_end hend).mp hread).1⟩
  · rintro ⟨hcanon, rfl⟩
    refine ⟨⟨(encoding value).length, []⟩, ?_, rfl⟩
    rw [Decoder.decodeValue_parses]
    exact ⟨hcanon, (Cursor.reads_start_end rfl).mpr ⟨rfl, rfl⟩⟩

theorem fromCanonicalCbor_eq_ok :
    fromCanonicalCbor bytes = .ok value ↔
      Canonical (MAX_CANONICAL_DEPTH + 1) value ∧ encoding value = bytes ∧
        bytes.length ≤ MAX_CANONICAL_BYTES := by
  rw [← and_assoc, ← decodeValue_complete_iff]
  unfold fromCanonicalCbor
  by_cases hlen : bytes.length ≤ MAX_CANONICAL_BYTES
  · rw [if_neg (by omega), bind_eq_ok, and_iff_left hlen]
    constructor
    · rintro ⟨⟨decoded, cursor⟩, hrun, hrest⟩
      simp only at hrest
      split_ifs at hrest with hend
      obtain ⟨encoded, -, hok⟩ := bind_eq_ok.mp hrest
      split_ifs at hok
      cases hok
      exact ⟨cursor, hrun, not_not.mp hend⟩
    · rintro ⟨cursor, hrun, hend⟩
      obtain ⟨hcanon, rfl⟩ := decodeValue_complete_iff.mp ⟨cursor, hrun, hend⟩
      refine ⟨(value, cursor), hrun, ?_⟩
      have hencode : toCanonicalCbor value = .ok (encoding value) := by
        rw [toCanonicalCbor_eq_ok, normalize_eq_self hcanon]
        exact ⟨hcanon, rfl, hlen⟩
      simp [hend, hencode]
  · rw [if_pos (by omega)]
    refine iff_of_false (by simp) (fun h => hlen h.2)

theorem toCanonicalCbor_of_canonical (h : Canonical (MAX_CANONICAL_DEPTH + 1) value)
    (hlen : (encoding value).length ≤ MAX_CANONICAL_BYTES) :
    toCanonicalCbor value = .ok (encoding value) := by
  rw [toCanonicalCbor_eq_ok, normalize_eq_self h]
  exact ⟨h, rfl, hlen⟩

theorem Canonical.succ (h : Canonical levels value) : Canonical (levels + 1) value := by
  induction value using CanonicalValue.memberInduction generalizing levels with
  | array values ih =>
    obtain ⟨levels, rfl⟩ := h.exists_succ
    exact ⟨h.1, fun value hvalue => ih value hvalue (h.2 value hvalue)⟩
  | map entries ih =>
    obtain ⟨levels, rfl⟩ := h.exists_succ
    exact ⟨h.1, fun entry hentry => ⟨(ih entry hentry).1 (h.2.1 entry hentry).1,
      (ih entry hentry).2 (h.2.1 entry hentry).2⟩, h.2.2⟩
  | _ =>
    obtain ⟨levels, rfl⟩ := h.exists_succ
    exact h

theorem length_encoding_le_of_mem
    (h : value ∈ values) : (encoding value).length ≤ (encoding (.array values)).length := by
  obtain ⟨before, after, rfl⟩ := append_of_mem h
  simp only [encoding_array, flatMap_append, flatMap_cons, length_append]
  omega

-- Equal encodings come from equal values, because the decoder is a function.
theorem encoding_injective {left right : CanonicalValue} (hleft : Canonical levels left)
    (hright : Canonical levels right) (h : encoding left = encoding right) : left = right := by
  have hl : (Cursor.start (encoding left)).Reads (encoding left) ⟨(encoding left).length, []⟩ :=
    (Cursor.reads_start_end rfl).mpr ⟨rfl, rfl⟩
  have hr : (Cursor.start (encoding left)).Reads (encoding right) ⟨(encoding left).length, []⟩ :=
    (Cursor.reads_start_end rfl).mpr ⟨h.symm, rfl⟩
  exact ((Decoder.decodeValue_parses levels).unique hleft hright hl hr).1

-- Whatever the decoder reads to the end is the encoding of what it returns.
-- The encoder gives the same bytes back exactly when they are within its own
-- limit, which `from_canonical_cbor` checks before it decodes.
theorem decodeValue_reencodes {bytes : List UInt8} {value : CanonicalValue} {cursor : Cursor}
    (hrun : (Decoder.decodeValue (MAX_CANONICAL_DEPTH + 1)).run (Cursor.start bytes) =
      .ok (value, cursor)) (hend : cursor.rest = []) :
    (toCanonicalCbor value = .ok bytes ↔ bytes.length ≤ MAX_CANONICAL_BYTES) ∧
      (bytes.length ≤ MAX_CANONICAL_BYTES → fromCanonicalCbor bytes = .ok value) ∧
      ∀ other, fromCanonicalCbor other = .ok value → other = bytes := by
  obtain ⟨hcanon, rfl⟩ := decodeValue_complete_iff.mp ⟨cursor, hrun, hend⟩
  refine ⟨?_, fun hlen => fromCanonicalCbor_eq_ok.mpr ⟨hcanon, rfl, hlen⟩, ?_⟩
  · rw [toCanonicalCbor_eq_ok, normalize_eq_self hcanon]
    exact ⟨fun h => h.2.2, fun h => ⟨hcanon, rfl, h⟩⟩
  · intro other hother
    exact (fromCanonicalCbor_eq_ok.mp hother).2.1.symm

-- The map with the one entry 0 ↦ [-1].
theorem decodeValue_reencodes_map :
    toCanonicalCbor (.map [(.unsigned 0, .array [.integer (-1)])]) =
        .ok [0xa1, 0x00, 0x81, 0x20] ∧
      fromCanonicalCbor [0xa1, 0x00, 0x81, 0x20] =
        .ok (.map [(.unsigned 0, .array [.integer (-1)])]) := by
  have hrun : (Decoder.decodeValue (MAX_CANONICAL_DEPTH + 1)).run
      (Cursor.start [0xa1, 0x00, 0x81, 0x20]) =
        .ok (.map [(.unsigned 0, .array [.integer (-1)])], ⟨4, []⟩) := rfl
  obtain ⟨hencode, hdecode, -⟩ := decodeValue_reencodes hrun rfl
  exact ⟨hencode.mpr (by decide), hdecode (by decide)⟩

-- A byte string as long as the limit is read by the decoder, but with its
-- head it is too long for the encoder.
theorem decodeValue_reads_past_limit :
    ∃ value cursor,
      (Decoder.decodeValue (MAX_CANONICAL_DEPTH + 1)).run
          (Cursor.start ([0x5a, 0x00, 0x20, 0x00, 0x00] ++
            List.replicate MAX_CANONICAL_BYTES 0)) = .ok (value, cursor) ∧
        cursor.rest = [] ∧
        toCanonicalCbor value ≠
          .ok ([0x5a, 0x00, 0x20, 0x00, 0x00] ++ List.replicate MAX_CANONICAL_BYTES 0) := by
  have hhead : head 2 (List.replicate MAX_CANONICAL_BYTES (0 : UInt8)).length =
      [0x5a, 0x00, 0x20, 0x00, 0x00] := by
    rw [length_replicate]
    decide
  have hbytes : encoding (.bytes (List.replicate MAX_CANONICAL_BYTES 0)) =
      [0x5a, 0x00, 0x20, 0x00, 0x00] ++ List.replicate MAX_CANONICAL_BYTES 0 := by
    rw [encoding, hhead]
  have hcanon : Canonical (MAX_CANONICAL_DEPTH + 1)
      (.bytes (List.replicate MAX_CANONICAL_BYTES 0)) := by
    change (List.replicate MAX_CANONICAL_BYTES (0 : UInt8)).length < USIZE
    rw [length_replicate]
    decide
  obtain ⟨cursor, hrun, hend⟩ := decodeValue_complete_iff.mpr ⟨hcanon, hbytes⟩
  refine ⟨_, cursor, hrun, hend, fun h => ?_⟩
  have hlen := (toCanonicalCbor_eq_ok.mp h).2.2
  rw [length_append, length_replicate, length_cons] at hlen
  omega

-- Decoding inverts encoding up to the normal form, and the normal form is all
-- that an encoding keeps of a value.
theorem toCanonicalCbor_round_trip {value : CanonicalValue} {bytes : List UInt8}
    (h : toCanonicalCbor value = .ok bytes) :
    fromCanonicalCbor bytes = .ok (normalize value) ∧
      ∀ other bytes', toCanonicalCbor other = .ok bytes' →
        (bytes' = bytes ↔ normalize other = normalize value) := by
  obtain ⟨hcanon, rfl, hlen⟩ := toCanonicalCbor_eq_ok.mp h
  refine ⟨fromCanonicalCbor_eq_ok.mpr ⟨hcanon, rfl, hlen⟩, ?_⟩
  intro other bytes' hother
  obtain ⟨hcanon', rfl, -⟩ := toCanonicalCbor_eq_ok.mp hother
  constructor
  · intro heq
    exact encoding_injective hcanon' hcanon heq
  · intro heq
    rw [heq]

-- A map with its entries out of order and a nonnegative signed key.
theorem toCanonicalCbor_round_trip_map :
    toCanonicalCbor (.map [(.text "b", .null), (.integer 7, .float 0x3ff8000000000000)]) =
        .ok [0xa2, 0x07, 0xf9, 0x3e, 0x00, 0x61, 0x62, 0xf6] ∧
      fromCanonicalCbor [0xa2, 0x07, 0xf9, 0x3e, 0x00, 0x61, 0x62, 0xf6] =
        .ok (normalize (.map [(.text "b", .null), (.integer 7, .float 0x3ff8000000000000)])) := by
  have h : toCanonicalCbor (.map [(.text "b", .null), (.integer 7, .float 0x3ff8000000000000)]) =
      .ok [0xa2, 0x07, 0xf9, 0x3e, 0x00, 0x61, 0x62, 0xf6] := by decide +kernel
  exact ⟨h, (toCanonicalCbor_round_trip h).1⟩

end Fractonica.Trust
