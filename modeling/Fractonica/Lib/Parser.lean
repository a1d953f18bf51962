import Fractonica.Lib.Bytes
import Fractonica.Lib.Result

namespace Fractonica.Lib

open List

-- A position in an input: how much was read, and what is left.
structure Cursor where
  offset : Nat
  rest : List UInt8

namespace Cursor

variable {c c' : Cursor} {used : List UInt8}

def start (bytes : List UInt8) : Cursor := ⟨0, bytes⟩

-- Reading `used` takes the first position to the second.
def Reads (c : Cursor) (used : List UInt8) (c' : Cursor) : Prop :=
  c.rest = used ++ c'.rest ∧ c'.offset = c.offset + used.length

theorem Reads.append (h : c.Reads used c')
    (h' : c'.Reads more c'') : c.Reads (used ++ more) c'' := by
  refine ⟨?_, ?_⟩
  · rw [h.1, h'.1, append_assoc]
  · rw [h'.2, h.2, length_append, Nat.add_assoc]

theorem reads_append : c.Reads (used ++ more) c'' ↔ ∃ c', c.Reads used c' ∧ c'.Reads more c'' := by
  constructor
  · rintro ⟨hr, ho⟩
    refine ⟨⟨c.offset + used.length, more ++ c''.rest⟩, ⟨?_, rfl⟩, rfl, ?_⟩
    · rw [hr, append_assoc]
    · rw [ho, length_append, Nat.add_assoc]
  · rintro ⟨c', h, h'⟩
    exact h.append h'

@[simp] theorem reads_nil : c.Reads [] c' ↔ c = c' := by
  constructor
  · rintro ⟨hr, ho⟩
    cases c
    cases c'
    simp_all
  · rintro rfl
    exact ⟨rfl, rfl⟩

-- The bytes between two positions of one input.
def between (c c' : Cursor) : List UInt8 := c.rest.take (c'.offset - c.offset)

theorem Reads.between_eq (h : c.Reads used c') : c.between c' = used := by
  unfold between
  rw [h.2, Nat.add_sub_cancel_left, h.1, take_left]

theorem reads_start_end {bytes : List UInt8} (hc : c.rest = []) :
    (start bytes).Reads used c ↔ used = bytes ∧ c.offset = bytes.length := by
  unfold Reads start
  rw [hc, append_nil, Nat.zero_add]
  constructor
  · rintro ⟨rfl, h⟩
    exact ⟨rfl, h⟩
  · rintro ⟨rfl, h⟩
    exact ⟨rfl, h⟩

end Cursor

abbrev Parser (ε α : Type) : Type := StateT Cursor (Except ε) α

namespace Parser

variable {ε α : Type} {c c' : Cursor}

theorem bind_run {f : α → Parser ε β} :
    (p >>= f).run c = .ok (b, c'') ↔
      ∃ a c', p.run c = .ok (a, c') ∧ (f a).run c' = .ok (b, c'') := by
  rw [StateT.run_bind, bind_eq_ok, Prod.exists]

@[simp] theorem pure_run : (pure a : Parser ε α).run c = .ok (b, c') ↔ a = b ∧ c = c' := by
  rw [StateT.run_pure, pure_eq_ok, Except.ok.injEq, Prod.mk.injEq]

@[simp] theorem throw_run : ((throw e : Parser ε α).run c = .ok (b, c')) ↔ False := by
  simp [throw, throwThe, MonadExceptOf.throw, StateT.run, StateT.lift, Except.bind, bind]

-- `p` accepts exactly the encodings of the good values, each followed by
-- anything.
def Parses (p : Parser ε α) (good : α → Prop) (encode : α → List UInt8) : Prop :=
  ∀ c a c', p.run c = .ok (a, c') ↔ good a ∧ c.Reads (encode a) c'

-- The value and the position after it are determined by the input.
theorem Parses.unique {p : Parser ε α} {encode : α → List UInt8} (hp : Parses p good encode)
    (ha : good a) (hb : good b) (h₁ : c.Reads (encode a) c₁)
    (h₂ : c.Reads (encode b) c₂) : a = b ∧ c₁ = c₂ := by
  have ra := (hp c a c₁).mpr ⟨ha, h₁⟩
  have rb := (hp c b c₂).mpr ⟨hb, h₂⟩
  simpa using ra.symm.trans rb

def takeByte (end_ : ε) : Parser ε UInt8 := fun c =>
  match c.rest with
  | [] => .error end_
  | byte :: rest => .ok (byte, ⟨c.offset + 1, rest⟩)

theorem takeByte_parses (end_ : ε) : Parses (takeByte end_) (fun _ => True) (fun b => [b]) := by
  intro c a c'
  obtain ⟨offset, rest⟩ := c
  obtain ⟨offset', rest'⟩ := c'
  cases rest with
  | nil => simp [takeByte, StateT.run, Cursor.Reads]
  | cons byte rest =>
    simp only [takeByte, StateT.run, Except.ok.injEq, Prod.mk.injEq, Cursor.mk.injEq,
      Cursor.Reads, cons_append, nil_append, List.cons.injEq, length_singleton,
      true_and]
    constructor
    · rintro ⟨rfl, rfl, rfl⟩
      exact ⟨⟨rfl, rfl⟩, rfl⟩
    · rintro ⟨⟨rfl, rfl⟩, rfl⟩
      exact ⟨rfl, rfl, rfl⟩

-- `onEnd` chooses the error from the position and the length asked for.
def take (onEnd : Nat → ε) (length : Nat) : Parser ε (List UInt8) := fun c =>
  if length ≤ c.rest.length then
    .ok (c.rest.take length, ⟨c.offset + length, c.rest.drop length⟩)
  else .error (onEnd c.offset)

theorem take_parses (onEnd : Nat → ε) (length : Nat) :
    Parses (take onEnd length) (fun bytes => bytes.length = length) id := by
  intro c a c'
  obtain ⟨offset, rest⟩ := c
  obtain ⟨offset', rest'⟩ := c'
  simp only [take, StateT.run, Cursor.Reads, id]
  constructor
  · intro h
    split at h
    · rename_i hl
      obtain ⟨rfl, rfl, rfl⟩ := h
      simp [Nat.min_eq_left hl]
    · cases h
  · rintro ⟨rfl, rfl, rfl⟩
    simp

-- A parser whose errors are converted.
def mapError {ε' : Type} (f : ε → ε') (p : Parser ε α) : Parser ε' α := fun c =>
  (p.run c).mapError f

@[simp] theorem mapError_run {f : ε → ε'} {a : α} :
    (mapError f p).run c = .ok (a, c') ↔ p.run c = .ok (a, c') :=
  mapError_eq_ok

-- A counted loop.
def repeatN (p : Parser ε α) : Nat → Parser ε (List α)
  | 0 => pure []
  | n + 1 => do
    let a ← p
    let rest ← repeatN p n
    pure (a :: rest)

theorem repeatN_parses {p : Parser ε α} {encode : α → List UInt8} (hp : Parses p good encode)
    (n : Nat) :
    Parses (repeatN p n) (fun values => values.length = n ∧ ∀ a ∈ values, good a)
      (fun values => values.flatMap encode) := by
  induction n with
  | zero =>
    intro c values c'
    simp only [repeatN, pure_run, length_eq_zero_iff]
    constructor
    · rintro ⟨rfl, rfl⟩
      simp
    · rintro ⟨⟨rfl, -⟩, h⟩
      exact ⟨rfl, by simpa using h⟩
  | succ n ih =>
    intro c values c'
    simp only [repeatN, bind_run, pure_run, hp _ _ _, ih _ _ _]
    constructor
    · rintro ⟨a, c₁, ⟨ha, h₁⟩, rest, c₂, ⟨⟨hl, hrest⟩, h₂⟩, rfl, rfl⟩
      refine ⟨⟨by simp [hl], ?_⟩, ?_⟩
      · simpa using ⟨ha, hrest⟩
      · rw [flatMap_cons]
        exact h₁.append h₂
    · rintro ⟨⟨hl, hgood⟩, h⟩
      cases values with
      | nil => simp at hl
      | cons a rest =>
        rw [flatMap_cons, Cursor.reads_append] at h
        obtain ⟨c₁, h₁, h₂⟩ := h
        simp only [mem_cons, forall_eq_or_imp] at hgood
        exact ⟨a, c₁, ⟨hgood.1, h₁⟩, rest, c', ⟨⟨by simpa using hl, hgood.2⟩, h₂⟩, rfl, rfl⟩

end Parser

end Fractonica.Lib
