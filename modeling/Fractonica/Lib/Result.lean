import Mathlib.Data.List.Forall2

namespace Fractonica.Lib

open List

variable {ε α β : Type}

-- Peels one step of a fallible computation.
theorem bind_eq_ok {f : α → Except ε β} : (x >>= f) = .ok b ↔ ∃ a, x = .ok a ∧ f a = .ok b := by
  constructor
  · intro h
    cases x with
    | error e => cases h
    | ok a => exact ⟨a, rfl, h⟩
  · rintro ⟨a, rfl, hf⟩
    exact hf

@[simp] theorem ok_bind (a : α) (f : α → Except ε β) : ((.ok a : Except ε α) >>= f) = f a := rfl

@[simp] theorem error_bind (e : ε) (f : α → Except ε β) :
    ((.error e : Except ε α) >>= f) = .error e := rfl

@[simp] theorem pure_eq_ok (a : α) : (pure a : Except ε α) = .ok a := rfl

@[simp] theorem throw_eq_error (e : ε) : (throw e : Except ε α) = .error e := rfl

@[simp] theorem mapError_eq_ok {ε' : Type} {x : Except ε α} {f : ε → ε'} :
    x.mapError f = .ok a ↔ x = .ok a := by
  cases x <;> simp [Except.mapError]

theorem isOk_iff {x : Except ε α} : x.isOk = true ↔ ∃ a, x = .ok a := by
  cases x <;> simp [Except.isOk, Except.toBool]

theorem toOption_eq_some {x : Except ε α} : x.toOption = some a ↔ x = .ok a := by
  cases x <;> simp [Except.toOption]

-- A guard that fails with a fixed error.
def require (c : Bool) (e : ε) : Except ε Unit :=
  if c then .ok () else .error e

@[simp] theorem require_eq_ok {e : ε} : require c e = .ok u ↔ c = true := by
  unfold require
  cases c <;> simp

theorem exists_unit {p : Unit → Prop} : (∃ u, p u) ↔ p () :=
  ⟨fun ⟨_, h⟩ => h, fun h => ⟨(), h⟩⟩

theorem require_bind_eq_ok {e : ε} {b : β} :
    (require c e >>= f) = .ok b ↔ c = true ∧ f () = .ok b := by
  simp [bind_eq_ok, exists_unit]

-- A step that has one possible result.
theorem exists_only {q : α → Prop} : (∃ x, (p ∧ x = a) ∧ q x) ↔ p ∧ q a := by
  simp

-- An optional value with the error reported when it is absent.
def okOr (x : Option α) (e : ε) : Except ε α :=
  match x with
  | some a => .ok a
  | none => .error e

@[simp] theorem okOr_eq_ok {e : ε} {a : α} : okOr x e = .ok a ↔ x = some a := by
  cases x <;> simp [okOr]

-- A fallible map returns the list of the results.
theorem mapM_eq_ok {f : α → Except ε β} :
    xs.mapM f = .ok ys ↔ List.Forall₂ (fun x y => f x = .ok y) xs ys := by
  induction xs generalizing ys with
  | nil =>
    rw [mapM_nil, pure_eq_ok, Except.ok.injEq, forall₂_nil_left_iff, eq_comm]
  | cons x xs ih =>
    simp [bind_eq_ok, ih, forall₂_cons_left_iff, @eq_comm _ ys]

-- A fallible fold succeeds if every step takes the state of a front of the list
-- to that of the longer front.
theorem foldlM_prefixes {σ : Type} {step : σ → α → Except ε σ} (state : List α → σ)
    (h : ∀ front x back, xs = front ++ x :: back →
      step (state front) x = .ok (state (front ++ [x]))) :
    xs.foldlM step (state []) = .ok (state xs) := by
  -- The part of the list that is still to come gets shorter.
  have hrest : ∀ back front, xs = front ++ back →
      back.foldlM step (state front) = .ok (state xs) := by
    intro back
    induction back with
    | nil =>
      intro front hxs
      rw [hxs, append_nil]
      rfl
    | cons x back ih =>
      intro front hxs
      rw [foldlM_cons, h front x back hxs, ok_bind]
      exact ih (front ++ [x]) (by rw [hxs, append_assoc]; rfl)
  exact hrest xs [] rfl

-- A loop of checks, which stops at the first failure.
def checkAll (f : α → Except ε Unit) : List α → Except ε Unit
  | [] => .ok ()
  | x :: xs => do
    f x
    checkAll f xs

theorem checkAll_eq_ok {f : α → Except ε Unit} :
    checkAll f xs = .ok u ↔ ∀ x ∈ xs, f x = .ok () := by
  induction xs with
  | nil => simp [checkAll]
  | cons x xs ih =>
    simp only [checkAll, bind_eq_ok, ih, forall_mem_cons, exists_unit]

end Fractonica.Lib
