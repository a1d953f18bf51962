import Mathlib.Data.List.Pairwise
import Mathlib.Order.Lattice

namespace Fractonica.Lib.ReplayCache

open List

-- The keys that were used, each kept until its expiry at least.
variable {κ τ : Type} [LinearOrder τ]

structure Entry (κ τ : Type) where
  key : κ
  expires : τ

structure Request (κ τ : Type) where
  entry : Entry κ τ
  now : τ

-- An accepted request drops expired entries only, finds no entry with its key
-- among those that are left, and leaves its own.
structure Accepts (cache cache' : List (Entry κ τ)) (request : Request κ τ) : Prop where
  kept : ∀ e ∈ cache, e ∈ cache' ∨ e.expires ≤ request.now
  fresh : ∀ e ∈ cache, e.key = request.entry.key → e.expires ≤ request.now
  recorded : request.entry ∈ cache'

-- The accepted requests lead from one cache to the other.
def Run : List (Entry κ τ) → List (Request κ τ) → List (Entry κ τ) → Prop
  | cache, [], cache' => cache' = cache
  | cache, request :: rest, cache' => ∃ between, Accepts cache between request ∧
      Run between rest cache'

section Runs

variable {cache cache' : List (Entry κ τ)}

theorem run_append {first second : List (Request κ τ)} :
    Run cache (first ++ second) cache' ↔
      ∃ between, Run cache first between ∧ Run between second cache' := by
  induction first generalizing cache with
  | nil => simp [Run]
  | cons request first ih =>
    simp only [cons_append, Run, ih]
    constructor
    · rintro ⟨next, haccepts, between, hfirst, hsecond⟩
      exact ⟨between, ⟨next, haccepts, hfirst⟩, hsecond⟩
    · rintro ⟨between, ⟨next, haccepts, hfirst⟩, hsecond⟩
      exact ⟨next, haccepts, between, hfirst, hsecond⟩

theorem Run.snoc {requests : List (Request κ τ)} {next : List (Entry κ τ)} {request : Request κ τ}
    (h : Run cache requests cache') (haccepts : Accepts cache' next request) :
    Run cache (requests ++ [request]) next :=
  run_append.mpr ⟨cache', h, next, haccepts, rfl⟩

-- An entry leaves the cache only when a request comes after its expiry.
theorem Run.kept {requests : List (Request κ τ)} (h : Run cache requests cache') {e : Entry κ τ}
    (he : e ∈ cache) : e ∈ cache' ∨ ∃ request ∈ requests, e.expires ≤ request.now := by
  induction requests generalizing cache with
  | nil =>
    obtain rfl : cache' = cache := h
    exact .inl he
  | cons request rest ih =>
    obtain ⟨between, haccepts, hrest⟩ := h
    rcases haccepts.kept e he with hkept | hexpired
    · rcases ih hrest hkept with hkept | ⟨other, hother, hexpired⟩
      · exact .inl hkept
      · exact .inr ⟨other, mem_cons_of_mem _ hother, hexpired⟩
    · exact .inr ⟨request, mem_cons_self, hexpired⟩

-- Before a key is accepted again, some request came after the expiry of its
-- first use.
theorem Run.reuse {earlier between later : List (Request κ τ)} {first second : Request κ τ}
    (h : Run cache (earlier ++ first :: (between ++ second :: later)) cache')
    (hkey : first.entry.key = second.entry.key) :
    ∃ request ∈ between ++ [second], first.entry.expires ≤ request.now := by
  obtain ⟨_, -, recorded, haccepts, hrest⟩ := run_append.mp h
  obtain ⟨last, hbetween, _, hlast, -⟩ := run_append.mp hrest
  rcases Run.kept hbetween haccepts.recorded with hkept | ⟨request, hrequest, hexpired⟩
  · exact ⟨second, mem_append_right _ mem_cons_self, hlast.fresh _ hkept hkey⟩
  · exact ⟨request, mem_append_left _ hrequest, hexpired⟩

-- With a clock that does not go back, the second use comes after the expiry of
-- the first.
theorem Run.reuse_of_sorted {earlier between later : List (Request κ τ)}
    {first second : Request κ τ}
    (h : Run cache (earlier ++ first :: (between ++ second :: later)) cache')
    (hkey : first.entry.key = second.entry.key)
    (hsorted : ∀ request ∈ between, request.now ≤ second.now) :
    first.entry.expires ≤ second.now := by
  obtain ⟨request, hrequest, hexpired⟩ := h.reuse hkey
  rcases mem_append.mp hrequest with hmem | hmem
  · exact le_trans hexpired (hsorted request hmem)
  · rwa [mem_singleton.mp hmem] at hexpired

theorem Run.pairwise_of_sorted {requests : List (Request κ τ)} (h : Run cache requests cache')
    (hsorted : requests.Pairwise fun a b => a.now ≤ b.now) :
    requests.Pairwise fun a b => a.entry.key = b.entry.key → a.entry.expires ≤ b.now := by
  induction requests generalizing cache with
  | nil => exact .nil
  | cons first rest ih =>
    obtain ⟨between, -, hrest⟩ := id h
    rw [pairwise_cons] at hsorted ⊢
    refine ⟨?_, ih hrest hsorted.2⟩
    intro second hsecond hkey
    obtain ⟨middle, later, rfl⟩ := append_of_mem hsecond
    have hmiddle := (pairwise_append.mp hsorted.2).2.2
    have hall : Run cache ([] ++ first :: (middle ++ second :: later)) cache' := h
    exact hall.reuse_of_sorted hkey
      fun request hrequest => hmiddle request hrequest second mem_cons_self

end Runs

end Fractonica.Lib.ReplayCache
