import Fractonica.Client.Deliveries.Theorems

namespace Fractonica.Client

open Lib Trust DataModel List
open Store (Platform)

-- How the operations of the store go on: a number is given once, and without a
-- deletion the rows stay as they are.
structure Extends (deleting : Bool) (g g' : GraphTables) : Prop where
  counter : g.lastSequence ≤ g'.lastSequence
  rows : ∀ row ∈ g'.operations, row ∈ g.operations ∨ g.lastSequence < row.localSequence
  kept : deleting = false → g.operations <+: g'.operations

section Runs

variable {P : Platform} {t : Tables}

theorem Extends.refl (g : GraphTables) : Extends deleting g g :=
  ⟨le_rfl, fun _ hrow => .inl hrow, fun _ => List.prefix_rfl⟩

theorem Extends.trans (h : Extends first g g') (h' : Extends second g' g'') :
    Extends (first || second) g g'' := by
  refine ⟨h.counter.trans h'.counter, ?_, ?_⟩
  · intro row hrow
    rcases h'.rows row hrow with hrow | hlater
    · exact h.rows row hrow
    · exact .inr (h.counter.trans_lt hlater)
  · intro hnone
    obtain ⟨hfirst, hsecond⟩ := Bool.or_eq_false_iff.mp hnone
    exact (h.kept hfirst).trans (h'.kept hsecond)

theorem Inserted.extends (h : Inserted P g a g') : Extends false g g' := by
  have hsequence := h.sequence
  refine ⟨?_, ?_, ?_⟩
  · rw [h.lastSequence]
    omega
  · rw [h.operations, forall_mem_append, forall_mem_singleton]
    exact ⟨fun _ => .inl, .inr (Nat.lt_of_succ_le hsequence.ge)⟩
  · rw [h.operations]
    exact fun _ => List.prefix_append _ _

theorem Call.extends (call : Call) : Extends call.deletes t.graph (call.apply P t).graph := by
  unfold Call.apply
  cases hrun : call.run P t with
  | error error => exact .refl _
  | ok next =>
    refine Call.induction (fun s => Extends false t.graph s.graph)
      (fun s => Extends call.deletes t.graph s.graph) (.refl _) hrun ?_ ?_ ?_ ?_
    · exact fun s _ hs => ⟨hs.counter, hs.rows, fun _ => hs.kept rfl⟩
    · intro s s' operation storedAtUnixMs source result _ hs hok
      cases commit_cases hok with
      | replayed hgraph => exact hgraph ▸ hs
      | inserted hins => exact hs.trans hins.extends
    · rintro spaceId rfl -
      exact ⟨le_rfl, fun _ hrow => .inl (mem_of_mem_filter hrow), nofun⟩
    · intro hstores
      change Extends _ _ next.graph
      rw [call.graph_eq hstores hrun]
      exact .refl _

end Runs

theorem client_log_extends (P : Platform) (t : Tables) (calls : List Call) :
    Extends (calls.any Call.deletes) t.graph (calls.foldl (Call.apply P) t).graph := by
  induction calls generalizing t with
  | nil => exact .refl _
  | cons call rest ih => exact call.extends.trans (ih _)

open Sample (connected outbox outbox_reads reachable_outbox)

end Fractonica.Client
