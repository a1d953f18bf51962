import Fractonica.Client.Rebuild.Theorems

namespace Fractonica.Client

open Lib Trust Content DataModel List
open Store (Platform HeadRow SpaceDescriptor)

-- The rows that belong to one space: its own, those of its operations, and the
-- content that its operations refer to.
@[ext] structure SpaceView where
  operations : List OperationRow
  parents : List ParentRow
  authorizations : List AuthorizationRow
  heads : List HeadRow
  visibility : List VisibilityRow
  projections : List ProjectionRow
  peerSpaces : List PeerSpaceRow
  deliveries : List DeliveryRow
  operationResources : List OperationResourceRow
  resources : List ResourceRow
  transfers : List TransferRow
  workspaces : List SpaceDescriptor
  activeWorkspace : Option ActiveWorkspace

def Tables.view (t : Tables) (spaceId : SpaceId) : SpaceView where
  operations := t.graph.operations.filter (·.spaceId = spaceId)
  parents := t.graph.parents.filter fun row => operationIn t.graph row.operationId spaceId
  authorizations := t.graph.authorizations.filter fun row =>
    operationIn t.graph row.operationId spaceId
  heads := t.graph.heads.filter (·.spaceId = spaceId)
  visibility := t.graph.visibility.filter (·.spaceId = spaceId)
  projections := t.graph.projections.filter (·.spaceId = spaceId)
  peerSpaces := t.peering.spaces.filter (·.spaceId = spaceId)
  deliveries := t.peering.deliveries.filter fun row => operationIn t.graph row.operationId spaceId
  operationResources := t.media.operationResources.filter fun row =>
    operationIn t.graph row.operationId spaceId
  resources := t.media.resources.filter fun row => contentIn t.graph t.media row.contentId spaceId
  transfers := t.media.transfers.filter fun row => contentIn t.graph t.media row.contentId spaceId
  workspaces := t.workspaces.filter (·.spaceId = spaceId)
  activeWorkspace := t.activeWorkspace.filter (·.spaceId = spaceId)

-- No row of another space names an operation of the space.
@[mk_iff] structure Detached (t : Tables) (spaceId : SpaceId) : Prop where
  parents : ∀ row ∈ t.graph.parents, operationIn t.graph row.parentOperationId spaceId = true →
    operationIn t.graph row.operationId spaceId = true
  authorizations : ∀ row ∈ t.graph.authorizations,
    operationIn t.graph row.authorizationOperationId spaceId = true →
      operationIn t.graph row.operationId spaceId = true
  workspaces : ∀ row ∈ t.workspaces, row.spaceId ≠ spaceId →
    operationIn t.graph row.genesisOperationId spaceId = false ∧
      operationIn t.graph row.initialGrantOperationId spaceId = false
  active : ∀ active ∈ t.activeWorkspace, active.spaceId ≠ spaceId →
    operationIn t.graph active.authorizationOperationId spaceId = false

-- The content is referred to in the space and in no other one.
def OnlyIn (t : Tables) (contentId : ContentId) (spaceId : SpaceId) : Prop :=
  contentIn t.graph t.media contentId spaceId = true ∧
    ∀ other, other ≠ spaceId → contentIn t.graph t.media contentId other = false

section Views

variable {P : Platform} {t : Tables} {spaceId other : SpaceId}

theorem filter_kept {α : Type} {keep mine : α → Bool} (h : ∀ a, mine a = true → keep a = true)
    (rows : List α) : (rows.filter keep).filter mine = rows.filter mine := by
  rw [filter_filter]
  refine filter_congr fun a _ => ?_
  cases hmine : mine a with
  | true => exact h a hmine
  | false => rfl

theorem operationIn_without (hne : other ≠ spaceId) (id : OperationId) :
    operationIn (t.withoutSpace spaceId).graph id other = operationIn t.graph id other := by
  simp only [operationIn, Tables.withoutSpace, GraphTables.withoutSpace, any_filter]
  congr 1
  funext row
  by_cases hspace : row.spaceId = other <;> simp [hspace, hne]

theorem operationIn_deleted (id : OperationId) :
    operationIn (t.withoutSpace spaceId).graph id spaceId = false := by
  simp only [operationIn, Tables.withoutSpace, GraphTables.withoutSpace, any_filter,
    any_eq_false]
  intro row _
  by_cases hspace : row.spaceId = spaceId <;> simp [hspace]

-- An operation is stored once, so it is in one space.
theorem Coherent.operationIn_unique (h : Coherent P t.graph log) (hne : other ≠ spaceId)
    (id : OperationId) (hin : operationIn t.graph id other = true) :
    (!operationIn t.graph id spaceId) = true := by
  have hkeys : (t.graph.operations.map (·.operationId)).Nodup := by
    rw [h.represents.operations, map_map]
    exact h.causal.keys
  rw [Bool.not_eq_true', Bool.eq_false_iff]
  intro hdeleted
  simp only [operationIn, any_eq_true, Bool.and_eq_true, decide_eq_true_eq] at hin hdeleted
  obtain ⟨row, hrow, hid, hspace⟩ := hin
  obtain ⟨row', hrow', hid', hspace'⟩ := hdeleted
  have hsame := inj_on_of_nodup_map hkeys hrow hrow' (hid.trans hid'.symm)
  exact hne (hspace.symm.trans (hsame ▸ hspace'))

theorem Coherent.contentIn_without (h : Coherent P t.graph log) (hne : other ≠ spaceId)
    (contentId : ContentId) :
    contentIn (t.withoutSpace spaceId).graph (t.withoutSpace spaceId).media contentId other =
      contentIn t.graph t.media contentId other := by
  simp only [contentIn, operationIn_without hne]
  simp only [Tables.withoutSpace, any_filter]
  congr 1
  funext link
  cases hin : operationIn t.graph link.operationId other with
  | true => simp [h.operationIn_unique hne _ hin]
  | false => simp

theorem Coherent.view_without (h : Coherent P t.graph log) (hne : other ≠ spaceId) :
    (t.withoutSpace spaceId).view other = t.view other := by
  have hspace : ∀ found : SpaceId, decide (found = other) = true →
      decide (found ≠ spaceId) = true := by
    intro found hfound
    rw [of_decide_eq_true hfound]
    exact decide_eq_true hne
  have hunique := h.operationIn_unique hne
  have hactive : (t.activeWorkspace.filter (·.spaceId ≠ spaceId)).filter (·.spaceId = other) =
      t.activeWorkspace.filter (·.spaceId = other) := by
    cases t.activeWorkspace with
    | none => rfl
    | some active =>
      by_cases hfound : active.spaceId = other <;>
        by_cases hdeleted : active.spaceId = spaceId <;> simp_all [Option.filter]
  simp only [Tables.view, operationIn_without hne, h.contentIn_without hne]
  refine SpaceView.ext ?_ ?_ ?_ ?_ ?_ ?_ ?_ ?_ ?_ rfl rfl ?_ hactive
  all_goals
    refine filter_kept (fun row hrow => ?_) _
    first
    | exact hspace _ hrow
    | exact hunique _ hrow

theorem contentIn_deleted (contentId : ContentId) :
    contentIn (t.withoutSpace spaceId).graph (t.withoutSpace spaceId).media contentId spaceId =
      false := by
  simp [contentIn, operationIn_deleted]

theorem view_deleted : (t.withoutSpace spaceId).view spaceId = Tables.empty.view spaceId := by
  simp only [Tables.view, operationIn_deleted, contentIn_deleted]
  simp [Tables.withoutSpace, GraphTables.withoutSpace, Tables.empty, GraphTables.empty]

theorem refersToSpace_eq_false : refersToSpace t spaceId = false ↔ Detached t spaceId := by
  have himp : ∀ a b : Bool, (!a && b) = false ↔ (b = true → a = true) := by decide
  simp only [refersToSpace, Tables.withoutSpace, GraphTables.withoutSpace, any_filter,
    Bool.or_eq_false_iff, any_eq_false, Bool.not_eq_true, himp, detached_iff, and_assoc]
  cases t.activeWorkspace <;> simp

-- The content is still referred to if another space did so before.
theorem Coherent.contentIn_other (h : Coherent P t.graph log) (contentId : ContentId) :
    (contentIn t.graph t.media contentId spaceId = true →
      ∃ other, contentIn (t.withoutSpace spaceId).graph (t.withoutSpace spaceId).media contentId
        other = true) ↔ ¬ OnlyIn t contentId spaceId := by
  have hothers : (∃ other, contentIn (t.withoutSpace spaceId).graph
      (t.withoutSpace spaceId).media contentId other = true) ↔
      ∃ other, other ≠ spaceId ∧ contentIn t.graph t.media contentId other = true := by
    refine exists_congr fun other => ?_
    by_cases hne : other = spaceId
    · simp [hne, contentIn_deleted]
    · simp [hne, h.contentIn_without hne]
  simp [hothers, OnlyIn]

end Views

open DataModel.Sample (spaceId)
open Sample (fetching granted orphaned outbox platform tables)

end Fractonica.Client
