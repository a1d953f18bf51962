import Fractonica.Client.Log

namespace Fractonica.Client

open Lib Trust DataModel List
open Store (Platform HeadRow headRow)

variable {log : Log} {a b : StoredOperation}

section Heads

variable {spaceId : SpaceId} {entityId : EntityId}

theorem mem_homeParents : b.home ∈ a.homeParents ↔ b.space = a.space ∧ b.key ∈ a.parents := by
  simp only [StoredOperation.homeParents, StoredOperation.home, mem_map, Prod.mk.injEq]
  constructor
  · rintro ⟨parent, hparent, hspace, rfl⟩
    exact ⟨hspace.symm, hparent⟩
  · rintro ⟨hspace, hparent⟩
    exact ⟨b.key, hparent, hspace.symm, rfl⟩

theorem Log.mem_heads :
    a ∈ log.heads ↔ a ∈ log ∧ ∀ b ∈ log, b.space = a.space → a.key ∉ b.parents := by
  rw [Log.heads, History.mem_heads]
  apply and_congr_right
  intro _
  apply forall₂_congr
  intro b _
  rw [mem_homeParents, not_and]
  exact imp_congr_left eq_comm

theorem Log.mem_ofEntity :
    a ∈ log.ofEntity spaceId entityId ↔
      a ∈ log ∧ a.space = spaceId ∧ a.operation.entityId = entityId := by
  simp [Log.ofEntity]

theorem Causal.eq_of_key (h : Causal log) (ha : a ∈ log) (hb : b ∈ log) (hkey : a.key = b.key) :
    a = b :=
  inj_on_of_nodup_map h.keys ha hb hkey

-- A child within the space belongs to the same entity and comes later.
theorem Causal.child (h : Causal log) (ha : a ∈ log) (hb : b ∈ log) (hnames : a.key ∈ b.parents) :
    a.operation.entityId = b.operation.entityId ∧ a.localSequence < b.localSequence := by
  obtain ⟨c, hc, hkey, hentity, -, hlt⟩ := h.parents b hb a.key hnames
  obtain rfl := h.eq_of_key hc ha hkey
  exact ⟨hentity, hlt⟩

theorem Causal.heads_ofEntity (h : Causal log) (spaceId : SpaceId) (entityId : EntityId) :
    (log.ofEntity spaceId entityId).heads =
      log.heads.filter fun a => a.space = spaceId && a.operation.entityId = entityId := by
  apply History.heads_filter
  intro a ha b hb hkeep hnames
  obtain ⟨hspace, hparent⟩ := mem_homeParents.mp hnames
  have hchild := h.child ha hb hparent
  simpa [← hspace, ← hchild.1] using hkeep

theorem Causal.exists_entityHead (h : Causal log) (hne : log.ofEntity spaceId entityId ≠ []) :
    ∃ a, a ∈ (log.ofEntity spaceId entityId).heads := by
  have hrank : ∀ a ∈ log.ofEntity spaceId entityId, ∀ b ∈ log.ofEntity spaceId entityId,
      a.home ∈ b.homeParents → a.localSequence < b.localSequence := by
    intro a ha b hb hnames
    exact (h.child (Log.mem_ofEntity.mp ha).1 (Log.mem_ofEntity.mp hb).1
      (mem_homeParents.mp hnames).2).2
  exact History.exists_head hne hrank

end Heads

theorem Represents.mem_operations (h : Represents P g log) :
    row ∈ g.operations ↔ ∃ a ∈ log, storedRow P a = row := by
  rw [h.operations, mem_map]

theorem Represents.insert (h : Represents P g log) (hins : Inserted P g a g') :
    Represents P g' (log ++ [a]) := by
  refine ⟨?_, ?_, ?_⟩
  · rw [hins.operations, h.operations, map_append, map_singleton]
  · rw [hins.parents, h.parents, flatMap_append, flatMap_singleton]
  · rw [hins.authorizations, h.authorizations, flatMap_append, flatMap_singleton]

theorem Coherent.fresh (h : Coherent P g log) (hins : Inserted P g a g') :
    ∀ b ∈ log, b.key ≠ a.key := by
  intro b hb
  exact hins.fresh _ (h.represents.mem_operations.mpr ⟨b, hb, rfl⟩)

theorem Coherent.older (h : Coherent P g log) (hins : Inserted P g a g') :
    ∀ b ∈ log, b.localSequence < a.localSequence := by
  intro b hb
  have hle := h.numbered b hb
  rw [hins.sequence]
  omega

theorem Coherent.parent (h : Coherent P g log) (hins : Inserted P g a g') {parent : OperationId}
    (hparent : parent ∈ a.parents) : ∃ b ∈ log, b.key = parent ∧
      b.operation.entityId = a.operation.entityId ∧
      b.operation.schema = a.operation.schema ∧ b.localSequence < a.localSequence := by
  obtain ⟨row, hrow, hkey, hentity, hschema⟩ := hins.parentsStored parent hparent
  obtain ⟨b, hb, rfl⟩ := h.represents.mem_operations.mp hrow
  exact ⟨b, hb, hkey, hentity, hschema, h.older hins b hb⟩

theorem Coherent.reference (h : Coherent P g log) (hins : Inserted P g a g')
    {reference : OperationId} (hreference : reference ∈ a.operation.authorization) :
    ∃ b ∈ log, b.key = reference ∧ b.localSequence < a.localSequence := by
  obtain ⟨row, hrow, hkey⟩ := hins.authorizationStored reference hreference
  obtain ⟨b, hb, rfl⟩ := h.represents.mem_operations.mp hrow
  exact ⟨b, hb, hkey, h.older hins b hb⟩

theorem Coherent.causal_insert (h : Coherent P g log) (hins : Inserted P g a g') :
    Causal (log ++ [a]) := by
  refine ⟨?_, ?_, ?_, ?_⟩
  · rw [map_append, map_singleton]
    refine nodup_append.mpr ⟨h.causal.keys, nodup_singleton _, ?_⟩
    intro key hkey other hother
    obtain ⟨b, hb, rfl⟩ := mem_map.mp hkey
    rw [mem_singleton.mp hother]
    exact h.fresh hins b hb
  · refine pairwise_append.mpr ⟨h.causal.sequences, pairwise_singleton _ _, ?_⟩
    intro b hb c hc
    rw [mem_singleton.mp hc]
    exact h.older hins b hb
  · intro b hb parent hparent
    rcases mem_append.mp hb with hb | hb
    · obtain ⟨c, hc, hfound⟩ := h.causal.parents b hb parent hparent
      exact ⟨c, mem_append_left _ hc, hfound⟩
    · obtain rfl := mem_singleton.mp hb
      obtain ⟨c, hc, hfound⟩ := h.parent hins hparent
      exact ⟨c, mem_append_left _ hc, hfound⟩
  · intro b hb reference hreference
    rcases mem_append.mp hb with hb | hb
    · obtain ⟨c, hc, hfound⟩ := h.causal.authorization b hb reference hreference
      exact ⟨c, mem_append_left _ hc, hfound⟩
    · obtain rfl := mem_singleton.mp hb
      obtain ⟨c, hc, hfound⟩ := h.reference hins hreference
      exact ⟨c, mem_append_left _ hc, hfound⟩

theorem Coherent.insert (h : Coherent P g log) (hins : Inserted P g a g') :
    Coherent P g' (log ++ [a]) := by
  refine ⟨h.represents.insert hins, h.causal_insert hins, ?_⟩
  intro b hb
  rw [hins.lastSequence]
  rcases mem_append.mp hb with hb | hb
  · exact Nat.le_of_lt (h.older hins b hb)
  · rw [mem_singleton.mp hb]

-- Nothing in the log names the new operation, which does not name itself.
theorem Coherent.heads_insert (h : Coherent P g log) (hins : Inserted P g a g') :
    Log.heads (log ++ [a]) = log.heads.filter (fun b => b.home ∉ a.homeParents) ++ [a] := by
  have hfresh : ∀ b ∈ log, a.home ∉ b.homeParents := by
    intro b hb hnames
    obtain ⟨c, hc, hkey, -⟩ := h.causal.parents b hb a.key (mem_homeParents.mp hnames).2
    exact h.fresh hins c hc hkey
  have hself : a.home ∉ a.homeParents := by
    intro hnames
    obtain ⟨c, hc, hkey, -⟩ := h.parent hins (mem_homeParents.mp hnames).2
    exact h.fresh hins c hc hkey
  rw [Log.heads, Log.heads, History.heads_append hfresh hself]
  congr 1
  apply filter_congr
  simp

-- Within a space the code removes the heads that the operation replaces, and
-- if the operation is confined it removes no others.
theorem HeadsExact.insert (h : Coherent P g log) (hheads : HeadsExact g log)
    (hins : Inserted P g a g') (hconfined : Confined g a.operation) :
    HeadsExact g' (log ++ [a]) := by
  have hkept : keptHeads g.heads a.parents =
      (log.heads.filter fun b => b.home ∉ a.homeParents).map fun b => headRow b.operation := by
    rw [keptHeads, hheads, filter_map]
    congr 1
    apply filter_congr
    intro b hb
    have hrow : headRow b.operation ∈ g.heads := by
      rw [hheads]
      exact mem_map.mpr ⟨b, hb, rfl⟩
    have hnames : b.key ∈ a.parents ↔ b.home ∈ a.homeParents := by
      rw [mem_homeParents]
      exact ⟨fun hparent => ⟨hconfined _ hrow hparent, hparent⟩, fun hparent => hparent.2⟩
    rw [Bool.eq_iff_iff, decide_eq_true_eq, ← hnames]
    simp [headRow]
  rw [HeadsExact, hins.heads, hkept, h.heads_insert hins, map_append, map_singleton]

section Deletion

variable {spaceId : SpaceId} {operation : OperationEnvelope}

theorem Coherent.operationIn_iff (h : Coherent P g log) (ha : a ∈ log) :
    operationIn g a.key spaceId = true ↔ a.space = spaceId := by
  simp only [operationIn, h.represents.operations, any_map, any_eq_true,
    Function.comp_apply, Bool.and_eq_true, decide_eq_true_eq]
  constructor
  · rintro ⟨b, hb, hkey, hspace⟩
    obtain rfl := h.causal.eq_of_key hb ha hkey
    exact hspace
  · intro hspace
    exact ⟨a, ha, rfl, hspace⟩

theorem owner_parentRows : ∀ row ∈ parentRows operation, row.operationId = operation.operationId :=
  Table.forall_mapIdx fun _ _ _ _ => rfl

theorem owner_authorizationRows :
    ∀ row ∈ authorizationRows operation, row.operationId = operation.operationId :=
  Table.forall_mapIdx fun _ _ _ _ => rfl

theorem exists_parentRow (h : parent ∈ operation.causalParents) :
    ∃ row ∈ parentRows operation, row.operationId = operation.operationId ∧
      row.parentOperationId = parent := by
  obtain ⟨index, hindex, rfl⟩ := mem_iff_getElem.mp h
  exact ⟨_, mem_mapIdx.mpr ⟨index, hindex, rfl⟩, rfl, rfl⟩

theorem exists_authorizationRow (h : reference ∈ operation.authorization) :
    ∃ row ∈ authorizationRows operation, row.operationId = operation.operationId ∧
      row.authorizationOperationId = reference := by
  obtain ⟨index, hindex, rfl⟩ := mem_iff_getElem.mp h
  exact ⟨_, mem_mapIdx.mpr ⟨index, hindex, rfl⟩, rfl, rfl⟩

-- The rows of the operations outside the space are what the deletion leaves.
theorem Coherent.filter_rows {Row : Type} (h : Coherent P g log)
    {rowsOf : StoredOperation → List Row} {owner : Row → OperationId}
    (howner : ∀ a, ∀ row ∈ rowsOf a, owner row = a.key) :
    (log.flatMap rowsOf).filter (fun row => !operationIn g (owner row) spaceId) =
      (log.filter (·.space ≠ spaceId)).flatMap rowsOf := by
  rw [Table.filter_flatMap howner fun key => !operationIn g key spaceId]
  congr 1
  apply filter_congr
  intro a ha
  rw [Bool.eq_iff_iff, Bool.not_eq_true', ← Bool.not_eq_true, h.operationIn_iff ha,
    decide_eq_true_eq]

theorem Coherent.represents_delete (h : Coherent P g log) :
    Represents P (g.withoutSpace spaceId) (log.filter (·.space ≠ spaceId)) := by
  refine ⟨?_, ?_, ?_⟩
  · rw [GraphTables.withoutSpace, h.represents.operations, filter_map]
    rfl
  · simp only [GraphTables.withoutSpace, h.represents.parents]
    exact h.filter_rows fun a => owner_parentRows
  · simp only [GraphTables.withoutSpace, h.represents.authorizations]
    exact h.filter_rows fun a => owner_authorizationRows

-- An operation that stays refers to none that goes, or the deletion would fail.
theorem Coherent.kept (h : Coherent P t.graph log) (hdelete : refersToSpace t spaceId = false)
    (ha : a ∈ log) (hspace : a.space ≠ spaceId) (hb : b ∈ log)
    (hrefers : b.key ∈ a.parents ∨ b.key ∈ a.operation.authorization) : b.space ≠ spaceId := by
  intro hgone
  have hdeleted := (h.operationIn_iff hb).mpr hgone
  have hstays : operationIn t.graph a.key spaceId = false := by
    rw [← Bool.not_eq_true, h.operationIn_iff ha]
    exact hspace
  simp only [refersToSpace, Bool.or_eq_false_iff, any_eq_false] at hdelete
  obtain ⟨⟨⟨hparents, hauthorizations⟩, -⟩, -⟩ := hdelete
  rcases hrefers with hparent | hreference
  · obtain ⟨row, hrow, howner, hnamed⟩ := exists_parentRow hparent
    have hmem : row ∈ (t.withoutSpace spaceId).graph.parents := by
      simp only [Tables.withoutSpace, GraphTables.withoutSpace, h.represents.parents]
      refine mem_filter.mpr ⟨mem_flatMap.mpr ⟨a, ha, hrow⟩, ?_⟩
      rw [howner, hstays]
      rfl
    exact hparents row hmem (by rw [hnamed]; exact hdeleted)
  · obtain ⟨row, hrow, howner, hnamed⟩ := exists_authorizationRow hreference
    have hmem : row ∈ (t.withoutSpace spaceId).graph.authorizations := by
      simp only [Tables.withoutSpace, GraphTables.withoutSpace, h.represents.authorizations]
      refine mem_filter.mpr ⟨mem_flatMap.mpr ⟨a, ha, hrow⟩, ?_⟩
      rw [howner, hstays]
      rfl
    exact hauthorizations row hmem (by rw [hnamed]; exact hdeleted)

theorem Coherent.delete (h : Coherent P t.graph log) (hdelete : refersToSpace t spaceId = false) :
    Coherent P (t.withoutSpace spaceId).graph (log.filter (·.space ≠ spaceId)) := by
  have hmem : ∀ {a : StoredOperation}, a ∈ log.filter (·.space ≠ spaceId) ↔
      a ∈ log ∧ a.space ≠ spaceId := by
    simp
  refine ⟨h.represents_delete, ⟨?_, ?_, ?_, ?_⟩, ?_⟩
  · exact h.causal.keys.sublist (filter_sublist.map _)
  · exact h.causal.sequences.sublist filter_sublist
  · intro a ha parent hparent
    obtain ⟨hlog, hspace⟩ := hmem.mp ha
    obtain ⟨b, hb, rfl, hfound⟩ := h.causal.parents a hlog parent hparent
    exact ⟨b, hmem.mpr ⟨hb, h.kept hdelete hlog hspace hb (.inl hparent)⟩, rfl, hfound⟩
  · intro a ha reference hreference
    obtain ⟨hlog, hspace⟩ := hmem.mp ha
    obtain ⟨b, hb, rfl, hlt⟩ := h.causal.authorization a hlog reference hreference
    exact ⟨b, hmem.mpr ⟨hb, h.kept hdelete hlog hspace hb (.inr hreference)⟩, rfl, hlt⟩
  · intro a ha
    exact h.numbered a (hmem.mp ha).1

-- The children within a space go with their parents.
theorem HeadsExact.delete (hheads : HeadsExact g log) :
    HeadsExact (g.withoutSpace spaceId) (log.filter (·.space ≠ spaceId)) := by
  have hclosed : Log.heads (log.filter (·.space ≠ spaceId)) =
      log.heads.filter (·.space ≠ spaceId) := by
    apply History.heads_filter
    intro a _ b _ hkeep hnames
    rw [← (mem_homeParents.mp hnames).1]
    exact hkeep
  unfold HeadsExact at hheads ⊢
  rw [hclosed, GraphTables.withoutSpace, hheads, filter_map]
  rfl

end Deletion

end Fractonica.Client
