import Fractonica.Client.Rebuild
import Fractonica.Client.Transfers.Theorems

namespace Fractonica.Client

open Lib Trust DataModel List
open Store (Platform HeadRow headRow projectionText)

variable {P : Platform} {t' : Tables} {g : GraphTables} {log : Log} {a b : StoredOperation}

def VisibilityRow.entity (row : VisibilityRow) : SpaceId × EntityId := (row.spaceId, row.entityId)

-- The projection of an operation follows from the operations up to it: one of them
-- declares the visibility of the entity.
structure Projected (P : Platform) (log : Log) (a : StoredOperation) : Prop where
  visible : ∃ b ∈ log, b.localSequence ≤ a.localSequence ∧
    ∃ row ∈ visibilityRows P b.operation, row.spaceId = a.space ∧
      row.entityId = a.operation.entityId ∧
      ∀ declared ∈ a.operation.body.declaredVisibility, declared = row.visibility
  client : a.operation.schema.isClient = true
  media : ∃ mediaBytes, mediaBytesFrom 0 a.operation.body.resources = .ok mediaBytes ∧
    0 ≤ mediaBytes.toInt

structure Derived (P : Platform) (g : GraphTables) (log : Log) : Prop where
  visibility : g.visibility = log.flatMap fun a => visibilityRows P a.operation
  entities : (g.visibility.map VisibilityRow.entity).Nodup
  projected : ∀ a ∈ log, (projectionColumns P a.operation).isSome = true → Projected P log a
  projections : g.projections = log.flatMap fun a => projectionRows P a.operation g.visibility

-- The heads are operations without a child, in the order of the log.
def HeadsWithin (g : GraphTables) (log : Log) : Prop :=
  ∃ keep : StoredOperation → Bool, g.heads = (log.filter keep).map (headRow ·.operation) ∧
    ∀ a ∈ log, keep a = true → ∀ b ∈ log, a.key ∉ b.parents

def Log.childless (log : Log) : Log :=
  History.heads StoredOperation.key StoredOperation.parents log

structure Rebuildable (P : Platform) (g : GraphTables) (log : Log) : Prop where
  stored : Stored P g log
  derived : Derived P g log
  heads : HeadsWithin g log

section Visibility

variable {rows : List VisibilityRow}

theorem visibility?_of_mem (hrows : (rows.map VisibilityRow.entity).Nodup) (hrow : row ∈ rows) :
    visibility? rows row.spaceId row.entityId = some row.visibility := by
  have hsame : (fun other : VisibilityRow => decide (other.spaceId = row.spaceId) &&
      decide (other.entityId = row.entityId)) =
        fun other => decide (other.entity = row.entity) := by
    simp [VisibilityRow.entity]
  rw [visibility?, hsame, Table.find?_key hrows hrow]
  rfl

-- The projection does not depend on the rows of other entities.
theorem Projected.rows_eq (h : Projected P log a) (hrows : (rows.map VisibilityRow.entity).Nodup)
    (hrows' : (rows'.map VisibilityRow.entity).Nodup)
    (hboth : ∀ b ∈ log, b.localSequence ≤ a.localSequence →
      ∀ row ∈ visibilityRows P b.operation, row.spaceId = a.space → row ∈ rows ∧ row ∈ rows') :
    projectionRows P a.operation rows = projectionRows P a.operation rows' := by
  obtain ⟨b, hb, hearlier, row, hrow, hspace, hentity, -⟩ := h.visible
  obtain ⟨hmem, hmem'⟩ := hboth b hb hearlier row hrow hspace
  have hfound := visibility?_of_mem hrows hmem
  have hfound' := visibility?_of_mem hrows' hmem'
  rw [hspace, hentity] at hfound hfound'
  rw [projectionRows, projectionRows, hfound, hfound']

theorem projectionRows_none {operation : OperationEnvelope}
    (h : projectionColumns P operation = none) : projectionRows P operation rows = [] := by
  rw [projectionRows, h]

-- Two tables that agree on the entities of a log have the same projections.
theorem flatMap_projectionRows
    (hprojected : ∀ a ∈ log, (projectionColumns P a.operation).isSome = true → Projected P log a)
    (hrows : (rows.map VisibilityRow.entity).Nodup)
    (hrows' : (rows'.map VisibilityRow.entity).Nodup)
    (hboth : ∀ b ∈ log, ∀ row ∈ visibilityRows P b.operation, row ∈ rows ∧ row ∈ rows') :
    (log.flatMap fun a => projectionRows P a.operation rows) =
      log.flatMap fun a => projectionRows P a.operation rows' := by
  apply flatMap_congr
  intro a ha
  cases hcolumns : projectionColumns P a.operation with
  | none => rw [projectionRows_none hcolumns, projectionRows_none hcolumns]
  | some columns =>
    have hsome : (projectionColumns P a.operation).isSome = true := by rw [hcolumns]; rfl
    exact (hprojected a ha hsome).rows_eq hrows hrows'
      fun b hb _ row hrow _ => hboth b hb row hrow

theorem entities_append {new : List VisibilityRow}
    (h : Table.Accepts visibilityConstraints rows new)
    (hrows : (rows.map VisibilityRow.entity).Nodup) :
    ((rows ++ new).map VisibilityRow.entity).Nodup := by
  have hapart : ∀ {row other : VisibilityRow}, visibilityConstraints.clash row other = false →
      other.entity ≠ row.entity := by
    intro row other hclash hsame
    obtain ⟨hspace, hentity⟩ := Prod.mk.inj hsame
    simp [visibilityConstraints, hspace, hentity] at hclash
  rw [map_append, nodup_append]
  refine ⟨hrows, ?_, ?_⟩
  · exact pairwise_map.mpr (h.distinct.imp fun hclash => hapart hclash)
  · intro key hkey key' hkey'
    obtain ⟨other, hother, rfl⟩ := mem_map.mp hkey
    obtain ⟨row, hrow, rfl⟩ := mem_map.mp hkey'
    exact hapart (h.fresh row hrow other hother)

end Visibility

-- The first operation of the entity has declared the visibility that a new one finds.
theorem Projectable.projected (hlog : linked.visibility =
      log.flatMap fun a => visibilityRows P a.operation)
    (holder : ∀ b ∈ log, b.localSequence < a.localSequence)
    (hcolumns : (projectionColumns P a.operation).isSome = true)
    (h : Projectable P linked a.operation) : Projected P (log ++ [a]) a := by
  obtain ⟨visibility, hfound, hdeclared⟩ := h.visible
  obtain ⟨mediaBytes, hmedia⟩ := h.media
  obtain ⟨columns, hcolumns⟩ := Option.isSome_iff_exists.mp hcolumns
  have hprojection : projectionRow a.operation columns visibility mediaBytes ∈
      projectionRows P a.operation (linked.visibility ++ visibilityRows P a.operation) := by
    rw [projectionRows, hcolumns, hfound, hmedia]
    exact mem_singleton_self _
  have hadmits := h.projection.admits _ hprojection
  simp only [projectionConstraints, require_eq_ok, Bool.and_eq_true, decide_eq_true_eq] at hadmits
  refine ⟨?_, hadmits.1, mediaBytes, hmedia, hadmits.2⟩
  obtain ⟨row, hrow, rfl⟩ := Option.map_eq_some_iff.mp hfound
  have hkey := find?_some hrow
  rw [Bool.and_eq_true, decide_eq_true_eq, decide_eq_true_eq] at hkey
  rcases mem_append.mp (mem_of_find?_eq_some hrow) with hold | hnew
  · rw [hlog] at hold
    obtain ⟨b, hb, hmem⟩ := mem_flatMap.mp hold
    exact ⟨b, mem_append_left _ hb, Nat.le_of_lt (holder b hb), row, hmem, hkey.1, hkey.2,
      hdeclared⟩
  · exact ⟨a, mem_append_right _ mem_cons_self, Nat.le_refl _, row, hnew, hkey.1, hkey.2,
      hdeclared⟩

theorem Projected.append (h : Projected P log b) : Projected P (log ++ [a]) b := by
  obtain ⟨c, hc, hearlier, hrow⟩ := h.visible
  exact ⟨⟨c, mem_append_left _ hc, hearlier, hrow⟩, h.client, h.media⟩

theorem Derived.insert (h : Derived P g log) (holder : ∀ b ∈ log, b.localSequence < a.localSequence)
    (hvisibility : linked.visibility = g.visibility)
    (hprojections : linked.projections = g.projections)
    (hprojectable : (projectionColumns P a.operation).isSome = true →
      Projectable P linked a.operation)
    (hvisibility' : g'.visibility = (linked.withProjection P a.operation).visibility)
    (hprojections' : g'.projections = (linked.withProjection P a.operation).projections) :
    Derived P g' (log ++ [a]) := by
  have hrows : g'.visibility = g.visibility ++ visibilityRows P a.operation := by
    rw [hvisibility', ← hvisibility]
    rfl
  have hentities : (g'.visibility.map VisibilityRow.entity).Nodup := by
    rw [hrows]
    by_cases hcolumns : (projectionColumns P a.operation).isSome = true
    · exact entities_append (hvisibility ▸ (hprojectable hcolumns).first) h.entities
    · rw [visibilityRows, if_neg hcolumns, append_nil]
      exact h.entities
  refine ⟨?_, hentities, ?_, ?_⟩
  · rw [hrows, h.visibility, flatMap_append, flatMap_singleton]
  · intro b hb hcolumns
    rcases mem_append.mp hb with hb | hb
    · exact (h.projected b hb hcolumns).append
    · obtain rfl := mem_singleton.mp hb
      exact (hprojectable hcolumns).projected (hvisibility.trans h.visibility) holder hcolumns
  · have hold : (log.flatMap fun a => projectionRows P a.operation g.visibility) =
        log.flatMap fun a => projectionRows P a.operation g'.visibility := by
      apply flatMap_projectionRows h.projected h.entities hentities
      intro b hb row hrow
      have hmem : row ∈ g.visibility := by
        rw [h.visibility]
        exact mem_flatMap.mpr ⟨b, hb, hrow⟩
      refine ⟨hmem, ?_⟩
      rw [hrows]
      exact mem_append_left _ hmem
    rw [hprojections', GraphTables.withProjection, hprojections, hvisibility, h.projections, hold,
      flatMap_append, flatMap_singleton, hrows]

theorem HeadsWithin.insert (h : HeadsWithin g log) (hcoherent : Coherent P g log)
    (hins : Inserted P g a g') : HeadsWithin g' (log ++ [a]) := by
  obtain ⟨keep, hheads, hkeep⟩ := h
  have hfresh := hcoherent.fresh hins
  have hchild : ∀ b ∈ log ++ [a], a.key ∉ b.parents := by
    intro b hb hnames
    rcases mem_append.mp hb with hb | hb
    · obtain ⟨c, hc, hkey, -⟩ := hcoherent.causal.parents b hb _ hnames
      exact hfresh c hc hkey
    · obtain rfl := mem_singleton.mp hb
      obtain ⟨c, hc, hkey, -⟩ := hcoherent.parent hins hnames
      exact hfresh c hc hkey
  refine ⟨fun b => b.key = a.key || keep b && !a.parents.contains b.key, ?_, ?_⟩
  · have hold : log.filter (fun b => b.key = a.key || keep b && !a.parents.contains b.key) =
        (log.filter keep).filter fun b => !a.parents.contains b.key := by
      rw [filter_filter]
      apply filter_congr
      intro b hb
      rw [decide_eq_false (hfresh b hb), Bool.false_or, Bool.and_comm]
    rw [hins.heads, hheads, keptHeads, filter_map, filter_append, hold, map_append]
    simp [Function.comp_def, headRow]
  · intro b hb hkept c hc hnames
    rw [Bool.or_eq_true, decide_eq_true_eq, Bool.and_eq_true, Bool.not_eq_true',
      contains_eq_mem, decide_eq_false_iff_not] at hkept
    rcases hkept with hself | ⟨hkept, hnot⟩
    · rw [hself] at hnames
      exact hchild c hc hnames
    · rcases mem_append.mp hb with hb | hb
      · rcases mem_append.mp hc with hc | hc
        · exact hkeep b hb hkept c hc hnames
        · rw [mem_singleton.mp hc] at hnames
          exact hnot hnames
      · rw [mem_singleton.mp hb] at hnames
        exact hchild c hc hnames

section Deletion

variable {spaceId : SpaceId}

theorem Derived.delete (h : Derived P g log) :
    Derived P (g.withoutSpace spaceId) (log.filter (·.space ≠ spaceId)) := by
  have hrows : (g.withoutSpace spaceId).visibility =
      (log.filter (·.space ≠ spaceId)).flatMap fun a => visibilityRows P a.operation := by
    rw [GraphTables.withoutSpace, h.visibility]
    exact Table.filter_flatMap (fun a row hrow => (mem_visibilityRows hrow).1)
      (fun space => decide (space ≠ spaceId)) log
  have hsublist : (g.withoutSpace spaceId).visibility.Sublist g.visibility := filter_sublist
  have hentities := (hsublist.map VisibilityRow.entity).nodup h.entities
  have hprojected : ∀ a ∈ log.filter (·.space ≠ spaceId),
      (projectionColumns P a.operation).isSome = true →
        Projected P (log.filter (·.space ≠ spaceId)) a := by
    intro a ha hcolumns
    obtain ⟨hmem, hspace⟩ := mem_filter.mp ha
    have hold := h.projected a hmem hcolumns
    obtain ⟨b, hb, hearlier, row, hrow, hhome, hrest⟩ := hold.visible
    have hsame : b.space = a.space := (mem_visibilityRows hrow).1.symm.trans hhome
    refine ⟨⟨b, mem_filter.mpr ⟨hb, ?_⟩, hearlier, row, hrow, hhome, hrest⟩, hold.client,
      hold.media⟩
    rw [hsame]
    exact hspace
  refine ⟨hrows, hentities, hprojected, ?_⟩
  have hfilter : (g.withoutSpace spaceId).projections =
      (log.filter (·.space ≠ spaceId)).flatMap fun a =>
        projectionRows P a.operation g.visibility := by
    rw [GraphTables.withoutSpace, h.projections]
    exact Table.filter_flatMap (fun a row hrow => (mem_projectionRows hrow).1)
      (fun space => decide (space ≠ spaceId)) log
  rw [hfilter]
  apply flatMap_projectionRows hprojected h.entities hentities
  intro b hb row hrow
  have hmem : row ∈ (g.withoutSpace spaceId).visibility := by
    rw [hrows]
    exact mem_flatMap.mpr ⟨b, hb, hrow⟩
  exact ⟨hsublist.subset hmem, hmem⟩

theorem HeadsWithin.delete (h : HeadsWithin g log) :
    HeadsWithin (g.withoutSpace spaceId) (log.filter (·.space ≠ spaceId)) := by
  obtain ⟨keep, hheads, hkeep⟩ := h
  refine ⟨keep, ?_, ?_⟩
  · have hrows : (g.withoutSpace spaceId).heads = g.heads.filter (·.spaceId ≠ spaceId) := rfl
    rw [hrows, hheads, filter_map, filter_filter, filter_filter]
    congr 1
    apply filter_congr
    intro b _
    rw [Bool.and_comm]
    rfl
  · intro a ha hkept b hb
    exact hkeep a (mem_of_mem_filter ha) hkept b (mem_of_mem_filter hb)

end Deletion

section Invariant

variable {operation : OperationEnvelope} {storedAtUnixMs : Int64}

theorem graph_of_commit
    (h : commitTransaction P t operation storedAtUnixMs source = .ok (t', result)) :
    t'.graph = t.graph ∨
      insertOperation P t.graph operation storedAtUnixMs source = .ok t'.graph := by
  simp only [commitTransaction, bind_eq_ok] at h
  obtain ⟨_, -, _, -, found, -, h⟩ := h
  cases found with
  | some stored =>
    simp only [bind_eq_ok, Except.ok.injEq, Prod.mk.injEq] at h
    obtain ⟨-, -, _, -, rfl, -⟩ := h
    exact .inl rfl
  | none =>
    simp only [bind_eq_ok, Except.ok.injEq, Prod.mk.injEq] at h
    obtain ⟨graph, hgraph, _, -, _, -, rfl, -⟩ := h
    exact .inr hgraph

theorem Rebuildable.empty : Rebuildable P .empty [] :=
  ⟨.empty, ⟨rfl, nodup_nil, forall_mem_nil _, rfl⟩,
    fun _ => false, rfl, forall_mem_nil _⟩

theorem Rebuildable.commit (h : Rebuildable P t.graph log)
    (hcommit : commitTransaction P t operation storedAtUnixMs source = .ok (t', result)) :
    ∃ log', Rebuildable P t'.graph log' := by
  rcases graph_of_commit hcommit with hgraph | hinsert
  · rw [hgraph]
    exact ⟨log, h⟩
  · have hcommitted := committed_of_ok hcommit
    have hins := inserted_of_ok hinsert
    obtain ⟨linked, hvisibility, hprojections, hprojectable, hvisibility', hprojections'⟩ :=
      projected_of_ok hinsert
    exact ⟨_, h.stored.insert hins hcommitted.verified hcommitted.time,
      h.derived.insert (h.stored.coherent.older hins) hvisibility hprojections hprojectable
        hvisibility' hprojections',
      h.heads.insert h.stored.coherent hins⟩

theorem Reachable.rebuildable (h : Reachable P t) : ∃ log, Rebuildable P t.graph log := by
  refine Reachable.induction (fun t => ∃ log, Rebuildable P t.graph log) ⟨[], .empty⟩
    ?_ ?_ ?_ ?_ h
  · intro t t' operation storedAtUnixMs source result _ ⟨log, hlog⟩ hcommit
    exact hlog.commit hcommit
  · intro t workspaces hlog
    exact hlog
  · intro t spaceId ⟨log, hlog⟩ hfree
    exact ⟨_, hlog.stored.delete hfree, hlog.derived.delete, hlog.heads.delete⟩
  · intro t t' call _ hlog hstores hrun
    rw [call.graph_eq hstores hrun]
    exact hlog

end Invariant

section Replay

variable {front back : Log}

-- The derived tables after a front of the log has been replayed.
def Log.replayed (P : Platform) (g : GraphTables) (front : Log) : GraphTables :=
  { g with
    parents := front.flatMap fun a => parentRows a.operation
    authorizations := front.flatMap fun a => authorizationRows a.operation
    heads := front.childless.map fun a => headRow a.operation
    visibility := front.flatMap fun a => visibilityRows P a.operation
    projections := front.flatMap fun a => projectionRows P a.operation g.visibility }

theorem Causal.earlier (h : Causal log) (hsplit : log = front ++ a :: back) (hb : b ∈ log)
    (hle : b.localSequence ≤ a.localSequence) : b ∈ front ++ [a] := by
  have hsequences := h.sequences
  rw [hsplit, pairwise_append, pairwise_cons] at hsequences
  obtain ⟨-, ⟨hlater, -⟩, -⟩ := hsequences
  rw [hsplit] at hb
  rcases mem_append.mp hb with hb | hb
  · exact mem_append_left _ hb
  · rcases mem_cons.mp hb with rfl | hb
    · exact mem_append_right _ mem_cons_self
    · have hlt := hlater b hb
      omega

theorem Causal.fresh_front (h : Causal log) (hsplit : log = front ++ a :: back) :
    ∀ b ∈ front, b.key ≠ a.key := by
  have hkeys := h.keys
  rw [hsplit, map_append, nodup_append] at hkeys
  intro b hb
  exact hkeys.2.2 _ (mem_map_of_mem hb) _ mem_cons_self

theorem Causal.parentsFirst (h : Causal log) :
    History.ParentsFirst StoredOperation.key StoredOperation.parents log := by
  intro front a back hsplit parent hparent
  have ha : a ∈ log := by simp [hsplit]
  obtain ⟨b, hb, rfl, -, -, hlt⟩ := h.parents a ha parent hparent
  rcases mem_append.mp (h.earlier hsplit hb (Nat.le_of_lt hlt)) with hfront | hself
  · exact mem_map_of_mem hfront
  · rw [mem_singleton.mp hself] at hlt
    omega

theorem Represents.hasOperation (h : Represents P g log) (ha : a ∈ log) :
    hasOperation g.operations a.key = true := by
  have hrow : storedRow P a ∈ g.operations := h.mem_operations.mpr ⟨a, ha, rfl⟩
  exact hasOperation_of_mem hrow

theorem Represents.hasEntityOperation (h : Represents P g log) (ha : a ∈ log) :
    hasEntityOperation g.operations a.space a.operation.entityId a.operation.schema a.key =
      true :=
  any_eq_true.mpr ⟨storedRow P a, h.mem_operations.mpr ⟨a, ha, rfl⟩, by
    simp [storedRow, operationRow]⟩

theorem Stored.accepts_parents (h : Stored P g log) (hsplit : log = front ++ a :: back) :
    Table.Accepts (parentConstraints g.operations) (front.flatMap fun a => parentRows a.operation)
      (parentRows a.operation) := by
  have ha : a ∈ log := by simp [hsplit]
  obtain ⟨signed, payload, hsound⟩ := a.operation.verify_sound (h.verified a ha)
  have hascending : a.operation.causalParents.Pairwise (· < ·) :=
    hsound.causalParents ▸ payload.valid.parentsAscending
  refine Table.accepts_mapIdx ParentRow.operationId (fun _ _ => rfl) ?_ ?_ ?_ ?_ hascending ?_
  · intro index parent hparent _
    rw [parentConstraints, require_eq_ok, decide_eq_true_eq]
    intro hself
    change a.operation.operationId = parent at hself
    rw [← hself] at hparent
    exact hsound.notOwnParent hparent
  · intro index parent hparent
    obtain ⟨b, hb, rfl, -⟩ := h.coherent.causal.parents a ha parent hparent
    rw [parentConstraints, Bool.and_eq_true]
    exact ⟨h.coherent.represents.hasOperation ha, h.coherent.represents.hasOperation hb⟩
  · intro row other hne
    simp [parentConstraints, hne]
  · exact Table.owner_ne ParentRow.operationId StoredOperation.key (fun a => owner_parentRows)
      (h.coherent.causal.fresh_front hsplit)
  · intro i j left right hlt hvalues
    simp [parentConstraints, parentRow, Nat.ne_of_gt hlt, ne_of_gt hvalues]

theorem Stored.accepts_authorizations (h : Stored P g log) (hsplit : log = front ++ a :: back) :
    Table.Accepts (authorizationConstraints g.operations)
      (front.flatMap fun a => authorizationRows a.operation) (authorizationRows a.operation) := by
  have ha : a ∈ log := by simp [hsplit]
  obtain ⟨signed, payload, hsound⟩ := a.operation.verify_sound (h.verified a ha)
  have hascending : a.operation.authorization.Pairwise (· < ·) :=
    hsound.authorization ▸ payload.valid.authorizationAscending
  refine Table.accepts_mapIdx AuthorizationRow.operationId (fun _ _ => rfl)
    (fun _ _ _ _ => rfl) ?_ ?_ ?_ hascending ?_
  · intro index reference hreference
    obtain ⟨b, hb, rfl, -⟩ := h.coherent.causal.authorization a ha reference hreference
    rw [authorizationConstraints, Bool.and_eq_true]
    exact ⟨h.coherent.represents.hasOperation ha, h.coherent.represents.hasOperation hb⟩
  · intro row other hne
    simp [authorizationConstraints, hne]
  · exact Table.owner_ne AuthorizationRow.operationId StoredOperation.key
      (fun a => owner_authorizationRows) (h.coherent.causal.fresh_front hsplit)
  · intro i j left right hlt hvalues
    simp [authorizationConstraints, Nat.ne_of_gt hlt, ne_of_gt hvalues]

-- The heads of the longer front.
theorem Causal.keptHeads_front (h : Causal log) (hsplit : log = front ++ a :: back) :
    keptHeads (front.childless.map fun a => headRow a.operation) a.parents ++
        [headRow a.operation] =
      (Log.childless (front ++ [a])).map fun a => headRow a.operation := by
  have hfirst : History.ParentsFirst StoredOperation.key StoredOperation.parents
      (front ++ [a]) := by
    have hlog := h.parentsFirst
    have hassoc : log = (front ++ [a]) ++ back := by simp [hsplit]
    rw [hassoc] at hlog
    exact hlog.of_append
  have hfresh : a.key ∉ front.map StoredOperation.key := by
    intro hmem
    obtain ⟨b, hb, hkey⟩ := mem_map.mp hmem
    exact h.fresh_front hsplit b hb hkey
  rw [Log.childless, Log.childless, hfirst.heads_append hfresh, map_append, keptHeads,
    filter_map]
  rfl

theorem Stored.accepts_head (h : Stored P g log) (hsplit : log = front ++ a :: back) :
    Table.Accepts (headConstraints g.operations)
      (keptHeads (front.childless.map fun a => headRow a.operation) a.parents)
      [headRow a.operation] := by
  have ha : a ∈ log := by simp [hsplit]
  refine ⟨fun _ _ => rfl, ?_, ?_, pairwise_singleton _ _⟩
  · intro row hrow
    rw [mem_singleton.mp hrow]
    exact h.coherent.represents.hasEntityOperation ha
  · intro row hrow other hother
    obtain ⟨b, hb, rfl⟩ := mem_map.mp (mem_of_mem_filter hother)
    rw [mem_singleton.mp hrow]
    have hne := h.coherent.causal.fresh_front hsplit b (mem_of_mem_filter hb)
    exact decide_eq_false hne.symm

theorem Rebuildable.linkable (h : Rebuildable P g log) (hsplit : log = front ++ a :: back) :
    Linkable (front.replayed P g) a.operation :=
  ⟨h.stored.accepts_parents hsplit, h.stored.accepts_authorizations hsplit,
    h.stored.accepts_head hsplit⟩

theorem accepts_visibility_front (h : Derived P g log) (hsplit : log = front ++ a :: back) :
    Table.Accepts visibilityConstraints (front.flatMap fun a => visibilityRows P a.operation)
      (visibilityRows P a.operation) := by
  have hclash : ∀ {row other : VisibilityRow}, other.entity ≠ row.entity →
      visibilityConstraints.clash row other = false := by
    intro row other hne
    rw [← Bool.not_eq_true, visibilityConstraints, Bool.and_eq_true, decide_eq_true_eq,
      decide_eq_true_eq]
    exact fun hsame => hne (Prod.ext hsame.1.symm hsame.2.symm)
  have hentities := h.entities
  rw [h.visibility, hsplit, flatMap_append, flatMap_cons, map_append,
    map_append, nodup_append, nodup_append] at hentities
  obtain ⟨-, ⟨hnew, -, -⟩, hapart⟩ := hentities
  refine ⟨fun _ _ => rfl, fun _ _ => rfl, ?_, ?_⟩
  · intro row hrow other hother
    exact hclash (hapart _ (mem_map_of_mem hother) _
      (mem_append_left _ (mem_map_of_mem hrow)))
  · exact (pairwise_map.mp hnew).imp fun hne => hclash hne

theorem Rebuildable.projectable (h : Rebuildable P g log) (hsplit : log = front ++ a :: back)
    (hcolumns : (projectionColumns P a.operation).isSome = true) :
    Projectable P ((front.replayed P g).withGraph a.operation) a.operation ∧
      projectionRows P a.operation ((front ++ [a]).flatMap fun a => visibilityRows P a.operation) =
        projectionRows P a.operation g.visibility := by
  have ha : a ∈ log := by simp [hsplit]
  have hprojected := h.derived.projected a ha hcolumns
  obtain ⟨b, hb, hearlier, row, hrow, hspace, hentity, hdeclared⟩ := hprojected.visible
  obtain ⟨mediaBytes, hmedia, hpositive⟩ := hprojected.media
  have hfront : ((front ++ [a]).flatMap fun a => visibilityRows P a.operation) =
      (front.flatMap fun a => visibilityRows P a.operation) ++ visibilityRows P a.operation := by
    rw [flatMap_append, flatMap_singleton]
  have hsublist : ((front ++ [a]).flatMap fun a => visibilityRows P a.operation).Sublist
      g.visibility := by
    rw [hfront, h.derived.visibility, hsplit, flatMap_append, flatMap_cons,
      ← append_assoc]
    exact sublist_append_left _ _
  have hentities := (hsublist.map VisibilityRow.entity).nodup h.derived.entities
  have hmem : row ∈ (front ++ [a]).flatMap fun a => visibilityRows P a.operation :=
    mem_flatMap.mpr ⟨b, h.stored.coherent.causal.earlier hsplit hb hearlier, hrow⟩
  have hfound := visibility?_of_mem hentities hmem
  rw [hspace, hentity] at hfound
  obtain ⟨columns, hcolumns⟩ := Option.isSome_iff_exists.mp hcolumns
  have hrows : projectionRows P a.operation
      ((front ++ [a]).flatMap fun a => visibilityRows P a.operation) =
        [projectionRow a.operation columns row.visibility mediaBytes] := by
    simp only [projectionRows, hcolumns, hfound, hmedia]
  refine ⟨⟨accepts_visibility_front h.derived hsplit, ⟨row.visibility, hfront ▸ hfound, hdeclared⟩,
    ⟨mediaBytes, hmedia⟩, ?_⟩, ?_⟩
  · have hvisibility : ((front.replayed P g).withGraph a.operation).visibility ++
        visibilityRows P a.operation =
          (front ++ [a]).flatMap fun a => visibilityRows P a.operation := hfront.symm
    rw [hvisibility, hrows]
    refine ⟨?_, ?_, ?_, pairwise_singleton _ _⟩
    · intro new hnew
      rw [mem_singleton.mp hnew, projectionConstraints, require_eq_ok, Bool.and_eq_true,
        decide_eq_true_eq]
      exact ⟨hprojected.client, hpositive⟩
    · intro new hnew
      rw [mem_singleton.mp hnew]
      exact h.stored.coherent.represents.hasEntityOperation ha
    · intro new hnew other hother
      rw [mem_singleton.mp hnew]
      have hne := Table.owner_ne ProjectionRow.operationId StoredOperation.key
        (fun a row hrow => (mem_projectionRows hrow).2)
        (h.stored.coherent.causal.fresh_front hsplit) other hother
      exact decide_eq_false hne.symm
  · have hfound' := visibility?_of_mem h.derived.entities (hsublist.subset hmem)
    rw [hspace, hentity] at hfound'
    rw [projectionRows, projectionRows, hfound, hfound']

-- One operation of the replay.
theorem Rebuildable.replayOperation (h : Rebuildable P g log) (hsplit : log = front ++ a :: back) :
    replayOperation P (front.replayed P g) a.operation =
      .ok (Log.replayed P g (front ++ [a])) := by
  have hheads := h.stored.coherent.causal.keptHeads_front hsplit
  rw [Client.replayOperation, bind_eq_ok]
  refine ⟨_, insertGraph_eq_ok.mpr ⟨h.linkable hsplit, rfl⟩, insertProjection_eq_ok.mpr ⟨?_, ?_⟩⟩
  · exact fun hcolumns => (h.projectable hsplit hcolumns).1
  · have hprojection : projectionRows P a.operation
        ((front ++ [a]).flatMap fun a => visibilityRows P a.operation) =
          projectionRows P a.operation g.visibility := by
      cases hcolumns : projectionColumns P a.operation with
      | none => rw [projectionRows_none hcolumns, projectionRows_none hcolumns]
      | some columns => exact (h.projectable hsplit (by rw [hcolumns]; rfl)).2
    simp only [Log.replayed, GraphTables.withProjection, GraphTables.withGraph,
      flatMap_append, flatMap_singleton] at hheads hprojection ⊢
    rw [hheads, hprojection]

-- The whole replay restores everything but the heads, which it takes from the log.
theorem Rebuildable.rebuild (h : Rebuildable P t.graph log) (hreads : ReadsBack P) :
    rebuildDerivedState P t =
      .ok ({ t with graph := { t.graph with
        heads := log.childless.map fun a => headRow a.operation } },
        t.graph.operations.length) := by
  have hrep := h.stored.coherent.represents
  have hsorted : t.graph.operations.mergeSort
      (fun left right => left.localSequence ≤ right.localSequence) = t.graph.operations := by
    apply mergeSort_of_pairwise
    rw [hrep.operations, pairwise_map]
    exact h.stored.coherent.causal.sequences.imp fun hlt => decide_eq_true (Nat.le_of_lt hlt)
  have hdecoded : t.graph.operations.mapM (fun row => decodeOperation P row.projectionJson) =
      .ok (log.map (·.operation)) := by
    rw [hrep.operations, mapM_eq_ok, forall₂_map_left_iff, forall₂_map_right_iff,
      forall₂_same]
    intro a ha
    have hverified := h.stored.verified a ha
    simp only [decodeOperation, bind_eq_ok, mapError_eq_ok, Except.ok.injEq]
    exact ⟨a.operation, hreads _ hverified, (), hverified, rfl⟩
  have hreplayed : (log.map (·.operation)).foldlM (Client.replayOperation P)
      t.graph.withoutDerived = .ok (log.replayed P t.graph) := by
    rw [foldlM_map]
    exact foldlM_prefixes (Log.replayed P t.graph)
      fun front a back hsplit => h.replayOperation hsplit
  have hgraph : log.replayed P t.graph =
      { t.graph with heads := log.childless.map fun a => headRow a.operation } := by
    rw [Log.replayed, ← hrep.parents, ← hrep.authorizations, ← h.derived.visibility,
      ← h.derived.projections]
  have hlength : (log.map (·.operation)).length = t.graph.operations.length := by
    rw [hrep.operations, length_map, length_map]
  rw [rebuildDerivedState, hsorted, hdecoded, ok_bind, hreplayed, ok_bind, hgraph, hlength]

end Replay

theorem Represents.childless_iff (h : Represents P g log) :
    (∀ edge ∈ g.parents, edge.parentOperationId ≠ a.key) ↔ ∀ b ∈ log, a.key ∉ b.parents := by
  rw [h.parents]
  constructor
  · intro hedges b hb hnames
    obtain ⟨edge, hedge, -, hparent⟩ := exists_parentRow hnames
    exact hedges edge (mem_flatMap.mpr ⟨b, hb, hedge⟩) hparent
  · intro hlog edge hedge hsame
    obtain ⟨b, hb, hrow⟩ := mem_flatMap.mp hedge
    obtain ⟨index, hindex, rfl⟩ := mem_mapIdx.mp hrow
    exact hlog b hb (hsame ▸ getElem_mem hindex)

theorem Represents.headsComplete_iff (h : Represents P g log) :
    HeadsComplete g ↔ ∀ a ∈ log, (∀ b ∈ log, a.key ∉ b.parents) →
      ∃ head ∈ g.heads, head.operationId = a.key := by
  constructor
  · intro hcomplete a ha hchildless
    exact hcomplete (storedRow P a) (h.mem_operations.mpr ⟨a, ha, rfl⟩)
      (h.childless_iff.mpr hchildless)
  · intro hlog row hrow hedges
    obtain ⟨a, ha, rfl⟩ := h.mem_operations.mp hrow
    exact hlog a ha (h.childless_iff.mp hedges)

theorem Rebuildable.heads_iff (h : Rebuildable P g log) :
    (log.childless.map fun a => headRow a.operation) = g.heads ↔ HeadsComplete g := by
  rw [h.stored.coherent.represents.headsComplete_iff]
  obtain ⟨keep, hheads, hkeep⟩ := h.heads
  constructor
  · intro hsame a ha hchildless
    rw [← hsame]
    exact ⟨_, mem_map_of_mem (History.mem_heads.mpr ⟨ha, hchildless⟩), rfl⟩
  · intro hcomplete
    rw [hheads, Log.childless, History.heads]
    congr 1
    apply filter_congr
    intro a ha
    rw [Bool.eq_iff_iff, History.isHead_iff]
    constructor
    · intro hchildless
      obtain ⟨head, hhead, hkey⟩ := hcomplete a ha hchildless
      rw [hheads] at hhead
      obtain ⟨b, hb, rfl⟩ := mem_map.mp hhead
      obtain ⟨hmem, hkept⟩ := mem_filter.mp hb
      rw [← h.stored.coherent.causal.eq_of_key hmem ha hkey]
      exact hkept
    · exact fun hkept => hkeep a ha hkept

theorem HeadsComplete.commit {operation : OperationEnvelope} {storedAtUnixMs : Int64}
    (h : HeadsComplete t.graph) (hcoherent : Coherent P t.graph log)
    (hcommit : Commit P t operation storedAtUnixMs source t' result) :
    HeadsComplete t'.graph := by
  cases hcommit with
  | replayed hgraph hstored hflag =>
    rw [hgraph]
    exact h
  | inserted hins hflag =>
    rw [(hcoherent.insert hins).represents.headsComplete_iff]
    rw [hcoherent.represents.headsComplete_iff] at h
    intro a ha hchildless
    rw [hins.heads]
    rcases mem_append.mp ha with ha | ha
    · obtain ⟨head, hhead, hkey⟩ := h a ha fun b hb =>
        hchildless b (mem_append_left _ hb)
      refine ⟨head, mem_append_left _ (mem_filter.mpr ⟨hhead, ?_⟩), hkey⟩
      have hnot := hchildless _ (mem_append_right _ mem_cons_self)
      rw [hkey]
      simpa using hnot
    · rw [mem_singleton.mp ha]
      exact ⟨_, mem_append_right _ mem_cons_self, rfl⟩

theorem Rebuildable.headsComplete_delete (h : Rebuildable P g log) {spaceId : SpaceId}
    (hcomplete : HeadsComplete g)
    (htidy : ∀ edge ∈ g.parents, operationIn g edge.operationId spaceId = true →
      operationIn g edge.parentOperationId spaceId = true) :
    HeadsComplete (g.withoutSpace spaceId) := by
  have hcoherent := h.stored.coherent
  rw [hcoherent.represents_delete.headsComplete_iff]
  rw [hcoherent.represents.headsComplete_iff] at hcomplete
  intro a ha hchildless
  obtain ⟨hmem, hspace⟩ := mem_filter.mp ha
  have hspace := of_decide_eq_true hspace
  -- A child in the deleted space would have its parent there.
  have hall : ∀ b ∈ log, a.key ∉ b.parents := by
    intro b hb hnames
    by_cases hdeleted : b.space = spaceId
    · obtain ⟨edge, hedge, howner, hparent⟩ := exists_parentRow hnames
      have hrow : edge ∈ g.parents := by
        rw [hcoherent.represents.parents]
        exact mem_flatMap.mpr ⟨b, hb, hedge⟩
      have hin := htidy edge hrow (by
        rw [howner]
        exact (hcoherent.operationIn_iff hb).mpr hdeleted)
      rw [hparent] at hin
      exact hspace ((hcoherent.operationIn_iff hmem).mp hin)
    · exact hchildless b (mem_filter.mpr ⟨hb, decide_eq_true hdeleted⟩) hnames
  obtain ⟨head, hhead, hkey⟩ := hcomplete a hmem hall
  refine ⟨head, mem_filter.mpr ⟨hhead, ?_⟩, hkey⟩
  obtain ⟨keep, hheads, -⟩ := h.heads
  rw [hheads] at hhead
  obtain ⟨b, hb, rfl⟩ := mem_map.mp hhead
  rw [hcoherent.causal.eq_of_key (mem_of_mem_filter hb) hmem hkey]
  exact decide_eq_true hspace

theorem TidyRun.reachable (h : TidyRun P t) : Reachable P t := by
  induction h with
  | start => exact .start
  | call _ call _ ih => exact ih.call call

theorem TidyRun.headsComplete (h : TidyRun P t) : HeadsComplete t.graph := by
  induction h with
  | start => exact forall_mem_nil _
  | @call t ht call htidy ih =>
    unfold Call.apply
    cases hrun : call.run P t with
    | error error => exact ih
    | ok next =>
      obtain ⟨log, hlog⟩ := ht.reachable.rebuildable
      refine Call.induction (fun s => Reachable P s ∧ HeadsComplete s.graph)
        (fun s => HeadsComplete s.graph) ⟨ht.reachable, ih⟩ hrun ?_ ?_ ?_ ?_
      · exact fun s workspaces hs => hs.2
      · rintro s s' operation storedAtUnixMs source result - ⟨hs, hcomplete⟩ hcommit
        obtain ⟨log', hlog'⟩ := hs.stored
        exact ⟨hs.commit hcommit, hcomplete.commit hlog'.coherent (commit_cases hcommit)⟩
      · rintro spaceId rfl -
        exact hlog.headsComplete_delete ih htidy
      · intro hstores
        change HeadsComplete next.graph
        rw [call.graph_eq hstores hrun]
        exact ih

theorem ConfinedRun.headsComplete (h : ConfinedRun P t) : HeadsComplete t.graph := by
  obtain ⟨log, hcoherent, hheads⟩ := h.kept
  rw [hcoherent.represents.headsComplete_iff, hheads]
  intro a ha hchildless
  exact ⟨_, mem_map_of_mem (Log.mem_heads.mpr ⟨ha, fun b hb _ => hchildless b hb⟩), rfl⟩

namespace Sample

theorem tidyRun_fetching : TidyRun outbox fetching := by
  have hconnected : TidyRun outbox (connected outbox) := by
    rw [← connected_eq (outbox_verified _ mem_cons_self) rfl]
    exact (TidyRun.start.call (.commit genesis.operation genesis.storedAtUnixMs .ofRemote)
      trivial).call (.upsertPeer peer) trivial
  exact hconnected.call (.commit photo.envelope DataModel.Sample.occurredAtUnixMs
    (.ofPeer peer.peerId)) trivial

theorem rebuilt_same {count : Nat} {heads : List HeadRow}
    (h : rebuildDerivedState P t = .ok ({ t with graph := { t.graph with heads } }, count))
    (hsame : heads = t.graph.heads) : rebuildDerivedState P t = .ok (t, count) := by
  rw [h, hsame]

-- The other space is deleted after its operation has taken the head away.
def bereaved : Tables := (tables (orphaned platform)).withoutSpace otherSpace

theorem reachable_orphaned : Reachable platform (tables (orphaned platform)) := by
  obtain ⟨_, hchild, -⟩ := commit_child
  exact confinedRun.reachable.commit hchild

theorem reachable_bereaved : Reachable platform bereaved := by
  have hdelete : (Call.deleteWorkspace otherSpace).run platform (tables (orphaned platform)) =
      .ok bereaved := by
    have hfree : refersToSpace (tables (orphaned platform)) otherSpace = false := by
      decide
    rfl
  rw [← Call.apply_of_run hdelete]
  exact reachable_orphaned.call _

def restored : GraphTables :=
  { bereaved.graph with heads := [headRow genesis.operation, headRow writerGrant.operation] }

theorem rebuild_bereaved :
    rebuildDerivedState platform bereaved = .ok ({ bereaved with graph := restored }, 2) := by
  have hrows : bereaved.graph.operations = [storedRow platform genesis,
      storedRow platform writerGrant] := rfl
  have hsorted : bereaved.graph.operations.mergeSort
      (fun left right => left.localSequence ≤ right.localSequence) =
        bereaved.graph.operations := by
    apply mergeSort_of_pairwise
    exact pairwise_pair.mpr rfl
  have hgenesis : decodeOperation platform (storedRow platform genesis).projectionJson =
      .ok genesis.operation := by
    simp only [decodeOperation, bind_eq_ok, mapError_eq_ok, Except.ok.injEq]
    exact ⟨_, Store.Sample.readEnvelope_text verified mem_cons_self, (), genesis_verifies, rfl⟩
  have hgrant : decodeOperation platform (storedRow platform writerGrant).projectionJson =
      .ok writerGrant.operation := by
    simp only [decodeOperation, bind_eq_ok, mapError_eq_ok, Except.ok.injEq]
    exact ⟨_, Store.Sample.readEnvelope_text verified
      (mem_cons_of_mem _ mem_cons_self), (), writerGrant_verifies, rfl⟩
  rw [rebuildDerivedState, hsorted, hrows]
  simp only [mapM_cons, mapM_nil, hgenesis, hgrant, ok_bind, pure_eq_ok]
  rfl

end Sample

open Sample (bereaved fetching outbox platform)

open DataModel.Sample (entity spaceId writerGrant)

end Fractonica.Client
