import Fractonica.DataModel.Envelope.Theorems
import Fractonica.DataModel.Reduction
import Fractonica.Lib.History

namespace Fractonica.DataModel

open Lib Trust List

abbrev ParentsFirst : List OperationEnvelope → Prop :=
  History.ParentsFirst OperationEnvelope.operationId OperationEnvelope.causalParents

-- The operations that no operation names as its parent.
abbrev headsOf : List OperationEnvelope → List OperationEnvelope :=
  History.heads OperationEnvelope.operationId OperationEnvelope.causalParents

namespace EntityReducer

section Steps

variable {P : Primitives} {reducer : EntityReducer} {operation : OperationEnvelope}
  {applied : List OperationEnvelope}

-- An operation of the entity that the reducer is for.
structure Accepts (P : Primitives) (reducer : EntityReducer) (operation : OperationEnvelope) :
    Prop where
  verified : operation.verify P = .ok ()
  space : operation.spaceId = reducer.spaceId
  entity : operation.entityId = reducer.entityId
  schema : operation.schema = reducer.schema

theorem Accepts.of_insert
    (h : Accepts P (reducer.insert other) operation) : Accepts P reducer operation :=
  ⟨h.verified, h.space, h.entity, h.schema⟩

theorem Accepts.insert (h : Accepts P reducer operation) :
    Accepts P (reducer.insert other) operation :=
  ⟨h.verified, h.space, h.entity, h.schema⟩

-- What the reducer holds after it has applied the operations.
structure Tracks (P : Primitives) (reducer : EntityReducer) (applied : List OperationEnvelope) :
    Prop where
  sorted : SortedMap.Sorted reducer.operations
  operations : reducer.operations.Perm (applied.map fun operation =>
    (operation.operationId, operation))
  ascending : reducer.heads.Pairwise (· < ·)
  heads : ∀ id, id ∈ reducer.heads ↔ id ∈ (headsOf applied).map OperationEnvelope.operationId
  accepted : ∀ operation ∈ applied, Accepts P reducer operation
  first : ParentsFirst applied

theorem tracks_new (spaceId : SpaceId) (entityId : EntityId) (schema : EntitySchema) :
    Tracks P (new spaceId entityId schema) [] where
  sorted := .nil
  operations := .refl _
  ascending := .nil
  heads _ := Iff.rfl
  accepted := forall_mem_nil _
  first := History.parentsFirst_nil

theorem Tracks.keys (h : Tracks P reducer applied) :
    (reducer.operations.map Prod.fst).Perm (applied.map OperationEnvelope.operationId) := by
  have hkeys := h.operations.map Prod.fst
  rw [map_map] at hkeys
  exact hkeys

theorem Tracks.nodup (h : Tracks P reducer applied) :
    (applied.map OperationEnvelope.operationId).Nodup :=
  h.keys.nodup_iff.mp h.sorted.nodup_keys

theorem Tracks.get?_eq_some (h : Tracks P reducer applied) {id : OperationId} :
    SortedMap.get? id reducer.operations = some operation ↔
      operation ∈ applied ∧ operation.operationId = id := by
  rw [h.sorted.get?_eq_some, h.operations.mem_iff, mem_map]
  constructor
  · rintro ⟨found, hfound, hsame⟩
    obtain ⟨rfl, rfl⟩ := Prod.mk.inj hsame
    exact ⟨hfound, rfl⟩
  · rintro ⟨hmem, rfl⟩
    exact ⟨operation, hmem, rfl⟩

theorem Tracks.checkParent_eq_ok (h : Tracks P reducer applied)
    (haccepts : Accepts P reducer operation) :
    reducer.checkParent operation parentId = .ok u ↔
      parentId ∈ applied.map OperationEnvelope.operationId := by
  simp only [checkParent, bind_eq_ok, okOr_eq_ok, require_eq_ok, Bool.and_eq_true,
    decide_eq_true_eq, h.get?_eq_some, mem_map]
  constructor
  · rintro ⟨parent, hparent, -⟩
    exact ⟨parent, hparent⟩
  · rintro ⟨parent, hparent, hid⟩
    have hown := h.accepted parent hparent
    exact ⟨parent, ⟨hparent, hid⟩,
      ⟨hown.space.trans haccepts.space.symm, hown.entity.trans haccepts.entity.symm⟩,
      hown.schema.trans haccepts.schema.symm⟩

theorem Tracks.check_eq_ok (h : Tracks P reducer applied) :
    reducer.check P operation = .ok u ↔
      Accepts P reducer operation ∧
        operation.operationId ∉ applied.map OperationEnvelope.operationId ∧
        ∀ parent ∈ operation.causalParents, parent ∈ applied.map OperationEnvelope.operationId := by
  have hfresh : SortedMap.contains operation.operationId reducer.operations = false ↔
      operation.operationId ∉ applied.map OperationEnvelope.operationId := by
    rw [Bool.eq_false_iff, ne_eq, SortedMap.contains_iff, h.keys.mem_iff]
  simp only [check, bind_eq_ok, require_eq_ok, decide_eq_true_eq, checkAll_eq_ok,
    Bool.not_eq_true', hfresh]
  constructor
  · rintro ⟨_, hverified, _, hspace, _, hentity, _, hschema, _, hnew, hparents⟩
    have haccepts : Accepts P reducer operation := ⟨hverified, hspace, hentity, hschema⟩
    exact ⟨haccepts, hnew, fun parent hparent =>
      (h.checkParent_eq_ok haccepts).mp (hparents parent hparent)⟩
  · rintro ⟨haccepts, hnew, hparents⟩
    exact ⟨(), haccepts.verified, (), haccepts.space, (), haccepts.entity, (), haccepts.schema,
      (), hnew, fun parent hparent =>
        (h.checkParent_eq_ok haccepts).mpr (hparents parent hparent)⟩

theorem Tracks.insert (h : Tracks P reducer applied) (haccepts : Accepts P reducer operation)
    (hfresh : operation.operationId ∉ applied.map OperationEnvelope.operationId)
    (hparents : ∀ parent ∈ operation.causalParents,
      parent ∈ applied.map OperationEnvelope.operationId) :
    Tracks P (reducer.insert operation) (applied ++ [operation]) := by
  have hfirst : ParentsFirst (applied ++ [operation]) :=
    History.parentsFirst_append.mpr ⟨h.first, hparents⟩
  refine ⟨SortedMap.sorted_insert _ _ h.sorted, ?_,
    SortedSet.pairwise_insert (SortedSet.pairwise_foldl_remove h.ascending), ?_, ?_, hfirst⟩
  · have habsent : SortedMap.contains operation.operationId reducer.operations = false := by
      rw [Bool.eq_false_iff, ne_eq, SortedMap.contains_iff, h.keys.mem_iff]
      exact hfresh
    have hinserted := SortedMap.insert_perm operation habsent
    rw [map_append]
    exact hinserted.trans ((h.operations.cons _).trans (perm_append_singleton _ _).symm)
  · intro id
    rw [headsOf, hfirst.heads_append hfresh]
    simp only [EntityReducer.insert, SortedSet.mem_insert, SortedSet.mem_foldl_remove, h.heads,
      map_append, mem_append, map_cons, map_nil, mem_singleton,
      mem_map, mem_filter, Bool.not_eq_true', contains_eq_mem,
      decide_eq_false_iff_not]
    constructor
    · rintro (rfl | ⟨⟨head, hhead, rfl⟩, hkept⟩)
      · exact .inr rfl
      · exact .inl ⟨head, ⟨hhead, hkept⟩, rfl⟩
    · rintro (⟨head, ⟨hhead, hkept⟩, rfl⟩ | rfl)
      · exact .inr ⟨⟨head, hhead, rfl⟩, hkept⟩
      · exact .inl rfl
  · intro other hother
    rcases mem_append.mp hother with hother | hother
    · exact (h.accepted other hother).insert
    · rw [mem_singleton.mp hother]
      exact haccepts.insert

-- A reducer is determined by the set of what it has applied.
theorem Tracks.unique (h : Tracks P reducer applied) (h' : Tracks P reducer' applied')
    (hspace : reducer.spaceId = reducer'.spaceId) (hentity : reducer.entityId = reducer'.entityId)
    (hschema : reducer.schema = reducer'.schema) (hperm : applied.Perm applied') :
    reducer = reducer' := by
  have hoperations : reducer.operations = reducer'.operations :=
    h.sorted.eq_of_perm h'.sorted
      (h.operations.trans ((hperm.map _).trans h'.operations.symm))
  have hheads : reducer.heads = reducer'.heads := by
    refine SortedSet.eq_of_mem_iff h.ascending h'.ascending fun id => ?_
    rw [h.heads, h'.heads]
    exact ((History.heads_perm hperm).map _).mem_iff
  cases reducer
  simp_all

-- Each head has its operation.
theorem Tracks.mapM_get? (h : Tracks P reducer applied)
    (hids : ∀ id ∈ ids, id ∈ (headsOf applied).map OperationEnvelope.operationId) :
    ∃ heads : List OperationEnvelope, (∀ head ∈ heads, head ∈ headsOf applied) ∧
      heads.map OperationEnvelope.operationId = ids ∧
      (ids.mapM fun id => (SortedMap.get? id reducer.operations).map OperationEnvelope.toHead) =
        some (heads.map OperationEnvelope.toHead) := by
  induction ids with
  | nil => exact ⟨[], forall_mem_nil _, rfl, rfl⟩
  | cons id rest ih =>
    obtain ⟨hid, hrest⟩ := forall_mem_cons.mp hids
    obtain ⟨head, hhead, rfl⟩ := mem_map.mp hid
    obtain ⟨heads, hheads, rfl, hmapped⟩ := ih hrest
    have hfound := h.get?_eq_some.mpr ⟨(History.mem_heads.mp hhead).1, rfl⟩
    refine ⟨head :: heads, forall_mem_cons.mpr ⟨hhead, hheads⟩, rfl, ?_⟩
    rw [mapM_cons, hfound, hmapped]
    rfl

theorem Tracks.finish_eq (h : Tracks P reducer applied) :
    ∃ heads : List OperationEnvelope, heads.Perm (headsOf applied) ∧
      heads.map OperationEnvelope.operationId = reducer.heads ∧
      reducer.finish = some
        { spaceId := reducer.spaceId
          entityId := reducer.entityId
          schema := reducer.schema
          operationCount := applied.length
          heads := heads.map OperationEnvelope.toHead } := by
  obtain ⟨heads, hheads, hids, hmapped⟩ := h.mapM_get? fun id => (h.heads id).mp
  have hinjective := inj_on_of_nodup_map h.nodup
  have hnodup : heads.Nodup := by
    apply List.Nodup.of_map OperationEnvelope.operationId
    rw [hids]
    exact h.ascending.imp ne_of_lt
  have hnodup' : (headsOf applied).Nodup := (List.Nodup.of_map _ h.nodup).filter _
  refine ⟨heads, ?_, hids, ?_⟩
  · refine (perm_ext_iff_of_nodup hnodup hnodup').mpr fun head => ⟨hheads head, ?_⟩
    intro hhead
    have hid : head.operationId ∈ heads.map OperationEnvelope.operationId := by
      rw [hids, h.heads]
      exact mem_map_of_mem hhead
    obtain ⟨found, hfound, hsame⟩ := mem_map.mp hid
    rw [← hinjective (History.mem_heads.mp (hheads found hfound)).1
      (History.mem_heads.mp hhead).1 hsame]
    exact hfound
  · have hcount : reducer.operations.length = applied.length := by
      rw [h.operations.length_eq, length_map]
    simp only [finish, hmapped, hcount]
    rfl

end Steps

section Runs

variable {reducer : EntityReducer} {operation : OperationEnvelope}
  {operations : List OperationEnvelope}

-- Applied or not, the reducer tracks a history.
theorem Tracks.apply (h : Tracks P reducer applied) (operation : OperationEnvelope) :
    ∃ applied', Tracks P (reducer.apply P operation).1 applied' := by
  unfold EntityReducer.apply
  cases hcheck : reducer.check P operation with
  | error error => exact ⟨applied, h⟩
  | ok u =>
    obtain ⟨haccepts, hfresh, hparents⟩ := h.check_eq_ok.mp hcheck
    exact ⟨_, h.insert haccepts hfresh hparents⟩

theorem Tracks.foldl_apply (h : Tracks P reducer applied) (operations : List OperationEnvelope) :
    ∃ applied', Tracks P (operations.foldl (fun reducer operation =>
      (reducer.apply P operation).1) reducer) applied' := by
  induction operations generalizing reducer applied with
  | nil => exact ⟨applied, h⟩
  | cons operation rest ih =>
    obtain ⟨applied', hnext⟩ := h.apply operation
    exact ih hnext

theorem applyAll_cons_eq_ok {rest : List OperationEnvelope} :
    reducer.applyAll P (operation :: rest) = .ok reducer' ↔
      reducer.check P operation = .ok () ∧
        (reducer.insert operation).applyAll P rest = .ok reducer' := by
  rw [applyAll, EntityReducer.apply]
  cases hcheck : reducer.check P operation with
  | error error => simp
  | ok u => simp

-- A stream is reduced exactly if its operations are of the entity, appear once and
-- come after their parents.
theorem Tracks.applyAll_isOk (h : Tracks P reducer applied) :
    (∃ reducer', reducer.applyAll P operations = .ok reducer') ↔
      (∀ operation ∈ operations, Accepts P reducer operation) ∧
        ((applied ++ operations).map OperationEnvelope.operationId).Nodup ∧
        ParentsFirst (applied ++ operations) := by
  induction operations generalizing reducer applied with
  | nil =>
    rw [append_nil]
    exact iff_of_true ⟨reducer, rfl⟩ ⟨forall_mem_nil _, h.nodup, h.first⟩
  | cons operation rest ih =>
    simp only [applyAll_cons_eq_ok, exists_and_left, h.check_eq_ok, forall_mem_cons]
    rw [append_cons]
    constructor
    · rintro ⟨⟨haccepts, hfresh, hparents⟩, hrest⟩
      obtain ⟨hall, hnodup, hfirst⟩ := (ih (h.insert haccepts hfresh hparents)).mp hrest
      exact ⟨⟨haccepts, fun other hother => (hall other hother).of_insert⟩, hnodup, hfirst⟩
    · rintro ⟨⟨haccepts, hall⟩, hnodup, hfirst⟩
      have hprefix : ParentsFirst (applied ++ [operation]) := hfirst.of_append
      obtain ⟨-, hparents⟩ := History.parentsFirst_append.mp hprefix
      have hfresh : operation.operationId ∉ applied.map OperationEnvelope.operationId := by
        rw [map_append, map_append] at hnodup
        exact disjoint_singleton.mp (disjoint_of_nodup_append
          (nodup_append.mp hnodup).1)
      exact ⟨⟨haccepts, hfresh, hparents⟩, (ih (h.insert haccepts hfresh hparents)).mpr
        ⟨fun other hother => (hall other hother).insert, hnodup, hfirst⟩⟩

theorem Tracks.applyAll (h : Tracks P reducer applied)
    (hrun : reducer.applyAll P operations = .ok reducer') :
    Tracks P reducer' (applied ++ operations) ∧ reducer'.spaceId = reducer.spaceId ∧
      reducer'.entityId = reducer.entityId ∧ reducer'.schema = reducer.schema := by
  induction operations generalizing reducer applied with
  | nil =>
    obtain rfl := Except.ok.inj hrun
    rw [append_nil]
    exact ⟨h, rfl, rfl, rfl⟩
  | cons operation rest ih =>
    obtain ⟨hcheck, hrest⟩ := applyAll_cons_eq_ok.mp hrun
    obtain ⟨haccepts, hfresh, hparents⟩ := h.check_eq_ok.mp hcheck
    have hall := ih (h.insert haccepts hfresh hparents) hrest
    rw [← append_cons] at hall
    exact hall

end Runs

section Orders

variable {spaceId : SpaceId} {entityId : EntityId} {schema : EntitySchema}
  {operations : List OperationEnvelope}

theorem applyAll_perm (hperm : operations.Perm operations') (hfirst : ParentsFirst operations) :
    (∃ reducer, (new spaceId entityId schema).applyAll P operations' = .ok reducer) →
      ∃ reducer, (new spaceId entityId schema).applyAll P operations = .ok reducer := by
  rw [(tracks_new spaceId entityId schema).applyAll_isOk,
    (tracks_new spaceId entityId schema).applyAll_isOk]
  rintro ⟨haccepted, hnodup, -⟩
  exact ⟨fun operation hmem => haccepted operation (hperm.mem_iff.mp hmem),
    (hperm.map _).nodup_iff.mpr hnodup, hfirst⟩

theorem reduceEntity_error
    (h : (new spaceId entityId schema).applyAll P operations = .error error) :
    reduceEntity P spaceId entityId schema operations = .error error := by
  rw [reduceEntity, h]
  rfl

-- What a successful reduction reports.
theorem reduceEntity_eq_ok (h : (new spaceId entityId schema).applyAll P operations = .ok reducer) :
    ∃ reduced, reduceEntity P spaceId entityId schema operations = .ok (some reduced) ∧
      reducer.finish = some reduced ∧ reduced.operationCount = operations.length ∧
      (reduced.heads.map EntityHead.operationId).Pairwise (· < ·) ∧
      ∀ head, head ∈ reduced.heads ↔ ∃ operation ∈ operations,
        (∀ child ∈ operations, operation.operationId ∉ child.causalParents) ∧
          head = operation.toHead := by
  obtain ⟨htracks, -⟩ := (tracks_new spaceId entityId schema).applyAll h
  obtain ⟨heads, hperm, hids, hfinish⟩ := htracks.finish_eq
  refine ⟨_, ?_, hfinish, rfl, ?_, ?_⟩
  · rw [reduceEntity, h, ok_bind, hfinish]
  · rw [map_map]
    change (heads.map OperationEnvelope.operationId).Pairwise (· < ·)
    rw [hids]
    exact htracks.ascending
  · intro head
    simp [hperm.mem_iff, History.mem_heads, and_assoc, @eq_comm _ head]

-- Two orders lead to the same reducer.
theorem applyAll_unique (hperm : operations.Perm operations')
    (h : (new spaceId entityId schema).applyAll P operations = .ok reducer)
    (h' : (new spaceId entityId schema).applyAll P operations' = .ok reducer') :
    reducer = reducer' := by
  obtain ⟨htracks, hspace, hentity, hschema⟩ := (tracks_new spaceId entityId schema).applyAll h
  obtain ⟨htracks', hspace', hentity', hschema'⟩ :=
    (tracks_new spaceId entityId schema).applyAll h'
  exact htracks.unique htracks' (hspace.trans hspace'.symm) (hentity.trans hentity'.symm)
    (hschema.trans hschema'.symm) hperm

end Orders

end EntityReducer

-- All orders of the operations in which parents come first have one outcome.
theorem reduction_order_independent (P : Primitives) (spaceId : SpaceId) (entityId : EntityId)
    (schema : EntitySchema) :
    (∀ operations operations' : List OperationEnvelope, operations.Perm operations' →
      ParentsFirst operations → ParentsFirst operations' →
        (∃ error error', reduceEntity P spaceId entityId schema operations = .error error ∧
          reduceEntity P spaceId entityId schema operations' = .error error') ∨
        ∃ reduced, reduceEntity P spaceId entityId schema operations = .ok (some reduced) ∧
          reduceEntity P spaceId entityId schema operations' = .ok (some reduced) ∧
          reduced.operationCount = operations.length ∧
          (reduced.heads.map EntityHead.operationId).Pairwise (· < ·) ∧
          ∀ head, head ∈ reduced.heads ↔ ∃ operation ∈ operations,
            (∀ child ∈ operations, operation.operationId ∉ child.causalParents) ∧
              head = operation.toHead) ∧
      (∀ (reducer : EntityReducer) (operation : OperationEnvelope),
        (reducer.apply P operation).2 ≠ .ok () → (reducer.apply P operation).1 = reducer) ∧
      ∀ operations : List OperationEnvelope, ∃ reduced,
        (operations.foldl (fun reducer operation => (reducer.apply P operation).1)
          (EntityReducer.new spaceId entityId schema)).finish = some reduced := by
  have hnew := EntityReducer.tracks_new (P := P) spaceId entityId schema
  refine ⟨?_, ?_, ?_⟩
  · intro operations operations' hperm hfirst hfirst'
    cases hrun : (EntityReducer.new spaceId entityId schema).applyAll P operations with
    | error error =>
      cases hrun' : (EntityReducer.new spaceId entityId schema).applyAll P operations' with
      | error error' =>
        exact .inl ⟨error, error', EntityReducer.reduceEntity_error hrun,
          EntityReducer.reduceEntity_error hrun'⟩
      | ok reducer' =>
        obtain ⟨reducer, hok⟩ := EntityReducer.applyAll_perm hperm hfirst ⟨reducer', hrun'⟩
        rw [hrun] at hok
        cases hok
    | ok reducer =>
      obtain ⟨reducer', hrun'⟩ :=
        EntityReducer.applyAll_perm hperm.symm hfirst' ⟨reducer, hrun⟩
      obtain rfl := EntityReducer.applyAll_unique hperm hrun hrun'
      obtain ⟨reduced, hreduced, hfinish, hcount, hascending, hheads⟩ :=
        EntityReducer.reduceEntity_eq_ok hrun
      obtain ⟨other, hother, hfinish', -⟩ := EntityReducer.reduceEntity_eq_ok hrun'
      obtain rfl := Option.some.inj (hfinish.symm.trans hfinish')
      exact .inr ⟨reduced, hreduced, hother, hcount, hascending, hheads⟩
  · intro reducer operation hfailed
    unfold EntityReducer.apply at hfailed ⊢
    cases hcheck : reducer.check P operation with
    | error error => rfl
    | ok u =>
      rw [hcheck] at hfailed
      exact absurd rfl hfailed
  · intro operations
    obtain ⟨applied, htracks⟩ := hnew.foldl_apply operations
    obtain ⟨heads, -, -, hfinish⟩ := htracks.finish_eq
    exact ⟨_, hfinish⟩

open Sample (primitives spaceId)

-- One record is its own head.
theorem reduction_order_independent_record :
    ∃ reduced, reduceEntity primitives spaceId Sample.record.entityId .record
        [Sample.record.envelope] = .ok (some reduced) ∧
      Sample.record.envelope.toHead ∈ reduced.heads := by
  obtain ⟨horders, -, -⟩ := reduction_order_independent primitives spaceId
    Sample.record.entityId .record
  have hfirst : ParentsFirst [Sample.record.envelope] :=
    History.parentsFirst_append.mpr ⟨History.parentsFirst_nil, forall_mem_nil _⟩
  have hverified := Sample.record_verifies
  have hruns := (EntityReducer.tracks_new spaceId Sample.record.entityId
    .record).applyAll_isOk
    |>.mpr ⟨forall_mem_singleton.mpr ⟨hverified, rfl, rfl, rfl⟩, nodup_singleton _,
      hfirst⟩
  obtain ⟨reducer, hrun⟩ := hruns
  obtain ⟨found, hfound, -⟩ := EntityReducer.reduceEntity_eq_ok hrun
  rcases horders _ _ (.refl _) hfirst hfirst with
    ⟨error, -, hfailed, -⟩ | ⟨reduced, hreduced, -, -, -, hheads⟩
  · rw [hfound] at hfailed
    cases hfailed
  · exact ⟨reduced, hreduced, (hheads _).mpr ⟨_, mem_singleton_self _,
      forall_mem_singleton.mpr not_mem_nil, rfl⟩⟩

end Fractonica.DataModel
