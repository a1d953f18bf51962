import Fractonica.Lib.Paging
import Fractonica.Store.Runs

namespace Fractonica.Store

open Lib Trust DataModel List

def MAX_CHANGE_LIMIT : Nat := 200

structure OperationChangePage where
  spaceId : SpaceId
  operations : List StoredOperation
  nextAfter : Nat
  hasMore : Bool

section Pages

variable (P : Platform) (t : Tables) (spaceId : SpaceId) (afterLocalSequence limit : Nat)

-- One row more than the page holds is fetched.
def changeRows : List OperationRow :=
  ((t.operations.filter fun row =>
      row.spaceId = spaceId && afterLocalSequence < row.localSequence).mergeSort
    fun left right => left.localSequence ≤ right.localSequence).take (limit + 1)

def changePage (fetched : List StoredOperation) : OperationChangePage where
  spaceId := spaceId
  operations := Paging.trim limit fetched
  nextAfter := Paging.next StoredOperation.localSequence (Paging.trim limit fetched)
    afterLocalSequence
  hasMore := limit < fetched.length

def validateChangeLimit : Except RepositoryError Unit :=
  require (1 ≤ limit && limit ≤ MAX_CHANGE_LIMIT)
    (.topology "change limit must be between 1 and 200")

def loadChanges : Except RepositoryError OperationChangePage := do
  validateChangeLimit limit
  requireSpace P t spaceId
  -- A cursor that the database cannot hold is behind every operation.
  if 2 ^ 63 ≤ afterLocalSequence then
    .ok { spaceId, operations := [], nextAfter := afterLocalSequence, hasMore := false }
  else do
    let fetched ← (changeRows t spaceId afterLocalSequence limit).mapM fun row =>
      liftCorrupt (decodeStoredValues P row)
    .ok (changePage spaceId afterLocalSequence limit fetched)

def changesAfter : Except RepositoryError OperationChangePage := do
  validateChangeLimit limit
  loadChanges P t spaceId afterLocalSequence limit

end Pages

def Log.ofSpace (log : Log) (spaceId : SpaceId) : Log := log.filter (·.space = spaceId)

section Reading

variable {P : Platform} {log : Log} {spaceId : SpaceId} {afterLocalSequence limit : Nat}
  {page : OperationChangePage}

theorem Log.mem_ofSpace : a ∈ log.ofSpace spaceId ↔ a ∈ log ∧ a.space = spaceId := by
  simp [Log.ofSpace]

theorem Causal.sorted_ofSpace (h : Causal P log) :
    (log.ofSpace spaceId).Pairwise fun a b => a.localSequence < b.localSequence :=
  h.sequences.sublist filter_sublist

-- The operations that the page of a space continues with.
abbrev Log.unread (log : Log) (spaceId : SpaceId) (afterLocalSequence : Nat) : Log :=
  Paging.behind StoredOperation.localSequence (log.ofSpace spaceId) afterLocalSequence

theorem Represents.changeRows_eq (h : Represents P t log) (hcausal : Causal P log) :
    changeRows t spaceId afterLocalSequence limit =
      ((log.unread spaceId afterLocalSequence).take (limit + 1)).map (storedRow P) := by
  have hrows : (t.operations.filter fun row =>
      row.spaceId = spaceId && afterLocalSequence < row.localSequence) =
        (log.unread spaceId afterLocalSequence).map (storedRow P) := by
    rw [h.operations, filter_map, Log.unread, Paging.behind, Log.ofSpace, filter_filter]
    congr 1
    apply filter_congr
    intro a _
    exact Bool.and_comm _ _
  have hsorted : (log.unread spaceId afterLocalSequence).Pairwise
      fun a b => a.localSequence < b.localSequence :=
    hcausal.sorted_ofSpace.sublist filter_sublist
  rw [changeRows, hrows, mergeSort_of_pairwise, map_take]
  rw [pairwise_map]
  exact hsorted.imp fun hlt => decide_eq_true (Nat.le_of_lt hlt)

-- What is fetched is what was admitted.
theorem Coherent.fetched_eq (h : Coherent P t log) {fetched : List StoredOperation}
    (hfetched : ((changeRows t spaceId afterLocalSequence limit).mapM fun row =>
      liftCorrupt (decodeStoredValues P row)) = .ok fetched) :
    fetched = (log.unread spaceId afterLocalSequence).take (limit + 1) := by
  rw [h.represents.changeRows_eq h.causal] at hfetched
  refine decodeRows_sound ?_ hfetched
  intro a ha
  exact h.causal.verified a (Log.mem_ofSpace.mp (mem_filter.mp (mem_of_mem_take ha)).1).1

-- A page holds the next operations of the space and says whether there are more.
structure Continues (log : Log) (spaceId : SpaceId) (afterLocalSequence limit : Nat)
    (page : OperationChangePage) : Prop where
  space : page.spaceId = spaceId
  operations : page.operations = (log.unread spaceId afterLocalSequence).take limit
  nextAfter : page.nextAfter =
    Paging.next StoredOperation.localSequence page.operations afterLocalSequence
  hasMore : page.hasMore = true ↔ limit < (log.unread spaceId afterLocalSequence).length

theorem continues_changePage :
    Continues log spaceId afterLocalSequence limit (changePage spaceId afterLocalSequence limit
      ((log.unread spaceId afterLocalSequence).take (limit + 1))) := by
  refine ⟨rfl, Paging.trim_take limit _, rfl, ?_⟩
  rw [changePage, decide_eq_true_eq]
  exact Paging.looksAhead limit _

theorem Coherent.unread_eq_nil (h : Coherent P t log) (spaceId : SpaceId)
    (hlarge : 2 ^ 63 ≤ afterLocalSequence) : log.unread spaceId afterLocalSequence = [] := by
  apply filter_eq_nil_iff.mpr
  intro a ha
  have hnumbered := (h.numbered a (Log.mem_ofSpace.mp ha).1).2
  have hroom := h.room
  rw [decide_eq_true_eq]
  omega

theorem Coherent.continues (h : Coherent P t log)
    (hpage : loadChanges P t spaceId afterLocalSequence limit = .ok page) :
    1 ≤ limit ∧ Continues log spaceId afterLocalSequence limit page := by
  simp only [loadChanges, validateChangeLimit, bind_eq_ok, require_eq_ok, Bool.and_eq_true,
    decide_eq_true_eq] at hpage
  obtain ⟨-, ⟨hlimit, -⟩, -, -, hpage⟩ := hpage
  refine ⟨hlimit, ?_⟩
  by_cases hlarge : 2 ^ 63 ≤ afterLocalSequence
  · rw [if_pos hlarge, Except.ok.injEq] at hpage
    have hnil := h.unread_eq_nil spaceId hlarge
    rw [← hpage]
    refine ⟨rfl, ?_, rfl, ?_⟩
    · rw [hnil, take_nil]
    · rw [hnil]
      simp
  · rw [if_neg hlarge] at hpage
    simp only [bind_eq_ok, Except.ok.injEq] at hpage
    obtain ⟨fetched, hfetched, rfl⟩ := hpage
    rw [h.fetched_eq hfetched]
    exact continues_changePage

-- The operations of a space can be read back from the tables.
def Readable (P : Platform) (log : Log) (spaceId : SpaceId) : Prop :=
  ∀ a ∈ log.ofSpace spaceId, P.readEnvelope (projectionText P a.operation) = .ok a.operation

theorem Coherent.loadChanges_isOk (h : Coherent P t log) (hlimit : 1 ≤ limit)
    (hmost : limit ≤ MAX_CHANGE_LIMIT) (hspace : requireSpace P t spaceId = .ok ())
    (hread : Readable P log spaceId) :
    ∃ page, loadChanges P t spaceId afterLocalSequence limit = .ok page := by
  have hvalid : validateChangeLimit limit = .ok () := by
    rw [validateChangeLimit, require_eq_ok, Bool.and_eq_true, decide_eq_true_eq,
      decide_eq_true_eq]
    exact ⟨hlimit, hmost⟩
  have hfetched : ((changeRows t spaceId afterLocalSequence limit).mapM fun row =>
      liftCorrupt (decodeStoredValues P row)) =
        .ok ((log.unread spaceId afterLocalSequence).take (limit + 1)) := by
    rw [h.represents.changeRows_eq h.causal]
    have hmem : ∀ a ∈ (log.unread spaceId afterLocalSequence).take (limit + 1),
        a ∈ log.ofSpace spaceId := fun a ha => (mem_filter.mp (mem_of_mem_take ha)).1
    apply decodeRows_complete
    · exact fun a ha => h.causal.verified a (Log.mem_ofSpace.mp (hmem a ha)).1
    · exact fun a ha => (h.numbered a (Log.mem_ofSpace.mp (hmem a ha)).1).1
    · exact fun a ha => hread a (hmem a ha)
  rw [loadChanges, hvalid, hspace, hfetched]
  by_cases hlarge : 2 ^ 63 ≤ afterLocalSequence
  · exact ⟨_, if_pos hlarge⟩
  · exact ⟨_, if_neg hlarge⟩

end Reading

end Fractonica.Store
