import Fractonica.Store.PeerReads.Theorems

namespace Fractonica.Store

open Lib Trust DataModel Peer List

section Growth

variable {P : Platform} {db db' : Database} {spaceId : SpaceId}

-- The log of a space grows at its end, with new sequence numbers.
structure Grows (P : Platform) (spaceId : SpaceId) (db db' : Database) : Prop where
  last : db.tables.lastSequence ≤ db'.tables.lastSequence
  appended : ∃ new, (admitted P db'.tables).ofSpace spaceId =
    (admitted P db.tables).ofSpace spaceId ++ new ∧
      ∀ a ∈ new, db.tables.lastSequence < a.localSequence

theorem Grows.of_tables (htables : db'.tables = db.tables) : Grows P spaceId db db' where
  last := by rw [htables]
  appended := ⟨[], by rw [htables, append_nil], by simp⟩

theorem Log.ofSpace_append (log new : Log) :
    Log.ofSpace (log ++ new) spaceId = log.ofSpace spaceId ++ Log.ofSpace new spaceId :=
  filter_append log new

theorem Grows.of_append {new : Log} (hlast : db.tables.lastSequence ≤ db'.tables.lastSequence)
    (hlog : admitted P db'.tables = admitted P db.tables ++ new)
    (hnew : ∀ a ∈ new, db.tables.lastSequence < a.localSequence) : Grows P spaceId db db' := by
  refine ⟨hlast, Log.ofSpace new spaceId, ?_, ?_⟩
  · rw [hlog, Log.ofSpace_append]
  · intro a ha
    exact hnew a (Log.mem_ofSpace.mp ha).1

theorem grows_submit (h : Sound P db) (other : SpaceId) (request : SubmitOperationRequest) :
    Grows P spaceId db (submitOperation P db other request).1 := by
  have hsubmission := submission P db other request
  generalize (submitOperation P db other request).1 = db' at hsubmission ⊢
  generalize (submitOperation P db other request).2 = answer at hsubmission
  cases hsubmission with
  | failed tables later => exact .of_tables tables
  | replayed => exact .of_tables rfl
  | inserted later valid absent admission insertable =>
    apply Grows.of_append (Nat.le_succ _)
      (admitted_insert h valid.verified admission insertable)
    rw [forall_mem_singleton]
    exact Nat.lt_succ_self _

theorem grows_bootstrap (h : Sound P db) (request : TrustedSpaceBootstrapRequest) :
    Grows P spaceId db (bootstrapTrustedSpace P db request).1 := by
  cases hcall : bootstrapTrustedSpace P db request with
  | mk next answer =>
    cases answer with
    | error error => exact .of_tables (bootstrapTrustedSpace_error hcall).1
    | ok result =>
      obtain ⟨grant, hvalid, -, hcases⟩ := bootstrapTrustedSpace_ok hcall
      rcases hcases with ⟨-, htables⟩ | ⟨-, -, hcreation⟩
      · exact .of_tables htables
      · have hlog := admitted_create h hvalid hcreation
        rw [append_assoc] at hlog
        have hlast : next.tables.lastSequence = db.tables.lastSequence + 2 := by
          rw [hcreation.tables, hcreation.grantStored]
          rfl
        apply Grows.of_append (by omega) hlog
        simp [hcreation.genesisStored, hcreation.grantStored]

theorem grows_delete (h : Sound P db) (hother : other ≠ spaceId)
    (referenced : Bool) : Grows P spaceId db (deleteSpace db other referenced).1 := by
  unfold deleteSpace
  split_ifs
  · exact .of_tables rfl
  · exact .of_tables rfl
  · refine ⟨Nat.le_refl _, [], ?_, by simp⟩
    have hlog : admitted P (db.tables.withoutSpace other) = (admitted P db.tables).without other :=
      h.consistent.coherent.without.admitted_eq
    rw [append_nil, hlog, Log.ofSpace, Log.without, filter_filter]
    apply filter_congr
    intro a _
    by_cases hspace : a.space = spaceId
    · simp [hspace, hother.symm]
    · simp [hspace]

end Growth

section Feed

-- What happens between two pages: calls for any space, except that the space
-- that is read is not deleted, reads of other peers, and pairings.
inductive FeedStep (P : PeerPlatform) (spaceId : SpaceId) (node : Node) : Node → Prop
  | submit (other : SpaceId) (request : SubmitOperationRequest) :
      FeedStep P spaceId node
        { node with database := (submitOperation P.toPlatform node.database other request).1 }
  | bootstrap (request : TrustedSpaceBootstrapRequest) :
      FeedStep P spaceId node
        { node with database := (bootstrapTrustedSpace P.toPlatform node.database request).1 }
  | delete {other : SpaceId} (kept : other ≠ spaceId) (referenced : Bool) :
      FeedStep P spaceId node
        { node with database := (deleteSpace node.database other referenced).1 }
  | read (request : PeerReadChangesRequest) : FeedStep P spaceId node (peerChanges P node request).1
  | pair (pairingSessions : List PairingRow) :
      FeedStep P spaceId node { node with pairingSessions }

-- A reader that starts at zero and follows the cursor of each page, with what it
-- has received.
inductive FeedRun (P : PeerPlatform) (spaceId : SpaceId) (start : Node) :
    Node → Nat → List StoredOperation → Prop
  | refl : FeedRun P spaceId start start 0 []
  | step {node node' : Node} {after : Nat} {received : List StoredOperation}
      (run : FeedRun P spaceId start node after received) (step : FeedStep P spaceId node node') :
      FeedRun P spaceId start node' after received
  | page {node : Node} {after : Nat} {received : List StoredOperation}
      (run : FeedRun P spaceId start node after received) {limit : Nat}
      {page : OperationChangePage}
      (ok : changesAfter P.toPlatform node.database.tables spaceId after limit = .ok page) :
      FeedRun P spaceId start node page.nextAfter (received ++ page.operations)
  | peerPage {node : Node} {after : Nat} {received : List StoredOperation}
      (run : FeedRun P spaceId start node after received) {request : PeerReadChangesRequest}
      (space : request.proof.spaceId = spaceId) (cursor : request.proof.after.toNat = after)
      {page : OperationChangePage} (ok : (peerChanges P node request).2 = .ok page) :
      FeedRun P spaceId start (peerChanges P node request).1 page.nextAfter
        (received ++ page.operations)

variable {P : PeerPlatform} {spaceId : SpaceId} {start node : Node} {after limit : Nat}
  {received : List StoredOperation}

theorem changesAfter_eq_ok {P : Platform} (h : changesAfter P t spaceId after limit = .ok page) :
    loadChanges P t spaceId after limit = .ok page := by
  simp only [changesAfter, bind_eq_ok] at h
  obtain ⟨_, -, hpage⟩ := h
  exact hpage

theorem peerChanges_database (P : PeerPlatform) (node : Node) (request : PeerReadChangesRequest) :
    (peerChanges P node request).1.database = node.database := by
  unfold peerChanges
  split <;> rfl

theorem FeedStep.grows (h : FeedStep P spaceId node node')
    (hsound : Sound P.toPlatform node.database) :
    Sound P.toPlatform node'.database ∧
      Grows P.toPlatform spaceId node.database node'.database := by
  cases h with
  | submit other request =>
    exact ⟨(transition_submit other request).sound hsound, grows_submit hsound other request⟩
  | bootstrap request =>
    exact ⟨(transition_bootstrap request).sound hsound, grows_bootstrap hsound request⟩
  | @delete other kept referenced =>
    exact ⟨(transition_delete other referenced).sound hsound,
      grows_delete hsound kept referenced⟩
  | read request =>
    rw [peerChanges_database]
    exact ⟨hsound, .of_tables rfl⟩
  | pair => exact ⟨hsound, .of_tables rfl⟩

-- The reader has received the operations of the space up to its cursor.
structure Received (P : Platform) (db : Database) (spaceId : SpaceId) (after : Nat)
    (received : List StoredOperation) : Prop where
  sound : Sound P db
  cursor : after ≤ db.tables.lastSequence
  passed : received =
    Paging.upTo StoredOperation.localSequence ((admitted P db.tables).ofSpace spaceId) after

section Pages

variable {P : Platform}

theorem Received.sorted (h : Received P db spaceId after received) :
    ((admitted P db.tables).ofSpace spaceId).Pairwise
      fun a b => a.localSequence < b.localSequence :=
  h.sound.consistent.coherent.causal.sorted_ofSpace

theorem Received.grow (h : Received P db spaceId after received) (hsound : Sound P db')
    (hgrows : Grows P spaceId db db') : Received P db' spaceId after received := by
  obtain ⟨new, hnew, hlater⟩ := hgrows.appended
  refine ⟨hsound, h.cursor.trans hgrows.last, ?_⟩
  rw [hnew, Paging.upTo_extend]
  · exact h.passed
  · intro a ha
    exact Nat.lt_of_le_of_lt h.cursor (hlater a ha)

theorem Received.next (h : Received P db spaceId after received)
    (hpage : loadChanges P db.tables spaceId after limit = .ok page) :
    Received P db spaceId page.nextAfter (received ++ page.operations) := by
  have hcoherent := h.sound.consistent.coherent
  obtain ⟨-, hcontinues⟩ := hcoherent.continues hpage
  refine ⟨h.sound, ?_, ?_⟩
  · -- The cursor stays or moves to an operation of the page.
    rw [hcontinues.nextAfter, Paging.next]
    cases hlast : page.operations.getLast? with
    | none => exact h.cursor
    | some last =>
      have hmem := mem_of_getLast? hlast
      rw [hcontinues.operations] at hmem
      have hlog := (mem_filter.mp (mem_of_mem_take hmem)).1
      exact (hcoherent.numbered last (Log.mem_ofSpace.mp hlog).1).2
  · rw [hcontinues.nextAfter, hcontinues.operations, h.passed]
    exact (Paging.upTo_next h.sorted limit).symm

theorem Received.hasMore (h : Received P db spaceId after received)
    (hpage : loadChanges P db.tables spaceId after limit = .ok page) :
    page.hasMore = false ↔
      received ++ page.operations = (admitted P db.tables).ofSpace spaceId := by
  obtain ⟨-, hcontinues⟩ := h.sound.consistent.coherent.continues hpage
  have hnext := h.next hpage
  rw [← Bool.not_eq_true, hcontinues.hasMore, Nat.not_lt, hnext.passed, hcontinues.nextAfter,
    hcontinues.operations]
  exact (Paging.upTo_next_eq_self_iff h.sorted).symm

-- Parents and authorizations come first.
theorem Received.causal (h : Received P db spaceId after received) {later : List StoredOperation}
    (hsplit : received = earlier ++ b :: later)
    (hreference : reference ∈ b.parents ∨ reference ∈ b.operation.authorization) :
    ∃ a ∈ earlier, a.key = reference := by
  have hcausal := h.sound.consistent.coherent.causal
  have hmem : ∀ {a}, a ∈ received ↔ (a ∈ admitted P db.tables ∧ a.space = spaceId) ∧
      a.localSequence ≤ after := by
    intro a
    rw [h.passed, Paging.upTo, mem_filter, Log.mem_ofSpace, decide_eq_true_eq]
  obtain ⟨⟨hlog, hspace⟩, hpassed⟩ := hmem.mp (hsplit ▸ mem_append_right _ mem_cons_self)
  obtain ⟨a, ha, hkey, hhome, hlt⟩ : ∃ a ∈ admitted P db.tables, a.key = reference ∧
      a.space = b.space ∧ a.localSequence < b.localSequence := by
    rcases hreference with hparent | hauthorization
    · obtain ⟨a, ha, hkey, hsame, -, hlt⟩ := hcausal.parents b hlog reference hparent
      exact ⟨a, ha, hkey, hsame.1, hlt⟩
    · exact hcausal.authorization b hlog reference hauthorization
  have hreceived : a ∈ received := hmem.mpr ⟨⟨ha, hhome.trans hspace⟩, by omega⟩
  have hsorted : received.Pairwise fun a b => a.localSequence < b.localSequence := by
    rw [h.passed]
    exact h.sorted.sublist filter_sublist
  rw [hsplit] at hreceived hsorted
  rcases mem_append.mp hreceived with hearlier | hlater
  · exact ⟨a, hearlier, hkey⟩
  · -- What follows has a larger number.
    have hafter := pairwise_cons.mp (pairwise_append.mp hsorted).2.1
    rcases mem_cons.mp hlater with rfl | hlater
    · omega
    · have hgt := hafter.1 a hlater
      omega

end Pages

theorem peerPage_loadChanges {request : PeerReadChangesRequest}
    (hspace : request.proof.spaceId = spaceId) (hcursor : request.proof.after.toNat = after)
    (hok : (peerChanges P node request).2 = .ok page) :
    loadChanges P.toPlatform node.database.tables spaceId after request.proof.limit.toNat =
      .ok page := by
  obtain ⟨nonces, found, hread, heq⟩ := peerChanges_isOk (isOk_iff.mpr ⟨page, hok⟩)
  rw [heq] at hok
  cases hok
  rw [← hspace, ← hcursor]
  exact hread.page

theorem FeedRun.invariant (h : FeedRun P spaceId start node after received)
    (hsound : Sound P.toPlatform start.database) :
    Received P.toPlatform node.database spaceId after received := by
  induction h with
  | refl =>
    refine ⟨hsound, Nat.zero_le _, ?_⟩
    symm
    apply Paging.upTo_eq_nil
    intro a ha
    exact (hsound.consistent.coherent.numbered a (Log.mem_ofSpace.mp ha).1).1
  | step run step ih =>
    obtain ⟨hsound', hgrows⟩ := step.grows ih.sound
    exact ih.grow hsound' hgrows
  | page run ok ih => exact ih.next (changesAfter_eq_ok ok)
  | peerPage run space cursor ok ih =>
    rw [peerChanges_database]
    exact ih.next (peerPage_loadChanges space cursor ok)

end Feed

-- Whatever happens between the pages, the reader has received exactly the
-- admitted operations of the space up to its cursor, in their order and after
-- all that they refer to. A page says that there is no more exactly if the
-- reader then has everything.
theorem change_feed_complete (P : PeerPlatform) (spaceId : SpaceId) (start node : Node)
    (after : Nat) (received : List StoredOperation)
    (hreachable : Reachable P.toPlatform start.database)
    (h : FeedRun P spaceId start node after received) :
    received = ((admitted P.toPlatform node.database.tables).filter
        fun a => a.space = spaceId).filter (fun a => a.localSequence ≤ after) ∧
      received.Pairwise (fun a b => a.localSequence < b.localSequence) ∧
      (∀ earlier b later, received = earlier ++ b :: later → ∀ reference,
        reference ∈ b.parents ∨ reference ∈ b.operation.authorization →
          ∃ a ∈ earlier, a.key = reference) ∧
      (∀ limit page,
        changesAfter P.toPlatform node.database.tables spaceId after limit = .ok page →
          (page.hasMore = false ↔ received ++ page.operations =
            (admitted P.toPlatform node.database.tables).filter fun a => a.space = spaceId)) ∧
      (∀ request page, request.proof.spaceId = spaceId → request.proof.after.toNat = after →
        (peerChanges P node request).2 = .ok page →
          (page.hasMore = false ↔ received ++ page.operations =
            (admitted P.toPlatform node.database.tables).filter fun a => a.space = spaceId)) ∧
      ∀ limit, 1 ≤ limit → limit ≤ MAX_CHANGE_LIMIT →
        requireSpace P.toPlatform node.database.tables spaceId = .ok () →
        Readable P.toPlatform (admitted P.toPlatform node.database.tables) spaceId →
          ∃ page, changesAfter P.toPlatform node.database.tables spaceId after limit =
            .ok page := by
  have hreceived := h.invariant hreachable.sound
  refine ⟨hreceived.passed, ?_, ?_, ?_, ?_, ?_⟩
  · rw [hreceived.passed]
    exact hreceived.sorted.sublist filter_sublist
  · intro earlier b later hsplit reference hreference
    exact hreceived.causal hsplit hreference
  · intro limit page hpage
    exact hreceived.hasMore (changesAfter_eq_ok hpage)
  · intro request page hspace hcursor hok
    exact hreceived.hasMore (peerPage_loadChanges hspace hcursor hok)
  · intro limit hlimit hmost hspace hread
    obtain ⟨page, hpage⟩ := hreceived.sound.consistent.coherent.loadChanges_isOk hlimit hmost hspace
      hread
    refine ⟨page, ?_⟩
    simp only [changesAfter, validateChangeLimit, bind_eq_ok, require_eq_ok, Bool.and_eq_true,
      decide_eq_true_eq]
    exact ⟨(), ⟨hlimit, hmost⟩, hpage⟩

open Sample (created paired peerPlatform)

open DataModel.Sample (spaceId)

theorem change_feed_complete_bootstrap :
    ∃ page, changesAfter peerPlatform.toPlatform (paired .empty).database.tables
        spaceId 0 200 = .ok page ∧
      FeedRun peerPlatform spaceId (paired .empty) (paired .empty) page.nextAfter page.operations ∧
      page.operations.Pairwise (fun a b => a.localSequence < b.localSequence) ∧
      (page.hasMore = false ↔ page.operations = [Sample.genesis, Sample.writerGrant]) := by
  have hreachable := Sample.reachable_created Sample.peerSupports
  have hlog := Sample.admitted_created Sample.peerSupports
  have hrow : Sample.spaceOf ∈ (paired .empty).database.tables.spaces := mem_cons_self
  have hread : Readable peerPlatform.toPlatform (admitted peerPlatform.toPlatform
      (paired .empty).database.tables) spaceId := by
    rw [show (paired .empty).database = created _ from rfl, hlog]
    exact Sample.readable_created
  obtain ⟨-, -, -, hmore, -, hpages⟩ := change_feed_complete peerPlatform
    spaceId (paired .empty) _ 0 [] hreachable .refl
  obtain ⟨page, hpage⟩ := hpages 200 (by decide) (by decide)
    (hreachable.sound.requireSpace_ok hrow) hread
  have hstart : FeedRun peerPlatform spaceId (paired .empty)
      (paired .empty) 0 [] := .refl
  have hrun := hstart.page hpage
  have hall := hmore 200 page hpage
  rw [show (paired .empty).database = created _ from rfl, hlog] at hall
  refine ⟨page, hpage, hrun, ?_, hall⟩
  exact (change_feed_complete peerPlatform spaceId (paired .empty)
    _ _
    _ hreachable hrun).2.1

end Fractonica.Store
