import Fractonica.Store.Feed

namespace Fractonica.Store

open Lib Trust DataModel Peer List

section Admission

variable {P : Platform} {db db' db'' : Database}

-- What is admitted later was there before, or is behind everything that ever was:
-- a number or a time is not given back with a deleted space.
structure Advances (P : Platform) (db db' : Database) : Prop where
  last : db.tables.lastSequence ≤ db'.tables.lastSequence
  clock : db.admissionClock.toInt ≤ db'.admissionClock.toInt
  operations : ∀ a ∈ admitted P db'.tables, a ∈ admitted P db.tables ∨
    db.tables.lastSequence < a.localSequence ∧
      db.admissionClock.toInt ≤ a.receivedAtUnixMs.toInt

theorem Advances.trans (h : Advances P db db') (h' : Advances P db' db'') :
    Advances P db db'' where
  last := h.last.trans h'.last
  clock := h.clock.trans h'.clock
  operations a ha := by
    rcases h'.operations a ha with hold | ⟨hnumber, htime⟩
    · exact h.operations a hold
    · exact .inr ⟨h.last.trans_lt hnumber, h.clock.trans htime⟩

-- The times of admission follow the sequence, up to the clock.
structure Timely (P : Platform) (db : Database) : Prop where
  ordered : (admitted P db.tables).Pairwise fun a b =>
    a.receivedAtUnixMs.toInt ≤ b.receivedAtUnixMs.toInt
  past : ∀ a ∈ admitted P db.tables, a.receivedAtUnixMs.toInt ≤ db.admissionClock.toInt

-- A step keeps a part of the log and appends what it admits at its own time.
theorem Timely.append (h : Timely P db) {kept new : Log}
    (hlog : admitted P db'.tables = kept ++ new) (hkept : kept.Sublist (admitted P db.tables))
    (hlast : db.tables.lastSequence ≤ db'.tables.lastSequence)
    (hclock : db.admissionClock.toInt ≤ db'.admissionClock.toInt)
    (hnew : ∀ a ∈ new, db.tables.lastSequence < a.localSequence ∧
      a.receivedAtUnixMs = db'.admissionClock) : Timely P db' ∧ Advances P db db' := by
  have hold : ∀ a ∈ kept, a.receivedAtUnixMs.toInt ≤ db'.admissionClock.toInt := fun a ha =>
    (h.past a (hkept.subset ha)).trans hclock
  have htime : ∀ a ∈ new, a.receivedAtUnixMs.toInt = db'.admissionClock.toInt := fun a ha => by
    rw [(hnew a ha).2]
  refine ⟨⟨?_, ?_⟩, hlast, hclock, ?_⟩
  · rw [hlog, pairwise_append]
    refine ⟨h.ordered.sublist hkept, pairwise_iff_forall_sublist.mpr fun {a b} hab => ?_,
      fun a ha b hb => ?_⟩
    · rw [htime a (hab.subset mem_cons_self), htime b (hab.subset (by simp))]
    · rw [htime b hb]
      exact hold a ha
  · rw [hlog, forall_mem_append]
    exact ⟨hold, fun a ha => (htime a ha).le⟩
  · rw [hlog, forall_mem_append]
    exact ⟨fun a ha => .inl (hkept.subset ha), fun a ha =>
      .inr ⟨(hnew a ha).1, hclock.trans_eq (htime a ha).symm⟩⟩

theorem Timely.step (h : Timely P db) (hsound : Sound P db) (hstep : Step P db db') :
    Timely P db' ∧ Advances P db db' := by
  cases transition_of_step hstep with
  | idle later =>
    exact h.append (append_nil _).symm (.refl _) le_rfl later (forall_mem_nil _)
  | insert later verified notGenesis valid insertable =>
    refine h.append (admitted_insert hsound verified valid insertable) (.refl _)
      (Nat.le_succ _) later ?_
    exact forall_mem_singleton.mpr ⟨Nat.lt_succ_self _, rfl⟩
  | create later valid creation =>
    have hlog := admitted_create hsound valid creation
    rw [append_assoc] at hlog
    have hlast := creation.tables
    rw [creation.grantStored] at hlast
    refine h.append hlog (.refl _) ?_ later ?_
    · rw [hlast]
      exact Nat.le_add_right _ 2
    · simp [creation.genesisStored, creation.grantStored]
  | delete spaceId =>
    have hlog : admitted P (db.tables.withoutSpace spaceId) =
        (admitted P db.tables).without spaceId := hsound.consistent.coherent.without.admitted_eq
    exact h.append (hlog.trans (append_nil _).symm) filter_sublist le_rfl le_rfl
      (forall_mem_nil _)

theorem Timely.steps (h : Timely P db) (hreachable : Reachable P db)
    (hsteps : Relation.ReflTransGen (Step P) db db') : Timely P db' ∧ Advances P db db' := by
  induction hsteps with
  | refl => exact ⟨h, le_rfl, le_rfl, fun a ha => .inl ha⟩
  | tail hrun hstep ih =>
    obtain ⟨htimely, hmore⟩ := ih.1.step (Reachable.sound (hreachable.trans hrun)) hstep
    exact ⟨htimely, ih.2.trans hmore⟩

end Admission

-- Whatever times the requests carry, the log is in the order of admission, and what
-- a later state adds has numbers and times that were never used before.
theorem admission_order_final (P : Platform) (db db' : Database) (h : Reachable P db)
    (hlater : Relation.ReflTransGen (Step P) db db') :
    ((admitted P db'.tables).Pairwise fun a b => a.localSequence < b.localSequence ∧
      a.receivedAtUnixMs.toInt ≤ b.receivedAtUnixMs.toInt) ∧
    (∀ a ∈ admitted P db'.tables, a.receivedAtUnixMs.toInt ≤ db'.admissionClock.toInt) ∧
    Advances P db db' := by
  have hempty : Timely P Database.empty := ⟨.nil, forall_mem_nil _⟩
  obtain ⟨htimely, hmore⟩ := (hempty.steps .refl h).1.steps h hlater
  have hsequences := (Reachable.sound (h.trans hlater)).consistent.coherent.causal.sequences
  exact ⟨hsequences.and htimely.ordered, htimely.past, hmore⟩

open Sample (created peerPlatform peerSupports)

theorem admission_order_created :
    Reachable peerPlatform.toPlatform (created peerPlatform.toPlatform) ∧
      Advances peerPlatform.toPlatform .empty (created peerPlatform.toPlatform) :=
  ⟨Sample.reachable_created peerSupports,
    (admission_order_final _ _ _ .refl (Sample.reachable_created peerSupports)).2.2⟩

section Nonces

variable {P : PeerPlatform} {session : PeerSessionId} {now time : Int64}

theorem NonceTable.active_antitone {nonces : NonceTable} (h : time.toInt ≤ now.toInt) :
    nonces.active session now ≤ nonces.active session time := by
  refine (monotone_filter_right _ fun row hrow => ?_).length_le
  simp only [Bool.and_eq_true, decide_eq_true_eq] at hrow ⊢
  exact ⟨hrow.1, h.trans_lt hrow.2⟩

theorem AcceptedRead.active_le {node : Node} {request : PeerReadChangesRequest}
    {nonces : NonceTable} {page : OperationChangePage} (h : AcceptedRead P node request nonces page)
    (hnow : request.receivedAtUnixMs.toInt ≤ now.toInt)
    (hbefore : node.peerRequestNonces.active session now ≤ MAX_ACTIVE_PEER_NONCES_PER_SESSION) :
    nonces.active session now ≤ MAX_ACTIVE_PEER_NONCES_PER_SESSION := by
  have hkept : (node.peerRequestNonces.clean request.receivedAtUnixMs).active session now ≤ _ :=
    (filter_sublist.filter _).length_le.trans hbefore
  have hroom := (NonceTable.active_antitone hnow).trans_lt h.room
  unfold NonceTable.active at hkept hroom ⊢
  rw [h.nonces, filter_append, length_append]
  -- Only the session of the request gets one more row.
  by_cases hsession : session = request.proof.sessionId
  · subst hsession
    have hone := length_filter_le (fun row : NonceRow =>
      row.invitationId = request.proof.sessionId && now.toInt < row.expiresAtUnixMs.toInt)
      [nonceRow request]
    rw [length_singleton] at hone
    omega
  · have hnone : (nonceRow request).invitationId ≠ session := fun hsame => hsession hsame.symm
    rw [filter_cons_of_neg (by simp [hnone]), filter_nil]
    exact hkept

end Nonces

-- If the samples of the clock do not go back, no session ever holds more nonces than
-- the limit.
theorem peer_nonces_bounded (P : PeerPlatform) (accepted : List PeerReadChangesRequest)
    (node : Node) (h : NodeRun P .empty accepted node)
    (hsorted : accepted.Pairwise fun a b => a.receivedAtUnixMs.toInt ≤ b.receivedAtUnixMs.toInt)
    (session : PeerSessionId) (now : Int64)
    (hnow : ∀ request ∈ accepted, request.receivedAtUnixMs.toInt ≤ now.toInt) :
    node.peerRequestNonces.active session now ≤ MAX_ACTIVE_PEER_NONCES_PER_SESSION := by
  induction h with
  | refl => exact Nat.zero_le _
  | step run step ih => cases step <;> exact ih hsorted hnow
  | refused run request hrefused ih =>
    rw [peerChanges_refused hrefused]
    exact ih hsorted hnow
  | accepted run request hok ih =>
    obtain ⟨nonces, page, hread, heq⟩ := peerChanges_isOk hok
    rw [forall_mem_append, forall_mem_singleton] at hnow
    rw [heq]
    exact hread.active_le hnow.2 (ih (pairwise_append.mp hsorted).1 hnow.1)

theorem peer_nonces_bounded_pair :
    NodeRun peerPlatform .empty [Sample.firstRead.at_ 1720000000123,
        Sample.secondRead.at_ 1720000001123] (Sample.paired Sample.secondNonces) ∧
      (Sample.paired Sample.secondNonces).peerRequestNonces.active ⟨FixedBytes.replicate 16 7⟩
        1720000001123 ≤ MAX_ACTIVE_PEER_NONCES_PER_SESSION :=
  ⟨Sample.run_reads, peer_nonces_bounded _ _ _ Sample.run_reads (by decide) _ _
    (by decide : ∀ request ∈ _, _ ≤ (1720000001123 : Int64).toInt)⟩

end Fractonica.Store
