import Fractonica.Store.Sessions

namespace Fractonica.Store

open Lib Trust DataModel Pairing List

section Lookup

variable {sessions : List PairingSession} {id : InvitationId} {row : PairingSession}

theorem session?_eq_some (h : session? sessions id = some row) :
    row ∈ sessions ∧ row.invitationId = id :=
  ⟨mem_of_find?_eq_some h, of_decide_eq_true (find?_some h :)⟩

theorem session?_of_mem (hnames : (sessions.map PairingSession.invitationId).Nodup)
    (hrow : row ∈ sessions) : session? sessions row.invitationId = some row :=
  Table.find?_key hnames hrow

theorem session?_map (hf : ∀ row ∈ sessions, (f row).invitationId = row.invitationId) :
    session? (sessions.map f) id = (session? sessions id).map f := by
  induction sessions with
  | nil => rfl
  | cons first rest ih =>
    have hrest : ∀ row ∈ rest, (f row).invitationId = row.invitationId :=
      fun other hother => hf other (mem_cons_of_mem _ hother)
    simp only [session?, find?_cons, map_cons, hf first mem_cons_self]
    split
    · rfl
    · exact ih hrest

theorem map_invitationId (hf : ∀ row, (f row).invitationId = row.invitationId) :
    (sessions.map f).map PairingSession.invitationId =
      sessions.map PairingSession.invitationId := by
  rw [map_map]
  exact map_congr_left fun row _ => hf row

-- The table with another row in place of the one with its name.
def replaceSession (sessions : List PairingSession) (row : PairingSession) :
    List PairingSession :=
  sessions.map fun other => if other.invitationId = row.invitationId then row else other

theorem replaceSession_name (row other : PairingSession) :
    (if other.invitationId = row.invitationId then row else other).invitationId =
      other.invitationId := by
  split_ifs with h
  · exact h.symm
  · rfl

theorem names_replaceSession :
    (replaceSession sessions row).map PairingSession.invitationId =
      sessions.map PairingSession.invitationId :=
  map_invitationId (replaceSession_name row)

theorem mem_replaceSession (h : other ∈ replaceSession sessions row) :
    other = row ∨ other ∈ sessions := by
  obtain ⟨old, hold, rfl⟩ := mem_map.mp h
  split_ifs
  · exact .inl rfl
  · exact .inr hold

theorem session?_replaceSession (h : session? sessions id = some old) :
    session? (replaceSession sessions row) id =
      if id = row.invitationId then some row else some old := by
  rw [replaceSession, session?_map fun other _ => replaceSession_name row other, h, Option.map_some,
    (session?_eq_some h).2]
  split_ifs <;> rfl

theorem session?_replaced (h : session? sessions id = some old)
    (hname : row.invitationId = old.invitationId) :
    session? (replaceSession sessions row) id = some row := by
  rw [session?_replaceSession h, if_pos]
  exact (hname.trans (session?_eq_some h).2).symm

end Lookup

section Updates

variable {P : PeerPlatform} {sessions : List PairingSession} {id : InvitationId}
  {selects : PairingSession → Bool} {set : PairingSession → PairingSession}
  {session : PairingSession} {row : PairingSession}

-- What the table promises of itself.
structure WellKept (P : PeerPlatform) (sessions : List PairingSession) : Prop where
  names : (sessions.map PairingSession.invitationId).Nodup
  checks : ∀ row ∈ sessions, row.checks P.toPlatform = true

theorem WellKept.replace (h : WellKept P sessions)
    (hchecks : row.checks P.toPlatform = true) : WellKept P (replaceSession sessions row) where
  names := by
    rw [names_replaceSession]
    exact h.names
  checks other hother := by
    rcases mem_replaceSession hother with rfl | hother
    · exact hchecks
    · exact h.checks other hother

theorem updateSessions_eq_ok :
    updateSessions P sessions selects set = .ok (sessions', changed) ↔
      sessions' = sessions.map (fun row => if selects row then set row else row) ∧
        (∀ row ∈ sessions', row.checks P.toPlatform = true) ∧
        changed = (sessions.filter selects).length := by
  simp only [updateSessions, bind_eq_ok, require_eq_ok, all_eq_true, Except.ok.injEq,
    Prod.mk.injEq, exists_unit]
  constructor
  · rintro ⟨hchecks, rfl, rfl⟩
    exact ⟨rfl, hchecks, rfl⟩
  · rintro ⟨rfl, hchecks, rfl⟩
    exact ⟨hchecks, rfl, rfl⟩

-- Only the row with the name is selected, so it is the row that is replaced.
theorem WellKept.map_eq_replaceSession (h : WellKept P sessions)
    (hfound : session? sessions id = some row) (hselects : selects row = true)
    (hset : (set row).invitationId = id) :
    sessions.map (fun other =>
        if (decide (other.invitationId = id) && selects other) = true then set other else other) =
      replaceSession sessions (set row) := by
  apply map_congr_left
  intro other hother
  by_cases hname : other.invitationId = id
  · have hsame := session?_of_mem h.names hother
    rw [hname, hfound, Option.some.injEq] at hsame
    rw [← hsame, hset, if_pos (session?_eq_some hfound).2, if_pos]
    rw [Bool.and_eq_true, decide_eq_true_eq]
    exact ⟨(session?_eq_some hfound).2, hselects⟩
  · rw [hset, if_neg hname, if_neg]
    rw [Bool.and_eq_true, decide_eq_true_eq]
    exact fun hboth => hname hboth.1

theorem WellKept.filter_eq_singleton (h : WellKept P sessions)
    (hfound : session? sessions id = some row) (hselects : selects row = true) :
    (sessions.filter fun other => decide (other.invitationId = id) && selects other) = [row] := by
  have hname := (session?_eq_some hfound).2
  have hnodup : sessions.Nodup := h.names.of_map
  have hmem : ∀ other, other ∈ sessions.filter
      (fun other => decide (other.invitationId = id) && selects other) ↔ other = row := by
    intro other
    rw [mem_filter, Bool.and_eq_true, decide_eq_true_eq]
    constructor
    · rintro ⟨hother, hsame, -⟩
      have hunique := session?_of_mem h.names hother
      rw [hsame, hfound, Option.some.injEq] at hunique
      exact hunique.symm
    · rintro rfl
      exact ⟨(session?_eq_some hfound).1, hname, hselects⟩
  exact perm_singleton.mp
    ((perm_ext_iff_of_nodup (hnodup.filter _) (nodup_singleton row)).mpr
      fun other => (hmem other).trans mem_singleton.symm)

-- A transition replaces the row it selects.
theorem WellKept.transition_eq_ok (h : WellKept P sessions)
    (hset : ∀ row, (set row).invitationId = row.invitationId) :
    transition P sessions id selects set = .ok (sessions', session) ↔
      ∃ row, session? sessions id = some row ∧ selects row = true ∧
        (set row).checks P.toPlatform = true ∧ session = set row ∧
        sessions' = replaceSession sessions (set row) := by
  simp only [transition, bind_eq_ok, Prod.exists, updateSessions_eq_ok, require_eq_ok,
    decide_eq_true_eq, okOr_eq_ok, Except.ok.injEq, Prod.mk.injEq]
  constructor
  · rintro ⟨_, changed, ⟨rfl, hchecks, rfl⟩, _, hchanged, _, hsession, rfl, rfl⟩
    obtain ⟨row, hrow⟩ := length_eq_one_iff.mp hchanged
    have hmem : row ∈ sessions.filter
        (fun other => decide (other.invitationId = id) && selects other) := by
      rw [hrow]
      exact mem_singleton_self row
    rw [mem_filter, Bool.and_eq_true, decide_eq_true_eq] at hmem
    obtain ⟨hmem, rfl, hselects⟩ := hmem
    have hfound := session?_of_mem h.names hmem
    have hreplaced := h.map_eq_replaceSession hfound hselects (hset row)
    rw [hreplaced] at hchecks hsession ⊢
    rw [session?_replaceSession hfound, if_pos (hset row).symm, Option.some.injEq] at hsession
    refine ⟨row, hfound, hselects, hchecks _ ?_, hsession.symm, rfl⟩
    refine mem_map.mpr ⟨row, hmem, ?_⟩
    rw [if_pos (hset row).symm]
  · rintro ⟨row, hfound, hselects, hchecks, rfl, rfl⟩
    have hname := (session?_eq_some hfound).2
    have hset' : (set row).invitationId = id := (hset row).trans hname
    refine ⟨_, _, ⟨(h.map_eq_replaceSession hfound hselects hset').symm,
      (h.replace hchecks).checks, rfl⟩, (), ?_, _, ?_, rfl, rfl⟩
    · rw [h.filter_eq_singleton hfound hselects]
      rfl
    · rw [session?_replaceSession hfound, if_pos hset'.symm]

end Updates

section Rows

-- The columns that a claim writes, and those that a plan does.
structure ClaimColumns where
  claimedAtUnixMs : Option Int64
  claimedExpiresAtUnixMs : Option Int64
  claimDigest : Option (FixedBytes 32)
  handshakeHash : Option (FixedBytes 32)
  joinerNodeId : Option NodeId
  subjectActorId : Option ActorId
  peerTokenDigest : Option (FixedBytes 32)
  firstFrameDigest : Option (FixedBytes 32)
  responseFrame : Option (List UInt8)
  receiptFrame : Option (List UInt8)

def PairingSession.claimColumns (row : PairingSession) : ClaimColumns :=
  ⟨row.claimedAtUnixMs, row.claimedExpiresAtUnixMs, row.claimDigest, row.handshakeHash,
    row.joinerNodeId, row.subjectActorId, row.peerTokenDigest, row.firstFrameDigest,
    row.responseFrame, row.receiptFrame⟩

structure PlanColumns where
  plannedGrantOperationId : Option OperationId
  plannedGrant : Option OperationEnvelope
  grantPlannedAtUnixMs : Option Int64

def PairingSession.planColumns (row : PairingSession) : PlanColumns :=
  ⟨row.plannedGrantOperationId, row.plannedGrant, row.grantPlannedAtUnixMs⟩

-- How a row may change in the course of time: a claim and a plan are made once,
-- and a row in a final state only notes when the peer was seen.
structure Evolves (row row' : PairingSession) : Prop where
  invitationId : row'.invitationId = row.invitationId
  descriptor : row'.descriptor = row.descriptor
  createdAt : row'.createdAtUnixMs = row.createdAtUnixMs
  claim : row.claimedAtUnixMs.isSome = true → row'.claimColumns = row.claimColumns
  plan : row.plannedGrant.isSome = true → row'.planColumns = row.planColumns
  terminal : row.isTerminal = true →
    row' = { row with lastSeenAtUnixMs := row'.lastSeenAtUnixMs }

theorem Evolves.refl (row : PairingSession) : Evolves row row :=
  ⟨rfl, rfl, rfl, fun _ => rfl, fun _ => rfl, fun _ => rfl⟩

theorem Evolves.trans (h : Evolves first second)
    (h' : Evolves second third) : Evolves first third where
  invitationId := h'.invitationId.trans h.invitationId
  descriptor := h'.descriptor.trans h.descriptor
  createdAt := h'.createdAt.trans h.createdAt
  claim hclaimed := by
    have hsame := h.claim hclaimed
    have hat : second.claimedAtUnixMs = first.claimedAtUnixMs :=
      congrArg ClaimColumns.claimedAtUnixMs hsame
    exact (h'.claim (hat ▸ hclaimed)).trans hsame
  plan hplanned := by
    have hsame := h.plan hplanned
    have hgrant : second.plannedGrant = first.plannedGrant :=
      congrArg PlanColumns.plannedGrant hsame
    exact (h'.plan (hgrant ▸ hplanned)).trans hsame
  terminal hterminal := by
    have hsame := h.terminal hterminal
    have hsecond : second.isTerminal = true := by
      rw [hsame]
      exact hterminal
    rw [h'.terminal hsecond, hsame]

variable {P : PeerPlatform} {row : PairingSession} {now : Int64} {operation : OperationEnvelope}
  {grant : OperationId}

-- The CHECKs one by one.
@[mk_iff] structure Checked (P : Platform) (row : PairingSession) : Prop where
  descriptor : PairingSession.isDescriptor row.descriptor = true
  expires : 0 ≤ row.descriptor.expiresAtUnixMs.toInt
  created : 0 ≤ row.createdAtUnixMs.toInt
  lifetime : row.createdAtUnixMs.toInt < row.descriptor.expiresAtUnixMs.toInt
  claim : (decide (row.state = .created) && row.isUnclaimed ||
    (decide (row.state = .claimed) || decide (row.state = .confirmed) ||
      decide (row.state = .completed)) && row.isClaimed ||
    decide (row.state = .cancelled) || decide (row.state = .expired)) = true
  confirmed : (decide (row.state = .confirmed) || decide (row.state = .completed)) =
    row.confirmedAtUnixMs.isSome
  deadline : row.claimedExpiresAtUnixMs.all
    (·.toInt ≤ row.descriptor.expiresAtUnixMs.toInt) = true
  completed : decide (row.state = .completed) = row.completedAtUnixMs.isSome
  granted : decide (row.state = .completed) = row.grantOperationId.isSome
  planned : row.plannedGrantOperationId.isNone = row.plannedGrant.isNone
  plannedAt : row.plannedGrantOperationId.isNone = row.grantPlannedAtUnixMs.isNone
  grant : (decide (row.state ≠ .completed) || row.grantOperationId.all fun grant =>
    row.plannedGrantOperationId.all fun planned => grant = planned) = true
  terminal : row.isTerminal = row.terminalAtUnixMs.isSome
  plan : row.plannedGrant.all (PairingSession.isPlan P) = true
  seen : row.lastSeenAtUnixMs.all (0 ≤ ·.toInt) = true
  response : row.responseFrame.all PairingSession.isFrame = true
  receipt : row.receiptFrame.all PairingSession.isFrame = true

theorem checks_iff {P : Platform} : row.checks P = true ↔ Checked P row := by
  simp [PairingSession.checks, Bool.and_eq_true (_ && _),
    Bool.and_eq_true (PairingSession.isDescriptor _), checked_iff, and_assoc]

theorem Checked.unclaimed {P : Platform} (h : Checked P row) (hstate : row.state = .created) :
    row.isUnclaimed = true := by
  simpa [hstate] using h.claim

theorem Checked.isClaimed {P : Platform} (h : Checked P row)
    (hstate : row.state = .claimed ∨ row.state = .confirmed ∨ row.state = .completed) :
    row.isClaimed = true := by
  have hclaim := h.claim
  rcases hstate with hstate | hstate | hstate <;> simpa [hstate] using hclaim

theorem claimedAt_of_isUnclaimed (h : row.isUnclaimed = true) :
    row.claimedAtUnixMs = none ∧ row.subjectActorId = none ∧ row.handshakeHash = none := by
  simp only [PairingSession.isUnclaimed, Bool.and_eq_true, Option.isNone_iff_eq_none] at h
  exact ⟨h.1.1.1.1.1, h.2, h.1.1.2⟩

theorem claimedAt_of_isClaimed (h : row.isClaimed = true) : row.claimedAtUnixMs.isSome = true := by
  simp only [PairingSession.isClaimed, Bool.and_eq_true] at h
  exact h.1.1.1.1.1

theorem claimDeadline_le (hexpires : 0 ≤ expires.toInt)
    (hnow : 0 ≤ now.toInt) : (claimDeadline expires now).toInt ≤ expires.toInt := by
  have hlt := expires.toInt_lt
  rw [claimDeadline, Int64.toInt_ofInt_of_le (by omega) (by omega)]
  omega

theorem Checked.claim_created {P : Platform} (h : Checked P row) (hstate : row.state = .created)
    {arguments : ClaimArguments} (hresponse : PairingSession.isFrame arguments.responseFrame = true)
    (hreceipt : PairingSession.isFrame arguments.receiptFrame = true)
    (hnow : 0 ≤ now.toInt) : Checked P (row.claim P.toPrimitives arguments now) := by
  have hconfirmed := h.confirmed
  have hcompleted := h.completed
  have hgranted := h.granted
  have hterminal := h.terminal
  simp only [hstate, PairingSession.isTerminal, reduceCtorEq, decide_false, Bool.or_false]
    at hconfirmed hcompleted hgranted hterminal
  exact { h with
    claim := rfl
    confirmed := hconfirmed
    deadline := decide_eq_true (claimDeadline_le h.expires hnow)
    completed := hcompleted
    granted := hgranted
    grant := rfl
    terminal := hterminal
    response := hresponse
    receipt := hreceipt }

theorem awaitsGrant_iff :
    row.awaitsGrant = true ↔ row.state = .claimed ∨ row.state = .confirmed := by
  simp [PairingSession.awaitsGrant]

theorem Checked.plan_awaited {P : Platform} (h : Checked P row) (hstate : row.awaitsGrant = true)
    (hplan : PairingSession.isPlan P operation = true)
    (now : Int64) : Checked P (row.plan operation now) := by
  exact { h with
    planned := rfl
    plannedAt := rfl
    grant := by
      change (decide (row.state ≠ .completed) || _) = true
      rcases awaitsGrant_iff.mp hstate with hstate | hstate <;> simp [hstate]
    plan := by
      change (some operation).all (PairingSession.isPlan P) = true
      rw [Option.all_some]
      exact hplan }

theorem Checked.confirm {P : Platform} (h : Checked P row) (hstate : row.state = .claimed)
    (now : Int64) : Checked P (row.confirm now) := by
  have hclaimed := h.isClaimed (.inl hstate)
  have hcompleted := h.completed
  have hgranted := h.granted
  have hterminal := h.terminal
  simp only [hstate, PairingSession.isTerminal, reduceCtorEq, decide_false, Bool.or_false]
    at hcompleted hgranted hterminal
  exact { h with
    claim := by
      change (_ || (_ || decide (PairingState.confirmed = .confirmed) || _) && row.isClaimed ||
        _ || _) = true
      simp [hclaimed]
    confirmed := rfl
    completed := hcompleted
    granted := hgranted
    grant := rfl
    terminal := hterminal }

theorem Checked.complete {P : Platform} (h : Checked P row) (hstate : row.state = .confirmed)
    (hplanned : row.plannedGrantOperationId = some grant) (now : Int64) :
    Checked P (row.complete grant now) := by
  have hclaimed := h.isClaimed (.inr (.inl hstate))
  have hconfirmed := h.confirmed
  simp only [hstate, decide_true, Bool.true_or] at hconfirmed
  exact { h with
    claim := by
      change (_ || (_ || _ || decide (PairingState.completed = .completed)) && row.isClaimed ||
        _ || _) = true
      simp [hclaimed]
    confirmed := hconfirmed
    completed := rfl
    granted := rfl
    grant := by
      change (_ || (row.plannedGrantOperationId.all fun planned => decide (grant = planned))) =
        true
      simp [hplanned]
    terminal := rfl }

-- The statements that neither plan a grant nor complete a session.
inductive QuietStep (P : PeerPlatform) (row : PairingSession) : PairingSession → Prop
  | claim {arguments : ClaimArguments} {now : Int64} (state : row.state = .created) :
      QuietStep P row (row.claim P.toPrimitives arguments now)
  | confirm {now : Int64} (state : row.state = .claimed) : QuietStep P row (row.confirm now)
  | cancel {now : Int64} (state : row.state = .created ∨ row.state = .claimed) :
      QuietStep P row (row.cancel now)
  | expire {now : Int64} (state : row.state = .created ∨ row.state = .claimed) :
      QuietStep P row (row.expire now)
  | touch {now : Int64} (state : row.state = .completed) : QuietStep P row (row.touch now)

-- A step that starts in no final state has only the claim and the plan to keep.
theorem evolves_of_open (hname : row'.invitationId = row.invitationId)
    (hdescriptor : row'.descriptor = row.descriptor)
    (hcreated : row'.createdAtUnixMs = row.createdAtUnixMs)
    (hclaim : row.claimedAtUnixMs.isSome = true → row'.claimColumns = row.claimColumns)
    (hplan : row.plannedGrant.isSome = true → row'.planColumns = row.planColumns)
    (hopen : row.isTerminal = false) : Evolves row row' := by
  refine ⟨hname, hdescriptor, hcreated, hclaim, hplan, ?_⟩
  intro hterminal
  rw [hopen] at hterminal
  cases hterminal

theorem QuietStep.evolves (h : QuietStep P row row') (hchecked : Checked P.toPlatform row) :
    Evolves row row' := by
  cases h with
  | claim state =>
    refine evolves_of_open rfl rfl rfl ?_ (fun _ => rfl)
      (by simp [PairingSession.isTerminal, state])
    intro hclaimed
    rw [(claimedAt_of_isUnclaimed (hchecked.unclaimed state)).1] at hclaimed
    cases hclaimed
  | confirm state =>
    exact evolves_of_open rfl rfl rfl (fun _ => rfl) (fun _ => rfl)
      (by simp [PairingSession.isTerminal, state])
  | cancel state | expire state =>
    refine evolves_of_open rfl rfl rfl (fun _ => rfl) (fun _ => rfl) ?_
    rcases state with state | state <;> simp [PairingSession.isTerminal, state]
  | touch state => exact ⟨rfl, rfl, rfl, fun _ => rfl, fun _ => rfl, fun _ => rfl⟩

theorem evolves_plan (hstate : row.awaitsGrant = true) (hplanned : row.plannedGrant = none) :
    Evolves row (row.plan operation now) := by
  refine evolves_of_open rfl rfl rfl (fun _ => rfl) ?_ ?_
  · rw [hplanned]
    intro hsome
    cases hsome
  · rcases awaitsGrant_iff.mp hstate with hstate | hstate <;>
      simp [PairingSession.isTerminal, hstate]

theorem evolves_complete (hstate : row.state = .confirmed) : Evolves row (row.complete grant now) :=
  evolves_of_open rfl rfl rfl (fun _ => rfl) (fun _ => rfl)
    (by simp [PairingSession.isTerminal, hstate])

end Rows

theorem settle_ok {value : α} (h : result = .ok (sessions', value)) :
    settle sessions result = (sessions', .ok value) := by
  rw [h]
  rfl

theorem settle_snd_eq_ok {value : α} (h : (settle sessions result).2 = .ok value) :
    result = .ok ((settle sessions result).1, value) := by
  cases result with
  | error error => cases h
  | ok result =>
    obtain rfl := Except.ok.inj h
    rfl

-- A statement that fails leaves the rows as they are.
theorem settle_cases {motive : List PairingSession → Prop}
    {result : Except PairingStoreError (List PairingSession × α)} (hsame : motive sessions)
    (hok : ∀ sessions' value, result = .ok (sessions', value) → motive sessions') :
    motive (settle sessions result).1 := by
  cases result with
  | error error => exact hsame
  | ok result => exact hok result.1 result.2 rfl

section Outcomes

variable {id : InvitationId} {session : PairingSession} {now : Int64} {grant : CapabilityGrant}
  {arguments : ClaimArguments} {operation : OperationEnvelope}

theorem WellKept.confirm_eq_ok (h : WellKept P sessions) {hash : FixedBytes 32} :
    confirmPairingSession P sessions id hash now = .ok (sessions', session) ↔
      0 ≤ now.toInt ∧ ∃ row, session? sessions id = some row ∧ row.state = .claimed ∧
        row.handshakeHash = some hash ∧ (row.confirm now).checks P.toPlatform = true ∧
        session = row.confirm now ∧ sessions' = replaceSession sessions (row.confirm now) := by
  have hname : ∀ row, (PairingSession.confirm now row).invitationId = row.invitationId :=
    fun _ => rfl
  simp [confirmPairingSession, require_bind_eq_ok, h.transition_eq_ok hname, and_assoc]

theorem WellKept.complete_eq_ok (h : WellKept P sessions) {grant : OperationId} :
    completePairingSession P sessions grants id grant now = .ok (sessions', session) ↔
      0 ≤ now.toInt ∧ ∃ row, session? sessions id = some row ∧ row.state = .confirmed ∧
        row.plannedGrantOperationId = some grant ∧
        (∃ admitted ∈ grants, admitted.spaceId = row.descriptor.spaceId ∧
          admitted.grantOperationId = grant ∧
          row.subjectActorId = some admitted.subjectActorId) ∧
        (row.complete grant now).checks P.toPlatform = true ∧ session = row.complete grant now ∧
        sessions' = replaceSession sessions (row.complete grant now) := by
  have hname : ∀ row, (PairingSession.complete grant now row).invitationId = row.invitationId :=
    fun _ => rfl
  simp [completePairingSession, require_bind_eq_ok, h.transition_eq_ok hname, and_assoc]

theorem WellKept.cancel_eq_ok (h : WellKept P sessions) :
    cancelPairingSession P sessions id now = .ok (sessions', session) ↔
      0 ≤ now.toInt ∧ ∃ row, session? sessions id = some row ∧
        (row.state = .created ∨ row.state = .claimed) ∧
        (row.cancel now).checks P.toPlatform = true ∧ session = row.cancel now ∧
        sessions' = replaceSession sessions (row.cancel now) := by
  have hname : ∀ row, (PairingSession.cancel now row).invitationId = row.invitationId :=
    fun _ => rfl
  simp [cancelPairingSession, require_bind_eq_ok, h.transition_eq_ok hname]

theorem validateClaim_eq_ok (h : validateClaim P sessions arguments now = .ok current) :
    arguments.claim.verifyFor P.toSignaturePrimitives arguments.descriptor = .ok () ∧
      0 ≤ now.toInt ∧ session? sessions arguments.descriptor.invitationId = some current ∧
      current.descriptor = arguments.descriptor := by
  simp only [validateClaim, bind_eq_ok, mapError_eq_ok, require_eq_ok, okOr_eq_ok,
    Bool.and_eq_true, decide_eq_true_eq, Except.ok.injEq] at h
  obtain ⟨_, hverified, _, hchecks, current, hfound, _, hdescriptor, rfl⟩ := h
  exact ⟨hverified, hchecks.1.1.1.1, hfound, hdescriptor⟩

-- A claim wins the session once, and before the invitation expires.
theorem WellKept.claim_eq_ok (h : WellKept P sessions)
    (hclaim : claimPairingSession P sessions arguments now = (sessions', .ok session)) :
    now.toInt < arguments.descriptor.expiresAtUnixMs.toInt ∧
      ∃ row, session? sessions arguments.descriptor.invitationId = some row ∧
        row.state = .created ∧ row.descriptor = arguments.descriptor ∧
        session = row.claim P.toPrimitives arguments now ∧
        session.checks P.toPlatform = true ∧ sessions' = replaceSession sessions session := by
  have hname : ∀ row, (PairingSession.claim P.toPrimitives arguments now row).invitationId =
      row.invitationId := fun _ => rfl
  simp only [claimPairingSession] at hclaim
  cases hvalid : validateClaim P sessions arguments now with
  | error error => simp [hvalid] at hclaim
  | ok current =>
    obtain ⟨-, -, hfound, hdescriptor⟩ := validateClaim_eq_ok hvalid
    simp only [hvalid] at hclaim
    split_ifs at hclaim with hlate hstate
    · simp only [expireUnclaimed] at hclaim
      cases hupdate : updateSessions P sessions (fun row =>
          decide (row.invitationId = arguments.descriptor.invitationId) &&
            decide (row.state = .created)) (PairingSession.expire now) with
      | error error => simp [hupdate] at hclaim
      | ok updated => simp [hupdate] at hclaim
    · simp at hclaim
    · refine ⟨lt_of_not_ge hlate, ?_⟩
      cases htransition : transition P sessions arguments.descriptor.invitationId
          (fun row => decide (row.state = .created))
          (PairingSession.claim P.toPrimitives arguments now) with
      | error error => simp [htransition, settle] at hclaim
      | ok result =>
        obtain ⟨updated, claimed⟩ := result
        obtain ⟨row, hrow, hcreated, hchecks, rfl, rfl⟩ :=
          (h.transition_eq_ok hname).mp htransition
        simp only [htransition, settle, Prod.mk.injEq, Except.ok.injEq] at hclaim
        obtain ⟨rfl, rfl⟩ := hclaim
        rw [hrow, Option.some.injEq] at hfound
        subst hfound
        exact ⟨row, hrow, of_decide_eq_true hcreated, hdescriptor, rfl, hchecks, rfl⟩

-- The claim on a session that is open, in time.
theorem WellKept.claims (h : WellKept P sessions)
    (hverified : arguments.claim.verifyFor P.toSignaturePrimitives arguments.descriptor = .ok ())
    (hrow : session? sessions arguments.descriptor.invitationId = some row)
    (hstate : row.state = .created) (hdescriptor : row.descriptor = arguments.descriptor)
    (hhash : arguments.handshakeHash ≠ FixedBytes.replicate 32 0)
    (htoken : arguments.peerTokenDigest ≠ FixedBytes.replicate 32 0)
    (hresponse : PairingSession.isFrame arguments.responseFrame = true)
    (hreceipt : PairingSession.isFrame arguments.receiptFrame = true) (hnow : 0 ≤ now.toInt)
    (htime : now.toInt < arguments.descriptor.expiresAtUnixMs.toInt) :
    claimPairingSession P sessions arguments now =
      (replaceSession sessions (row.claim P.toPrimitives arguments now),
        .ok (row.claim P.toPrimitives arguments now)) := by
  have hvalid : validateClaim P sessions arguments now = .ok row := by
    simp only [validateClaim, hverified, Except.mapError, ok_bind, decide_eq_true hnow,
      decide_eq_true hhash, decide_eq_true htoken, hresponse, hreceipt, Bool.and_self, require,
      if_true, hrow, okOr, decide_eq_true hdescriptor]
  have hchecked := checks_iff.mp (h.checks row (session?_eq_some hrow).1)
  have hname : ∀ row, (PairingSession.claim P.toPrimitives arguments now row).invitationId =
      row.invitationId := fun _ => rfl
  have hchecks := checks_iff.mpr (hchecked.claim_created hstate hresponse hreceipt hnow)
  have htransition : transition P sessions arguments.descriptor.invitationId
      (fun row => decide (row.state = .created))
      (PairingSession.claim P.toPrimitives arguments now) =
      .ok (replaceSession sessions (row.claim P.toPrimitives arguments now),
        row.claim P.toPrimitives arguments now) :=
    (h.transition_eq_ok hname).mpr ⟨row, hrow, decide_eq_true hstate, hchecks, rfl, rfl⟩
  simp only [claimPairingSession, hvalid, if_neg (not_le.mpr htime)]
  exact settle_ok htransition

theorem createPairingSession_eq_ok {descriptor : InvitationDescriptor}
    (h : createPairingSession P sessions spaces descriptor now = .ok (sessions', session)) :
    sessions' = sessions ∧ session? sessions descriptor.invitationId = some session ∧
        session.descriptor = descriptor ∨
      (∀ other ∈ sessions, other.invitationId ≠ descriptor.invitationId) ∧
        session = .create descriptor now ∧ session.checks P.toPlatform = true ∧
        sessions' = sessions ++ [session] := by
  simp only [createPairingSession, bind_eq_ok, mapError_eq_ok, require_eq_ok, okOr_eq_ok,
    Except.ok.injEq, Prod.mk.injEq] at h
  obtain ⟨_, -, _, -, _, -, found, hfound, _, hsame, rfl, rfl⟩ := h
  cases hinserted : ((PairingSession.create descriptor now).checks P.toPlatform &&
      !sessions.any (sameSession P (.create descriptor now))) with
  | false =>
    simp only [hinserted, Bool.false_eq_true, if_false, Bool.false_or, decide_eq_true_eq]
      at hfound hsame ⊢
    exact .inl ⟨trivial, hfound, hsame⟩
  | true =>
    rw [Bool.and_eq_true, Bool.not_eq_true', any_eq_false] at hinserted
    obtain ⟨hchecks, hfresh⟩ := hinserted
    have hnames : ∀ other ∈ sessions, other.invitationId ≠ descriptor.invitationId := by
      intro other hother hname
      apply hfresh other hother
      simp [sameSession, PairingSession.create, hname]
    have hnone : session? sessions descriptor.invitationId = none := by
      rw [session?, find?_eq_none]
      intro other hother
      simpa using hnames other hother
    have hany : sessions.any (sameSession P (.create descriptor now)) = false :=
      any_eq_false.mpr hfresh
    simp only [hchecks, hany, Bool.not_false, Bool.and_self, if_true, session?] at hfound ⊢
    rw [session?] at hnone
    rw [find?_append, hnone, Option.none_or] at hfound
    simp only [PairingSession.create, find?_singleton, decide_true, if_true,
      Option.some.injEq] at hfound
    subst hfound
    exact .inr ⟨hnames, rfl, hchecks, rfl⟩

theorem plannedGrantBody_eq_ok {body : OperationBody} :
    plannedGrantBody body = .ok grant ↔ body = .capabilityGrant grant := by
  cases body <;> simp [plannedGrantBody]

-- A plan is made once, for the actor that claimed the session.
theorem WellKept.plan_eq_ok (h : WellKept P sessions)
    (hplan : planPairingGrant P sessions id operation now = .ok (sessions', session)) :
    operation.verify P.toPrimitives = .ok () ∧ ∃ grant row,
      operation.body = .capabilityGrant grant ∧ session? sessions id = some row ∧
      row.awaitsGrant = true ∧ row.descriptor.spaceId = operation.spaceId ∧
      row.subjectActorId = some grant.subject ∧
      (session = row ∧ row.plannedGrant.isSome = true ∧ sessions' = sessions ∨
        row.plannedGrant = none ∧ session = row.plan operation now ∧
          session.checks P.toPlatform = true ∧ sessions' = replaceSession sessions session) := by
  have hname : ∀ row, (PairingSession.plan operation now row).invitationId = row.invitationId :=
    fun _ => rfl
  simp only [planPairingGrant, bind_eq_ok, mapError_eq_ok, require_eq_ok, okOr_eq_ok,
    plannedGrantBody_eq_ok, Bool.and_eq_true, decide_eq_true_eq] at hplan
  obtain ⟨_, hverified, _, -, grant, hbody, row, hrow, _, ⟨⟨hawaits, hspace⟩, hsubject⟩, hplan⟩ :=
    hplan
  refine ⟨hverified, grant, row, hbody, hrow, hawaits, hspace, hsubject, ?_⟩
  cases hplanned : row.plannedGrant with
  | some existing =>
    simp only [hplanned, bind_eq_ok, require_eq_ok, Except.ok.injEq, Prod.mk.injEq] at hplan
    obtain ⟨_, -, rfl, rfl⟩ := hplan
    exact .inl ⟨rfl, rfl, rfl⟩
  | none =>
    simp only [hplanned] at hplan
    obtain ⟨other, hother, -, hchecks, rfl, rfl⟩ := (h.transition_eq_ok hname).mp hplan
    rw [hrow, Option.some.injEq] at hother
    subst hother
    exact .inr ⟨rfl, rfl, hchecks, rfl⟩

-- The first plan for a session that waits for its grant.
theorem WellKept.plans (h : WellKept P sessions)
    (hverified : operation.verify P.toPrimitives = .ok ())
    (hschema : operation.schema = .capabilityGrant)
    (hbody : operation.body = .capabilityGrant grant) (hrow : session? sessions id = some row)
    (hawaits : row.awaitsGrant = true) (hspace : row.descriptor.spaceId = operation.spaceId)
    (hsubject : row.subjectActorId = some grant.subject) (hunplanned : row.plannedGrant = none)
    (hplan : PairingSession.isPlan P.toPlatform operation = true) (hnow : 0 ≤ now.toInt) :
    planPairingGrant P sessions id operation now =
      .ok (replaceSession sessions (row.plan operation now), row.plan operation now) := by
  have hchecked := checks_iff.mp (h.checks row (session?_eq_some hrow).1)
  have hnone : row.plannedGrantOperationId.isNone = true := by
    rw [hchecked.planned, hunplanned]
    rfl
  have hname : ∀ row, (PairingSession.plan operation now row).invitationId =
      row.invitationId := fun _ => rfl
  have hselects : (row.awaitsGrant && row.plannedGrantOperationId.isNone) = true := by
    rw [hawaits, hnone]
    rfl
  have hchecks := checks_iff.mpr (hchecked.plan_awaited hawaits hplan now)
  have htransition : transition P sessions id
      (fun row => row.awaitsGrant && row.plannedGrantOperationId.isNone)
      (PairingSession.plan operation now) =
      .ok (replaceSession sessions (row.plan operation now), row.plan operation now) :=
    (h.transition_eq_ok hname).mpr ⟨row, hrow, hselects, hchecks, rfl, rfl⟩
  simp only [planPairingGrant, hverified, Except.mapError, ok_bind, decide_eq_true hnow,
    decide_eq_true hschema, Bool.and_self, require, if_true, hbody, plannedGrantBody, hrow, okOr,
    hawaits, decide_eq_true hspace, decide_eq_true hsubject, hunplanned]
  exact htransition

end Outcomes

section Moves

variable {P : PeerPlatform} {sessions sessions' : List PairingSession} {id : InvitationId}
  {session : PairingSession} {now : Int64} {row : PairingSession}

-- The rows take quiet steps or stay as they are.
def Quiet (P : PeerPlatform) (sessions sessions' : List PairingSession) : Prop :=
  WellKept P sessions' ∧ ∃ f : PairingSession → PairingSession, sessions' = sessions.map f ∧
    ∀ row ∈ sessions, f row = row ∨ QuietStep P row (f row)

theorem QuietStep.invitationId (h : QuietStep P row row') :
    row'.invitationId = row.invitationId := by
  cases h <;> rfl

theorem Quiet.found (h : Quiet P sessions sessions') (hfound : session? sessions' id = some row') :
    ∃ row, session? sessions id = some row ∧ (row' = row ∨ QuietStep P row row') := by
  obtain ⟨-, f, rfl, hf⟩ := h
  have hnames : ∀ row ∈ sessions, (f row).invitationId = row.invitationId := by
    intro other hother
    rcases hf other hother with hsame | hstep
    · rw [hsame]
    · exact hstep.invitationId
  rw [session?_map hnames] at hfound
  obtain ⟨row, hrow, rfl⟩ := Option.map_eq_some_iff.mp hfound
  exact ⟨row, hrow, hf row (session?_eq_some hrow).1⟩

theorem WellKept.quiet_refl (h : WellKept P sessions) : Quiet P sessions sessions :=
  ⟨h, id, (map_id sessions).symm, fun _ _ => .inl rfl⟩

theorem WellKept.quiet_replace (h : WellKept P sessions) (hfound : session? sessions id = some row)
    (hstep : QuietStep P row row') (hchecks : row'.checks P.toPlatform = true) :
    Quiet P sessions (replaceSession sessions row') := by
  refine ⟨h.replace hchecks, _, rfl, ?_⟩
  intro other hother
  split_ifs with hname
  · have hsame := session?_of_mem h.names hother
    rw [hname, hstep.invitationId, (session?_eq_some hfound).2, hfound,
      Option.some.injEq] at hsame
    exact .inr (hsame ▸ hstep)
  · exact .inl rfl

theorem WellKept.quiet_update (h : WellKept P sessions) {set : PairingSession → PairingSession}
    (hset : ∀ row, selects row = true → QuietStep P row (set row))
    (hupdate : updateSessions P sessions selects set = .ok (sessions', changed)) :
    Quiet P sessions sessions' := by
  obtain ⟨rfl, hchecks, -⟩ := updateSessions_eq_ok.mp hupdate
  refine ⟨⟨?_, hchecks⟩, _, rfl, ?_⟩
  · rw [map_invitationId]
    · exact h.names
    · intro row
      split_ifs with hselects
      · exact (hset row hselects).invitationId
      · rfl
  · intro row _
    split_ifs with hselects
    · exact .inr (hset row hselects)
    · exact .inl rfl

theorem WellKept.quiet_claim (h : WellKept P sessions) (arguments : ClaimArguments) (now : Int64) :
    Quiet P sessions (claimPairingSession P sessions arguments now).1 := by
  have hname : ∀ row, (PairingSession.claim P.toPrimitives arguments now row).invitationId =
      row.invitationId := fun _ => rfl
  simp only [claimPairingSession]
  split
  · exact h.quiet_refl
  · rename_i current hvalid
    split_ifs with hlate hstate
    · simp only [expireUnclaimed]
      split
      · exact h.quiet_refl
      · rename_i updated changed hupdate
        refine h.quiet_update ?_ hupdate
        intro row hselects
        rw [Bool.and_eq_true, decide_eq_true_eq, decide_eq_true_eq] at hselects
        exact .expire (.inl hselects.2)
    · exact h.quiet_refl
    · simp only [settle]
      split
      · exact h.quiet_refl
      · rename_i updated claimed htransition
        obtain ⟨row, hrow, hcreated, hchecks, rfl, rfl⟩ :=
          (h.transition_eq_ok hname).mp htransition
        exact h.quiet_replace hrow (.claim (of_decide_eq_true hcreated)) hchecks

theorem WellKept.quiet_confirm (h : WellKept P sessions) (id : InvitationId) (hash : FixedBytes 32)
    (now : Int64) :
    Quiet P sessions (settle sessions (confirmPairingSession P sessions id hash now)).1 := by
  refine settle_cases h.quiet_refl ?_
  intro sessions' session hok
  obtain ⟨-, row, hrow, hstate, -, hchecks, -, rfl⟩ := h.confirm_eq_ok.mp hok
  exact h.quiet_replace hrow (.confirm hstate) hchecks

theorem WellKept.quiet_cancel (h : WellKept P sessions) (id : InvitationId) (now : Int64) :
    Quiet P sessions (settle sessions (cancelPairingSession P sessions id now)).1 := by
  refine settle_cases h.quiet_refl ?_
  intro sessions' session hok
  obtain ⟨-, row, hrow, hstate, hchecks, -, rfl⟩ := h.cancel_eq_ok.mp hok
  exact h.quiet_replace hrow (.cancel hstate) hchecks

theorem WellKept.quiet_expire (h : WellKept P sessions) (now : Int64) :
    Quiet P sessions (settle sessions (expirePairingSessions P sessions now)).1 := by
  refine settle_cases h.quiet_refl ?_
  intro sessions' changed hok
  simp only [expirePairingSessions, require_bind_eq_ok] at hok
  refine h.quiet_update ?_ hok.2
  intro row hstale
  simp only [PairingSession.isStale, Bool.or_eq_true, Bool.and_eq_true, decide_eq_true_eq]
    at hstale
  exact .expire (hstale.imp And.left And.left)

theorem WellKept.quiet_touch (h : WellKept P sessions) (id : InvitationId) (now : Int64) :
    Quiet P sessions (settle sessions (touchPairingSession P sessions id now)).1 := by
  refine settle_cases h.quiet_refl ?_
  intro sessions' _ hok
  simp only [touchPairingSession, bind_eq_ok, Prod.exists, Except.ok.injEq,
    Prod.mk.injEq] at hok
  obtain ⟨_, -, updated, changed, hupdate, _, -, rfl, -⟩ := hok
  refine h.quiet_update ?_ hupdate
  intro row hselects
  rw [Bool.and_eq_true, decide_eq_true_eq, decide_eq_true_eq] at hselects
  exact .touch hselects.2

end Moves

end Fractonica.Store
