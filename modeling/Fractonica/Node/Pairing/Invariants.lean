import Fractonica.Node.Pairing
import Fractonica.Store.Completeness
import Fractonica.Store.Sessions.Theorems

namespace Fractonica.Node

open Lib Trust DataModel Application Pairing Store List

section Database

variable {P : Platform} {db : Database} {db' : Database}

-- Operations are admitted and spaces are established for good.
structure Grows (P : Platform) (db db' : Database) : Prop where
  admitted : admitted P db.tables ⊆ admitted P db'.tables
  spaces : db.tables.spaces ⊆ db'.tables.spaces

theorem Grows.refl (P : Platform) (db : Database) : Grows P db db :=
  ⟨fun _ h => h, fun _ h => h⟩

theorem Grows.trans (h : Grows P db db') (h' : Grows P db' db'') : Grows P db db'' :=
  ⟨fun _ ha => h'.admitted (h.admitted ha), fun _ hrow => h'.spaces (h.spaces hrow)⟩

-- The genesis of each space is the controller's.
def Controlled (P : Platform) (db : Database) : Prop :=
  ∀ row ∈ db.tables.spaces, ∃ a ∈ admitted P db.tables,
    a.key = row.genesisOperationId ∧ a.operation.actorId = row.controllerActorId

structure Kept (P : Platform) (db : Database) : Prop where
  sound : Sound P db
  controlled : Controlled P db

theorem Kept.of_tables (h : Kept P db) (htables : db'.tables = db.tables)
    (hclock : db.admissionClock.toInt ≤ db'.admissionClock.toInt) :
    Kept P db' ∧ Grows P db db' := by
  refine ⟨⟨(Transition.of_idle htables hclock).sound h.sound, ?_⟩, ?_⟩
  · intro row hrow
    rw [htables] at hrow ⊢
    exact h.controlled row hrow
  · constructor
    · rw [htables]
      exact fun _ ha => ha
    · rw [htables]
      exact fun _ hrow => hrow

theorem Kept.submit (h : Kept P db) (spaceId : SpaceId) (request : SubmitOperationRequest) :
    Kept P (submitOperation P db spaceId request).1 ∧
      Grows P db (submitOperation P db spaceId request).1 := by
  have htransition : Transition P db (submitOperation P db spaceId request).1 :=
    transition_submit spaceId request
  have hsound := htransition.sound h.sound
  have hcases := submission P db spaceId request
  generalize submitOperation P db spaceId request = result at hsound hcases ⊢
  obtain ⟨db', answer⟩ := result
  cases hcases with
  | failed tables later => exact h.of_tables tables later
  | replayed later valid found payload => exact h.of_tables rfl later
  | inserted later valid absent admission insertable =>
    have hadmitted := admitted_insert h.sound valid.verified admission insertable
    refine ⟨⟨hsound, ?_⟩, ⟨?_, fun _ hrow => hrow⟩⟩
    · intro row hrow
      obtain ⟨a, ha, hsame⟩ := h.controlled row hrow
      refine ⟨a, ?_, hsame⟩
      rw [hadmitted]
      exact mem_append_left _ ha
    · rw [hadmitted]
      exact subset_append_left _ _

theorem Kept.bootstrap (h : Kept P db) (request : TrustedSpaceBootstrapRequest) :
    Kept P (bootstrapTrustedSpace P db request).1 ∧
      Grows P db (bootstrapTrustedSpace P db request).1 := by
  have htransition : Transition P db (bootstrapTrustedSpace P db request).1 :=
    transition_bootstrap request
  have hsound := htransition.sound h.sound
  cases hcall : bootstrapTrustedSpace P db request with
  | mk db' answer =>
    rw [hcall] at hsound
    cases answer with
    | error error =>
      obtain ⟨htables, hclock⟩ := bootstrapTrustedSpace_error hcall
      exact h.of_tables htables hclock
    | ok result =>
      obtain ⟨grant, hvalid, hclock, hcase⟩ := bootstrapTrustedSpace_ok hcall
      rcases hcase with ⟨-, htables⟩ | ⟨-, -, hcreation⟩
      · exact h.of_tables htables (hclock ▸ (le_laterOf _ _).1)
      · have hadmitted := admitted_create h.sound hvalid hcreation
        have hspaces : db'.tables.spaces =
            db.tables.spaces ++ [spaceRow request grant.subject db'.admissionClock] := by
          rw [hcreation.tables]
          rfl
        refine ⟨⟨hsound, ?_⟩, ⟨?_, ?_⟩⟩
        · intro row hrow
          rw [hspaces] at hrow
          rw [hadmitted]
          rcases mem_append.mp hrow with hrow | hrow
          · obtain ⟨a, ha, hsame⟩ := h.controlled row hrow
            exact ⟨a, mem_append_left _ (mem_append_left _ ha), hsame⟩
          · rw [mem_singleton.mp hrow]
            refine ⟨result.genesis, by simp, ?_⟩
            rw [hcreation.genesisStored]
            exact ⟨rfl, rfl⟩
        · rw [hadmitted, append_assoc]
          exact subset_append_left _ _
        · rw [hspaces]
          exact subset_append_left _ _

end Database

section Invariants

variable (P : NodePlatform) (identity : IdentityBundle) {db : Database} {row row' : PairingSession}

abbrev IdentityBundle.controller : ActorId :=
  identity.spaceControllerKey.actorId P.toPrimitives

-- The invitation is to a space that this node controls.
def OwnSpace (t : Tables) (descriptor : InvitationDescriptor) : Prop :=
  ∃ row ∈ t.spaces, row.spaceId = descriptor.spaceId ∧
    row.genesisOperationId = descriptor.genesisOperationId ∧
    row.controllerActorId = identity.controller P

-- The operation that grants what an invitation offers.
structure IsGrantOf (descriptor : InvitationDescriptor) (subject : ActorId)
    (operation : OperationEnvelope) : Prop where
  verified : operation.verify P.toPrimitives = .ok ()
  space : operation.spaceId = descriptor.spaceId
  body : operation.body = .capabilityGrant (descriptor.capability.grantFor subject)
  parents : operation.causalParents = []
  authorization : operation.authorization = [descriptor.genesisOperationId]
  actor : operation.actorId = identity.controller P

def IsAdmitted (db : Database) (operation : OperationEnvelope) : Prop :=
  ∃ a ∈ admitted P.toPlatform db.tables,
    payloadOf P.toPlatform a.operation = payloadOf P.toPlatform operation

structure SessionInv (db : Database) (row : PairingSession) : Prop where
  named : row.descriptor.invitationId = row.invitationId
  anchored : OwnSpace P identity db.tables row.descriptor
  framed : row.claimedAtUnixMs.isSome = true → row.firstFrameDigest.isSome = true ∧
    row.responseFrame.isSome = true ∧ row.receiptFrame.isSome = true
  planned : ∀ operation, row.plannedGrant = some operation →
    row.claimedAtUnixMs.isSome = true ∧
      row.plannedGrantOperationId = some operation.operationId ∧
      ∃ subject, row.subjectActorId = some subject ∧
        IsGrantOf P identity row.descriptor subject operation
  completed : row.state = .completed → ∃ operation, row.plannedGrant = some operation ∧
    row.grantOperationId = some operation.operationId ∧ IsAdmitted P db operation

structure NodeInv (s : NodeState) : Prop where
  database : Kept P.toPlatform s.database
  sessions : WellKept P.toPeerPlatform s.sessions
  rows : ∀ row ∈ s.sessions, SessionInv P identity s.database row

-- How the state of a node moves on.
structure Later (s s' : NodeState) : Prop where
  sessions : ∀ id row, session? s.sessions id = some row →
    ∃ row', session? s'.sessions id = some row' ∧ Evolves row row'
  database : Grows P.toPlatform s.database s'.database

variable {P identity}

theorem Later.refl (s : NodeState) : Later P s s :=
  ⟨fun _ row hrow => ⟨row, hrow, .refl row⟩, .refl _ _⟩

theorem Later.trans (h : Later P s s') (h' : Later P s' s'') : Later P s s'' := by
  refine ⟨?_, h.database.trans h'.database⟩
  intro id row hrow
  obtain ⟨second, hsecond, hfirst⟩ := h.sessions id row hrow
  obtain ⟨third, hthird, hsteps⟩ := h'.sessions id second hsecond
  exact ⟨third, hthird, hfirst.trans hsteps⟩

theorem OwnSpace.grows {descriptor : InvitationDescriptor}
    (hanchored : OwnSpace P identity db.tables descriptor) (h : Grows P.toPlatform db db') :
    OwnSpace P identity db'.tables descriptor := by
  obtain ⟨row, hrow, hsame⟩ := hanchored
  exact ⟨row, h.spaces hrow, hsame⟩

theorem IsAdmitted.grows {operation : OperationEnvelope} (hadmitted : IsAdmitted P db operation)
    (h : Grows P.toPlatform db db') : IsAdmitted P db' operation := by
  obtain ⟨a, ha, hsame⟩ := hadmitted
  exact ⟨a, h.admitted ha, hsame⟩

theorem SessionInv.grows (h : SessionInv P identity db row) (hgrows : Grows P.toPlatform db db') :
    SessionInv P identity db' row where
  named := h.named
  anchored := h.anchored.grows hgrows
  framed := h.framed
  planned := h.planned
  completed hstate := by
    obtain ⟨operation, hplanned, hgrant, hadmitted⟩ := h.completed hstate
    exact ⟨operation, hplanned, hgrant, hadmitted.grows hgrows⟩

-- Only the database changes.
theorem NodeInv.of_database (h : NodeInv P identity s)
    (hkept : Kept P.toPlatform db ∧ Grows P.toPlatform s.database db) :
    NodeInv P identity { s with database := db } ∧ Later P s { s with database := db } := by
  refine ⟨⟨hkept.1, h.sessions, ?_⟩, ⟨?_, hkept.2⟩⟩
  · intro row hrow
    exact (h.rows row hrow).grows hkept.2
  · exact fun _ row hrow => ⟨row, hrow, .refl row⟩

theorem SessionInv.quiet (h : SessionInv P identity db row) (hchecked : Checked P.toPlatform row)
    (hstep : QuietStep P.toPeerPlatform row row') : SessionInv P identity db row' := by
  cases hstep with
  | claim state =>
    -- An unclaimed session has no plan yet.
    have hunplanned : row.plannedGrant = none := by
      cases hplanned : row.plannedGrant with
      | none => rfl
      | some operation =>
        have hclaimed := (h.planned operation hplanned).1
        rw [(claimedAt_of_isUnclaimed (hchecked.unclaimed state)).1] at hclaimed
        cases hclaimed
    exact ⟨h.named, h.anchored, fun _ => ⟨rfl, rfl, rfl⟩, fun operation hplanned =>
      (nomatch hunplanned.symm.trans hplanned), nofun⟩
  | confirm state | cancel state | expire state =>
    exact ⟨h.named, h.anchored, h.framed, h.planned, nofun⟩
  | touch state => exact ⟨h.named, h.anchored, h.framed, h.planned, fun _ => h.completed state⟩

theorem NodeInv.quiet (h : NodeInv P identity s) {sessions : List PairingSession}
    (hquiet : Quiet P.toPeerPlatform s.sessions sessions) :
    NodeInv P identity { s with sessions } ∧ Later P s { s with sessions } := by
  obtain ⟨hkept, f, rfl, hf⟩ := hquiet
  have hchecked : ∀ row ∈ s.sessions, Checked P.toPlatform row :=
    fun row hrow => checks_iff.mp (h.sessions.checks row hrow)
  refine ⟨⟨h.database, hkept, ?_⟩, ⟨?_, .refl _ _⟩⟩
  · intro row' hrow'
    obtain ⟨row, hrow, rfl⟩ := mem_map.mp hrow'
    rcases hf row hrow with hsame | hstep
    · rw [hsame]
      exact h.rows row hrow
    · exact (h.rows row hrow).quiet (hchecked row hrow) hstep
  · intro id row hfound
    have hnames : ∀ row ∈ s.sessions, (f row).invitationId = row.invitationId := by
      intro other hother
      rcases hf other hother with hsame | hstep
      · rw [hsame]
      · exact hstep.invitationId
    have hrow := (session?_eq_some hfound).1
    refine ⟨f row, by rw [session?_map hnames, hfound, Option.map_some], ?_⟩
    rcases hf row hrow with hsame | hstep
    · rw [hsame]
      exact .refl row
    · exact hstep.evolves (hchecked row hrow)

theorem NodeInv.replace (h : NodeInv P identity s) {id : InvitationId}
    (hfound : session? s.sessions id = some row) (hevolves : Evolves row row')
    (hchecks : row'.checks P.toPlatform = true) (hinv : SessionInv P identity s.database row') :
    NodeInv P identity { s with sessions := replaceSession s.sessions row' } ∧
      Later P s { s with sessions := replaceSession s.sessions row' } := by
  refine ⟨⟨h.database, h.sessions.replace hchecks, ?_⟩, ⟨?_, .refl _ _⟩⟩
  · intro other hother
    rcases mem_replaceSession hother with rfl | hother
    · exact hinv
    · exact h.rows other hother
  · intro id' other hother
    have hlookup : session? (replaceSession s.sessions row') id' = _ :=
      session?_replaceSession hother
    split_ifs at hlookup with hname
    · -- The names are distinct, so this is the row that was replaced.
      rw [hname, hevolves.invitationId, (session?_eq_some hfound).2, hfound,
        Option.some.injEq] at hother
      exact ⟨row', hlookup, hother ▸ hevolves⟩
    · exact ⟨other, hlookup, .refl other⟩

theorem NodeInv.append (h : NodeInv P identity s)
    (hfresh : ∀ other ∈ s.sessions, other.invitationId ≠ row.invitationId)
    (hchecks : row.checks P.toPlatform = true) (hinv : SessionInv P identity s.database row) :
    NodeInv P identity { s with sessions := s.sessions ++ [row] } ∧
      Later P s { s with sessions := s.sessions ++ [row] } := by
  refine ⟨⟨h.database, ⟨?_, ?_⟩, ?_⟩, ⟨?_, .refl _ _⟩⟩
  · rw [map_append, map_singleton, nodup_append]
    refine ⟨h.sessions.names, nodup_singleton _, ?_⟩
    intro name hname other hother
    obtain ⟨old, hold, rfl⟩ := mem_map.mp hname
    rw [mem_singleton.mp hother]
    exact hfresh old hold
  · intro other hother
    rcases mem_append.mp hother with hother | hother
    · exact h.sessions.checks other hother
    · rw [mem_singleton.mp hother]
      exact hchecks
  · intro other hother
    rcases mem_append.mp hother with hother | hother
    · exact h.rows other hother
    · rw [mem_singleton.mp hother]
      exact hinv
  · intro id other hother
    refine ⟨other, ?_, .refl other⟩
    rw [session?, find?_append]
    rw [session?] at hother
    rw [hother, Option.some_or]

end Invariants

section Effects

variable (P : NodePlatform) (identity : IdentityBundle) {operation : OperationEnvelope}
  {descriptor : InvitationDescriptor}

-- What a call knows of a session for good.
def ClaimedBy (id : InvitationId) (descriptor : InvitationDescriptor) (subject : ActorId)
    (s : NodeState) : Prop :=
  ∃ row, session? s.sessions id = some row ∧ row.claimedAtUnixMs.isSome = true ∧
    row.descriptor = descriptor ∧ row.subjectActorId = some subject

def PlannedAs (id : InvitationId) (operation : OperationEnvelope) (s : NodeState) : Prop :=
  ∃ row, session? s.sessions id = some row ∧ row.plannedGrant = some operation

-- What must be known before an effect.
def Effect.Ready (s : NodeState) : Effect → Prop
  | .createPairingSession descriptor _ => OwnSpace P identity s.database.tables descriptor
  | .planPairingGrant id operation _ => ∃ descriptor subject,
      ClaimedBy id descriptor subject s ∧ IsGrantOf P identity descriptor subject operation
  | .completePairingSession id _ _ => ∃ operation,
      PlannedAs id operation s ∧ IsAdmitted P s.database operation
  | _ => True

variable {P identity} {id : InvitationId}

theorem PlannedAs.later (h : PlannedAs id operation s)
    (hlater : Later P s s') : PlannedAs id operation s' := by
  obtain ⟨row, hrow, hplanned⟩ := h
  obtain ⟨row', hrow', hevolves⟩ := hlater.sessions id row hrow
  have hsome : row.plannedGrant.isSome = true := by rw [hplanned]; rfl
  exact ⟨row', hrow', (congrArg PlanColumns.plannedGrant (hevolves.plan hsome)).trans hplanned⟩

theorem NodeInv.idle (h : NodeInv P identity s) : NodeInv P identity s ∧ Later P s s :=
  ⟨h, .refl s⟩

theorem NodeInv.of_secrets (h : NodeInv P identity s) (secrets : List ResponderInvitationSecret) :
    NodeInv P identity { s with secrets } ∧ Later P s { s with secrets } :=
  ⟨⟨h.database, h.sessions, h.rows⟩, ⟨fun _ row hrow => ⟨row, hrow, .refl row⟩, .refl _ _⟩⟩

theorem NodeInv.create (h : NodeInv P identity s)
    (hspace : OwnSpace P identity s.database.tables descriptor) (now : Int64) :
    NodeInv P identity (handle P s (.createPairingSession descriptor now)).2 ∧
      Later P s (handle P s (.createPairingSession descriptor now)).2 := by
  refine settle_cases (motive := fun sessions => NodeInv P identity { s with sessions } ∧
      Later P s { s with sessions })
    h.idle fun sessions session hcreate => ?_
  rcases createPairingSession_eq_ok hcreate with ⟨rfl, -, -⟩ | ⟨hfresh, rfl, hchecks, rfl⟩
  · exact h.idle
  · exact h.append hfresh hchecks ⟨rfl, hspace, nofun, nofun, nofun⟩

theorem NodeInv.plan (h : NodeInv P identity s) {subject : ActorId}
    (hclaimed : ClaimedBy id descriptor subject s)
    (hgrant : IsGrantOf P identity descriptor subject operation) (now : Int64) :
    NodeInv P identity (handle P s (.planPairingGrant id operation now)).2 ∧
      Later P s (handle P s (.planPairingGrant id operation now)).2 := by
  refine settle_cases (motive := fun sessions => NodeInv P identity { s with sessions } ∧
      Later P s { s with sessions })
    h.idle fun sessions session hplan => ?_
  obtain ⟨-, grant, row, -, hrow, hawaits, -, -, hcase⟩ := h.sessions.plan_eq_ok hplan
  obtain ⟨row', hrow', hat, rfl, hsubject⟩ := hclaimed
  rw [hrow, Option.some.injEq] at hrow'
  subst hrow'
  have hinv := h.rows row (session?_eq_some hrow).1
  rcases hcase with ⟨-, -, rfl⟩ | ⟨hunplanned, rfl, hchecks, rfl⟩
  · exact h.idle
  · refine h.replace hrow (evolves_plan hawaits hunplanned) hchecks ?_
    refine ⟨hinv.named, hinv.anchored, hinv.framed, ?_, ?_⟩
    · intro planned hplanned
      obtain rfl := Option.some.inj hplanned
      exact ⟨hat, rfl, subject, hsubject, hgrant⟩
    · intro hstate
      have hstate : row.state = .completed := hstate
      simp [PairingSession.awaitsGrant, hstate] at hawaits

theorem NodeInv.complete (h : NodeInv P identity s) (hplanned : PlannedAs id operation s)
    (hadmitted : IsAdmitted P s.database operation) (grant : OperationId) (now : Int64) :
    NodeInv P identity (handle P s (.completePairingSession id grant now)).2 ∧
      Later P s (handle P s (.completePairingSession id grant now)).2 := by
  refine settle_cases (motive := fun sessions => NodeInv P identity { s with sessions } ∧
      Later P s { s with sessions })
    h.idle fun sessions session hcomplete => ?_
  obtain ⟨-, row, hrow, hstate, hgrant, -, hchecks, -, rfl⟩ :=
    h.sessions.complete_eq_ok.mp hcomplete
  obtain ⟨row', hrow', hplan⟩ := hplanned
  rw [hrow, Option.some.injEq] at hrow'
  subst hrow'
  have hinv := h.rows row (session?_eq_some hrow).1
  refine h.replace hrow (evolves_complete hstate) hchecks ?_
  refine ⟨hinv.named, hinv.anchored, hinv.framed, hinv.planned, fun _ => ?_⟩
  refine ⟨operation, hplan, ?_, hadmitted⟩
  rw [(hinv.planned operation hplan).2.1] at hgrant
  exact hgrant.symm

-- Every effect that is ready keeps the invariant, and only moves on.
theorem NodeInv.after (h : NodeInv P identity s) (hready : effect.Ready P identity s) :
    NodeInv P identity (handle P s effect).2 ∧ Later P s (handle P s effect).2 := by
  cases effect with
  | submitOperation spaceId request => exact h.of_database (h.database.submit spaceId request)
  | createPairingSession descriptor now => exact h.create hready now
  | claimPairingSession arguments now => exact h.quiet (h.sessions.quiet_claim arguments now)
  | confirmPairingSession id hash now => exact h.quiet (h.sessions.quiet_confirm id hash now)
  | completePairingSession id grant now =>
    obtain ⟨operation, hplanned, hadmitted⟩ := hready
    exact h.complete hplanned hadmitted grant now
  | cancelPairingSession id now => exact h.quiet (h.sessions.quiet_cancel id now)
  | planPairingGrant id operation now =>
    obtain ⟨descriptor, subject, hclaimed, hgrant⟩ := hready
    exact h.plan hclaimed hgrant now
  | expirePairingSessions now => exact h.quiet (h.sessions.quiet_expire now)
  | touchPairingSession id now => exact h.quiet (h.sessions.quiet_touch id now)
  | storeSecret secret => exact h.of_secrets _
  | removeSecret id => exact h.of_secrets _
  | _ => exact h.idle

theorem NodeInv.outside (h : NodeInv P identity s) (hstep : Outside P s s') :
    NodeInv P identity s' ∧ Later P s s' := by
  cases hstep with
  | bootstrap request => exact h.of_database (h.database.bootstrap request)
  | submit spaceId request => exact h.of_database (h.database.submit spaceId request)

theorem nodeInv_fresh : NodeInv P identity fresh.state :=
  ⟨⟨sound_empty, forall_mem_nil _⟩, ⟨nodup_nil, forall_mem_nil _⟩,
    forall_mem_nil _⟩

end Effects

end Fractonica.Node
