import Fractonica.Node.Pairing.Calls

namespace Fractonica.Node

open Lib Trust DataModel Application Pairing Store List

-- The texts of geneses and grants are read back as they were written.
def ReadsCapabilities (P : Platform) : Prop :=
  ∀ operation : OperationEnvelope, operation.verify P.toPrimitives = .ok () →
    operation.schema = .spaceGenesis ∨ operation.schema = .capabilityGrant →
    P.readEnvelope (projectionText P operation) = .ok operation

section Admission

variable {P : NodePlatform} {identity : IdentityBundle} {db : Database}
  {descriptor : InvitationDescriptor} {subject : ActorId} {operation : OperationEnvelope}
  {now : Int64}

-- The grant has been admitted, or still can be: the table of the actions has
-- room for five, and an entity begins once.
def Admissible (P : NodePlatform) (db : Database) (operation : OperationEnvelope) : Prop :=
  IsAdmitted P db operation ∨
    (∀ a ∈ admitted P.toPlatform db.tables, a.key ≠ operation.operationId) ∧
      (∀ grant ∈ grantOf operation.body, grant.actions.length ≤ 5) ∧
      (∀ a ∈ admitted P.toPlatform db.tables, a.space = operation.spaceId →
        a.operation.entityId ≠ operation.entityId) ∧
      db.tables.lastSequence + 1 < 2 ^ 63

theorem IsGrantOf.schema (h : IsGrantOf P identity descriptor subject operation) :
    operation.schema = .capabilityGrant :=
  (grant_of_verify h.verified h.body).1

theorem IsGrantOf.storable_iff (h : IsGrantOf P identity descriptor subject operation) :
    Storable operation ↔ ∀ grant ∈ grantOf operation.body, grant.actions.length ≤ 5 := by
  refine ⟨fun hstorable => hstorable.actions, fun hactions => ⟨hactions, ?_⟩⟩
  intro resource hresource
  rw [h.body] at hresource
  cases hresource

-- The controller of the space may issue it.
theorem IsGrantOf.authorized (h : IsGrantOf P identity descriptor subject operation)
    (hkept : Kept P.toPlatform db) (hreads : ReadsCapabilities P.toPlatform)
    (hspace : OwnSpace P identity db.tables descriptor) :
    authorizeOperation P.toPrimitives operation now (capabilityView P.toPlatform db.tables) =
      .ok () := by
  obtain ⟨row, hrow, hid, hgenesis, hcontroller⟩ := hspace
  obtain ⟨a, ha, hkey, hactor⟩ := hkept.controlled row hrow
  obtain ⟨b, hb, hspaceId, hkey', hschema⟩ := hkept.sound.consistent.anchored row hrow
  have hcausal := hkept.sound.consistent.coherent.causal
  obtain rfl := hcausal.eq_of_key hb ha (hkey'.trans hkey.symm)
  have hread := hreads b.operation (hcausal.verified b ha) (.inl hschema)
  have hroot := hkept.sound.consistent.trustedRoot hrow ha hkey hread
  have hsame : b.space = operation.spaceId := hspaceId.trans (hid.trans h.space.symm)
  rw [hsame] at hroot
  have hrequired : RequiredAuthority.forOperation operation operation.body.declaredVisibility =
      .ok (.issue (descriptor.capability.grantFor subject)) := by
    simp only [RequiredAuthority.forOperation, h.schema, h.body]
    rfl
  refine authorized_of_root hroot ?_ ?_ hrequired rfl
  · rw [hactor, hcontroller, h.actor]
  · rw [h.authorization, hkey, hgenesis]

theorem IsGrantOf.validAdmission (h : IsGrantOf P identity descriptor subject operation)
    (hkept : Kept P.toPlatform db) (hreads : ReadsCapabilities P.toPlatform)
    (hspace : OwnSpace P identity db.tables descriptor)
    (hentity : ∀ a ∈ admitted P.toPlatform db.tables, a.space = operation.spaceId →
      a.operation.entityId ≠ operation.entityId) :
    ValidAdmission P.toPlatform db.tables operation.spaceId operation now := by
  have hcoherent := hkept.sound.consistent.coherent
  refine hcoherent.admits_first h.parents hentity ?_ ?_ ?_ ?_ (h.authorized hkept hreads hspace)
  · obtain ⟨row, hrow, hid, hgenesis, -⟩ := hspace
    obtain ⟨a, ha, hspaceId, hkey, -⟩ := hkept.sound.consistent.anchored row hrow
    rw [h.authorization, forall_mem_singleton]
    exact ⟨a, ha, hkey.trans hgenesis, hspaceId.trans (hid.trans h.space.symm)⟩
  · rw [h.body]
    rfl
  · rw [h.body]
    intro revocation hrevocation
    cases hrevocation
  · rw [h.schema, h.body]
    rfl

theorem IsGrantOf.validSubmission (h : IsGrantOf P identity descriptor subject operation)
    (hkept : Kept P.toPlatform db) (hspace : OwnSpace P identity db.tables descriptor)
    (hnow : 0 ≤ now.toInt) :
    ValidSubmission P.toPlatform db.tables descriptor.spaceId ⟨operation, now⟩ where
  verified := h.verified
  inSpace := h.space
  received := hnow
  notGenesis := by
    rw [h.body]
    rfl
  trusted := by
    obtain ⟨row, hrow, hid, -⟩ := hspace
    rw [← hid]
    exact hkept.sound.requireSpace_ok hrow

theorem IsGrantOf.submit_replays (h : IsGrantOf P identity descriptor subject operation)
    (hkept : Kept P.toPlatform db) (hreads : ReadsCapabilities P.toPlatform)
    (hspace : OwnSpace P identity db.tables descriptor) (hnow : 0 ≤ now.toInt)
    (hadmitted : IsAdmitted P db operation) :
    (submitOperation P.toPlatform db descriptor.spaceId ⟨operation, now⟩).2.isOk = true := by
  obtain ⟨a, ha, hpayload⟩ := hadmitted
  have hcoherent := hkept.sound.consistent.coherent
  have hverified := hcoherent.causal.verified a ha
  have hsame := eq_of_payload h.verified hverified hpayload.symm
  have hkey : a.key = operation.operationId := by
    change a.operation.operationId = operation.operationId
    rw [hsame]
  have hschema : a.operation.schema = .capabilityGrant := by
    rw [hsame]
    exact h.schema
  have hload := hcoherent.loadStored_complete ha (hreads a.operation hverified (.inr hschema))
  rw [hkey] at hload
  have hadmit : admitOperation P.toPlatform db.tables descriptor.spaceId operation
      (laterOf db.admissionClock now) = .ok (db.tables, ⟨a, true⟩) := by
    simp [admitOperation, hload, liftCorrupt, Except.mapError,
      (canonicalPayload_of_verify h.verified).1, (canonicalPayload_of_verify hverified).1,
      hpayload, require]
  have htransact := transact_of_ok hkept.sound.clock hadmit
  have hvalid : validateSubmission P.toPlatform db.tables descriptor.spaceId ⟨operation, now⟩ =
      .ok () := validateSubmission_eq_ok.mpr (h.validSubmission hkept hspace hnow)
  simp only [submitOperation, hvalid, htransact]
  rfl

-- Whether the planned grant of a session can be admitted.
theorem IsGrantOf.submit_isOk (h : IsGrantOf P identity descriptor subject operation)
    (hkept : Kept P.toPlatform db) (hjson : P.toPlatform.AcceptsJson)
    (hreads : ReadsCapabilities P.toPlatform) (hspace : OwnSpace P identity db.tables descriptor)
    (hnow : 0 ≤ now.toInt) :
    (submitOperation P.toPlatform db descriptor.spaceId ⟨operation, now⟩).2.isOk = true ↔
      Admissible P db operation := by
  have hsound := hkept.sound
  have hclock : 0 ≤ (laterOf db.admissionClock now).toInt := hnow.trans (le_laterOf _ _).2
  constructor
  · intro hok
    obtain ⟨result, hanswer⟩ := isOk_iff.mp hok
    have hcases := submission P.toPlatform db descriptor.spaceId ⟨operation, now⟩
    generalize submitOperation P.toPlatform db descriptor.spaceId ⟨operation, now⟩ = answer
      at hanswer hcases
    obtain ⟨db', answer⟩ := answer
    subst hanswer
    cases hcases with
    | @replayed _ existing later valid found payload =>
      obtain ⟨hmem, -⟩ := hsound.consistent.coherent.loadStored_sound found
      refine .inl ⟨existing, hmem, ?_⟩
      unfold payloadOf
      rw [← payload]
    | @inserted time later valid absent admission insertable =>
      have habsent := hsound.consistent.coherent.loadStored_none.mp absent
      have htime : 0 ≤ time.toInt := hsound.clock.trans later
      have hstorable := (hsound.insertable_iff hjson htime h.verified habsent admission).mp
        insertable
      refine .inr ⟨habsent, h.storable_iff.mp hstorable.1, ?_, hstorable.2⟩
      intro a ha hsame hentity
      obtain ⟨-, hfirst, -⟩ := validateTopology_eq_ok.mp admission.topology
      have hrow := mem_entityOperations hsound.consistent.coherent.represents ha
      rw [hsame, hentity] at hrow
      exact (hfirst (ne_nil_of_mem hrow)).2 h.parents
  · rintro (hadmitted | ⟨habsent, hactions, hentity, hroom⟩)
    · exact h.submit_replays hkept hreads hspace hnow hadmitted
    · have hvalid : ValidAdmission P.toPlatform db.tables operation.spaceId operation
          (laterOf db.admissionClock now) := h.validAdmission hkept hreads hspace hentity
      have hinsertable := (hsound.insertable_iff hjson hclock h.verified habsent hvalid).mpr
        ⟨h.storable_iff.mpr hactions, hroom⟩
      exact (hsound.submitOperation_isOk (h.validSubmission hkept hspace hnow) rfl habsent
        hvalid).mpr hinsertable

-- The row of an admitted grant.
theorem IsGrantOf.grantRow (h : IsGrantOf P identity descriptor subject operation)
    (hkept : Kept P.toPlatform db) (hadmitted : IsAdmitted P db operation) :
    ∃ row ∈ db.tables.capabilityGrants, row.spaceId = descriptor.spaceId ∧
      row.grantOperationId = operation.operationId ∧ row.subjectActorId = subject := by
  obtain ⟨a, ha, hpayload⟩ := hadmitted
  have hcoherent := hkept.sound.consistent.coherent
  have hsame := eq_of_payload h.verified (hcoherent.causal.verified a ha) hpayload.symm
  have hbody : a.operation.body = .capabilityGrant (descriptor.capability.grantFor subject) := by
    rw [hsame]
    exact h.body
  refine ⟨storedGrant a.operation (descriptor.capability.grantFor subject), ?_, ?_, ?_, rfl⟩
  · rw [hcoherent.represents.grants]
    refine mem_flatMap.mpr ⟨a, ha, ?_⟩
    rw [grantRows, grantOf_eq_some.mpr hbody]
    exact mem_singleton_self _
  · change a.operation.spaceId = descriptor.spaceId
    rw [hsame]
    exact h.space
  · change a.operation.operationId = operation.operationId
    rw [hsame]

end Admission

section Runs

variable {P : NodePlatform} {identity : IdentityBundle} {s s' : NodeState} {id : InvitationId}
  {row : PairingSession} {operation : OperationEnvelope} {now : Int64} {draws : List PlanDraw}
  {ε α : Type} {session : PairingSession}

-- A call that nothing comes in between.
def runAlone {ε α : Type} (P : NodePlatform) (identity : IdentityBundle)
    (program : Program Effect Answer ε α) (s : NodeState) : Except ε α × NodeState :=
  program.run (service P identity).handle s

theorem runAlone_ask {rest : Answer effect → Program Effect Answer ε α} :
    runAlone P identity (ask effect >>= rest) s = outcome ↔
      runAlone P identity (rest (handle P s effect).1) (handle P s effect).2 = outcome :=
  Iff.rfl

theorem runAlone_bind_ok {rest : α → Program Effect Answer ε β}
    (h : runAlone P identity first s = (.ok a, s')) :
    runAlone P identity (first >>= rest) s = runAlone P identity (rest a) s' :=
  Program.run_bind_ok h

-- A step that only computes.
theorem runAlone_compute {rest : α → Program Effect Answer ε β}
    (h : runAlone P identity ((Program.done result : Program Effect Answer ε α) >>= rest) s =
      (.ok b, s')) :
    ∃ a, result = .ok a ∧ runAlone P identity (rest a) s = (.ok b, s') := by
  cases result with
  | error e => cases h
  | ok a => exact ⟨a, rfl, h⟩

theorem runAlone_lift_ask {rest : Answer effect → Durable α} :
    runAlone P identity (Durable.lift (ask effect >>= rest)) s = outcome ↔
      runAlone P identity (Durable.lift (rest (handle P s effect).1)) (handle P s effect).2 =
        outcome :=
  Iff.rfl

theorem runAlone_create {issued : IssuedInvitation}
    (hfresh : secret? s.secrets issued.secret.invitationId = none)
    (hcreated : handle P { s with secrets := s.secrets ++ [issued.secret] }
      (.createPairingSession issued.invitation.descriptor now) = (.ok session, s')) :
    runAlone P identity (Durable.lift (DurablePairingStore.create issued now)) s =
      (.ok session, s') := by
  have hstored : handle P s (.storeSecret issued.secret) =
      (.ok false, { s with secrets := s.secrets ++ [issued.secret] }) := by
    simp only [handle, storeSecret, hfresh]
  apply runAlone_lift_ask.mpr
  rw [hstored]
  apply runAlone_lift_ask.mpr
  rw [hcreated]
  rfl

theorem NodeInv.new_plan (h : NodeInv P identity s) (hrow : session? s.sessions id = some row)
    (hunplanned : row.plannedGrant = none)
    (hanswer : (handle P s (.planPairingGrant id operation now)).1 = .ok session) :
    session = row.plan operation now ∧
      session? (handle P s (.planPairingGrant id operation now)).2.sessions id =
        some (row.plan operation now) := by
  have hplan := settle_snd_eq_ok hanswer
  obtain ⟨-, grant, found, -, hfound, -, -, -, hcase⟩ := h.sessions.plan_eq_ok hplan
  rw [hrow, Option.some.injEq] at hfound
  subst hfound
  rcases hcase with ⟨-, hsome, -⟩ | ⟨-, rfl, -, hsessions⟩
  · rw [hunplanned] at hsome
    cases hsome
  · refine ⟨rfl, ?_⟩
    simp only [handle, onSessions, hsessions]
    exact session?_replaced hrow rfl

theorem NodeInv.run_planGrant {subject : ActorId} (h : NodeInv P identity s)
    (hrow : session? s.sessions row.invitationId = some row)
    (hclaimed : row.claimedAtUnixMs.isSome = true) (hsubject : row.subjectActorId = some subject)
    (hunplanned : row.plannedGrant = none)
    (hrun : runAlone P identity (planGrant P identity row
      (row.descriptor.capability.grantFor subject) now draws) s = (.ok operation, s')) :
    NodeInv P identity s' ∧ s'.database = s.database ∧
      session? s'.sessions row.invitationId = some (row.plan operation now) := by
  induction draws with
  | nil => cases hrun
  | cons draw rest ih =>
    obtain ⟨taken, -, hrun⟩ := runAlone_compute (runAlone_ask.mp hrun)
    split_ifs at hrun with htaken
    · exact ih hrun
    · obtain ⟨signed, hsigned, hrun⟩ := runAlone_compute hrun
      have hgrant := isGrantOf_of_sign (mapError_eq_ok.mp hsigned)
      obtain ⟨planned, hplanned, hrun⟩ := runAlone_compute (runAlone_ask.mp hrun)
      obtain ⟨hresult, rfl⟩ := Prod.mk.inj hrun
      have hinv := h.plan ((known_of_found hrow).claimedBy hclaimed hsubject) hgrant now
      have hanswer : (handle P s (.planPairingGrant row.invitationId signed now)).1 =
          .ok planned := mapError_eq_ok.mp hplanned
      obtain ⟨rfl, hfound⟩ := h.new_plan hrow hunplanned hanswer
      obtain rfl : signed = operation := Option.some.inj (okOr_eq_ok.mp hresult)
      exact ⟨hinv.1, rfl, hfound⟩

-- The plan of the session, made before or now.
structure Plans (P : NodePlatform) (identity : IdentityBundle) (s : NodeState)
    (row : PairingSession) (operation : OperationEnvelope) (s' : NodeState) : Prop where
  invariant : NodeInv P identity s'
  database : s'.database = s.database
  session : ∃ row', session? s'.sessions row.invitationId = some row' ∧
    row'.plannedGrant = some operation ∧ row'.state = row.state ∧
    row'.descriptor = row.descriptor

theorem NodeInv.run_plannedOrNewGrant (h : NodeInv P identity s)
    (hrow : session? s.sessions row.invitationId = some row)
    (hclaimed : row.claimedAtUnixMs.isSome = true)
    (hrun : runAlone P identity (plannedOrNewGrant P identity row now draws) s =
      (.ok operation, s')) : Plans P identity s row operation s' := by
  unfold plannedOrNewGrant at hrun
  cases hplanned : row.plannedGrant with
  | some planned =>
    rw [hplanned] at hrun
    obtain ⟨hsame, rfl⟩ := Prod.mk.inj hrun
    obtain rfl := Except.ok.inj hsame
    exact ⟨h, rfl, row, hrow, hplanned, rfl, rfl⟩
  | none =>
    rw [hplanned] at hrun
    obtain ⟨subject, hsubject, hrun⟩ := runAlone_compute hrun
    obtain ⟨grant, hgrant, hrun⟩ := runAlone_compute hrun
    obtain ⟨rfl, -⟩ := toGrant_eq_ok.mp (mapError_eq_ok.mp hgrant)
    obtain ⟨_, -, hrun⟩ := runAlone_compute hrun
    obtain ⟨_, -, hrun⟩ := runAlone_compute hrun
    obtain ⟨hinv, hdatabase, hfound⟩ :=
      h.run_planGrant hrow hclaimed (okOr_eq_ok.mp hsubject) hplanned hrun
    exact ⟨hinv, hdatabase, _, hfound, rfl, rfl, rfl⟩

theorem NodeInv.run_complete (h : NodeInv P identity s) (hrow : session? s.sessions id = some row)
    (hstate : row.state = .confirmed) (hplanned : row.plannedGrant = some operation)
    (hadmitted : IsAdmitted P s.database operation) (hnow : 0 ≤ now.toInt) :
    runAlone P identity
        (Durable.lift (DurablePairingStore.complete id operation.operationId now)) s =
      (.ok (row.complete operation.operationId now),
        { s with
          sessions := replaceSession s.sessions (row.complete operation.operationId now)
          secrets := (removeSecret s.secrets id).1 }) := by
  have hinv := h.rows row (session?_eq_some hrow).1
  obtain ⟨-, hid, subject, hsubject, hgrant⟩ := hinv.planned operation hplanned
  obtain ⟨granted, hmem, hspace, hkey, hactor⟩ := hgrant.grantRow h.database hadmitted
  have hchecked := checks_iff.mp (h.sessions.checks row (session?_eq_some hrow).1)
  have hchecks := checks_iff.mpr (hchecked.complete hstate hid now)
  have hcomplete := h.sessions.complete_eq_ok.mpr ⟨hnow, row, hrow, hstate, hid,
    ⟨granted, hmem, hspace, hkey, hactor ▸ hsubject⟩, hchecks, rfl, rfl⟩
  have hhandle : handle P s (.completePairingSession id operation.operationId now) =
      (.ok (row.complete operation.operationId now), { s with
        sessions := replaceSession s.sessions (row.complete operation.operationId now) }) := by
    simp only [handle, onSessions, settle_ok hcomplete]
  have hrun : runAlone P identity
      (Durable.lift (DurablePairingStore.complete id operation.operationId now)) s =
      runAlone P identity (Durable.lift (do
        let session ← Node.database (handle P s (.completePairingSession id operation.operationId
          now)).1
        let _ ← ask (.removeSecret id)
        .done (.ok session)))
        (handle P s (.completePairingSession id operation.operationId now)).2 := rfl
  rw [hrun, hhandle]
  rfl

-- The grant of a confirmed session is admitted and the session completed, or
-- neither.
theorem NodeInv.run_admitGrant (h : NodeInv P identity s) (hjson : P.toPlatform.AcceptsJson)
    (hreads : ReadsCapabilities P.toPlatform) (hrow : session? s.sessions id = some row)
    (hstate : row.state = .confirmed) (hnow : 0 ≤ now.toInt)
    (hplan : runAlone P identity (plannedOrNewGrant P identity row now draws) s =
      (.ok operation, s')) :
    let outcome := runAlone P identity
      (NodePairingControl.admitGrant P identity id row draws now) s
    (outcome.1.isOk = true ↔ Admissible P s.database operation) ∧
      (outcome.1.isOk = true → ∃ completed, session? outcome.2.sessions id = some completed ∧
        completed.state = .completed ∧
        completed.grantOperationId = some operation.operationId) ∧
      (outcome.1.isOk = false → ∃ row', session? outcome.2.sessions id = some row' ∧
        row'.state = .confirmed) := by
  obtain rfl := (session?_eq_some hrow).2
  have hawaits : row.awaitsGrant = true := by
    simp [PairingSession.awaitsGrant, hstate]
  obtain ⟨hinv, hdatabase, row', hrow', hplanned, hstate', hdescriptor⟩ :=
    h.run_plannedOrNewGrant hrow (h.claimed_of_awaitsGrant hrow hawaits) hplan
  have hsession := hinv.rows row' (session?_eq_some hrow').1
  obtain ⟨-, -, subject, -, hgrant⟩ := hsession.planned operation hplanned
  have hiff := hgrant.submit_isOk hinv.database hjson hreads hsession.anchored hnow
  have hrun : runAlone P identity
      (NodePairingControl.admitGrant P identity row.invitationId row draws now) s =
      runAlone P identity (do
        let _ ← .done ((submitOperation P.toPlatform s'.database row.descriptor.spaceId
          ⟨operation, now⟩).2.mapError fun _ => .storage)
        let completed ← Durable.lift
          (DurablePairingStore.complete row.invitationId operation.operationId now)
        .done (.ok (view P completed)))
        { s' with database := (submitOperation P.toPlatform s'.database row.descriptor.spaceId
          ⟨operation, now⟩).1 } := runAlone_bind_ok hplan
  rw [hdescriptor, hdatabase] at hiff
  rw [hdatabase] at hrun
  intro outcome
  cases hanswer : (submitOperation P.toPlatform s.database row.descriptor.spaceId
      ⟨operation, now⟩).2 with
  | error error =>
    have houtcome : outcome = (.error .storage, { s' with
        database := (submitOperation P.toPlatform s.database row.descriptor.spaceId
          ⟨operation, now⟩).1 }) := by
      change runAlone P identity _ s = _
      rw [hrun, hanswer]
      rfl
    rw [hanswer] at hiff
    rw [houtcome]
    refine ⟨hiff, ?_, ?_⟩
    · intro hok
      cases hok
    · intro _
      exact ⟨row', hrow', hstate'.trans hstate⟩
  | ok result =>
    have hkept := h.database.submit row.descriptor.spaceId ⟨operation, now⟩
    rw [← hdatabase] at hkept
    have hadmitted := isAdmitted_of_submit h.database hanswer
    have hsubmitted := (hinv.of_database hkept).1
    rw [hdatabase] at hsubmitted
    have hcomplete := hsubmitted.run_complete hrow' (hstate'.trans hstate) hplanned hadmitted
      hnow
    have houtcome : outcome = (.ok (view P (row'.complete operation.operationId now)), { s' with
        database := (submitOperation P.toPlatform s.database row.descriptor.spaceId
          ⟨operation, now⟩).1
        sessions := replaceSession s'.sessions (row'.complete operation.operationId now)
        secrets := (removeSecret s'.secrets row.invitationId).1 }) := by
      change runAlone P identity _ s = _
      rw [hrun, hanswer]
      exact runAlone_bind_ok hcomplete
    rw [hanswer] at hiff
    rw [houtcome]
    refine ⟨hiff, ?_, ?_⟩
    · intro _
      exact ⟨_, session?_replaced hrow' rfl, rfl, rfl⟩
    · intro hnot
      cases hnot

end Runs

end Fractonica.Node
