import Fractonica.Client.Store
import Fractonica.Store.Completeness

namespace Fractonica.Client

open Lib Trust DataModel Application List
open Store (Platform Database TrustedSpaceBootstrapRequest ValidBootstrap Creation Sound
  admitted bootstrapTrustedSpace capabilityView payloadOf projectionText spaceRow verifyBootstrap)

-- SHA-256 gives the two payloads of a bootstrap different digests if they differ.
def NoCollision (P : Platform) (request : TrustedSpaceBootstrapRequest) : Prop :=
  hashOperationPayload P.toPrimitives (payloadOf P request.genesis) =
      hashOperationPayload P.toPrimitives (payloadOf P request.initialGrant) →
    payloadOf P request.genesis = payloadOf P request.initialGrant

-- The JSON reader reads back what the writer writes for the two operations.
structure ReadsAnchor (P : Platform) (request : TrustedSpaceBootstrapRequest) : Prop where
  genesis : P.readEnvelope (projectionText P request.genesis) = .ok request.genesis
  initialGrant : P.readEnvelope (projectionText P request.initialGrant) = .ok request.initialGrant

-- A store in which no space is trusted, with room for the two operations.
structure Vacant (P : Platform) (db : Database) : Prop where
  reachable : Store.Reachable P db
  spaces : db.tables.spaces = []
  room : db.tables.lastSequence + 2 < 2 ^ 63

variable {db : Database} {request : TrustedSpaceBootstrapRequest} {grant : CapabilityGrant}

theorem genesisController_eq_ok {body : OperationBody} {controller : ActorId} :
    genesisController body = .ok controller ↔ body = .spaceGenesis controller := by
  cases body <;> simp [genesisController]

theorem initialWriterGrant_eq_ok {body : OperationBody} :
    initialWriterGrant body = .ok grant ↔ body = .capabilityGrant grant := by
  cases body <;> simp [initialWriterGrant]

-- What the application checks of the genesis beyond the store follows from its
-- verification.
theorem validateTrustedSpaceBootstrap_eq_ok :
    validateTrustedSpaceBootstrap P request = .ok () ↔ ∃ grant, ValidBootstrap P request grant := by
  simp only [validateTrustedSpaceBootstrap, requireBootstrap, bind_eq_ok, mapError_eq_ok,
    require_eq_ok, genesisController_eq_ok, initialWriterGrant_eq_ok, decide_eq_true_eq,
    Bool.and_eq_true, List.isEmpty_iff]
  constructor
  · rintro ⟨_, hreceived, _, hgenesis, _, hgrant, _, hname, _, -, _, hschema, _, hspace, controller,
      hcontroller, grant, hbody, _, -, _, -, _, rfl, _, -, _, hwriter, _, hauthorization, _,
      hparents, hentity⟩
    exact ⟨grant, hgenesis, hgrant, hreceived, hname, hcontroller, hbody, hspace, hparents,
      hauthorization, hschema, hentity.symm, hwriter⟩
  · rintro ⟨grant, h⟩
    obtain ⟨hschema, hactor, hparents, hauthorization⟩ :=
      Store.genesis_of_verify h.genesisVerified h.genesisBody
    have hsubject : grant.subject ≠ request.initialGrant.actorId := by
      have hwriter := h.writer
      simp only [Store.isWriterGrant, Bool.and_eq_true, decide_eq_true_eq] at hwriter
      exact hwriter.1.1.1.1.1.1.1.1
    exact ⟨(), h.received, (), h.genesisVerified, (), h.grantVerified, (), h.displayName, (),
      hschema, (), h.schema, (), h.inSpace, _, h.genesisBody, grant, h.grantBody, (), hactor.symm,
      (), ⟨hparents, hauthorization⟩, (), rfl, (), hsubject, (), h.writer, (), h.authorization, (),
      h.parents, h.entity.symm⟩

theorem operationIds_ne (h : ValidBootstrap P request grant) (hfree : NoCollision P request) :
    request.initialGrant.operationId ≠ request.genesis.operationId := by
  intro hsame
  have hgenesis := (Store.canonicalPayload_of_verify h.genesisVerified).2
  have hgrant := (Store.canonicalPayload_of_verify h.grantVerified).2
  have hpayload := hfree (hgenesis.symm.trans (hsame.symm.trans hgrant))
  have heq := Store.eq_of_payload h.genesisVerified h.grantVerified hpayload
  have hschema : request.initialGrant.schema = request.genesis.schema := by rw [heq]
  rw [h.schema, (Store.genesis_of_verify h.genesisVerified h.genesisBody).1] at hschema
  cases hschema

-- The grant of a new space resolves, at whatever time.
theorem resolve_created {now : Int64} {tables : Store.Tables} {genesis : Store.StoredOperation}
    (hconsistent : Store.Consistent P db.tables log) (hempty : log = [])
    (hvalid : ValidBootstrap P request grant) (hreads : ReadsAnchor P request)
    (hids : request.initialGrant.operationId ≠ request.genesis.operationId)
    (hcreation : Creation P db.tables request (spaceRow request grant.subject now) now genesis
      initialGrant tables) (atTime : Int64) :
    resolve P.toPrimitives (capabilityView P tables) atTime request.genesis.spaceId
        MAX_AUTHORIZATION_GRAPH_VISITS [] grant.subject request.initialGrant.operationId 0 =
      .ok (.grant grant, 2) := by
  have hcreated := hconsistent.create hvalid rfl rfl hcreation
  obtain ⟨-, hgenesis, hgrant, -, -, -, htables, -⟩ := hcreation
  subst hempty hgenesis hgrant
  have hadded : spaceRow request grant.subject now ∈ tables.spaces := by
    rw [htables]
    exact mem_append_right _ mem_cons_self
  have hroot := hcreated.trustedRoot hadded mem_cons_self rfl hreads.genesis
  have hunrevoked : ∀ b ∈ ([⟨db.tables.lastSequence + 1, now, request.genesis⟩,
      ⟨db.tables.lastSequence + 2, now, request.initialGrant⟩] : Store.Log),
        ∀ revocation ∈ Store.revocationOf b.operation.body,
          revocation.grantId ≠ request.initialGrant.operationId := by
    rw [forall_mem_cons, forall_mem_singleton, hvalid.genesisBody, hvalid.grantBody]
    refine ⟨?_, ?_⟩
    · intro revocation hrevocation
      cases hrevocation
    · intro revocation hrevocation
      cases hrevocation
  have hwindow : windowContains grant atTime = true := by
    have hwriter := hvalid.writer
    simp only [Store.isWriterGrant, Bool.and_eq_true, Option.isNone_iff_eq_none] at hwriter
    obtain ⟨⟨⟨-, hstart⟩, hend⟩, -⟩ := hwriter
    simp [windowContains, hstart, hend]
  have hactive := hcreated.coherent.activeGrant (mem_append_right _ mem_cons_self)
    hreads.initialGrant hvalid.grantBody hunrevoked hwindow
  have hactor := (Store.genesis_of_verify hvalid.genesisVerified hvalid.genesisBody).2.1
  have hspace : request.initialGrant.spaceId = request.genesis.spaceId := hvalid.inSpace.symm
  refine resolve_grant_of_root (hspace ▸ hactive) hroot hactor.symm hvalid.authorization
    (by decide) not_mem_nil ?_
  simpa using hids.symm

theorem Vacant.admitted_eq_nil (h : Vacant P db) : admitted P db.tables = [] := by
  apply eq_nil_iff_forall_not_mem.mpr
  intro a ha
  obtain ⟨home, hhome, -⟩ := h.reachable.sound.consistent.coherent.homes a ha
  rw [h.spaces] at hhome
  cases hhome

-- The application and the store accept the same bootstraps. In a store without
-- spaces an accepted one creates its space, and the grant in it resolves for the
-- writer.
theorem bootstrap_validators_agree (P : Platform) :
    (∀ request, validateTrustedSpaceBootstrap P request = .ok () ↔
      ∃ grant, verifyBootstrap P request = .ok grant) ∧
      ∀ db request, P.AcceptsJson → Vacant P db → ReadsAnchor P request → NoCollision P request →
        (validateTrustedSpaceBootstrap P request = .ok () ↔
          (bootstrapTrustedSpace P db request).2.isOk = true) ∧
        (validateTrustedSpaceBootstrap P request = .ok () →
          ∃ grant, request.initialGrant.body = .capabilityGrant grant ∧
            ∀ atTime, resolve P.toPrimitives
                (capabilityView P (bootstrapTrustedSpace P db request).1.tables) atTime
                request.genesis.spaceId MAX_AUTHORIZATION_GRAPH_VISITS [] grant.subject
                request.initialGrant.operationId 0 = .ok (.grant grant, 2)) := by
  have hagree : ∀ request, validateTrustedSpaceBootstrap P request = .ok () ↔
      ∃ grant, verifyBootstrap P request = .ok grant := by
    intro request
    simp only [validateTrustedSpaceBootstrap_eq_ok, Store.verifyBootstrap_eq_ok]
  refine ⟨hagree, ?_⟩
  intro db request hjson hvacant hreads hfree
  have hsound := hvacant.reachable.sound
  have hcreates : validateTrustedSpaceBootstrap P request = .ok () →
      ∃ grant now genesis initialGrant tables result, ValidBootstrap P request grant ∧
        Creation P db.tables request (spaceRow request grant.subject now) now genesis
          initialGrant tables ∧
        bootstrapTrustedSpace P db request = (⟨now, tables⟩, .ok result) := by
    intro haccepted
    obtain ⟨grant, hvalid⟩ := validateTrustedSpaceBootstrap_eq_ok.mp haccepted
    have hnow := hsound.clock.trans
      (Store.le_laterOf db.admissionClock request.receivedAtUnixMs).1
    have hcreation := hsound.creation hjson hvacant.spaces hvalid (operationIds_ne hvalid hfree)
      hvacant.room hreads.genesis hnow rfl rfl rfl
    exact ⟨grant, _, _, _, _, _, hvalid, hcreation,
      hsound.bootstrap_creates hvacant.spaces hvalid rfl rfl hcreation⟩
  refine ⟨⟨?_, ?_⟩, ?_⟩
  · intro haccepted
    obtain ⟨_, _, _, _, _, _, -, -, hok⟩ := hcreates haccepted
    rw [hok]
    rfl
  · intro hok
    rw [hagree]
    unfold bootstrapTrustedSpace at hok
    cases hverify : verifyBootstrap P request with
    | ok grant => exact ⟨grant, rfl⟩
    | error error =>
      rw [hverify] at hok
      cases hok
  · intro haccepted
    obtain ⟨grant, now, _, _, tables, _, hvalid, hcreation, hok⟩ := hcreates haccepted
    refine ⟨grant, hvalid.grantBody, fun atTime => ?_⟩
    rw [hok]
    exact resolve_created hsound.consistent hvacant.admitted_eq_nil hvalid hreads
      (operationIds_ne hvalid hfree) hcreation atTime

-- The bootstrap of the sample space.
theorem bootstrap_accepted_sample :
    validateTrustedSpaceBootstrap Store.Sample.platform Store.Sample.bootstrap = .ok () ∧
      ∃ grant, Store.Sample.bootstrap.initialGrant.body = .capabilityGrant grant ∧
        ∀ atTime, resolve Store.Sample.platform.toPrimitives
            (capabilityView Store.Sample.platform
              (bootstrapTrustedSpace Store.Sample.platform Database.empty
                Store.Sample.bootstrap).1.tables) atTime
            DataModel.Sample.spaceId MAX_AUTHORIZATION_GRAPH_VISITS [] grant.subject
            DataModel.Sample.writerGrant.operationId 0 = .ok (.grant grant, 2) := by
  obtain ⟨hagree, hcreates⟩ := bootstrap_validators_agree Store.Sample.platform
  obtain ⟨grant, -, hvalid⟩ := Store.Sample.validBootstrap Store.Sample.supports
  have haccepted := validateTrustedSpaceBootstrap_eq_ok.mpr ⟨grant, hvalid⟩
  have hvacant : Vacant Store.Sample.platform Database.empty := ⟨.refl, rfl, by decide⟩
  have hreads : ReadsAnchor Store.Sample.platform Store.Sample.bootstrap :=
    ⟨Store.Sample.supports.genesisReads, Store.Sample.supports.grantReads⟩
  have hfree : NoCollision Store.Sample.platform Store.Sample.bootstrap := by
    intro hsame
    rw [← (Store.canonicalPayload_of_verify hvalid.genesisVerified).2,
      ← (Store.canonicalPayload_of_verify hvalid.grantVerified).2] at hsame
    revert hsame
    decide
  exact ⟨haccepted, (hcreates Database.empty Store.Sample.bootstrap Store.Sample.supports.json
    hvacant hreads hfree).2 haccepted⟩

end Fractonica.Client
