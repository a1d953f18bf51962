import Fractonica.Node.Pairing.Theorems

namespace Fractonica.Node

open Lib Trust DataModel Application Pairing Store

section Expiry

-- Those in which no confirmation comes late to a session that waits for its grant.
def PunctualRuns (P : NodePlatform) (identity : IdentityBundle) :
    PairingSystem → PairingSystem → Prop :=
  Relation.ReflTransGen fun y z => ∃ event, (service P identity).Step y event z ∧
    ∀ call effect, event = .performed call effect → OnTime call effect y.state

variable {identity : IdentityBundle} {z : PairingSystem} {id : InvitationId} {now : Int64}

theorem PunctualRuns.contract (h : PunctualRuns P identity y z) :
    (pairingContract P identity True).Run (service P identity) y z := by
  refine Relation.ReflTransGen.mono ?_ _ _ h
  rintro y z ⟨event, hstep, htime⟩
  refine ⟨event, hstep, ?_⟩
  cases event with
  | performed call effect => exact fun _ => htime call effect rfl
  | _ => exact trivial

theorem PunctualRuns.good (h : PunctualRuns P identity fresh y) :
    (pairingContract P identity True).Good (service P identity) y :=
  ((pairingContract_holds P identity True).good_run (good_fresh P identity True) h.contract).1

theorem PunctualRuns.withheld (h : PunctualRuns P identity fresh y)
    (hstep : (service P identity).Step y (.performed call effect) z)
    (htime : OnTime call effect y.state) (hcall : call.confirmation = some (id, now))
    (hlapsed : Lapsed id now y.state) : Withheld id y.state z.state := by
  have hguarantee := (pairingContract_holds P identity True).guarantee_of_step h.good hstep
    fun _ => htime
  exact hguarantee.2.2 id now hcall (.inr ⟨trivial, hlapsed⟩)

theorem Runs.withheld (h : Runs P identity fresh y)
    (hstep : (service P identity).Step y (.performed call effect) z)
    (hcall : call.confirmation = some (id, now)) (hunclaimed : Unclaimed id y.state) :
    Withheld id y.state z.state := by
  have hguarantee := (pairingContract_holds P identity False).guarantee_of_step h.good hstep
    fun hfalse => hfalse.elim
  exact hguarantee.2.2 id now hcall (.inl hunclaimed)

theorem NodeInv.claimed_in_time (h : NodeInv P identity s) {arguments : ClaimArguments}
    {claimed : PairingSession}
    (hanswer : (handle P s (.claimPairingSession arguments now)).1 = .ok claimed) :
    now.toInt < claimed.descriptor.expiresAtUnixMs.toInt := by
  have hclaim : claimPairingSession P.toPeerPlatform s.sessions arguments now =
      ((claimPairingSession P.toPeerPlatform s.sessions arguments now).1, .ok claimed) :=
    Prod.ext rfl hanswer
  obtain ⟨htime, row, -, -, hdescriptor, rfl, -, -⟩ := h.sessions.claim_eq_ok hclaim
  change now.toInt < row.descriptor.expiresAtUnixMs.toInt
  rw [hdescriptor]
  exact htime

end Expiry

-- Where no confirmation comes late to a waiting session, none grants anything
-- after the end of a claim. The confirmation of a waiting session does, whatever
-- the time.
theorem claims_expire_when_punctual (P : NodePlatform) (identity : IdentityBundle)
    (hjson : P.toPlatform.AcceptsJson) (hreads : ReadsCapabilities P.toPlatform) :
    (∀ y z call effect id now, PunctualRuns P identity fresh y →
      (service P identity).Step y (.performed call effect) z → OnTime call effect y.state →
      call.confirmation = some (id, now) → Lapsed id now y.state →
        Withheld id y.state z.state) ∧
      ∀ y, Runs P identity fresh y →
        (∀ z call effect id now, (service P identity).Step y (.performed call effect) z →
          call.confirmation = some (id, now) → Unclaimed id y.state →
            Withheld id y.state z.state) ∧
        (∀ arguments now claimed,
          (handle P y.state (.claimPairingSession arguments now)).1 = .ok claimed →
            now.toInt < claimed.descriptor.expiresAtUnixMs.toInt) ∧
        ∀ id row hash draws now operation, session? y.state.sessions id = some row →
          row.awaitsGrant = true → row.handshakeHash = some hash →
          row.plannedGrant = some operation → 0 ≤ now.toInt →
            Confirmation P y.state id operation (runAlone P identity
              (NodePairingControl.confirm P identity id (confirmationOctal P.toPrimitives hash)
                draws now) y.state) := by
  refine ⟨?_, ?_⟩
  · intro y z call effect id now hrun hstep htime hcall hlapsed
    exact hrun.withheld hstep htime hcall hlapsed
  · intro y hrun
    refine ⟨?_, ?_, ?_⟩
    · intro z call effect id now hstep hcall hunclaimed
      exact hrun.withheld hstep hcall hunclaimed
    · intro arguments now claimed hanswer
      exact hrun.invariant.claimed_in_time hanswer
    · intro id row hash draws now operation hrow hawaits hhash hplanned hnow
      exact hrun.invariant.confirmation hjson hreads hrow hawaits hhash hplanned hnow

namespace Sample

def late : Int64 := now + 120000

theorem lapsed_planned (x : Exchange) : Lapsed ⟨material.invitationId⟩ late
    (Exchange.Faithful.planned x) := by
  have hdeadline : (claimDeadline (now + 600000) now).toInt ≤ late.toInt := by decide
  exact ⟨_, _, Exchange.Faithful.session?_single (Exchange.Faithful.plannedRow x), rfl, hdeadline⟩

theorem late_nonneg : 0 ≤ late.toInt := by decide

end Sample

open Sample (guest guest_faithful identity late material)

-- The claim of the sample has lapsed, and the confirmation succeeds nevertheless.
theorem claims_expire_when_punctual_guest : ∃ y : PairingSystem,
    Runs guest.platform identity fresh y ∧
      Lapsed ⟨material.invitationId⟩ late y.state ∧
      Confirmation guest.platform y.state ⟨material.invitationId⟩
        guest.grant.envelope (runAlone guest.platform identity
          (NodePairingControl.confirm guest.platform identity
            ⟨material.invitationId⟩ (confirmationOctal
              guest.platform.toPrimitives guest.handshakeHash) [] late) y.state) := by
  obtain ⟨y, hrun, hstate, -⟩ := guest_faithful.runs_planned
  have hrow : session? y.state.sessions ⟨material.invitationId⟩ =
      some (Sample.Exchange.Faithful.plannedRow guest) := by
    rw [hstate]
    exact Sample.Exchange.Faithful.session?_single _
  have hconfirms := (claims_expire_when_punctual guest.platform identity
    Sample.Exchange.Faithful.json guest_faithful.reads).2 y hrun
  refine ⟨y, hrun, ?_, ?_⟩
  · rw [hstate]
    exact Sample.lapsed_planned guest
  · exact hconfirms.2.2 _ _ guest.handshakeHash [] late
      guest.grant.envelope hrow rfl rfl rfl Sample.late_nonneg

-- The sweep only runs at the start, and a confirmation does not look at the end of
-- the claim.
theorem late_confirmation_grants : ∃ y z : PairingSystem,
    Runs guest.platform identity fresh y ∧
      Runs guest.platform identity y z ∧
      Lapsed ⟨material.invitationId⟩ late y.state ∧
      ¬ IsAdmitted guest.platform y.state.database guest.grant.envelope ∧
      (∃ shown, (Call.confirm ⟨material.invitationId⟩ (confirmationOctal
        guest.platform.toPrimitives guest.handshakeHash) [] late,
        .ok (.session shown)) ∈ z.answers) ∧
      ∃ row, session? z.state.sessions ⟨material.invitationId⟩ = some row ∧
        row.state = .completed ∧
        ∃ operation, row.plannedGrant = some operation ∧
          ∃ a ∈ admitted guest.platform.toPlatform z.state.database.tables,
            a.operation = { operation with coseSign1 := a.operation.coseSign1 } := by
  obtain ⟨y, hrun, hstate, hserving, hidle⟩ := guest_faithful.runs_planned
  have hrow : session? y.state.sessions ⟨material.invitationId⟩ =
      some (Sample.Exchange.Faithful.plannedRow guest) := by
    rw [hstate]
    exact Sample.Exchange.Faithful.session?_single _
  have hconfirmation : Confirmation guest.platform y.state _ _ (runAlone
      guest.platform identity (NodePairingControl.confirm guest.platform
        identity ⟨material.invitationId⟩ (confirmationOctal
          guest.platform.toPrimitives guest.handshakeHash) [] late)
      y.state) :=
    hrun.invariant.confirmation Sample.Exchange.Faithful.json guest_faithful.reads hrow rfl
      rfl rfl Sample.late_nonneg
  have hadmissible : Admissible guest.platform y.state.database
      guest.grant.envelope := by
    rw [hstate]
    exact Sample.guest_admissible
  have hok := hconfirmation.succeeds.mpr hadmissible
  obtain ⟨row, hfound, hcompleted, -⟩ := hconfirmation.completes hok
  generalize houtcome : runAlone guest.platform identity
    (NodePairingControl.confirm guest.platform identity
      ⟨material.invitationId⟩ (confirmationOctal guest.platform.toPrimitives
        guest.handshakeHash) [] late) y.state = outcome at hok hfound
  obtain ⟨result, s⟩ := outcome
  obtain ⟨shown, rfl⟩ := isOk_iff.mp hok
  have hmore := Runs.serve (.refl : Runs guest.platform identity y y) hserving hidle
    (rfl : (Call.confirm ⟨material.invitationId⟩ (confirmationOctal
      guest.platform.toPrimitives guest.handshakeHash) [] late).recovers =
      false) (runAlone_bind_ok houtcome)
  have hwhole : Runs guest.platform identity fresh _ := hrun.trans hmore
  obtain ⟨operation, -, hplanned, -, -, -, hadmitted⟩ :=
    hwhole.lifecycle.completed row (session?_eq_some hfound).1 hcompleted
  refine ⟨y, _, hrun, hmore, ?_, ?_, ⟨shown, ?_⟩, row, hfound, hcompleted, operation, hplanned,
    hadmitted⟩
  · rw [hstate]
    exact Sample.lapsed_planned guest
  · rw [hstate]
    exact guest_faithful.not_isAdmitted
  · exact List.mem_append_right _ List.mem_cons_self

end Fractonica.Node
