import Fractonica.Node.Pairing.Progress

namespace Fractonica.Node

open Lib Trust DataModel Application Pairing Store

section Confirmations

variable {P : NodePlatform} {identity : IdentityBundle} {s : NodeState} {id : InvitationId}
  {row : PairingSession} {operation : OperationEnvelope} {hash : FixedBytes 32} {now : Int64}

theorem runAlone_confirmed (hrow : session? s.sessions id = some row)
    (hstate : row.state = .confirmed) (hhash : row.handshakeHash = some hash) :
    runAlone P identity (NodePairingControl.confirm P identity id
        (confirmationOctal P.toPrimitives hash) draws now) s =
      runAlone P identity (NodePairingControl.admitGrant P identity id row draws now) s := by
  unfold NodePairingControl.confirm
  rw [runAlone_bind_ok (runAlone_session hrow _)]
  simp [present, demand, hhash, hstate, okOr, require]

theorem NodeInv.runAlone_claimed (h : NodeInv P identity s)
    (hrow : session? s.sessions id = some row) (hstate : row.state = .claimed)
    (hhash : row.handshakeHash = some hash) (hnow : 0 ≤ now.toInt) :
    runAlone P identity (NodePairingControl.confirm P identity id
        (confirmationOctal P.toPrimitives hash) draws now) s =
      runAlone P identity (NodePairingControl.admitGrant P identity id (row.confirm now) draws
        now) { s with sessions := replaceSession s.sessions (row.confirm now) } := by
  unfold NodePairingControl.confirm
  rw [runAlone_bind_ok (runAlone_session hrow _)]
  simp only [present, demand, hhash, hstate, okOr, require, decide_true, if_true,
    Program.done_ok_bind]
  apply runAlone_ask.mpr
  rw [h.confirm_claimed hrow hstate hhash hnow]
  rfl

-- What the confirmation of a session comes to whose grant is planned.
structure Confirmation (P : NodePlatform) (s : NodeState) (id : InvitationId)
    (operation : OperationEnvelope)
    (outcome : Except PairingControlError PairingSessionView × NodeState) : Prop where
  succeeds : outcome.1.isOk = true ↔ Admissible P s.database operation
  completes : outcome.1.isOk = true → ∃ row, session? outcome.2.sessions id = some row ∧
    row.state = .completed ∧ row.grantOperationId = some operation.operationId
  waits : outcome.1.isOk = false → ∃ row, session? outcome.2.sessions id = some row ∧
    row.state = .confirmed

-- A confirmed session is taken up again, whatever has been planned so far.
theorem NodeInv.confirmation_retried (h : NodeInv P identity s) (hjson : P.toPlatform.AcceptsJson)
    (hreads : ReadsCapabilities P.toPlatform) (hrow : session? s.sessions id = some row)
    (hstate : row.state = .confirmed) (hhash : row.handshakeHash = some hash) (hnow : 0 ≤ now.toInt)
    (hplan : runAlone P identity (plannedOrNewGrant P identity row now draws) s =
      (.ok operation, s')) :
    Confirmation P s id operation (runAlone P identity (NodePairingControl.confirm P identity id
      (confirmationOctal P.toPrimitives hash) draws now) s) := by
  obtain ⟨hok, hcompletes, hwaits⟩ := h.run_admitGrant hjson hreads hrow hstate hnow hplan
  rw [runAlone_confirmed hrow hstate hhash]
  exact ⟨hok, hcompletes, hwaits⟩

-- Neither the state nor the clock decides, only whether the grant can be admitted.
theorem NodeInv.confirmation (h : NodeInv P identity s) (hjson : P.toPlatform.AcceptsJson)
    (hreads : ReadsCapabilities P.toPlatform) (hrow : session? s.sessions id = some row)
    (hawaits : row.awaitsGrant = true) (hhash : row.handshakeHash = some hash)
    (hplanned : row.plannedGrant = some operation) (hnow : 0 ≤ now.toInt) :
    Confirmation P s id operation (runAlone P identity (NodePairingControl.confirm P identity id
      (confirmationOctal P.toPrimitives hash) draws now) s) := by
  simp only [PairingSession.awaitsGrant, Bool.or_eq_true, decide_eq_true_eq] at hawaits
  rcases hawaits with hstate | hstate
  · have hhandle := h.confirm_claimed hrow hstate hhash hnow
    have hconfirmed : NodeInv P identity { s with
        sessions := replaceSession s.sessions (row.confirm now) } := by
      have hquiet := h.quiet (h.sessions.quiet_confirm id hash now)
      have hsame : (settle s.sessions (confirmPairingSession P.toPeerPlatform s.sessions id hash
          now)).1 = replaceSession s.sessions (row.confirm now) :=
        congrArg (fun result => result.2.sessions) hhandle
      rw [hsame] at hquiet
      exact hquiet.1
    have hfound : session? (replaceSession s.sessions (row.confirm now)) id =
        some (row.confirm now) := session?_replaced hrow rfl
    have hplan : runAlone P identity (plannedOrNewGrant P identity (row.confirm now) now draws)
        { s with sessions := replaceSession s.sessions (row.confirm now) } =
        (.ok operation, { s with sessions := replaceSession s.sessions (row.confirm now) }) :=
      runAlone_planned hplanned
    obtain ⟨hok, hcompletes, hwaits⟩ :=
      hconfirmed.run_admitGrant hjson hreads hfound rfl hnow hplan
    rw [h.runAlone_claimed hrow hstate hhash hnow]
    exact ⟨hok, hcompletes, hwaits⟩
  · exact h.confirmation_retried hjson hreads hrow hstate hhash hnow (runAlone_planned hplanned)

end Confirmations

section Lifecycle

variable (P : NodePlatform) (identity : IdentityBundle)

-- What holds of the sessions whenever one looks at them.
structure Lifecycle (y : PairingSystem) : Prop where
  names : (y.state.sessions.map PairingSession.invitationId).Nodup
  checks : ∀ row ∈ y.state.sessions, row.checks P.toPlatform = true
  claims : ∀ id firstFrame draw now result,
    (Call.handshake id firstFrame draw now, .ok (.handshake result)) ∈ y.answers →
      Claimed P id firstFrame result y.state
  winner : ∀ id firstFrame draw now result firstFrame' draw' now' result',
    (Call.handshake id firstFrame draw now, .ok (.handshake result)) ∈ y.answers →
    (Call.handshake id firstFrame' draw' now', .ok (.handshake result')) ∈ y.answers →
      P.sha256 firstFrame = P.sha256 firstFrame' ∧
        result.responseFrame = result'.responseFrame ∧ result.receiptFrame = result'.receiptFrame
  completed : ∀ row ∈ y.state.sessions, row.state = .completed → ∃ operation subject,
    row.plannedGrant = some operation ∧ row.grantOperationId = some operation.operationId ∧
      row.subjectActorId = some subject ∧
      IsGrantOf P identity row.descriptor subject operation ∧
      ∃ a ∈ admitted P.toPlatform y.state.database.tables,
        a.operation = { operation with coseSign1 := a.operation.coseSign1 }

variable {P identity} {z : PairingSystem}

-- One claim has been kept, so two answers come from the same frames.
theorem Claimed.unique {id : InvitationId} {firstFrame : List UInt8}
    (h : Claimed P id firstFrame result s) (h' : Claimed P id firstFrame' result' s) :
    P.sha256 firstFrame = P.sha256 firstFrame' ∧
      result.responseFrame = result'.responseFrame ∧
      result.receiptFrame = result'.receiptFrame := by
  obtain ⟨row, hrow, -, hdigest, hresponse, hreceipt⟩ := h
  obtain ⟨row', hrow', -, hdigest', hresponse', hreceipt'⟩ := h'
  rw [hrow, Option.some.injEq] at hrow'
  subst hrow'
  rw [hdigest, Option.some.injEq] at hdigest'
  rw [hresponse, Option.some.injEq] at hresponse'
  rw [hreceipt, Option.some.injEq] at hreceipt'
  exact ⟨hdigest', hresponse', hreceipt'⟩

theorem Runs.lifecycle (h : Runs P identity fresh y) : Lifecycle P identity y where
  names := h.invariant.sessions.names
  checks := h.invariant.sessions.checks
  claims id firstFrame draw now result hanswer := h.good.answers _ hanswer _ rfl
  winner _ _ _ _ _ _ _ _ _ hanswer hanswer' :=
    Claimed.unique (h.good.answers _ hanswer _ rfl) (h.good.answers _ hanswer' _ rfl)
  completed row hrow hstate := by
    have hinv := h.invariant.rows row hrow
    obtain ⟨operation, hplanned, hgrant, a, ha, hpayload⟩ := hinv.completed hstate
    obtain ⟨-, -, subject, hsubject, hoperation⟩ := hinv.planned operation hplanned
    have hverified := h.invariant.database.sound.consistent.coherent.causal.verified a ha
    exact ⟨operation, subject, hplanned, hgrant, hsubject, hoperation, a, ha,
      eq_of_payload hoperation.verified hverified hpayload.symm⟩

-- A first frame that is sent again, while the claim lasts.
theorem NodeInv.replay (h : NodeInv P identity s) {id : InvitationId} {firstFrame : List UInt8}
    {draw : HandshakeDraw} {now : Int64} {operation : OperationEnvelope}
    (hrow : session? s.sessions id = some row) (hstate : row.state = .claimed)
    (hclaimed : row.claimedAtUnixMs = some claimedAt)
    (hdigest : row.firstFrameDigest = some (P.sha256 firstFrame))
    (hplanned : row.plannedGrant = some operation) (hfrom : claimedAt.toInt ≤ now.toInt)
    (hto : now.toInt < (claimDeadline row.descriptor.expiresAtUnixMs claimedAt).toInt) :
    ∃ result, runAlone P identity
        (NodePairingControl.handshake P identity id firstFrame draw now) s = (.ok result, s) ∧
      row.responseFrame = some result.responseFrame ∧
      row.receiptFrame = some result.receiptFrame := by
  obtain rfl := (session?_eq_some hrow).2
  have hsome : row.claimedAtUnixMs.isSome = true := by
    rw [hclaimed]
    rfl
  obtain ⟨-, hresponse, hreceipt⟩ := (h.rows row (session?_eq_some hrow).1).framed hsome
  obtain ⟨responseFrame, hresponse⟩ := Option.isSome_iff_exists.mp hresponse
  obtain ⟨receiptFrame, hreceipt⟩ := Option.isSome_iff_exists.mp hreceipt
  refine ⟨⟨responseFrame, receiptFrame, view P row⟩, ?_, hresponse, hreceipt⟩
  unfold NodePairingControl.handshake
  rw [runAlone_bind_ok (runAlone_session hrow _)]
  simp only [hstate, if_true, replayHandshake, present, demand, hclaimed, hdigest, hresponse,
    hreceipt, okOr, Program.done_ok_bind, require, decide_true, hfrom, hto, Bool.and_self]
  rw [runAlone_bind_ok (runAlone_planned hplanned), runAlone_bind_ok (runAlone_session hrow _)]
  rfl

end Lifecycle

-- Whatever interleaves, the sessions keep their lifecycle. A session that was
-- confirmed is completed by another confirmation exactly if its grant can be
-- admitted.
theorem pairing_lifecycle (P : NodePlatform) (identity : IdentityBundle)
    (hjson : P.toPlatform.AcceptsJson) (hreads : ReadsCapabilities P.toPlatform) (y : PairingSystem)
    (hrun : Runs P identity fresh y) :
    Lifecycle P identity y ∧
      (∀ z, Runs P identity y z → ∀ id row, session? y.state.sessions id = some row →
        ∃ row', session? z.state.sessions id = some row' ∧ Evolves row row') ∧
      (∀ id row firstFrame draw now claimedAt, session? y.state.sessions id = some row →
        row.state = .claimed → row.claimedAtUnixMs = some claimedAt →
        row.firstFrameDigest = some (P.sha256 firstFrame) → row.plannedGrant.isSome = true →
        claimedAt.toInt ≤ now.toInt →
        now.toInt < (claimDeadline row.descriptor.expiresAtUnixMs claimedAt).toInt →
          ∃ result, runAlone P identity
              (NodePairingControl.handshake P identity id firstFrame draw now) y.state =
              (.ok result, y.state) ∧
            row.responseFrame = some result.responseFrame ∧
            row.receiptFrame = some result.receiptFrame) ∧
      ∀ id row hash draws now operation s, session? y.state.sessions id = some row →
        row.state = .confirmed → row.handshakeHash = some hash → 0 ≤ now.toInt →
        row.plannedGrant = some operation ∧ s = y.state ∨
          row.plannedGrant = none ∧
            runAlone P identity (plannedOrNewGrant P identity row now draws) y.state =
              (.ok operation, s) →
          Confirmation P y.state id operation (runAlone P identity
            (NodePairingControl.confirm P identity id (confirmationOctal P.toPrimitives hash)
              draws now) y.state) := by
  have hinv := hrun.invariant
  refine ⟨hrun.lifecycle, fun z hmore => (hrun.later hmore).sessions, ?_, ?_⟩
  · intro id row firstFrame draw now claimedAt hrow hstate hclaimed hdigest hplanned hfrom hto
    obtain ⟨operation, hplanned⟩ := Option.isSome_iff_exists.mp hplanned
    exact hinv.replay hrow hstate hclaimed hdigest hplanned hfrom hto
  · rintro id row hash draws now operation s hrow hstate hhash hnow
      (⟨hplanned, rfl⟩ | ⟨-, hplan⟩)
    · exact hinv.confirmation_retried hjson hreads hrow hstate hhash hnow
        (runAlone_planned hplanned)
    · exact hinv.confirmation_retried hjson hreads hrow hstate hhash hnow hplan

open Sample (admin admin_faithful guest identity material)

-- The session of the sample was confirmed before the node ended, and is completed
-- afterwards.
theorem pairing_lifecycle_guest : ∃ y : PairingSystem,
    Runs guest.platform identity fresh y ∧
      Lifecycle guest.platform identity y ∧
      ∃ row, session? y.state.sessions ⟨material.invitationId⟩ = some row ∧
        row.state = .confirmed ∧
        ∃ completed, session? (runAlone guest.platform identity
            (NodePairingControl.confirm guest.platform identity
              ⟨material.invitationId⟩ (confirmationOctal
                guest.platform.toPrimitives guest.handshakeHash) [] Sample.now)
            y.state).2.sessions ⟨material.invitationId⟩ = some completed ∧
          completed.state = .completed ∧
          completed.grantOperationId = some guest.grantOperationId := by
  obtain ⟨y, hrun, hstate, -⟩ := Sample.guest_faithful.runs_confirmed
  obtain ⟨hlifecycle, -, -, hretried⟩ := pairing_lifecycle guest.platform identity
    Sample.Exchange.Faithful.json Sample.guest_faithful.reads y hrun
  have hrow : session? y.state.sessions ⟨material.invitationId⟩ =
      some ((Sample.Exchange.Faithful.plannedRow guest).confirm Sample.now) := by
    rw [hstate]
    exact Sample.Exchange.Faithful.session?_single _
  have hconfirmation := hretried _ _ guest.handshakeHash [] Sample.now
    guest.grant.envelope y.state hrow rfl rfl Sample.Exchange.Faithful.now_nonneg
    (.inl ⟨rfl, rfl⟩)
  have hadmissible : Admissible guest.platform y.state.database
      guest.grant.envelope := by
    rw [hstate]
    exact Sample.guest_admissible
  obtain ⟨completed, hfound, hcompleted, hgrant⟩ :=
    hconfirmation.completes (hconfirmation.succeeds.mpr hadmissible)
  exact ⟨y, hrun, hlifecycle, _, hrow, rfl, completed, hfound, hcompleted, hgrant⟩

-- A template has up to six actions, and the table of the actions room for five.
theorem confirmed_grant_stays_out : ∃ (y : PairingSystem) (row : PairingSession)
    (hash : FixedBytes 32), Runs admin.platform identity fresh y ∧
      y.serving = true ∧ session? y.state.sessions row.invitationId = some row ∧
      row.state = .confirmed ∧ row.handshakeHash = some hash ∧ row.plannedGrant.isSome = true ∧
      ∀ draws now, 0 ≤ now.toInt →
        let outcome := runAlone admin.platform identity
          (NodePairingControl.confirm admin.platform identity row.invitationId
            (confirmationOctal admin.platform.toPrimitives hash) draws now) y.state
        outcome.1.isOk = false ∧ ∃ row', session? outcome.2.sessions row.invitationId = some row' ∧
          row'.state = .confirmed := by
  obtain ⟨y, hrun, hstate, hserving, -⟩ := admin_faithful.runs_confirmed
  have hrow : session? y.state.sessions ⟨material.invitationId⟩ =
      some ((Sample.Exchange.Faithful.plannedRow admin).confirm Sample.now) := by
    rw [hstate]
    exact Sample.Exchange.Faithful.session?_single _
  have hout : ¬ Admissible admin.platform y.state.database
      admin.grant.envelope := by
    rw [hstate]
    exact admin_faithful.not_admissible (by decide)
  refine ⟨y, (Sample.Exchange.Faithful.plannedRow admin).confirm Sample.now,
    admin.handshakeHash, hrun, hserving, hrow, rfl, rfl, rfl, ?_⟩
  intro draws now hnow outcome
  have hplan : runAlone admin.platform identity (plannedOrNewGrant
      admin.platform identity
      ((Sample.Exchange.Faithful.plannedRow admin).confirm Sample.now) now draws) y.state =
      (.ok admin.grant.envelope, y.state) := runAlone_planned rfl
  have hconfirmation := hrun.invariant.confirmation_retried Sample.Exchange.Faithful.json
    admin_faithful.reads hrow rfl rfl hnow hplan
  have hfails : outcome.1.isOk = false :=
    Bool.eq_false_iff.mpr fun hok => hout (hconfirmation.succeeds.mp hok)
  exact ⟨hfails, hconfirmation.waits hfails⟩

end Fractonica.Node
