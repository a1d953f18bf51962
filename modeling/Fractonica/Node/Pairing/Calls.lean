import Fractonica.Node.Pairing.Invariants

namespace Fractonica.Node

open Lib Trust DataModel Application Pairing Store List

section Contract

-- The session that a call confirms, and when it does.
def Call.confirmation : Call → Option (InvitationId × Int64)
  | .confirm id _ _ now => some (id, now)
  | .accept id _ _ now => some (id, now)
  | _ => none

-- The claim on the session has come to its end.
def Lapsed (id : InvitationId) (now : Int64) (s : NodeState) : Prop :=
  ∃ row claimedAt, session? s.sessions id = some row ∧ row.claimedAtUnixMs = some claimedAt ∧
    (claimDeadline row.descriptor.expiresAtUnixMs claimedAt).toInt ≤ now.toInt

def Unclaimed (id : InvitationId) (s : NodeState) : Prop :=
  ∀ row, session? s.sessions id = some row → row.claimedAtUnixMs = none

-- A confirmation that finds the session waiting for its grant is in time.
def OnTime (call : Call) (effect : Effect) (s : NodeState) : Prop :=
  ∀ id now, call.confirmation = some (id, now) → effect = .pairingSession id →
    ∀ row, session? s.sessions id = some row → row.awaitsGrant = true → ¬ Lapsed id now s

-- Nothing is admitted, and the session is not completed.
structure Withheld (id : InvitationId) (s s' : NodeState) : Prop where
  database : s'.database = s.database
  completed : ∀ row', session? s'.sessions id = some row' → row'.state = .completed →
    ∃ row, session? s.sessions id = some row ∧ row.state = .completed

variable (P : NodePlatform) (identity : IdentityBundle) (punctual : Prop)

-- The frames of a handshake are those of the claim that the session keeps.
def Claimed (id : InvitationId) (firstFrame : List UInt8) (result : PairingHandshakeResult)
    (s : NodeState) : Prop :=
  ∃ row, session? s.sessions id = some row ∧ row.claimedAtUnixMs.isSome = true ∧
    row.firstFrameDigest = some (P.sha256 firstFrame) ∧
    row.responseFrame = some result.responseFrame ∧ row.receiptFrame = some result.receiptFrame

def Completed (id : InvitationId) (shown : PairingSessionView) (s : NodeState) : Prop :=
  ∃ row, session? s.sessions id = some row ∧ row.state = .completed ∧ view P row = shown

def Answered (s : NodeState) : Call → Reply → Prop
  | .handshake id firstFrame _ _, .handshake result => Claimed P id firstFrame result s
  | .confirm id _ _ _, .session shown => Completed P id shown s
  | .accept id _ _ _, .session shown => Completed P id shown s
  | _, _ => True

def pairingContract : Contract Call Effect PairingControlError Reply NodeState where
  invariant := NodeInv P identity
  later := Later P
  allowed call effect s := punctual → OnTime call effect s
  guarantee call _ s s' := NodeInv P identity s' ∧ Later P s s' ∧ ∀ id now,
    call.confirmation = some (id, now) → Unclaimed id s ∨ punctual ∧ Lapsed id now s →
      Withheld id s s'
  post call result s := ∀ reply, result = .ok reply → Answered P s call reply

end Contract

section Withholding

variable {P : NodePlatform} {identity : IdentityBundle} {id : InvitationId}

-- Only these two admit a grant or complete a session.
def Effect.grants : Effect → Bool
  | .submitOperation _ _ => true
  | .completePairingSession _ _ _ => true
  | _ => false

theorem Withheld.refl (id : InvitationId) (s : NodeState) : Withheld id s s :=
  ⟨rfl, fun row hrow hstate => ⟨row, hrow, hstate⟩⟩

theorem QuietStep.completed (h : QuietStep P.toPeerPlatform row row')
    (hstate : row'.state = .completed) : row.state = .completed := by
  cases h with
  | touch state => exact state
  | _ => cases hstate

theorem withheld_of_quiet
    (h : Quiet P.toPeerPlatform s.sessions sessions) : Withheld id s { s with sessions } := by
  refine ⟨rfl, ?_⟩
  intro row' hrow' hstate
  obtain ⟨row, hrow, hstep⟩ := h.found hrow'
  rcases hstep with rfl | hstep
  · exact ⟨row', hrow, hstate⟩
  · exact ⟨row, hrow, QuietStep.completed hstep hstate⟩

theorem withheld_create (descriptor : InvitationDescriptor) (now : Int64) :
    Withheld id s (handle P s (.createPairingSession descriptor now)).2 := by
  refine settle_cases (motive := fun sessions => Withheld id s { s with sessions })
    (.refl id s) fun sessions session hcreate => ?_
  rcases createPairingSession_eq_ok hcreate with ⟨rfl, -, -⟩ | ⟨-, rfl, -, rfl⟩
  · exact .refl id s
  · refine ⟨rfl, ?_⟩
    intro row' hrow' hstate
    simp only [session?, find?_append] at hrow'
    cases hfound : session? s.sessions id with
    | some row =>
      rw [session?] at hfound
      rw [hfound, Option.some_or] at hrow'
      obtain rfl := Option.some.inj hrow'
      exact ⟨row, rfl, hstate⟩
    | none =>
      rw [session?] at hfound
      rw [hfound, Option.none_or] at hrow'
      rw [mem_singleton.mp (mem_of_find?_eq_some hrow')] at hstate
      cases hstate

theorem NodeInv.withheld_plan (h : NodeInv P identity s) (id' : InvitationId)
    (operation : OperationEnvelope) (now : Int64) :
    Withheld id s (handle P s (.planPairingGrant id' operation now)).2 := by
  refine settle_cases (motive := fun sessions => Withheld id s { s with sessions })
    (.refl id s) fun sessions session hplan => ?_
  obtain ⟨-, grant, row, -, hrow, -, -, -, hcase⟩ := h.sessions.plan_eq_ok hplan
  rcases hcase with ⟨-, -, rfl⟩ | ⟨-, rfl, -, rfl⟩
  · exact .refl id s
  · refine ⟨rfl, ?_⟩
    intro row' hrow' hstate
    rw [replaceSession, session?_map fun other _ => replaceSession_name _ other] at hrow'
    obtain ⟨other, hother, hsame⟩ := Option.map_eq_some_iff.mp hrow'
    split_ifs at hsame with hname
    · have hlookup := session?_of_mem h.sessions.names (session?_eq_some hother).1
      rw [hname, show (row.plan operation now).invitationId = row.invitationId from rfl,
        (session?_eq_some hrow).2, hrow, Option.some.injEq] at hlookup
      subst hlookup hsame
      exact ⟨row, hother, hstate⟩
    · subst hsame
      exact ⟨other, hother, hstate⟩

theorem NodeInv.withheld (h : NodeInv P identity s)
    (heffect : effect.grants = false) : Withheld id s (handle P s effect).2 := by
  cases effect with
  | submitOperation => cases heffect
  | completePairingSession => cases heffect
  | createPairingSession descriptor now => exact withheld_create descriptor now
  | planPairingGrant id' operation now => exact h.withheld_plan id' operation now
  | claimPairingSession arguments now =>
    exact withheld_of_quiet (h.sessions.quiet_claim arguments now)
  | confirmPairingSession id' hash now =>
    exact withheld_of_quiet (h.sessions.quiet_confirm id' hash now)
  | cancelPairingSession id' now => exact withheld_of_quiet (h.sessions.quiet_cancel id' now)
  | expirePairingSessions now => exact withheld_of_quiet (h.sessions.quiet_expire now)
  | touchPairingSession id' now => exact withheld_of_quiet (h.sessions.quiet_touch id' now)
  | storeSecret secret => exact ⟨rfl, fun row hrow hstate => ⟨row, hrow, hstate⟩⟩
  | removeSecret id' => exact ⟨rfl, fun row hrow hstate => ⟨row, hrow, hstate⟩⟩
  | _ => exact .refl id s

end Withholding

section Knowledge

variable {identity : IdentityBundle} {punctual : Prop} {call : Call} {s : NodeState}
  {id : InvitationId} {row : PairingSession} {firstFrame : List UInt8}

-- The session was this row, and has only moved on since.
def Known (id : InvitationId) (row : PairingSession) (s : NodeState) : Prop :=
  ∃ row', session? s.sessions id = some row' ∧ Evolves row row'

theorem known_of_found (h : session? s.sessions id = some row) : Known id row s :=
  ⟨row, h, .refl row⟩

theorem Known.later (h : Known id row s) (hlater : Later P s s') : Known id row s' := by
  obtain ⟨second, hsecond, hsteps⟩ := h
  obtain ⟨third, hthird, hmore⟩ := hlater.sessions id second hsecond
  exact ⟨third, hthird, hsteps.trans hmore⟩

theorem Known.claimedBy (h : Known id row s) (hclaimed : row.claimedAtUnixMs.isSome = true)
    {subject : ActorId} (hsubject : row.subjectActorId = some subject) :
    ClaimedBy id row.descriptor subject s := by
  obtain ⟨row', hrow', hevolves⟩ := h
  have hcolumns := hevolves.claim hclaimed
  have hat : row'.claimedAtUnixMs = row.claimedAtUnixMs :=
    congrArg ClaimColumns.claimedAtUnixMs hcolumns
  have hactor : row'.subjectActorId = row.subjectActorId :=
    congrArg ClaimColumns.subjectActorId hcolumns
  exact ⟨row', hrow', hat ▸ hclaimed, hevolves.descriptor, hactor.trans hsubject⟩

theorem Known.plannedAs (h : Known id row s) {operation : OperationEnvelope}
    (hplanned : row.plannedGrant = some operation) : PlannedAs id operation s := by
  obtain ⟨row', hrow', hevolves⟩ := h
  have hsome : row.plannedGrant.isSome = true := by
    rw [hplanned]
    rfl
  have hgrant : row'.plannedGrant = row.plannedGrant :=
    congrArg PlanColumns.plannedGrant (hevolves.plan hsome)
  exact ⟨row', hrow', hgrant.trans hplanned⟩

-- The claim that a session keeps is the claim of every later row.
theorem Known.claimed (h : Known id row s) (hclaimed : row.claimedAtUnixMs.isSome = true)
    (hdigest : row.firstFrameDigest = some (P.sha256 firstFrame))
    (hresponse : row.responseFrame = some result.responseFrame)
    (hreceipt : row.receiptFrame = some result.receiptFrame) :
    Claimed P id firstFrame result s := by
  obtain ⟨row', hrow', hevolves⟩ := h
  have hcolumns := hevolves.claim hclaimed
  have hat : row'.claimedAtUnixMs = row.claimedAtUnixMs :=
    congrArg ClaimColumns.claimedAtUnixMs hcolumns
  have hsame : row'.firstFrameDigest = row.firstFrameDigest :=
    congrArg ClaimColumns.firstFrameDigest hcolumns
  have hanswer : row'.responseFrame = row.responseFrame :=
    congrArg ClaimColumns.responseFrame hcolumns
  have hframe : row'.receiptFrame = row.receiptFrame :=
    congrArg ClaimColumns.receiptFrame hcolumns
  exact ⟨row', hrow', hat ▸ hclaimed, hsame.trans hdigest, hanswer.trans hresponse,
    hframe.trans hreceipt⟩

theorem Known.completed (h : Known id row s) (hstate : row.state = .completed) :
    Completed P id (view P row) s := by
  obtain ⟨row', hrow', hevolves⟩ := h
  have hterminal : row.isTerminal = true := by
    simp [PairingSession.isTerminal, hstate]
  have hsame := hevolves.terminal hterminal
  refine ⟨row', hrow', ?_, ?_⟩
  · rw [hsame]
    exact hstate
  · rw [hsame]
    rfl

theorem Claimed.later (h : Claimed P id firstFrame result s) (hlater : Later P s s') :
    Claimed P id firstFrame result s' := by
  obtain ⟨row, hrow, hclaimed, hdigest, hresponse, hreceipt⟩ := h
  exact ((known_of_found hrow).later hlater).claimed hclaimed hdigest hresponse hreceipt

theorem Completed.later (h : Completed P id shown s)
    (hlater : Later P s s') : Completed P id shown s' := by
  obtain ⟨row, hrow, hstate, rfl⟩ := h
  exact ((known_of_found hrow).later hlater).completed hstate

theorem Answered.later {reply : Reply} (h : Answered P s call reply) (hlater : Later P s s') :
    Answered P s' call reply := by
  cases call <;> cases reply <;>
    first | exact trivial | exact Claimed.later h hlater | exact Completed.later h hlater

-- The session of a confirmation is claimed, and its time has not run out.
def InTime (punctual : Prop) (call : Call) (s : NodeState) : Prop :=
  ∀ id now, call.confirmation = some (id, now) → ∃ row claimedAt,
    session? s.sessions id = some row ∧ row.claimedAtUnixMs = some claimedAt ∧
      (punctual → now.toInt < (claimDeadline row.descriptor.expiresAtUnixMs claimedAt).toInt)

theorem InTime.later (h : InTime punctual call s) (hlater : Later P s s') :
    InTime punctual call s' := by
  intro id now hcall
  obtain ⟨row, claimedAt, hrow, hclaimed, htime⟩ := h id now hcall
  obtain ⟨row', hrow', hevolves⟩ := hlater.sessions id row hrow
  have hsome : row.claimedAtUnixMs.isSome = true := by
    rw [hclaimed]
    rfl
  have hat : row'.claimedAtUnixMs = row.claimedAtUnixMs :=
    congrArg ClaimColumns.claimedAtUnixMs (hevolves.claim hsome)
  refine ⟨row', claimedAt, hrow', hat.trans hclaimed, ?_⟩
  rw [hevolves.descriptor]
  exact htime

theorem InTime.open (h : InTime punctual call s) {now : Int64}
    (hcall : call.confirmation = some (id, now)) :
    ¬ (Unclaimed id s ∨ punctual ∧ Lapsed id now s) := by
  obtain ⟨row, claimedAt, hrow, hclaimed, htime⟩ := h id now hcall
  rintro (hunclaimed | ⟨hpunctual, row', claimedAt', hrow', hclaimed', hlate⟩)
  · rw [hunclaimed row hrow] at hclaimed
    cases hclaimed
  · rw [hrow, Option.some.injEq] at hrow'
    subst hrow'
    rw [hclaimed, Option.some.injEq] at hclaimed'
    subst hclaimed'
    have hbefore := htime hpunctual
    omega

end Knowledge

section Rules

variable {P : NodePlatform} {identity : IdentityBundle} {punctual : Prop} {call : Call}
  {ε α β : Type} {s : NodeState} {effect : Effect}

variable (P identity punctual call) in
-- The call keeps the contract from here on, and returns only such values.
structure Ensures (Q : α → NodeState → Prop) (program : Program Effect Answer ε α)
    (s : NodeState) : Prop where
  keeps : program.Keeps (service P identity).handle (pairingContract P identity punctual).rely
    ((pairingContract P identity punctual).allowed call)
    ((pairingContract P identity punctual).guarantee call)
    (fun result s' => ∀ a, result = .ok a → Q a s') s

variable {Q : α → NodeState → Prop} {R : β → NodeState → Prop}

theorem Ensures.done (h : ∀ a, result = .ok a → Q a s) :
    Ensures P identity punctual call Q (Program.done result : Program Effect Answer ε α) s :=
  ⟨h⟩

theorem Ensures.mono {program : Program Effect Answer ε α}
    (h : Ensures P identity punctual call Q program s) (hQ : ∀ a s', Q a s' → Q' a s') :
    Ensures P identity punctual call Q' program s :=
  ⟨h.keeps.mono fun _ _ hpost a ha => hQ a _ (hpost a ha)⟩

theorem Ensures.bind {rest : α → Program Effect Answer ε β}
    (h : Ensures P identity punctual call
      (fun a s' => Ensures P identity punctual call R (rest a) s') first s) :
    Ensures P identity punctual call R (first >>= rest) s := by
  refine ⟨Program.Keeps.bind (h.keeps.mono ?_)⟩
  intro result s' hpost
  cases result with
  | ok a => exact (hpost a rfl).keeps
  | error e => exact fun b hb => nomatch hb

-- A step that only computes.
theorem Ensures.compute {rest : α → Program Effect Answer ε β}
    (h : ∀ a, result = .ok a → Ensures P identity punctual call R (rest a) s) :
    Ensures P identity punctual call R
      ((Program.done result : Program Effect Answer ε α) >>= rest) s :=
  .bind (.done h)

-- An effect that grants nothing needs only to be ready.
theorem Ensures.ask {rest : Answer effect → Program Effect Answer ε β}
    (hgrants : effect.grants = false)
    (h : ∀ s', NodeInv P identity s' → Later P s s' → (punctual → OnTime call effect s') →
      effect.Ready P identity s' ∧ ∀ s'', s'' = (handle P s' effect).2 → NodeInv P identity s'' →
        Later P s s'' → Ensures P identity punctual call R (rest (handle P s' effect).1) s'') :
    Ensures P identity punctual call R (Node.ask effect >>= rest) s := by
  constructor
  intro s' hrely hallowed
  obtain ⟨hready, hrest⟩ := h s' hrely.1 hrely.2 hallowed
  obtain ⟨hinv, hlater⟩ := hrely.1.after hready
  refine ⟨⟨hinv, hlater, fun id now _ _ => hrely.1.withheld hgrants⟩, ?_⟩
  exact (hrest _ rfl hinv (hrely.2.trans hlater)).keeps

-- One that grants must come in time.
theorem Ensures.ask_granting {rest : Answer effect → Program Effect Answer ε β}
    (h : ∀ s', NodeInv P identity s' → Later P s s' →
      effect.Ready P identity s' ∧ InTime punctual call s' ∧ ∀ s'',
          s'' = (handle P s' effect).2 → NodeInv P identity s'' → Later P s s'' →
          Ensures P identity punctual call R (rest (handle P s' effect).1) s'') :
    Ensures P identity punctual call R (Node.ask effect >>= rest) s := by
  constructor
  intro s' hrely _
  obtain ⟨hready, htime, hrest⟩ := h s' hrely.1 hrely.2
  obtain ⟨hinv, hlater⟩ := hrely.1.after hready
  refine ⟨⟨hinv, hlater, ?_⟩, (hrest _ rfl hinv (hrely.2.trans hlater)).keeps⟩
  intro id now hcall hclosed
  exact absurd hclosed (htime.open hcall)

theorem Ensures.lift {program : Durable α} (h : Ensures P identity punctual call Q program s) :
    Ensures P identity punctual call Q (Durable.lift program) s := by
  have hkeeps := h.keeps
  clear h
  constructor
  induction program generalizing s with
  | done result => exact fun a ha => hkeeps a (mapError_eq_ok.mp ha)
  | perform effect next ih =>
    intro s' hrely hallowed
    exact ⟨(hkeeps s' hrely hallowed).1, ih _ (hkeeps s' hrely hallowed).2⟩

theorem Ensures.replies {control : Control α}
    (h : Ensures P identity punctual call (fun a s' => Answered P s' call (wrap a)) control s) :
    (pairingContract P identity punctual).Keeps (service P identity) call (reply wrap control)
      s := by
  have hreply : Ensures P identity punctual call (fun value s' => Answered P s' call value)
      (reply wrap control) s := by
    refine Ensures.bind (h.mono ?_)
    intro a s' hanswered
    exact Ensures.done fun value hvalue => Except.ok.inj hvalue ▸ hanswered
  exact hreply.keeps

end Rules

section Programs

variable {identity : IdentityBundle} {id : InvitationId} {confirmed : PairingSession}
  {subject : ActorId} {now : Int64} {operation : OperationEnvelope} {firstFrame : List UInt8}
  {draw : HandshakeDraw} {arguments : ClaimArguments} {spaceId : SpaceId} {grant : OperationId}

theorem ensures_session (missing : PairingControlError) :
    Ensures P identity punctual call (fun row s' => NodeInv P identity s' ∧ Later P s s' ∧
      session? s'.sessions id = some row ∧ (punctual → OnTime call (.pairingSession id) s'))
      (session id missing) s := by
  refine Ensures.ask rfl ?_
  intro s' hinv hlater htime
  refine ⟨trivial, ?_⟩
  rintro s'' rfl - -
  exact Ensures.done fun row hrow => ⟨hinv, hlater, okOr_eq_ok.mp hrow, htime⟩

theorem isGrantOf_of_sign {entityId : EntityId} {nonce : FixedBytes 16}
    (h : signPlan P identity found (found.descriptor.capability.grantFor subject) entityId nonce
      now = .ok operation) : IsGrantOf P identity found.descriptor subject operation := by
  obtain ⟨hspace, hactor, -, -, hbody, hparents, hauthorization⟩ :=
    OperationEnvelope.fields_of_sign h
  exact ⟨OperationEnvelope.verify_of_sign h, hspace, hbody, hparents, hauthorization, hactor⟩

theorem NodeInv.planned_answer (h : NodeInv P identity s) {planned : OperationEnvelope}
    {session : PairingSession}
    (hanswer : (handle P s (.planPairingGrant id operation now)).1 = .ok session)
    (hplanned : session.plannedGrant = some planned) :
    PlannedAs id planned (handle P s (.planPairingGrant id operation now)).2 := by
  have hplan := settle_snd_eq_ok hanswer
  obtain ⟨-, grant, row, -, hrow, -, -, -, hcase⟩ := h.sessions.plan_eq_ok hplan
  refine ⟨session, ?_, hplanned⟩
  rcases hcase with ⟨rfl, -, hsessions⟩ | ⟨-, hsame, -, hsessions⟩
  · simp only [handle, onSessions, hsessions]
    exact hrow
  · simp only [handle, onSessions, hsessions]
    exact session?_replaced hrow (by rw [hsame]; rfl)

theorem ensures_planGrant (hknown : Known found.invitationId found s)
    (hclaimed : found.claimedAtUnixMs.isSome = true)
    (hsubject : found.subjectActorId = some subject) (now : Int64) (draws : List PlanDraw) :
    Ensures P identity punctual call (fun operation s' => NodeInv P identity s' ∧ Later P s s' ∧
      PlannedAs found.invitationId operation s')
      (planGrant P identity found (found.descriptor.capability.grantFor subject) now draws) s := by
  induction draws generalizing s with
  | nil => exact Ensures.done fun operation h => nomatch h
  | cons draw rest ih =>
    refine Ensures.ask rfl ?_
    intro s' hinv hlater _
    refine ⟨trivial, ?_⟩
    rintro s'' rfl - -
    refine Ensures.compute fun taken _ => ?_
    split_ifs with htaken
    · refine (ih (hknown.later hlater)).mono ?_
      exact fun operation s'' h => ⟨h.1, hlater.trans h.2.1, h.2.2⟩
    · refine Ensures.compute fun operation hoperation => ?_
      have hgrant := isGrantOf_of_sign (mapError_eq_ok.mp hoperation)
      refine Ensures.ask rfl ?_
      intro planning hinv' hlater' _
      refine ⟨⟨found.descriptor, subject, ?_, hgrant⟩, ?_⟩
      · exact (hknown.later (hlater.trans hlater')).claimedBy hclaimed hsubject
      rintro planned rfl hplanned hlater''
      refine Ensures.compute fun session hsession => ?_
      refine Ensures.done fun result hresult => ⟨hplanned, hlater.trans hlater'', ?_⟩
      exact hinv'.planned_answer (mapError_eq_ok.mp hsession) (okOr_eq_ok.mp hresult)

theorem ensures_plannedOrNewGrant (hinv : NodeInv P identity s)
    (hknown : Known found.invitationId found s) (hclaimed : found.claimedAtUnixMs.isSome = true)
    (now : Int64) (draws : List PlanDraw) :
    Ensures P identity punctual call (fun operation s' => NodeInv P identity s' ∧ Later P s s' ∧
      PlannedAs found.invitationId operation s')
      (plannedOrNewGrant P identity found now draws) s := by
  unfold plannedOrNewGrant
  cases hplanned : found.plannedGrant with
  | some planned =>
    refine Ensures.done fun operation hoperation => ⟨hinv, .refl s, ?_⟩
    obtain rfl := Except.ok.inj hoperation
    exact hknown.plannedAs hplanned
  | none =>
    refine Ensures.compute fun subject hsubject => ?_
    refine Ensures.compute fun grant hgrant => ?_
    obtain ⟨rfl, -⟩ := toGrant_eq_ok.mp (mapError_eq_ok.mp hgrant)
    refine Ensures.compute fun _ _ => ?_
    refine Ensures.compute fun _ _ => ?_
    exact ensures_planGrant hknown hclaimed (okOr_eq_ok.mp hsubject) now _

theorem ensures_replayHandshake (hinv : NodeInv P identity s)
    (hfound : session? s.sessions id = some found) (now : Int64) (draws : List PlanDraw) :
    Ensures P identity punctual call (fun result s' => Claimed P id firstFrame result s')
      (replayHandshake P identity found (P.sha256 firstFrame) now draws) s := by
  have hknown := known_of_found hfound
  obtain rfl := (session?_eq_some hfound).2
  refine Ensures.compute fun claimedAt hclaimedAt => ?_
  refine Ensures.compute fun expected hexpected => ?_
  refine Ensures.compute fun _ hchecks => ?_
  refine Ensures.compute fun responseFrame hresponse => ?_
  refine Ensures.compute fun receiptFrame hreceipt => ?_
  rw [okOr_eq_ok] at hclaimedAt hexpected hresponse hreceipt
  have hclaimed : found.claimedAtUnixMs.isSome = true := by
    rw [hclaimedAt]
    rfl
  have hdigest : found.firstFrameDigest = some (P.sha256 firstFrame) := by
    simp only [require_eq_ok, Bool.and_eq_true, decide_eq_true_eq] at hchecks
    rw [hexpected, hchecks.2]
  refine Ensures.bind ((ensures_plannedOrNewGrant hinv hknown hclaimed now draws).mono ?_)
  rintro _ s' ⟨-, hlater, -⟩
  refine Ensures.bind ((ensures_session .storage).mono ?_)
  rintro current s'' ⟨-, hlater', -, -⟩
  refine Ensures.done fun result hresult => ?_
  obtain rfl := Except.ok.inj hresult
  exact (hknown.later (hlater.trans hlater')).claimed hclaimed hdigest hresponse hreceipt

theorem ensures_invitationSecret :
    Ensures P identity punctual call (fun _ s' => Later P s s')
      (Durable.lift (DurablePairingStore.invitationSecret id)) s := by
  refine Ensures.lift ?_
  refine Ensures.ask rfl ?_
  intro s' _ _ _
  refine ⟨trivial, ?_⟩
  intro s'' _ _ hlater
  refine Ensures.compute fun _ _ => ?_
  exact Ensures.done fun _ _ => hlater

theorem claimOf_eq_ok {secret : ResponderInvitationSecret}
    (h : claimOf P identity found secret firstFrame draw = .ok arguments) :
    arguments.descriptor = found.descriptor ∧ arguments.firstFrameDigest = P.sha256 firstFrame := by
  simp only [claimOf, bind_eq_ok, Except.ok.injEq] at h
  obtain ⟨_, -, _, -, _, -, _, -, _, -, rfl⟩ := h
  exact ⟨rfl, rfl⟩

theorem NodeInv.claimed_answer (h : NodeInv P identity s) {claimed : PairingSession}
    (hanswer : (handle P s (.claimPairingSession arguments now)).1 = .ok claimed) :
    Known arguments.descriptor.invitationId claimed
        (handle P s (.claimPairingSession arguments now)).2 ∧
      claimed.invitationId = arguments.descriptor.invitationId ∧
      ∃ row : PairingSession, claimed = row.claim P.toPrimitives arguments now := by
  have hclaim : claimPairingSession P.toPeerPlatform s.sessions arguments now =
      ((claimPairingSession P.toPeerPlatform s.sessions arguments now).1, .ok claimed) :=
    Prod.ext rfl hanswer
  obtain ⟨-, row, hrow, -, -, rfl, -, hsessions⟩ := h.sessions.claim_eq_ok hclaim
  refine ⟨known_of_found ?_, (session?_eq_some hrow).2, row, rfl⟩
  simp only [handle, onSessions, hsessions]
  exact session?_replaced hrow rfl

theorem ensures_handshake :
    Ensures P identity punctual call (fun result s' => Claimed P id firstFrame result s')
      (NodePairingControl.handshake P identity id firstFrame draw now) s := by
  refine Ensures.bind ((ensures_session .notFound).mono ?_)
  rintro found s' ⟨hinv, -, hfound, -⟩
  have hdescriptor : found.descriptor.invitationId = id :=
    (hinv.rows found (session?_eq_some hfound).1).named.trans (session?_eq_some hfound).2
  split_ifs with hstate
  · exact ensures_replayHandshake hinv hfound now draw.plans
  · refine Ensures.compute fun _ _ => ?_
    refine Ensures.bind (ensures_invitationSecret.mono ?_)
    intro secret s'' _
    refine Ensures.compute fun arguments harguments => ?_
    obtain ⟨hsame, hdigest⟩ := claimOf_eq_ok harguments
    refine Ensures.ask rfl ?_
    intro claiming hinv' _ _
    refine ⟨trivial, ?_⟩
    intro s3 hs3 hinv3 _
    split
    · -- Another frame won, or the invitation has expired.
      refine Ensures.bind ((ensures_session .storage).mono ?_)
      rintro current s4 ⟨hinv4, -, hcurrent, -⟩
      exact ensures_replayHandshake hinv4 hcurrent now draw.plans
    · exact Ensures.done fun _ h => nomatch h
    · rename_i claimed hclaimed
      obtain ⟨hknown3, hname3, row, hrow⟩ := hinv'.claimed_answer hclaimed
      rw [hsame, hdescriptor] at hknown3 hname3
      rw [← hs3] at hknown3
      have hat : claimed.claimedAtUnixMs.isSome = true := by
        rw [hrow]
        rfl
      refine Ensures.bind ((ensures_plannedOrNewGrant hinv3 (hname3.symm ▸ hknown3) hat now
        draw.plans).mono ?_)
      rintro _ s4 ⟨-, hlater4, -⟩
      refine Ensures.bind ((ensures_session .storage).mono ?_)
      rintro current s5 ⟨-, hlater5, -, -⟩
      refine Ensures.done fun result hresult => ?_
      obtain rfl := Except.ok.inj hresult
      refine (hknown3.later (hlater4.trans hlater5)).claimed hat ?_ ?_ ?_
      · rw [hrow, ← hdigest]
        rfl
      · rw [hrow]
        rfl
      · rw [hrow]
        rfl

theorem isAdmitted_of_submit (h : Kept P.toPlatform db) {request : SubmitOperationRequest}
    (hanswer : (submitOperation P.toPlatform db spaceId request).2 = .ok result) :
    IsAdmitted P (submitOperation P.toPlatform db spaceId request).1 request.operation := by
  have hcases := submission P.toPlatform db spaceId request
  generalize submitOperation P.toPlatform db spaceId request = answer at hanswer hcases ⊢
  obtain ⟨db', answer⟩ := answer
  subst hanswer
  cases hcases with
  | @replayed now existing later valid found payload =>
    obtain ⟨hmem, -⟩ := h.sound.consistent.coherent.loadStored_sound found
    refine ⟨existing, hmem, ?_⟩
    unfold payloadOf
    rw [payload]
  | @inserted now later valid absent admission insertable =>
    have hmem := mem_append_right (admitted P.toPlatform db.tables)
      (mem_singleton_self
        (⟨db.tables.lastSequence + 1, now, request.operation⟩ : StoredOperation))
    rw [← admitted_insert h.sound valid.verified admission insertable] at hmem
    exact ⟨_, hmem, rfl⟩

theorem NodeInv.completed_answer (h : NodeInv P identity s)
    (hanswer : (handle P s (.completePairingSession id grant now)).1 = .ok completed) :
    Known id completed (handle P s (.completePairingSession id grant now)).2 ∧
      completed.state = .completed := by
  have hcomplete := settle_snd_eq_ok hanswer
  obtain ⟨-, row, hrow, -, -, -, -, rfl, hsessions⟩ := h.sessions.complete_eq_ok.mp hcomplete
  refine ⟨known_of_found ?_, rfl⟩
  simp only [handle, onSessions, hsessions]
  exact session?_replaced hrow rfl

theorem ensures_complete (hplanned : PlannedAs id operation s)
    (hadmitted : IsAdmitted P s.database operation) (htime : InTime punctual call s) :
    Ensures P identity punctual call (fun completed s' => Completed P id (view P completed) s')
      (Durable.lift (DurablePairingStore.complete id grant now)) s := by
  refine Ensures.lift ?_
  refine Ensures.ask_granting ?_
  intro s' hinv hlater
  refine ⟨⟨operation, hplanned.later hlater, hadmitted.grows hlater.database⟩,
    htime.later hlater, ?_⟩
  rintro s'' rfl _ _
  refine Ensures.compute fun completed hcompleted => ?_
  obtain ⟨hknown, hstate⟩ := hinv.completed_answer (mapError_eq_ok.mp hcompleted)
  refine Ensures.ask rfl ?_
  intro removing _ _ _
  refine ⟨trivial, ?_⟩
  intro s3 _ _ hlater'
  refine Ensures.done fun result hresult => ?_
  obtain rfl := Except.ok.inj hresult
  exact (hknown.later hlater').completed hstate

theorem ensures_admitGrant (hinv : NodeInv P identity s) (hknown : Known id confirmed s)
    (hname : confirmed.invitationId = id) (hclaimed : confirmed.claimedAtUnixMs.isSome = true)
    (htime : InTime punctual call s) :
    Ensures P identity punctual call (fun shown s' => Completed P id shown s')
      (NodePairingControl.admitGrant P identity id confirmed draws now) s := by
  subst hname
  refine Ensures.bind ((ensures_plannedOrNewGrant hinv hknown hclaimed now draws).mono ?_)
  rintro operation s' ⟨hinv', hlater', hplanned⟩
  refine Ensures.ask_granting ?_
  intro submitting hinv'' hlater''
  refine ⟨trivial, (htime.later hlater').later hlater'', ?_⟩
  rintro s3 rfl _ hlater3
  refine Ensures.compute fun result hresult => ?_
  have hadmitted := isAdmitted_of_submit hinv''.database (mapError_eq_ok.mp hresult)
  refine Ensures.bind ((ensures_complete (hplanned.later hlater3) hadmitted
    ((htime.later hlater').later hlater3)).mono ?_)
  intro completed s4 hcompleted
  refine Ensures.done fun shown hshown => ?_
  obtain rfl := Except.ok.inj hshown
  exact hcompleted

theorem NodeInv.claimed_of_awaitsGrant (h : NodeInv P identity s)
    (hrow : session? s.sessions id = some row) (hawaits : row.awaitsGrant = true) :
    row.claimedAtUnixMs.isSome = true := by
  have hchecked := checks_iff.mp (h.sessions.checks row (session?_eq_some hrow).1)
  apply claimedAt_of_isClaimed
  apply hchecked.isClaimed
  exact (awaitsGrant_iff.mp hawaits).imp_right .inl

-- The load of a waiting session decides whether the call is in time.
theorem inTime_of_load (hrow : session? s.sessions id = some row) (hawaits : row.awaitsGrant = true)
    (hclaimed : row.claimedAtUnixMs.isSome = true)
    (hcall : ∀ id' now', call.confirmation = some (id', now') → id' = id ∧ now' = now)
    (hload : punctual → OnTime call (.pairingSession id) s) : InTime punctual call s := by
  intro id' now' hconfirmation
  obtain ⟨rfl, rfl⟩ := hcall id' now' hconfirmation
  obtain ⟨claimedAt, hat⟩ := Option.isSome_iff_exists.mp hclaimed
  refine ⟨row, claimedAt, hrow, hat, ?_⟩
  intro hpunctual
  apply lt_of_not_ge
  intro hlate
  have hlapsed : Lapsed id' now' s := ⟨row, claimedAt, hrow, hat, hlate⟩
  exact hload hpunctual id' now' hconfirmation rfl row hrow hawaits hlapsed

theorem NodeInv.confirmed_answer (h : NodeInv P identity s) {hash : FixedBytes 32}
    (hanswer : (handle P s (.confirmPairingSession id hash now)).1 = .ok confirmed) :
    Known id confirmed (handle P s (.confirmPairingSession id hash now)).2 ∧
      confirmed.invitationId = id ∧ confirmed.claimedAtUnixMs.isSome = true := by
  have hconfirm := settle_snd_eq_ok hanswer
  obtain ⟨-, row, hrow, hstate, -, -, rfl, hsessions⟩ := h.sessions.confirm_eq_ok.mp hconfirm
  have hclaimed := h.claimed_of_awaitsGrant hrow (awaitsGrant_iff.mpr (.inl hstate))
  refine ⟨known_of_found ?_, (session?_eq_some hrow).2, hclaimed⟩
  simp only [handle, onSessions, hsessions]
  exact session?_replaced hrow rfl

theorem ensures_confirm
    (hcall : ∀ id' now', call.confirmation = some (id', now') → id' = id ∧ now' = now) :
    Ensures P identity punctual call (fun shown s' => Completed P id shown s')
      (NodePairingControl.confirm P identity id supplied draws now) s := by
  refine Ensures.bind ((ensures_session .notFound).mono ?_)
  rintro found s' ⟨hinv, -, hfound, hload⟩
  refine Ensures.compute fun hash _ => ?_
  refine Ensures.compute fun _ _ => ?_
  split
  · rename_i hstate
    refine Ensures.ask rfl ?_
    intro removing _ _ _
    refine ⟨trivial, ?_⟩
    intro s'' _ _ hlater
    refine Ensures.done fun shown hshown => ?_
    obtain rfl := Except.ok.inj hshown
    exact ((known_of_found hfound).later hlater).completed hstate
  · rename_i hstate
    have hawaits := awaitsGrant_iff.mpr (.inl hstate)
    have hclaimed := hinv.claimed_of_awaitsGrant hfound hawaits
    have htime := inTime_of_load hfound hawaits hclaimed hcall hload
    refine Ensures.ask rfl ?_
    intro confirming hinv' _ _
    refine ⟨trivial, ?_⟩
    rintro s'' rfl hinv'' hlater
    refine Ensures.compute fun confirmed hconfirmed => ?_
    obtain ⟨hknown, hname, hat⟩ := hinv'.confirmed_answer (mapError_eq_ok.mp hconfirmed)
    exact ensures_admitGrant hinv'' hknown hname hat (htime.later hlater)
  · rename_i hstate
    have hawaits := awaitsGrant_iff.mpr (.inr hstate)
    have hclaimed := hinv.claimed_of_awaitsGrant hfound hawaits
    exact ensures_admitGrant hinv (known_of_found hfound) (session?_eq_some hfound).2 hclaimed
      (inTime_of_load hfound hawaits hclaimed hcall hload)
  · exact Ensures.done fun _ h => nomatch h

theorem ensures_accept
    (hcall : ∀ id' now', call.confirmation = some (id', now') → id' = id ∧ now' = now) :
    Ensures P identity punctual call (fun shown s' => Completed P id shown s')
      (NodePairingControl.accept P identity id acceptance draws now) s := by
  refine Ensures.bind ((ensures_session .notFound).mono ?_)
  intro found s' _
  -- The checks of the acceptance.
  iterate 8 refine Ensures.compute fun _ _ => ?_
  exact ensures_confirm hcall

theorem ensures_removeSecrets (ids : List InvitationId) (removed : Nat) :
    Ensures P identity punctual call (fun _ _ => True) (removeSecrets ids removed) s := by
  induction ids generalizing s removed with
  | nil => exact Ensures.done fun _ _ => trivial
  | cons id rest ih =>
    refine Ensures.ask rfl ?_
    intro s' _ _ _
    refine ⟨trivial, ?_⟩
    intro s'' _ _ _
    exact ih _

theorem ensures_reconcile (now : Int64) :
    Ensures P identity punctual call (fun _ _ => True)
      (Durable.lift (DurablePairingStore.reconcile now)) s := by
  refine Ensures.lift ?_
  refine Ensures.ask rfl fun expiring _ _ _ => ⟨trivial, fun s1 _ _ _ => ?_⟩
  refine Ensures.compute fun _ _ => ?_
  refine Ensures.ask rfl fun listing _ _ _ => ⟨trivial, fun s2 _ _ _ => ?_⟩
  refine Ensures.compute fun _ _ => ?_
  refine Ensures.ask rfl fun naming _ _ _ => ⟨trivial, fun s3 _ _ _ => ?_⟩
  split
  · exact Ensures.done fun _ _ => trivial
  · refine Ensures.bind ((ensures_removeSecrets _ 0).mono ?_)
    intro removed s4 _
    exact Ensures.done fun _ _ => trivial

theorem ensures_cancel (now : Int64) :
    Ensures P identity punctual call (fun _ _ => True) (NodePairingControl.cancel P id now) s := by
  refine Ensures.bind (Ensures.lift ?_)
  refine Ensures.ask rfl fun cancelling _ _ _ => ⟨trivial, fun s1 _ _ _ => ?_⟩
  refine Ensures.compute fun _ _ => ?_
  refine Ensures.ask rfl fun removing _ _ _ => ⟨trivial, fun s2 _ _ _ => ?_⟩
  exact Ensures.done fun _ _ => Ensures.done fun _ _ => trivial

theorem ensures_authenticate (token : FixedBytes 32) (action : PeerTransportAction) (now : Int64) :
    Ensures P identity punctual call (fun _ _ => True)
      (NodePairingControl.authenticatePeerTransport P id token action now) s := by
  refine Ensures.bind ((ensures_session .unavailable).mono ?_)
  intro found s' _
  iterate 5 refine Ensures.compute fun _ _ => ?_
  refine Ensures.ask rfl fun authorizing _ _ _ => ⟨trivial, fun s1 _ _ _ => ?_⟩
  refine Ensures.compute fun _ _ => ?_
  refine Ensures.ask rfl fun touching _ _ _ => ⟨trivial, fun s2 _ _ _ => ?_⟩
  refine Ensures.compute fun _ _ => ?_
  exact Ensures.done fun _ _ => trivial

theorem ensures_create {issued : IssuedInvitation}
    (hspace : OwnSpace P identity s.database.tables issued.invitation.descriptor) :
    Ensures P identity punctual call (fun _ _ => True)
      (Durable.lift (DurablePairingStore.create issued now)) s := by
  refine Ensures.lift ?_
  refine Ensures.ask rfl fun storing _ hlater _ => ⟨trivial, fun s1 _ _ hlater1 => ?_⟩
  refine Ensures.compute fun replayed _ => ?_
  refine Ensures.ask rfl fun creating _ hlater2 _ => ⟨?_, fun s2 _ _ _ => ?_⟩
  · exact hspace.grows (hlater1.trans hlater2).database
  split
  · exact Ensures.done fun _ _ => trivial
  · split_ifs with hreplayed
    · refine Ensures.ask rfl fun removing _ _ _ => ⟨trivial, fun s3 _ _ _ => ?_⟩
      exact Ensures.done fun _ h => nomatch h
    · exact Ensures.done fun _ h => nomatch h

-- The invitation names the space that was looked up.
theorem NodeInv.ownSpace (h : NodeInv P identity s) {space : SpaceDescriptor}
    (hspace : loadSpace P.toPlatform s.database.tables spaceId = .ok (some space))
    (hcontroller : space.controllerActorId = identity.controller P)
    {descriptor : InvitationDescriptor} (hid : descriptor.spaceId = spaceId)
    (hgenesis : descriptor.genesisOperationId = space.genesisOperationId) :
    OwnSpace P identity s.database.tables descriptor := by
  unfold loadSpace at hspace
  cases hfound : spaceRow? s.database.tables spaceId with
  | none => simp [hfound] at hspace
  | some row =>
    have hrow : row ∈ s.database.tables.spaces := mem_of_find?_eq_some hfound
    have hname : row.spaceId = spaceId := of_decide_eq_true (find?_some hfound :)
    simp only [hfound, h.database.sound.spaces row hrow, ok_bind, Except.ok.injEq,
      Option.some.injEq] at hspace
    subst hspace
    exact ⟨row, hrow, hname.trans hid.symm, hgenesis.symm, hcontroller⟩

theorem ensures_createInvitation {request : PairingCreateCommand} {material : InvitationMaterial} :
    Ensures P identity punctual call (fun _ _ => True)
      (NodePairingControl.createInvitation P identity request material now) s := by
  refine Ensures.ask rfl fun loading hinv _ _ => ⟨trivial, ?_⟩
  rintro loaded rfl _ _
  refine Ensures.compute fun found hfound => ?_
  refine Ensures.compute fun space hspace => ?_
  refine Ensures.compute fun _ hscope => ?_
  refine Ensures.compute fun _ _ => ?_
  refine Ensures.compute fun issued hissued => ?_
  refine Ensures.compute fun qr _ => ?_
  have hload : loadSpace P.toPlatform loaded.database.tables request.spaceId =
      .ok (some space) := by
    rw [← okOr_eq_ok.mp hspace]
    exact mapError_eq_ok.mp hfound
  have hcontroller : space.controllerActorId = identity.controller P := by
    simp only [require_eq_ok, Bool.and_eq_true, decide_eq_true_eq] at hscope
    exact hscope.1.1.1.1
  obtain ⟨hdescriptor, -, -⟩ := issued_descriptor (mapError_eq_ok.mp hissued)
  have hown : OwnSpace P identity loaded.database.tables issued.invitation.descriptor := by
    rw [hdescriptor]
    exact hinv.ownSpace hload hcontroller rfl rfl
  refine Ensures.bind ((ensures_create hown).mono ?_)
  intro session s2 _
  exact Ensures.done fun _ _ => trivial

end Programs

section Holds

variable (P : NodePlatform) (identity : IdentityBundle) (punctual : Prop)

theorem pairingContract_bodies (call : Call) (s : NodeState) :
    (pairingContract P identity punctual).Keeps (service P identity) call
      ((service P identity).body call) s := by
  cases call with
  | reconcile now => exact ((ensures_reconcile now).mono fun _ _ _ => trivial).replies
  | createInvitation request material now =>
    exact (ensures_createInvitation.mono fun _ _ _ => trivial).replies
  | handshake id firstFrame draw now => exact ensures_handshake.replies
  | confirm id supplied draws now =>
    refine (ensures_confirm fun id' now' hcall => ?_).replies
    exact (Prod.mk.inj (Option.some.inj hcall)).imp Eq.symm Eq.symm
  | accept id acceptance draws now =>
    refine (ensures_accept fun id' now' hcall => ?_).replies
    exact (Prod.mk.inj (Option.some.inj hcall)).imp Eq.symm Eq.symm
  | cancel id now => exact ((ensures_cancel now).mono fun _ _ _ => trivial).replies
  | authenticatePeerTransport id token action now =>
    exact ((ensures_authenticate token action now).mono fun _ _ _ => trivial).replies

theorem pairingContract_holds :
    (pairingContract P identity punctual).Holds (service P identity) where
  refl := Later.refl
  trans _ _ _ := Later.trans
  stable _ _ _ _ hpost hlater reply hreply := (hpost reply hreply).later hlater
  guaranteed _ _ _ _ _ hguarantee := ⟨hguarantee.1, hguarantee.2.1⟩
  outside _ _ hinv hstep := hinv.outside hstep
  bodies call s _ := pairingContract_bodies P identity punctual call s

theorem good_fresh : (pairingContract P identity punctual).Good (service P identity) fresh where
  invariant := nodeInv_fresh
  tasks _ htask := nomatch htask
  answers _ hanswer := nomatch hanswer

end Holds

end Fractonica.Node
