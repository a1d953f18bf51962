import Fractonica.Application.Authorization.Theorems
import Mathlib.Data.List.Chain

namespace Fractonica.Application

open Lib Trust DataModel List

section Rules

-- The two rules under which a grant may be issued.
def attenuates (parent child : CapabilityGrant) : Bool :=
  parent.actions.contains .issueCapability && 0 < parent.delegationDepth &&
    child.delegationDepth < parent.delegationDepth && scopeIsNarrower parent child

def linksWorkspace (parent child : CapabilityGrant) : Bool :=
  parent.actions.contains .linkWorkspace && child.actions.contains .linkWorkspace &&
    !child.actions.contains .issueCapability && !child.actions.contains .revokeCapability &&
    child.delegationDepth = 0 && scopeIsNarrower parent child

theorem permitsDelegation_eq (parent child : CapabilityGrant) :
    permitsDelegation parent child = (attenuates parent child || linksWorkspace parent child) :=
  rfl

-- A grant that can neither issue by attenuation nor revoke.
structure Confined (grant : CapabilityGrant) : Prop where
  issue : CapabilityAction.issueCapability ∉ grant.actions
  revoke : CapabilityAction.revokeCapability ∉ grant.actions

variable {child : CapabilityGrant}

theorem attenuates_depth (h : attenuates parent child = true) :
    child.delegationDepth.toNat < parent.delegationDepth.toNat := by
  simp only [attenuates, Bool.and_eq_true, decide_eq_true_eq] at h
  exact h.1.2

theorem linksWorkspace_confined (h : linksWorkspace parent child = true) : Confined child := by
  simp only [linksWorkspace, Bool.and_eq_true, Bool.not_eq_eq_eq_not, Bool.not_true,
    contains_eq_mem, decide_eq_false_iff_not] at h
  exact ⟨h.1.1.1.2, h.1.1.2⟩

theorem Confined.attenuates_eq_false (h : Confined parent) (child : CapabilityGrant) :
    attenuates parent child = false := by
  have hissue : parent.actions.contains .issueCapability = false := by
    simpa using h.issue
  simp only [attenuates, hissue, Bool.false_and]

theorem Confined.permits_revoke (h : Confined parent) :
    (EffectiveAuthority.grant parent).permits .revoke = false := by
  simpa [EffectiveAuthority.permits] using h.revoke

-- What a confined grant issues is a workspace link, and confined again.
theorem Confined.issues (h : Confined parent) (hpermits : permitsDelegation parent child = true) :
    linksWorkspace parent child = true ∧ Confined child := by
  rw [permitsDelegation_eq, h.attenuates_eq_false, Bool.false_or] at hpermits
  exact ⟨hpermits, linksWorkspace_confined hpermits⟩

end Rules

section Chains

-- The pairs of neighbours.
def edges {α : Type} (chain : List α) : List (α × α) := chain.zip chain.tail

def attenuatedEdges (chain : List CapabilityGrant) : Nat :=
  (edges chain).countP fun edge => attenuates edge.1 edge.2

theorem edges_cons_cons (first second : α) (rest : List α) :
    edges (first :: second :: rest) = (first, second) :: edges (second :: rest) :=
  rfl

-- Every grant of the list may issue the next one.
def Delegates (chain : List CapabilityGrant) : Prop :=
  chain.IsChain fun parent child => permitsDelegation parent child = true

variable {below : List CapabilityGrant}

theorem Delegates.edge (h : Delegates chain) :
    ∀ edge ∈ edges chain, permitsDelegation edge.1 edge.2 = true := by
  induction chain with
  | nil => exact forall_mem_nil _
  | cons top below ih =>
    cases below with
    | nil => exact forall_mem_nil _
    | cons next rest =>
      obtain ⟨hpermits, hrest⟩ := isChain_cons_cons.mp h
      exact forall_mem_cons.mpr ⟨hpermits, ih hrest⟩

-- Below a confined grant every edge is a workspace link.
theorem Confined.chain (h : Confined top) (hchain : Delegates (top :: below)) :
    (∀ edge ∈ edges (top :: below), linksWorkspace edge.1 edge.2 = true) ∧
      ∀ grant ∈ top :: below, Confined grant := by
  induction below generalizing top with
  | nil => exact ⟨forall_mem_nil _, forall_mem_singleton.mpr h⟩
  | cons next rest ih =>
    obtain ⟨hpermits, hrest⟩ := isChain_cons_cons.mp hchain
    obtain ⟨hlinks, hnext⟩ := h.issues hpermits
    obtain ⟨hedges, hgrants⟩ := ih hnext hrest
    exact ⟨forall_mem_cons.mpr ⟨hlinks, hedges⟩, forall_mem_cons.mpr ⟨h, hgrants⟩⟩

theorem Confined.attenuatedEdges_eq (h : Confined top) (hchain : Delegates (top :: below)) :
    attenuatedEdges (top :: below) = 0 := by
  obtain ⟨-, hgrants⟩ := h.chain hchain
  rw [attenuatedEdges, countP_eq_zero]
  intro edge hedge
  have hparent : edge.1 ∈ top :: below := (of_mem_zip hedge).1
  rw [(hgrants edge.1 hparent).attenuates_eq_false]
  exact Bool.false_ne_true

-- An attenuated edge lowers the depth; any other edge is followed by none.
theorem attenuatedEdges_le (hchain : Delegates (top :: below)) :
    attenuatedEdges (top :: below) ≤ top.delegationDepth.toNat := by
  induction below generalizing top with
  | nil => exact Nat.zero_le _
  | cons next rest ih =>
    obtain ⟨hpermits, hrest⟩ := isChain_cons_cons.mp hchain
    have hcount : attenuatedEdges (top :: next :: rest) =
        attenuatedEdges (next :: rest) + if attenuates top next then 1 else 0 := by
      rw [attenuatedEdges, edges_cons_cons, countP_cons, attenuatedEdges]
    rw [hcount]
    by_cases hattenuates : attenuates top next = true
    · have hlower := attenuates_depth hattenuates
      have hnext := ih hrest
      rw [if_pos hattenuates]
      omega
    · rw [permitsDelegation_eq, Bool.or_eq_true] at hpermits
      have hconfined := linksWorkspace_confined (hpermits.resolve_left hattenuates)
      rw [if_neg hattenuates, hconfined.attenuatedEdges_eq hrest]
      exact Nat.zero_le _

end Chains

section Resolution

variable {P : Primitives} {view : CapabilityView} {now : Int64} {spaceId : SpaceId}

-- A grant of the view, by its reference.
structure Holds (view : CapabilityView) (spaceId : SpaceId)
    (node : OperationId × CapabilityGrant) (operation : OperationEnvelope) : Prop where
  found : view.operation spaceId node.1 = .ok (some operation)
  schema : operation.schema = .capabilityGrant
  body : operation.body = .capabilityGrant node.2

-- The first grant is one of the issuers that the second names.
def Issued (view : CapabilityView) (spaceId : SpaceId)
    (parent child : OperationId × CapabilityGrant) : Prop :=
  ∃ issuing issued, Holds view spaceId parent issuing ∧ Holds view spaceId child issued ∧
    parent.1 ∈ issued.authorization

-- A chain of issuers, from the top down, whose last grant resolves.
structure ResolvedChain (P : Primitives) (view : CapabilityView) (now : Int64) (spaceId : SpaceId)
    (chain : List (OperationId × CapabilityGrant)) : Prop where
  issued : chain.IsChain (Issued view spaceId)
  resolved : ∃ node ∈ chain.getLast?, ∃ fuel stack subject visits visits',
    resolve P view now spaceId fuel stack subject node.1 visits = .ok (.grant node.2, visits')

theorem Resolved.issued {child : OperationId × CapabilityGrant} {subject : ActorId}
    (h : Resolved P view now spaceId child.1 subject (.grant child.2))
    (hissued : Issued view spaceId parent child) :
    permitsDelegation parent.2 child.2 = true ∧
      ∃ issuer, Resolved P view now spaceId parent.1 issuer (.grant parent.2) := by
  obtain ⟨issuing, issued, hparent, hchild, hreference⟩ := hissued
  cases h with
  | grant hactive _ authority hissuers hpermitted =>
    cases hactive.found.symm.trans hchild.found
    have hissuer := hissuers parent.1 hreference
    have hpermits := hpermitted parent.1 hreference
    cases hauthority : authority parent.1 with
    | rootController =>
      rw [hauthority] at hissuer
      obtain ⟨operation, hroot, -⟩ := hissuer.trusted
      cases hroot.found.symm.trans hparent.found
      cases hroot.schema.symm.trans hparent.schema
    | grant held =>
      rw [hauthority] at hissuer hpermits
      obtain ⟨-, operation, hheld⟩ := hissuer.active
      cases hheld.found.symm.trans hparent.found
      cases hheld.body.symm.trans hparent.body
      exact ⟨hpermits, _, hissuer⟩

-- The whole chain is resolved, and every edge is permitted.
theorem Resolved.chain {chain : List (OperationId × CapabilityGrant)}
    (hissued : (top :: chain).IsChain (Issued view spaceId))
    (hlast : ∃ node ∈ (top :: chain).getLast?, ∃ subject,
      Resolved P view now spaceId node.1 subject (.grant node.2)) :
    (∃ subject, Resolved P view now spaceId top.1 subject (.grant top.2)) ∧
      Delegates ((top :: chain).map Prod.snd) := by
  induction chain generalizing top with
  | nil =>
    obtain ⟨node, hnode, hresolved⟩ := hlast
    cases hnode
    exact ⟨hresolved, List.IsChain.singleton _⟩
  | cons next rest ih =>
    obtain ⟨hedge, hrest⟩ := isChain_cons_cons.mp hissued
    obtain ⟨⟨subject, hresolved⟩, hdelegates⟩ := ih hrest hlast
    obtain ⟨hpermits, htop⟩ := hresolved.issued hedge
    exact ⟨htop, isChain_cons_cons.mpr ⟨hpermits, hdelegates⟩⟩

theorem ResolvedChain.delegates
    (h : ResolvedChain P view now spaceId chain) : Delegates (chain.map Prod.snd) := by
  obtain ⟨hissued, node, hnode, fuel, stack, subject, visits, visits', hresolve⟩ := h
  cases chain with
  | nil => cases hnode
  | cons top rest =>
    exact (Resolved.chain hissued ⟨node, hnode, subject, resolve_sound hresolve⟩).2

-- On a resolved chain the depth of a grant bounds the attenuated edges below
-- it, and below a workspace link there are only workspace links between grants
-- that can neither issue otherwise nor revoke.
theorem delegation_bounded (P : Primitives) (view : CapabilityView) (now : Int64)
    (spaceId : SpaceId) (chain : List (OperationId × CapabilityGrant))
    (h : ResolvedChain P view now spaceId chain) :
    (∀ edge ∈ edges (chain.map Prod.snd),
      attenuates edge.1 edge.2 = true ∨ linksWorkspace edge.1 edge.2 = true) ∧
    (∀ above top below, chain.map Prod.snd = above ++ top :: below →
      attenuatedEdges (top :: below) ≤ top.delegationDepth.toNat) ∧
    ∀ above parent child below, chain.map Prod.snd = above ++ parent :: child :: below →
      linksWorkspace parent child = true →
        (∀ edge ∈ edges (child :: below),
          linksWorkspace edge.1 edge.2 = true ∧ attenuates edge.1 edge.2 = false) ∧
        ∀ grant ∈ child :: below, (∀ issued, attenuates grant issued = false) ∧
          (EffectiveAuthority.grant grant).permits .revoke = false := by
  have hchain := h.delegates
  refine ⟨?_, ?_, ?_⟩
  · intro edge hedge
    have hpermits := hchain.edge edge hedge
    rwa [permitsDelegation_eq, Bool.or_eq_true] at hpermits
  · intro above top below hsplit
    rw [hsplit] at hchain
    exact attenuatedEdges_le hchain.right_of_append
  · intro above parent child below hsplit hlinks
    rw [hsplit] at hchain
    have hbelow := (isChain_cons_cons.mp hchain.right_of_append).2
    obtain ⟨hedges, hgrants⟩ := (linksWorkspace_confined hlinks).chain hbelow
    refine ⟨fun edge hedge => ⟨hedges edge hedge, ?_⟩, fun grant hgrant => ?_⟩
    · exact (hgrants edge.1 (of_mem_zip hedge).1).attenuates_eq_false edge.2
    · exact ⟨(hgrants grant hgrant).attenuates_eq_false, (hgrants grant hgrant).permits_revoke⟩

namespace Sample

open DataModel.Sample (writerGrant)

def link : CapabilityGrant where
  subject := DataModel.Sample.controller
  actions := [.readSpace, .writeContent, .linkWorkspace]
  schemas := []
  visibilities := []
  contentRoles := ["record.media"]
  maxResourceByteLength := some 1024
  notBeforeUnixMs := none
  expiresAtUnixMs := none
  delegationDepth := 0
  label := "link"

-- The writer links a workspace under its own grant.
def linkGrant : DataModel.Sample where
  key := DataModel.Sample.writerKey
  actorId := DataModel.Sample.writer
  entityId := DataModel.Sample.entity 6
  schema := .capabilityGrant
  authorization := [writerGrant.operationId]
  nonce := ⟨FixedBytes.replicate 16 6⟩
  body := .capabilityGrant link
  operationId := ⟨.ofNat 0x295abb7acb436cef6c1568f1cbad7ebd765a5ed4b483c99f47476a7adb968f60⟩
  signature :=
    ⟨toBE 32 0xd44d82586e281d11a59d7d8f92033df8685fdd76639a3f9343f796e199256bb5 ++
      toBE 32 0xb03bdecd831798455a07a30357db3f57db07036fefef82461445c80a3bd5ce0b, by decide⟩

def linkSamples : List DataModel.Sample :=
  [DataModel.Sample.genesis, writerGrant, linkGrant]

def linkPrimitives : Primitives := (DataModel.Sample.recording linkSamples).primitives

def linkView : CapabilityView where
  trustedGenesis _ := .ok (some DataModel.Sample.genesis.operationId)
  operation _ id := .ok ((linkSamples.map DataModel.Sample.envelope).find? (·.operationId = id))
  isRevoked _ _ := .ok false

theorem link_verifies : ∀ s ∈ linkSamples, s.envelope.verify linkPrimitives = .ok () := by
  decide +kernel

theorem linkView_genesis : TrustedRoot linkPrimitives linkView DataModel.Sample.spaceId
    DataModel.Sample.genesis.operationId DataModel.Sample.genesis.envelope where
  found := rfl
  verified := link_verifies _ mem_cons_self
  operationId := rfl
  inSpace := rfl
  schema := rfl
  body := rfl
  trusted := rfl

theorem linkView_writer : ∃ grant, writerGrant.body = .capabilityGrant grant ∧
    grant.subject = DataModel.Sample.writer ∧ linksWorkspace grant link = true ∧
    ActiveGrant linkPrimitives linkView 0 DataModel.Sample.spaceId
      writerGrant.operationId writerGrant.envelope grant := by
  have hverified : writerGrant.envelope.verify linkPrimitives = .ok () :=
    link_verifies _ (by simp [linkSamples])
  exact ⟨_, rfl, rfl, by decide, rfl, hverified, rfl, rfl, rfl, rfl, rfl, rfl⟩

theorem linkView_link : ActiveGrant linkPrimitives linkView 0 DataModel.Sample.spaceId
    linkGrant.operationId linkGrant.envelope link where
  found := rfl
  verified := link_verifies _ (by simp [linkSamples])
  operationId := rfl
  inSpace := rfl
  schema := rfl
  body := rfl
  unrevoked := rfl
  active := rfl

-- The link is resolved through the grant of the writer and the genesis.
theorem link_resolves : ∃ visits, resolve linkPrimitives linkView 0 DataModel.Sample.spaceId 3 []
    link.subject linkGrant.operationId 0 = .ok (.grant link, visits) := by
  obtain ⟨grant, -, hsubject, hlinks, hwriter⟩ := linkView_writer
  have hissuer : resolve linkPrimitives linkView 0 DataModel.Sample.spaceId 2
      [linkGrant.operationId] grant.subject writerGrant.operationId 1 =
        .ok (.grant grant, 3) :=
    resolve_grant_of_root hwriter linkView_genesis rfl rfl (by decide) (by decide)
      (by decide)
  rw [hsubject] at hissuer
  have hset : resolveSet (resolve linkPrimitives linkView 0 DataModel.Sample.spaceId 2
      [linkGrant.operationId] linkGrant.envelope.actorId) linkGrant.envelope.authorization 1 =
        .ok ([.grant grant], 3) := by
    have hactor : linkGrant.envelope.actorId = DataModel.Sample.writer := rfl
    have hauthorization : linkGrant.envelope.authorization =
        [writerGrant.operationId] := rfl
    rw [hactor, hauthorization]
    simp [resolveSet, resolveEach, require, hissuer]
  have hpermits : permitsDelegation grant link = true := by
    rw [permitsDelegation_eq, hlinks, Bool.or_true]
  have hall : [EffectiveAuthority.grant grant].all (·.permits (.issue link)) = true := by
    simp only [all_cons, all_nil, Bool.and_true]
    exact hpermits
  exact ⟨3, resolve_grant linkView_link (by decide) not_mem_nil hset hall⟩

end Sample

open DataModel.Sample (spaceId writerGrant)

-- The edge from the writer to the link is a workspace link, and the link can
-- neither issue otherwise nor revoke.
theorem delegation_bounded_link :
    ∃ grant, writerGrant.body = .capabilityGrant grant ∧
      linksWorkspace grant Sample.link = true ∧
      attenuatedEdges [grant, Sample.link] ≤ grant.delegationDepth.toNat ∧
      (∀ issued, attenuates Sample.link issued = false) ∧
      (EffectiveAuthority.grant Sample.link).permits .revoke = false := by
  obtain ⟨grant, hbody, -, hlinks, hwriter⟩ := Sample.linkView_writer
  obtain ⟨visits, hresolve⟩ := Sample.link_resolves
  have hissued : Issued Sample.linkView spaceId
      (writerGrant.operationId, grant)
      (Sample.linkGrant.operationId, Sample.link) :=
    ⟨_, _, ⟨hwriter.found, rfl, hbody⟩, ⟨Sample.linkView_link.found, rfl, rfl⟩,
      mem_cons_self⟩
  have hchain : ResolvedChain Sample.linkPrimitives Sample.linkView 0 spaceId
      [(writerGrant.operationId, grant),
        (Sample.linkGrant.operationId, Sample.link)] :=
    ⟨isChain_cons_cons.mpr ⟨hissued, List.IsChain.singleton _⟩, _, rfl, 3, [], _, 0, visits,
      hresolve⟩
  obtain ⟨-, hdepth, hconfined⟩ := delegation_bounded _ _ _ _ _ hchain
  obtain ⟨-, hgrants⟩ := hconfined [] grant Sample.link [] rfl hlinks
  obtain ⟨hissue, hrevoke⟩ := hgrants Sample.link mem_cons_self
  exact ⟨grant, hbody, hlinks, hdepth [] grant [Sample.link] rfl, hissue, hrevoke⟩

end Resolution

section Completeness

-- One use of a grant. The fields that an action does not look at are free.
structure Request where
  action : CapabilityAction
  schema : EntitySchema
  visibility : Visibility
  contentRole : String
  byteLength : UInt64
  nowUnixMs : Int64

-- What a grant says about a use. Only the client schemas have a visibility.
def permitsRequest (grant : CapabilityGrant) (request : Request) : Bool :=
  grant.actions.contains request.action && windowContains grant request.nowUnixMs &&
    match request.action with
    | .appendOperation => grant.schemas.contains request.schema &&
        (!request.schema.isClient || grant.visibilities.contains request.visibility)
    | .writeContent => grant.contentRoles.contains request.contentRole &&
        grant.maxResourceByteLength.any fun most => request.byteLength.toNat ≤ most.toNat
    | _ => true

variable {parent child : CapabilityGrant}

theorem le_maxValue (time : Int64) : time.toInt ≤ Int64.maxValue.toInt := by
  have hlt := time.toInt_lt
  have hmax : Int64.maxValue.toInt = 2 ^ 63 - 1 := by decide
  omega

theorem windowContains_iff {grant : CapabilityGrant} {now : Int64} :
    windowContains grant now = true ↔
      (∀ start ∈ grant.notBeforeUnixMs, start.toInt ≤ now.toInt) ∧
        ∀ finish ∈ grant.expiresAtUnixMs, now.toInt < finish.toInt := by
  simp [windowContains, Option.all_eq_true]

-- The window of a valid grant is not empty.
theorem exists_windowContains {grant : CapabilityGrant} (h : grant.Valid P) :
    ∃ now, windowContains grant now = true := by
  cases hstart : grant.notBeforeUnixMs with
  | some start =>
    exact ⟨start, windowContains_iff.mpr ⟨by simp [hstart], h.window start hstart⟩⟩
  | none =>
    refine ⟨Int64.minValue, windowContains_iff.mpr ⟨by simp [hstart], ?_⟩⟩
    intro finish hfinish
    have hnonneg := h.expiresAt finish hfinish
    have hmin : Int64.minValue.toInt = -2 ^ 63 := by decide
    omega

-- The bounds of a valid grant are as wide as its window says.
theorem bounds_of_window (hparent : parent.Valid P) (hchild : child.Valid P)
    (h : ∀ now, windowContains child now = true → windowContains parent now = true) :
    lowerBoundIsNarrower child.notBeforeUnixMs parent.notBeforeUnixMs = true ∧
      upperBoundIsNarrower child.expiresAtUnixMs parent.expiresAtUnixMs = true := by
  simp only [windowContains_iff] at h
  refine ⟨?_, ?_⟩
  · cases hstart : parent.notBeforeUnixMs with
    | none => cases child.notBeforeUnixMs <;> rfl
    | some start =>
      cases hown : child.notBeforeUnixMs with
      | some own =>
        have hinside := h own ⟨by simp [hown], hchild.window own hown⟩
        exact decide_eq_true (hinside.1 start hstart)
      | none =>
        have hmin : Int64.minValue.toInt = -2 ^ 63 := by decide
        have hbefore : ∀ finish ∈ child.expiresAtUnixMs,
            Int64.minValue.toInt < finish.toInt := by
          intro finish hfinish
          have hnonneg := hchild.expiresAt finish hfinish
          omega
        have hinside := h Int64.minValue ⟨by simp [hown], hbefore⟩
        have hle := hinside.1 start hstart
        have hnonneg := hparent.notBefore start hstart
        omega
  · cases hfinish : parent.expiresAtUnixMs with
    | none => cases child.expiresAtUnixMs <;> rfl
    | some finish =>
      cases hown : child.expiresAtUnixMs with
      | some own =>
        have hnonneg := hchild.expiresAt own hown
        have hless := own.toInt_lt
        have hexact : (Int64.ofInt (own.toInt - 1)).toInt = own.toInt - 1 :=
          Int64.toInt_ofInt_of_le (by omega) (by omega)
        have hafter : ∀ start ∈ child.notBeforeUnixMs,
            start.toInt ≤ (Int64.ofInt (own.toInt - 1)).toInt := by
          intro start hstart
          have hwindow := hchild.window start hstart own hown
          omega
        have hlt : ∀ last ∈ child.expiresAtUnixMs,
            (Int64.ofInt (own.toInt - 1)).toInt < last.toInt := by
          intro last hlast
          cases hown.symm.trans (Option.mem_def.mp hlast)
          omega
        have hinside := h (Int64.ofInt (own.toInt - 1)) ⟨hafter, hlt⟩
        have hbefore := hinside.2 finish hfinish
        exact decide_eq_true (by omega)
      | none =>
        have hinside := h Int64.maxValue ⟨fun start _ => le_maxValue start, by simp [hown]⟩
        have hbefore := hinside.2 finish hfinish
        have hle := le_maxValue finish
        omega

-- The scope of a valid grant, written out.
theorem valid_scope {grant : CapabilityGrant} (h : grant.Valid P) :
    (CapabilityAction.appendOperation ∈ grant.actions ↔ grant.schemas ≠ []) ∧
      ((∃ schema ∈ grant.schemas, schema.isClient = true) ↔ grant.visibilities ≠ []) ∧
      (CapabilityAction.writeContent ∈ grant.actions ↔
        grant.contentRoles ≠ [] ∧ grant.maxResourceByteLength.isSome = true) := by
  have hscope := h.scope
  simp only [CapabilityGrant.validateScope, bind_eq_ok, require_eq_ok, decide_eq_true_eq] at hscope
  obtain ⟨-, happend, -, hvisible, hcontent⟩ := hscope
  refine ⟨?_, ?_, ?_⟩
  · rw [← contains_iff_mem, happend]
    simp
  · rw [← any_eq_true, hvisible]
    simp
  · rw [← contains_iff_mem, hcontent]
    simp

-- Whatever a valid grant lists it permits in some request.
theorem exists_request {grant : CapabilityGrant} (h : grant.Valid P)
    (haction : action ∈ grant.actions) {now : Int64} (hnow : windowContains grant now = true) :
    ∃ request, request.action = action ∧ request.nowUnixMs = now ∧
      permitsRequest grant request = true := by
  obtain ⟨happend, hvisible, hcontent⟩ := valid_scope h
  cases action with
  | appendOperation =>
    obtain ⟨schema, hschema⟩ := exists_mem_of_ne_nil _ (happend.mp haction)
    by_cases hclient : schema.isClient = true
    · obtain ⟨visibility, hvisibility⟩ :=
        exists_mem_of_ne_nil _ (hvisible.mp ⟨schema, hschema, hclient⟩)
      exact ⟨⟨.appendOperation, schema, visibility, "", 0, now⟩, rfl, rfl,
        by simp [permitsRequest, haction, hnow, hschema, hvisibility]⟩
    · exact ⟨⟨.appendOperation, schema, .pub, "", 0, now⟩, rfl, rfl,
        by simp [permitsRequest, haction, hnow, hschema, hclient]⟩
  | writeContent =>
    obtain ⟨hroles, hsome⟩ := hcontent.mp haction
    obtain ⟨role, hrole⟩ := exists_mem_of_ne_nil _ hroles
    obtain ⟨most, hmost⟩ := Option.isSome_iff_exists.mp hsome
    exact ⟨⟨.writeContent, .record, .pub, role, 0, now⟩, rfl, rfl,
      by simp [permitsRequest, haction, hnow, hrole, hmost]⟩
  | _ => exact ⟨⟨_, .record, .pub, "", 0, now⟩, rfl, rfl,
      by simp [permitsRequest, haction, hnow]⟩

-- Every request that the child permits is one that the parent permits.
def Contained (child parent : CapabilityGrant) : Prop :=
  ∀ request, permitsRequest child request = true → permitsRequest parent request = true

theorem permitsRequest_iff {grant : CapabilityGrant} {request : Request} :
    permitsRequest grant request = true ↔
      request.action ∈ grant.actions ∧ windowContains grant request.nowUnixMs = true ∧
        (request.action = .appendOperation → request.schema ∈ grant.schemas ∧
          (request.schema.isClient = true → request.visibility ∈ grant.visibilities)) ∧
        (request.action = .writeContent → request.contentRole ∈ grant.contentRoles ∧
          ∃ most ∈ grant.maxResourceByteLength, request.byteLength.toNat ≤ most.toNat) := by
  obtain ⟨action, schema, visibility, role, length, now⟩ := request
  cases action with
  | appendOperation =>
    cases hclient : schema.isClient <;> simp [permitsRequest, hclient, and_assoc]
  | writeContent => simp [permitsRequest, and_assoc, Option.any_eq_true]
  | _ => simp [permitsRequest]

theorem Contained.window (h : Contained child parent) (hchild : child.Valid P) :
    ∀ now, windowContains child now = true → windowContains parent now = true := by
  intro now hnow
  obtain ⟨action, haction⟩ := exists_mem_of_ne_nil _ hchild.nonempty
  obtain ⟨request, -, rfl, hrequest⟩ := exists_request hchild haction hnow
  exact (permitsRequest_iff.mp (h request hrequest)).2.1

theorem Contained.actions (h : Contained child parent) (hchild : child.Valid P) :
    child.actions ⊆ parent.actions := by
  intro action haction
  obtain ⟨now, hnow⟩ := exists_windowContains hchild
  obtain ⟨request, rfl, -, hrequest⟩ := exists_request hchild haction hnow
  exact (permitsRequest_iff.mp (h request hrequest)).1

theorem Contained.append (h : Contained child parent) (hchild : child.Valid P) :
    child.schemas ⊆ parent.schemas ∧ child.visibilities ⊆ parent.visibilities := by
  obtain ⟨now, hnow⟩ := exists_windowContains hchild
  obtain ⟨happend, hvisible, -⟩ := valid_scope hchild
  have hone : ∀ schema ∈ child.schemas, ∀ visibility,
      (schema.isClient = true → visibility ∈ child.visibilities) →
      schema ∈ parent.schemas ∧ (schema.isClient = true → visibility ∈ parent.visibilities) := by
    intro schema hschema visibility hvisibility
    have haction := happend.mpr (ne_nil_of_mem hschema)
    have hrequest := h ⟨.appendOperation, schema, visibility, "", 0, now⟩
      (permitsRequest_iff.mpr ⟨haction, hnow, fun _ => ⟨hschema, hvisibility⟩, fun hother => by
        cases hother⟩)
    exact (permitsRequest_iff.mp hrequest).2.2.1 rfl
  refine ⟨?_, ?_⟩
  · intro schema hschema
    by_cases hclient : schema.isClient = true
    · obtain ⟨visibility, hvisibility⟩ :=
        exists_mem_of_ne_nil _ (hvisible.mp ⟨schema, hschema, hclient⟩)
      exact (hone schema hschema visibility fun _ => hvisibility).1
    · exact (hone schema hschema .pub fun hother => absurd hother hclient).1
  · intro visibility hvisibility
    obtain ⟨schema, hschema, hclient⟩ := hvisible.mpr (ne_nil_of_mem hvisibility)
    exact (hone schema hschema visibility fun _ => hvisibility).2 hclient

theorem Contained.content (h : Contained child parent) (hchild : child.Valid P)
    (hwrite : CapabilityAction.writeContent ∈ child.actions) :
    child.contentRoles ⊆ parent.contentRoles ∧
      maximumIsNarrower child.maxResourceByteLength parent.maxResourceByteLength = true := by
  obtain ⟨now, hnow⟩ := exists_windowContains hchild
  obtain ⟨-, -, hcontent⟩ := valid_scope hchild
  obtain ⟨hroles, hsome⟩ := hcontent.mp hwrite
  obtain ⟨own, hown⟩ := Option.isSome_iff_exists.mp hsome
  have hone : ∀ role ∈ child.contentRoles, role ∈ parent.contentRoles ∧
      ∃ most ∈ parent.maxResourceByteLength, own.toNat ≤ most.toNat := by
    intro role hrole
    have hrequest := h ⟨.writeContent, .record, .pub, role, own, now⟩
      (permitsRequest_iff.mpr ⟨hwrite, hnow, fun hother => (by cases hother),
        fun _ => ⟨hrole, own, hown, le_rfl⟩⟩)
    exact (permitsRequest_iff.mp hrequest).2.2.2 rfl
  refine ⟨fun role hrole => (hone role hrole).1, ?_⟩
  obtain ⟨role, hrole⟩ := exists_mem_of_ne_nil _ hroles
  obtain ⟨-, most, hmost, hle⟩ := hone role hrole
  rw [hown, Option.mem_def.mp hmost]
  exact decide_eq_true hle

theorem maximumIsNarrower_iff :
    maximumIsNarrower own most = true ↔
      ∀ bound ∈ most, ∃ limit ∈ own, limit.toNat ≤ bound.toNat := by
  cases own <;> cases most <;> simp [maximumIsNarrower, boundIsNarrower]

-- A grant may be issued from every grant that contains it, if it writes content
-- or lists its roles and its limit all the same.
theorem delegation_complete_iff (P : Primitives) (parent child : CapabilityGrant)
    (hparent : parent.validate P = .ok ()) (hchild : child.validate P = .ok ())
    (hissue : CapabilityAction.issueCapability ∈ parent.actions)
    (hpositive : 0 < parent.delegationDepth)
    (hdepth : child.delegationDepth < parent.delegationDepth)
    (hcontained : Contained child parent) :
    permitsDelegation parent child = true ↔
      CapabilityAction.writeContent ∈ child.actions ∨
        (child.contentRoles ⊆ parent.contentRoles ∧
          ∀ most ∈ parent.maxResourceByteLength,
            ∃ own ∈ child.maxResourceByteLength, own.toNat ≤ most.toNat) := by
  have hvalid := CapabilityGrant.valid_of_validate hparent
  have hvalid' := CapabilityGrant.valid_of_validate hchild
  obtain ⟨hlower, hupper⟩ := bounds_of_window hvalid hvalid' (hcontained.window hvalid')
  obtain ⟨hschemas, hvisibilities⟩ := hcontained.append hvalid'
  constructor
  · intro hpermits
    obtain ⟨-, -, -, hroles, hmaximum, -⟩ :=
      (scopeIsNarrower_iff hvalid).mp (permitsDelegation_imp hpermits).1
    exact .inr ⟨hroles, maximumIsNarrower_iff.mp hmaximum⟩
  · intro hlisted
    have hcontent : child.contentRoles ⊆ parent.contentRoles ∧
        maximumIsNarrower child.maxResourceByteLength parent.maxResourceByteLength = true := by
      rcases hlisted with hwrite | ⟨hroles, hmaximum⟩
      · exact hcontained.content hvalid' hwrite
      · exact ⟨hroles, maximumIsNarrower_iff.mpr hmaximum⟩
    have hscope := (scopeIsNarrower_iff hvalid).mpr ⟨hcontained.actions hvalid', hschemas,
      hvisibilities, hcontent.1, hcontent.2, hlower, hupper⟩
    rw [permitsDelegation_eq, attenuates, hscope]
    simp [hissue, hpositive, hdepth]

namespace Sample

-- A grant of the sample's writer, which may issue others.
def issuer : CapabilityGrant where
  subject := DataModel.Sample.writer
  actions := [.issueCapability, .readSpace, .writeContent]
  schemas := []
  visibilities := []
  contentRoles := ["record.media"]
  maxResourceByteLength := some 1024
  notBeforeUnixMs := none
  expiresAtUnixMs := none
  delegationDepth := 1
  label := "issuer"

-- The same without the right to issue.
def uploader : CapabilityGrant :=
  { issuer with actions := [.readSpace, .writeContent], delegationDepth := 0 }

-- The same without any content.
def reader : CapabilityGrant :=
  { issuer with actions := [.readSpace], contentRoles := [], maxResourceByteLength := none,
                delegationDepth := 0 }

theorem issuer_validates : issuer.validate DataModel.Sample.primitives = .ok () := rfl

theorem uploader_contained : Contained uploader issuer := by
  intro request hrequest
  obtain ⟨haction, -, -, hwrite⟩ := permitsRequest_iff.mp hrequest
  refine permitsRequest_iff.mpr ⟨mem_cons_of_mem _ haction, rfl, ?_, hwrite⟩
  intro happend
  rw [happend] at haction
  exact absurd haction (by decide)

theorem reader_contained : Contained reader issuer := by
  intro request hrequest
  obtain ⟨haction, -, -, -⟩ := permitsRequest_iff.mp hrequest
  have hread : request.action = .readSpace := mem_singleton.mp haction
  refine permitsRequest_iff.mpr ⟨?_, rfl, ?_, ?_⟩
  · rw [hread]
    decide
  · rw [hread]
    rintro ⟨⟩
  · rw [hread]
    rintro ⟨⟩

end Sample

open DataModel.Sample (primitives)

-- The right to issue is given up alone.
theorem delegation_complete_uploader :
    Contained Sample.uploader Sample.issuer ∧
      permitsDelegation Sample.issuer Sample.uploader = true :=
  ⟨Sample.uploader_contained,
    (delegation_complete_iff primitives Sample.issuer Sample.uploader
      Sample.issuer_validates rfl (by decide) (by decide) (by decide)
      Sample.uploader_contained).mpr (.inl (by decide))⟩

-- A reader's grant is contained in the issuer's but may not be issued from it.
theorem reader_not_delegated :
    Sample.issuer.validate primitives = .ok () ∧
      Sample.reader.validate primitives = .ok () ∧
      CapabilityAction.issueCapability ∈ Sample.issuer.actions ∧
      0 < Sample.issuer.delegationDepth ∧
      Sample.reader.delegationDepth < Sample.issuer.delegationDepth ∧
      Contained Sample.reader Sample.issuer ∧
      CapabilityAction.writeContent ∈ Sample.issuer.actions ∧
      CapabilityAction.writeContent ∉ Sample.reader.actions ∧
      permitsDelegation Sample.issuer Sample.reader = false :=
  ⟨Sample.issuer_validates, rfl, by decide, by decide, by decide, Sample.reader_contained,
    by decide, by decide, by decide⟩

end Completeness

section Grants

variable {α β : Type}

-- A sorted set is what sorting makes of it in any order.
theorem sortBy_eq [LinearOrder β] {key : α → β} (hkey : Function.Injective key)
    {values sorted : List α} (hperm : values.Perm sorted)
    (hsorted : (sorted.map key).Pairwise (fun left right => left < right)) :
    sortBy key values = sorted := by
  have hle : sorted.Pairwise fun left right => decide (key left ≤ key right) = true := by
    rw [pairwise_map] at hsorted
    exact hsorted.imp fun hlt => decide_eq_true hlt.le
  have hpairwise : (sortBy key values).Pairwise
      fun left right => decide (key left ≤ key right) = true := by
    apply pairwise_mergeSort
    · intro a b c hab hbc
      exact decide_eq_true ((of_decide_eq_true hab).trans (of_decide_eq_true hbc))
    · intro a b
      simpa using le_total (key a) (key b)
  apply List.Perm.eq_of_pairwise ?_ hpairwise hle ((mergeSort_perm _ _).trans hperm)
  intro a b _ _ hab hba
  exact hkey (le_antisymm (of_decide_eq_true hab) (of_decide_eq_true hba))

-- The same grant with its sets in some other order.
structure Reordered (shuffled grant : CapabilityGrant) : Prop where
  actions : shuffled.actions.Perm grant.actions
  schemas : shuffled.schemas.Perm grant.schemas
  visibilities : shuffled.visibilities.Perm grant.visibilities
  contentRoles : shuffled.contentRoles.Perm grant.contentRoles
  others : { shuffled with
    actions := grant.actions, schemas := grant.schemas, visibilities := grant.visibilities,
    contentRoles := grant.contentRoles } = grant

theorem Reordered.normalize_eq {shuffled grant : CapabilityGrant} (h : Reordered shuffled grant)
    (hvalid : grant.Valid P) : shuffled.normalize = grant := by
  rw [CapabilityGrant.normalize, sortBy_eq action_ctorIdx_injective h.actions hvalid.actions,
    sortBy_eq schemaKey_injective h.schemas hvalid.schemas,
    sortBy_eq visibility_ctorIdx_injective h.visibilities hvalid.visibilities,
    sortBy_eq utf8Bytes_injective h.contentRoles hvalid.contentRoles]
  exact h.others

-- The sets of a grant are in the orders that the searches of the evaluator
-- assume, so that these miss nothing.
structure Searchable (grant : CapabilityGrant) : Prop where
  actions : (grant.actions.map CapabilityAction.ctorIdx).Pairwise (fun left right => left < right)
  schemas : (grant.schemas.map fun schema => utf8Bytes schema.asStr).Pairwise
    (fun left right => left < right)
  visibilities : (grant.visibilities.map Visibility.ctorIdx).Pairwise
    (fun left right => left < right)
  contentRoles : (grant.contentRoles.map utf8Bytes).Pairwise (fun left right => left < right)
  distinct : grant.actions.Nodup ∧ grant.schemas.Nodup ∧ grant.visibilities.Nodup ∧
    grant.contentRoles.Nodup
  actionSearch : ∀ child,
    isSubsetBy child grant.actions CapabilityAction.ctorIdx = true ↔ child ⊆ grant.actions
  schemaSearch : ∀ child, isSubsetBy child grant.schemas
    (fun schema => utf8Bytes schema.asStr) = true ↔ child ⊆ grant.schemas
  visibilitySearch : ∀ child,
    isSubsetBy child grant.visibilities Visibility.ctorIdx = true ↔ child ⊆ grant.visibilities
  roleSearch : ∀ child,
    isSubsetBy child grant.contentRoles utf8Bytes = true ↔ child ⊆ grant.contentRoles

theorem nodup_of_sorted [LinearOrder β] {key : α → β} {values : List α}
    (h : (values.map key).Pairwise (fun left right => left < right)) : values.Nodup := by
  have hnodup : (values.map key).Nodup := h.imp fun hlt => hlt.ne
  exact hnodup.of_map key

theorem searchable_of_valid {grant : CapabilityGrant} (h : grant.Valid P) : Searchable grant where
  actions := h.actions
  schemas := h.schemas
  visibilities := h.visibilities
  contentRoles := h.contentRoles
  distinct := ⟨nodup_of_sorted h.actions, nodup_of_sorted h.schemas,
    nodup_of_sorted h.visibilities, nodup_of_sorted h.contentRoles⟩
  actionSearch _ := isSubsetBy_iff action_ctorIdx_injective h.actions
  schemaSearch _ := isSubsetBy_iff schemaKey_injective h.schemas
  visibilitySearch _ := isSubsetBy_iff visibility_ctorIdx_injective h.visibilities
  roleSearch _ := isSubsetBy_iff utf8Bytes_injective h.contentRoles

-- A grant that validates has searchable sets, its content fields stand and fall
-- with the action if they do so with each other, and normalising brings every
-- order of its sets back to it.
theorem grant_wellformed_iff (P : Primitives) (grant : CapabilityGrant)
    (h : grant.validate P = .ok ()) :
    Searchable grant ∧
      ((CapabilityAction.writeContent ∈ grant.actions ↔ grant.contentRoles ≠ []) ∧
        (CapabilityAction.writeContent ∈ grant.actions ↔
          grant.maxResourceByteLength.isSome = true) ↔
        (grant.contentRoles ≠ [] ↔ grant.maxResourceByteLength.isSome = true)) ∧
      ∀ shuffled, Reordered shuffled grant →
        shuffled.normalize = grant ∧ shuffled.normalize.validate P = .ok () := by
  have hvalid := CapabilityGrant.valid_of_validate h
  refine ⟨searchable_of_valid hvalid, ?_, ?_⟩
  · obtain ⟨-, -, hcontent⟩ := valid_scope hvalid
    tauto
  · intro shuffled hshuffled
    have hsame := hshuffled.normalize_eq hvalid
    exact ⟨hsame, by rw [hsame]; exact h⟩

namespace Sample

def shuffled : CapabilityGrant :=
  { issuer with actions := [.writeContent, .issueCapability, .readSpace] }

def roleHolder : CapabilityGrant := { reader with contentRoles := ["record.media"] }

end Sample

open Sample (roleHolder shuffled)

-- The actions of the issuer in another order.
theorem grant_wellformed_issuer :
    Searchable Sample.issuer ∧ shuffled.normalize = Sample.issuer := by
  obtain ⟨hsearchable, -, hnormalize⟩ := grant_wellformed_iff DataModel.Sample.primitives
    Sample.issuer Sample.issuer_validates
  have hreordered : Reordered shuffled Sample.issuer :=
    ⟨by decide, .rfl, .rfl, .rfl, rfl⟩
  exact ⟨hsearchable, (hnormalize _ hreordered).1⟩

-- A grant lists roles although it may not write content.
theorem roles_without_writeContent :
    roleHolder.validate DataModel.Sample.primitives = .ok () ∧
      CapabilityAction.writeContent ∉ roleHolder.actions ∧
      roleHolder.contentRoles ≠ [] ∧ roleHolder.maxResourceByteLength.isSome = false :=
  ⟨rfl, by decide, by decide, by decide⟩

end Grants

end Fractonica.Application
