import Fractonica.Application.Authorization
import Fractonica.DataModel.Envelope.Theorems
import Mathlib.Logic.Relation
import Mathlib.Tactic.Choose

namespace Fractonica.Application

open Lib Trust DataModel List

-- The child's authority lies within the parent's. A missing limit is the
-- widest one; a child that may write content has a limit of its own.
structure Narrower (child parent : CapabilityGrant) : Prop where
  actions : child.actions ⊆ parent.actions
  schemas : child.schemas ⊆ parent.schemas
  visibilities : child.visibilities ⊆ parent.visibilities
  contentRoles : child.contentRoles ⊆ parent.contentRoles
  window : ∀ now, windowContains child now = true → windowContains parent now = true
  limit : ∀ most ∈ parent.maxResourceByteLength,
    ∃ own ∈ child.maxResourceByteLength, own.toNat ≤ most.toNat
  content : CapabilityAction.writeContent ∈ child.actions →
    ∃ own ∈ child.maxResourceByteLength, ∃ most ∈ parent.maxResourceByteLength,
      own.toNat ≤ most.toNat

theorem Narrower.trans {child : CapabilityGrant} (h : Narrower child middle)
    (h' : Narrower middle parent) : Narrower child parent where
  actions := List.Subset.trans h.actions h'.actions
  schemas := List.Subset.trans h.schemas h'.schemas
  visibilities := List.Subset.trans h.visibilities h'.visibilities
  contentRoles := List.Subset.trans h.contentRoles h'.contentRoles
  window now hnow := h'.window now (h.window now hnow)
  limit most hmost := by
    obtain ⟨between, hbetween, hle'⟩ := h'.limit most hmost
    obtain ⟨own, hown, hle⟩ := h.limit between hbetween
    exact ⟨own, hown, hle.trans hle'⟩
  content hwrite := by
    obtain ⟨-, -, most, hmost, -⟩ := h'.content (h.actions hwrite)
    obtain ⟨between, hbetween, hle'⟩ := h'.limit most hmost
    obtain ⟨own, hown, hle⟩ := h.limit between hbetween
    exact ⟨own, hown, most, hmost, hle.trans hle'⟩

theorem Narrower.of_valid {grant : CapabilityGrant} (h : grant.Valid P) : Narrower grant grant where
  actions := List.Subset.refl _
  schemas := List.Subset.refl _
  visibilities := List.Subset.refl _
  contentRoles := List.Subset.refl _
  window _ hnow := hnow
  limit most hmost := ⟨most, hmost, le_rfl⟩
  content hwrite := by
    obtain ⟨most, hmost⟩ := h.limit_of_writeContent hwrite
    exact ⟨most, hmost, most, hmost, le_rfl⟩

-- With the sorted sets of valid grants the search misses nothing.
theorem isSubsetBy_iff {α β : Type} [LinearOrder β] {child parent : List α} {key : α → β}
    (hkey : Function.Injective key)
    (hsorted : (parent.map key).Pairwise (fun left right => left < right)) :
    isSubsetBy child parent key = true ↔ child ⊆ parent := by
  unfold isSubsetBy
  rw [all_eq_true]
  constructor
  · intro h value hvalue
    obtain ⟨found, hmem, heq⟩ := BinarySearch.mem_of_contains (h value hvalue)
    exact hkey heq ▸ hmem
  · intro hsubset value hvalue
    exact (BinarySearch.contains_iff hsorted).mpr ⟨value, hsubset hvalue, rfl⟩

theorem action_ctorIdx_injective : Function.Injective CapabilityAction.ctorIdx := by
  intro left right h
  cases left <;> cases right <;> first | rfl | cases h

theorem visibility_ctorIdx_injective : Function.Injective Visibility.ctorIdx := by
  intro left right h
  cases left <;> cases right <;> first | rfl | cases h

theorem schemaKey_injective :
    Function.Injective (fun schema : EntitySchema => utf8Bytes schema.asStr) :=
  utf8Bytes_injective.comp EntitySchema.asStr_injective

theorem boundIsNarrower_some {child : Option α}
    (h : boundIsNarrower narrower child (some bound) = true) :
    ∃ own ∈ child, narrower own bound = true := by
  cases child with
  | none => cases h
  | some own => exact ⟨own, rfl, h⟩

theorem window_of_narrower {child : CapabilityGrant}
    (hlower : lowerBoundIsNarrower child.notBeforeUnixMs parent.notBeforeUnixMs = true)
    (hupper : upperBoundIsNarrower child.expiresAtUnixMs parent.expiresAtUnixMs = true)
    (now : Int64) (h : windowContains child now = true) : windowContains parent now = true := by
  unfold windowContains at h ⊢
  rw [Bool.and_eq_true] at h ⊢
  refine ⟨?_, ?_⟩
  · cases hparent : parent.notBeforeUnixMs with
    | none => rfl
    | some start =>
      rw [hparent] at hlower
      obtain ⟨own, hown, hle⟩ := boundIsNarrower_some hlower
      have hnow := h.1
      rw [Option.mem_def.mp hown] at hnow
      exact decide_eq_true ((of_decide_eq_true hle).trans (of_decide_eq_true hnow))
  · cases hparent : parent.expiresAtUnixMs with
    | none => rfl
    | some finish =>
      rw [hparent] at hupper
      obtain ⟨own, hown, hle⟩ := boundIsNarrower_some hupper
      have hnow := h.2
      rw [Option.mem_def.mp hown] at hnow
      exact decide_eq_true (lt_of_lt_of_le (of_decide_eq_true hnow) (of_decide_eq_true hle))

theorem scopeIsNarrower_iff {child : CapabilityGrant} (hvalid : parent.Valid P) :
    scopeIsNarrower parent child = true ↔
      child.actions ⊆ parent.actions ∧ child.schemas ⊆ parent.schemas ∧
        child.visibilities ⊆ parent.visibilities ∧ child.contentRoles ⊆ parent.contentRoles ∧
        maximumIsNarrower child.maxResourceByteLength parent.maxResourceByteLength = true ∧
        lowerBoundIsNarrower child.notBeforeUnixMs parent.notBeforeUnixMs = true ∧
        upperBoundIsNarrower child.expiresAtUnixMs parent.expiresAtUnixMs = true := by
  simp [scopeIsNarrower, and_assoc, isSubsetBy_iff action_ctorIdx_injective hvalid.actions,
    isSubsetBy_iff schemaKey_injective hvalid.schemas,
    isSubsetBy_iff visibility_ctorIdx_injective hvalid.visibilities,
    isSubsetBy_iff utf8Bytes_injective hvalid.contentRoles]

theorem narrower_of_scope {child : CapabilityGrant} (hvalid : parent.Valid P)
    (h : scopeIsNarrower parent child = true) : Narrower child parent := by
  obtain ⟨hactions, hschemas, hvisibilities, hroles, hmaximum, hlower, hupper⟩ :=
    (scopeIsNarrower_iff hvalid).mp h
  have hlimit : ∀ most ∈ parent.maxResourceByteLength,
      ∃ own ∈ child.maxResourceByteLength, own.toNat ≤ most.toNat := by
    intro most hmost
    rw [Option.mem_def.mp hmost] at hmaximum
    obtain ⟨own, hown, hle⟩ := boundIsNarrower_some hmaximum
    exact ⟨own, hown, of_decide_eq_true hle⟩
  refine ⟨hactions, hschemas, hvisibilities, hroles, window_of_narrower hlower hupper, hlimit, ?_⟩
  intro hwrite
  obtain ⟨most, hmost⟩ := hvalid.limit_of_writeContent (hactions hwrite)
  obtain ⟨own, hown, hle⟩ := hlimit most hmost
  exact ⟨own, hown, most, hmost, hle⟩

-- The two rules of delegation agree on the scope.
theorem permitsDelegation_imp {child : CapabilityGrant}
    (h : permitsDelegation parent child = true) :
    scopeIsNarrower parent child = true ∧
      (CapabilityAction.issueCapability ∈ parent.actions ∨
        CapabilityAction.linkWorkspace ∈ parent.actions) := by
  simp only [permitsDelegation, Bool.or_eq_true, Bool.and_eq_true, contains_iff_mem] at h
  rcases h with ⟨⟨⟨hissue, -⟩, -⟩, hscope⟩ | ⟨⟨⟨⟨⟨hlink, -⟩, -⟩, -⟩, -⟩, hscope⟩
  · exact ⟨hscope, .inl hissue⟩
  · exact ⟨hscope, .inr hlink⟩

section Resolution

variable (P : Primitives) (view : CapabilityView) (now : Int64) (spaceId : SpaceId)
  {id : OperationId} {operation : OperationEnvelope}
  {related : OperationId → EffectiveAuthority → Prop} {subject : ActorId}
  {authority : EffectiveAuthority}

-- The locally trusted genesis of the space.
structure TrustedRoot (id : OperationId) (operation : OperationEnvelope) : Prop where
  found : view.operation spaceId id = .ok (some operation)
  verified : operation.verify P = .ok ()
  operationId : operation.operationId = id
  inSpace : operation.spaceId = spaceId
  schema : operation.schema = .spaceGenesis
  body : operation.body = .spaceGenesis operation.actorId
  trusted : view.trustedGenesis spaceId = .ok (some id)

-- An admitted grant of the space that is neither revoked nor outside its
-- window.
structure ActiveGrant (id : OperationId) (operation : OperationEnvelope)
    (grant : CapabilityGrant) : Prop where
  found : view.operation spaceId id = .ok (some operation)
  verified : operation.verify P = .ok ()
  operationId : operation.operationId = id
  inSpace : operation.spaceId = spaceId
  schema : operation.schema = .capabilityGrant
  body : operation.body = .capabilityGrant grant
  unrevoked : view.isRevoked spaceId id = .ok false
  active : windowContains grant now = true

-- The derivations behind a resolved reference.
inductive Resolved : OperationId → ActorId → EffectiveAuthority → Prop
  | root {id : OperationId} {operation : OperationEnvelope}
      (root : TrustedRoot P view spaceId id operation) :
      Resolved id operation.actorId .rootController
  | grant {id : OperationId} {operation : OperationEnvelope} {grant : CapabilityGrant}
      (active : ActiveGrant P view now spaceId id operation grant)
      (nonempty : operation.authorization ≠ [])
      (authority : OperationId → EffectiveAuthority)
      (issuers : ∀ reference ∈ operation.authorization,
        Resolved reference operation.actorId (authority reference))
      (permitted : ∀ reference ∈ operation.authorization,
        (authority reference).permits (.issue grant) = true) :
      Resolved id grant.subject (.grant grant)

-- The derivation trees behind a reference, with the number of their nodes. A
-- grant stands on one subtree for each entry of its authorization, so that a
-- node is counted as often as it is used.
inductive Derivation : OperationId → ActorId → EffectiveAuthority → Nat → Prop
  | root {id : OperationId} {operation : OperationEnvelope}
      (root : TrustedRoot P view spaceId id operation) :
      Derivation id operation.actorId .rootController 1
  | grant {id : OperationId} {operation : OperationEnvelope} {grant : CapabilityGrant}
      (active : ActiveGrant P view now spaceId id operation grant)
      (nonempty : operation.authorization ≠ [])
      (authority : OperationId → EffectiveAuthority) (size : OperationId → Nat)
      (issuers : ∀ reference ∈ operation.authorization,
        Derivation reference operation.actorId (authority reference) (size reference))
      (permitted : ∀ reference ∈ operation.authorization,
        (authority reference).permits (.issue grant) = true) :
      Derivation id grant.subject (.grant grant) ((operation.authorization.map size).sum + 1)

variable {P view now spaceId}

theorem loadAuthority_eq_ok :
    loadAuthority P view spaceId id = .ok operation ↔
      view.operation spaceId id = .ok (some operation) ∧ operation.verify P = .ok () ∧
        operation.operationId = id ∧ operation.spaceId = spaceId := by
  simp only [loadAuthority, bind_eq_ok, liftView_eq_ok, okOr_eq_ok, mapError_eq_ok, require_eq_ok,
    decide_eq_true_eq, Except.ok.injEq, exists_unit]
  constructor
  · rintro ⟨_, hfound, _, rfl, hverified, hid, hspace, rfl⟩
    exact ⟨hfound, hverified, hid, hspace⟩
  · rintro ⟨hfound, hverified, hid, hspace⟩
    exact ⟨_, hfound, operation, rfl, hverified, hid, hspace, rfl⟩

-- Every authority of the list comes from one of the references, in order.
theorem resolveEach_sound {resolve : Resolver}
    (hresolve : ∀ reference visits authority visits',
      resolve reference visits = .ok (authority, visits') → related reference authority)
    (h : resolveEach resolve references visits = .ok (authorities, visits')) :
    List.Forall₂ related references authorities := by
  induction references generalizing visits authorities with
  | nil =>
    cases h
    exact .nil
  | cons reference rest ih =>
    simp only [resolveEach, bind_eq_ok, Prod.exists, Except.ok.injEq, Prod.mk.injEq] at h
    obtain ⟨authority, next, hfirst, others, last, hrest, rfl, rfl⟩ := h
    exact .cons (hresolve _ _ _ _ hfirst) (ih hrest)

theorem exists_of_forall₂ (h : List.Forall₂ related references authorities) :
    ∀ reference ∈ references, ∃ authority ∈ authorities, related reference authority := by
  induction h with
  | nil => simp
  | cons hfirst _ ih =>
    intro reference hreference
    rcases mem_cons.mp hreference with rfl | hreference
    · exact ⟨_, mem_cons_self, hfirst⟩
    · obtain ⟨authority, hmem, hrelated⟩ := ih reference hreference
      exact ⟨authority, mem_cons_of_mem _ hmem, hrelated⟩

-- What one successful call has found.
theorem resolve_succ_eq_ok :
    resolve P view now spaceId (fuel + 1) stack subject id visits = .ok (authority, visits') ↔
      visits + 1 ≤ MAX_AUTHORIZATION_GRAPH_VISITS ∧ id ∉ stack ∧
        ((∃ operation, TrustedRoot P view spaceId id operation ∧ operation.actorId = subject ∧
            authority = .rootController ∧ visits' = visits + 1) ∨
          ∃ operation grant authorities, ActiveGrant P view now spaceId id operation grant ∧
            grant.subject = subject ∧ authority = .grant grant ∧
            resolveSet (resolve P view now spaceId fuel (id :: stack) operation.actorId)
              operation.authorization (visits + 1) = .ok (authorities, visits') ∧
            authorities.all (·.permits (.issue grant)) = true) := by
  simp only [resolve, require_bind_eq_ok, decide_eq_true_eq, Bool.not_eq_eq_eq_not, Bool.not_true,
    contains_eq_mem, decide_eq_false_iff_not]
  refine and_congr_right fun _ => and_congr_right fun _ => ?_
  constructor
  · intro h
    simp only [resolveInner, bind_eq_ok, loadAuthority_eq_ok] at h
    obtain ⟨operation, ⟨hfound, hverified, hid, hspace⟩, h⟩ := h
    split at h
    · rename_i controller hschema hbody
      simp only [bind_eq_ok, liftView_eq_ok, require_eq_ok, decide_eq_true_eq, Bool.and_eq_true,
        Except.ok.injEq, Prod.mk.injEq] at h
      obtain ⟨_, htrusted, -, rfl, -, ⟨rfl, hactor⟩, rfl, rfl⟩ := h
      rw [← hactor] at hbody
      exact .inl ⟨operation, ⟨hfound, hverified, hid, hspace, hschema, hbody, htrusted⟩, hactor,
        rfl, rfl⟩
    · rename_i grant hschema hbody
      simp only [bind_eq_ok, liftView_eq_ok, require_eq_ok, decide_eq_true_eq, Prod.exists,
        Except.ok.injEq, Prod.mk.injEq, Bool.not_eq_eq_eq_not, Bool.not_true] at h
      obtain ⟨-, hsubject, _, hrevoked, -, rfl, -, hactive, authorities, _, hauthorities, -,
        hpermits, rfl, rfl⟩ := h
      exact .inr ⟨operation, grant, authorities,
        ⟨hfound, hverified, hid, hspace, hschema, hbody, hrevoked, hactive⟩, hsubject, rfl,
        hauthorities, hpermits⟩
    · cases h
  · rintro (⟨operation, hroot, rfl, rfl, rfl⟩ |
      ⟨operation, grant, authorities, hactive, rfl, rfl, hissuers, hpermits⟩)
    · have hload := loadAuthority_eq_ok.mpr
        ⟨hroot.found, hroot.verified, hroot.operationId, hroot.inSpace⟩
      simp only [resolveInner, hload, ok_bind, hroot.schema, hroot.body, liftView, hroot.trusted,
        Except.mapError]
      simp [require]
    · have hload := loadAuthority_eq_ok.mpr
        ⟨hactive.found, hactive.verified, hactive.operationId, hactive.inSpace⟩
      simp only [resolveInner, hload, ok_bind, hactive.schema, hactive.body, liftView,
        hactive.unrevoked, Except.mapError, hactive.active, hissuers, hpermits]
      simp [require]

theorem resolveSet_eq_ok {resolve : Resolver} :
    resolveSet resolve references visits = .ok (authorities, visits') ↔
      references ≠ [] ∧ resolveEach resolve references visits = .ok (authorities, visits') := by
  simp [resolveSet, require_bind_eq_ok]

-- A grant names its issuers as its authorization.
def IssuerEdge (view : CapabilityView) (spaceId : SpaceId) (child parent : OperationId) : Prop :=
  ∃ operation grant, view.operation spaceId child = .ok (some operation) ∧
    operation.schema = .capabilityGrant ∧ operation.body = .capabilityGrant grant ∧
      parent ∈ operation.authorization

def Reaches (view : CapabilityView) (spaceId : SpaceId) : OperationId → OperationId → Prop :=
  Relation.ReflTransGen (IssuerEdge view spaceId)

theorem TrustedRoot.no_issuer
    (h : TrustedRoot P view spaceId id operation) : ¬ IssuerEdge view spaceId id parent := by
  rintro ⟨found, grant, hfound, hschema, -, -⟩
  have hsame := h.found.symm.trans hfound
  cases hsame
  cases h.schema.symm.trans hschema

-- The nodes above a reference avoid the stack.
def Avoids (view : CapabilityView) (spaceId : SpaceId) (stack : List OperationId)
    (id : OperationId) : Prop :=
  ∀ node, Reaches view spaceId id node → node ∉ stack

-- The view fixes the tree of a reference, whatever the time.
theorem Derivation.unique (h : Derivation P view now spaceId id subject authority size)
    (h' : Derivation P view now' spaceId id subject' authority' size') :
    subject = subject' ∧ authority = authority' ∧ size = size' := by
  induction h generalizing subject' authority' size' with
  | root hroot =>
    cases h' with
    | root hother =>
      cases hroot.found.symm.trans hother.found
      exact ⟨rfl, rfl, rfl⟩
    | grant hother _ _ _ _ _ =>
      cases hroot.found.symm.trans hother.found
      cases hroot.schema.symm.trans hother.schema
  | grant hactive _ authority size _ _ ih =>
    cases h' with
    | root hother =>
      cases hactive.found.symm.trans hother.found
      cases hactive.schema.symm.trans hother.schema
    | grant hother _ authority' size' hissuers _ =>
      cases hactive.found.symm.trans hother.found
      cases hactive.body.symm.trans hother.body
      have hsizes : ∀ reference ∈ _, size reference = size' reference :=
        fun reference hreference => (ih reference hreference (hissuers reference
          hreference)).2.2
      rw [map_congr_left hsizes]
      exact ⟨rfl, rfl, rfl⟩

theorem Derivation.resolved (h : Derivation P view now spaceId id subject authority size) :
    Resolved P view now spaceId id subject authority := by
  induction h with
  | root hroot => exact .root hroot
  | grant hactive hnonempty authority _ _ hpermitted ih =>
    exact .grant hactive hnonempty authority ih hpermitted

theorem resolveEach_eq_map {resolve : Resolver} {authority : OperationId → EffectiveAuthority}
    (hresolve : ∀ reference ∈ references, ∀ visits found visits',
      resolve reference visits = .ok (found, visits') →
        found = authority reference ∧ visits' = visits + size reference)
    (h : resolveEach resolve references visits = .ok (authorities, visits')) :
    authorities = references.map authority ∧ visits' = visits + (references.map size).sum := by
  induction references generalizing visits authorities with
  | nil =>
    cases h
    exact ⟨rfl, rfl⟩
  | cons reference rest ih =>
    simp only [resolveEach, bind_eq_ok, Prod.exists, Except.ok.injEq, Prod.mk.injEq] at h
    obtain ⟨found, next, hfirst, others, last, hrest, rfl, rfl⟩ := h
    obtain ⟨rfl, rfl⟩ := hresolve reference mem_cons_self _ _ _ hfirst
    obtain ⟨rfl, rfl⟩ := ih (fun other hother => hresolve other (mem_cons_of_mem _ hother))
      hrest
    refine ⟨rfl, ?_⟩
    rw [map_cons, sum_cons, Nat.add_assoc]

-- The references of a list are resolved to trees, and the visits are their sizes.
theorem resolveEach_derivations {resolve : Resolver}
    (hresolve : ∀ reference visits authority visits',
      resolve reference visits = .ok (authority, visits') →
        ∃ size, Derivation P view now spaceId reference subject authority size ∧
          visits' = visits + size ∧ Avoids view spaceId stack reference)
    (h : resolveEach resolve references visits = .ok (authorities, visits')) :
    ∃ (authority : OperationId → EffectiveAuthority) (size : OperationId → Nat),
      (∀ reference ∈ references, Derivation P view now spaceId reference subject
        (authority reference) (size reference)) ∧
      (∀ reference ∈ references, Avoids view spaceId stack reference) ∧
      authorities = references.map authority ∧ visits' = visits + (references.map size).sum := by
  have hreferences : ∀ reference ∈ references, ∃ authority size,
      Derivation P view now spaceId reference subject authority size ∧
        Avoids view spaceId stack reference := by
    intro reference hreference
    have hone : ∀ reference visits authority visits',
        resolve reference visits = .ok (authority, visits') →
        ∃ size, Derivation P view now spaceId reference subject authority size ∧
          Avoids view spaceId stack reference := by
      intro reference visits authority visits' hfound
      obtain ⟨size, hderived, -, havoids⟩ := hresolve _ _ _ _ hfound
      exact ⟨size, hderived, havoids⟩
    obtain ⟨authority, -, hderived⟩ := exists_of_forall₂ (resolveEach_sound hone h)
      reference hreference
    exact ⟨authority, hderived⟩
  have : Nonempty EffectiveAuthority := ⟨.rootController⟩
  choose! authority size hderived havoids using hreferences
  have hsame : ∀ reference ∈ references, ∀ visits found visits',
      resolve reference visits = .ok (found, visits') →
      found = authority reference ∧ visits' = visits + size reference := by
    intro reference hreference visits found visits' hfound
    obtain ⟨other, hother, rfl, -⟩ := hresolve _ _ _ _ hfound
    obtain ⟨-, rfl, rfl⟩ := hother.unique (hderived reference hreference)
    exact ⟨rfl, rfl⟩
  exact ⟨authority, size, hderived, havoids, resolveEach_eq_map hsame h⟩

theorem resolve_derivation
    (h : resolve P view now spaceId fuel stack subject id visits = .ok (authority, visits')) :
    ∃ size, Derivation P view now spaceId id subject authority size ∧ visits' = visits + size ∧
      Avoids view spaceId stack id := by
  induction fuel generalizing stack subject id visits visits' authority with
  | zero => cases h
  | succ fuel ih =>
    obtain ⟨-, hstack, ⟨operation, hroot, rfl, rfl, rfl⟩ |
      ⟨operation, grant, authorities, hactive, rfl, rfl, hissuers, hpermits⟩⟩ :=
        resolve_succ_eq_ok.mp h
    · refine ⟨1, .root hroot, rfl, ?_⟩
      intro node hpath
      rcases hpath.cases_head with rfl | ⟨_, hedge, -⟩
      · exact hstack
      · exact absurd hedge hroot.no_issuer
    · obtain ⟨hnonempty, heach⟩ := resolveSet_eq_ok.mp hissuers
      obtain ⟨authority, size, hderived, havoids, rfl, rfl⟩ :=
        resolveEach_derivations (fun _ _ _ _ hone => ih hone) heach
      rw [all_map, all_eq_true] at hpermits
      refine ⟨_, .grant hactive hnonempty authority size hderived hpermits, by omega, ?_⟩
      intro node hpath
      rcases hpath.cases_head with rfl | ⟨parent, hedge, hrest⟩
      · exact hstack
      · obtain ⟨found, _, hfound, -, -, hparent⟩ := hedge
        cases hactive.found.symm.trans hfound
        exact fun hmem => havoids parent hparent node hrest (mem_cons_of_mem _ hmem)

theorem resolve_sound
    (h : resolve P view now spaceId fuel stack subject id visits = .ok (authority, visits')) :
    Resolved P view now spaceId id subject authority := by
  obtain ⟨size, hderived, -⟩ := resolve_derivation h
  exact hderived.resolved

theorem resolveReferences_sound
    (h : resolveReferences P view now spaceId subject references = .ok authorities) :
    references ≠ [] ∧ ∀ reference ∈ references, ∃ authority ∈ authorities,
      Resolved P view now spaceId reference subject authority := by
  simp only [resolveReferences, bind_eq_ok, Prod.exists, Except.ok.injEq, resolveSet_eq_ok] at h
  obtain ⟨_, _, ⟨hnonempty, heach⟩, rfl⟩ := h
  exact ⟨hnonempty, exists_of_forall₂ (resolveEach_sound (fun _ _ _ _ => resolve_sound) heach)⟩

-- The calls that succeed, one lemma for each case.
theorem resolve_root (hroot : TrustedRoot P view spaceId id operation)
    (hvisits : visits + 1 ≤ MAX_AUTHORIZATION_GRAPH_VISITS) (hstack : id ∉ stack) :
    resolve P view now spaceId (fuel + 1) stack operation.actorId id visits =
      .ok (.rootController, visits + 1) :=
  resolve_succ_eq_ok.mpr ⟨hvisits, hstack, .inl ⟨operation, hroot, rfl, rfl, rfl⟩⟩

theorem resolve_grant {grant : CapabilityGrant}
    (hactive : ActiveGrant P view now spaceId id operation grant)
    (hvisits : visits + 1 ≤ MAX_AUTHORIZATION_GRAPH_VISITS) (hstack : id ∉ stack)
    (hissuers : resolveSet (resolve P view now spaceId fuel (id :: stack) operation.actorId)
      operation.authorization (visits + 1) = .ok (authorities, visits'))
    (hpermits : authorities.all (·.permits (.issue grant)) = true) :
    resolve P view now spaceId (fuel + 1) stack grant.subject id visits =
      .ok (.grant grant, visits') :=
  resolve_succ_eq_ok.mpr ⟨hvisits, hstack,
    .inr ⟨operation, grant, authorities, hactive, rfl, rfl, hissuers, hpermits⟩⟩

-- A grant of the root controller needs no further issuer.
theorem resolve_grant_of_root {genesis : OperationId} {grant : CapabilityGrant}
    (hactive : ActiveGrant P view now spaceId id operation grant)
    (hroot : TrustedRoot P view spaceId genesis root) (hactor : root.actorId = operation.actorId)
    (hauthorization : operation.authorization = [genesis])
    (hvisits : visits + 2 ≤ MAX_AUTHORIZATION_GRAPH_VISITS) (hstack : id ∉ stack)
    (hgenesis : genesis ∉ id :: stack) :
    resolve P view now spaceId (fuel + 2) stack grant.subject id visits =
      .ok (.grant grant, visits + 2) := by
  have hone : resolve P view now spaceId (fuel + 1) (id :: stack) root.actorId genesis
      (visits + 1) = .ok (.rootController, visits + 2) :=
    resolve_root hroot hvisits hgenesis
  have hset : resolveSet (resolve P view now spaceId (fuel + 1) (id :: stack) operation.actorId)
      operation.authorization (visits + 1) = .ok ([.rootController], visits + 2) := by
    rw [hauthorization, ← hactor]
    simp [resolveSet, resolveEach, require, hone]
  exact resolve_grant hactive (by omega) hstack hset rfl

theorem ActiveGrant.valid {grant : CapabilityGrant}
    (h : ActiveGrant P view now spaceId id operation grant) : grant.Valid P := by
  have hbody := operation.validBody h.verified
  rw [h.schema, h.body] at hbody
  cases hbody with
  | capabilityGrant valid => exact valid

-- The authority of an issuer encloses that of the grant: the root controller
-- holds everything.
def Encloses (issuer : EffectiveAuthority) (child : CapabilityGrant) : Prop :=
  match issuer with
  | .rootController => True
  | .grant parent => Narrower child parent

theorem Encloses.trans {issuer : EffectiveAuthority} {child : CapabilityGrant}
    (hchild : Narrower child parent) (h : Encloses issuer parent) : Encloses issuer child := by
  cases issuer with
  | rootController => trivial
  | grant ancestor => exact Narrower.trans hchild h

theorem Resolved.active {grant : CapabilityGrant}
    (h : Resolved P view now spaceId id subject (.grant grant)) :
    grant.subject = subject ∧ ∃ operation, ActiveGrant P view now spaceId id operation grant := by
  cases h with
  | grant hactive _ _ _ _ => exact ⟨rfl, _, hactive⟩

theorem Resolved.trusted (h : Resolved P view now spaceId id subject .rootController) :
    ∃ operation, TrustedRoot P view spaceId id operation ∧ operation.actorId = subject := by
  cases h with
  | root hroot => exact ⟨_, hroot, rfl⟩

theorem Resolved.encloses_of_permits {issuer : EffectiveAuthority} {child : CapabilityGrant}
    (h : Resolved P view now spaceId id subject issuer)
    (hpermits : issuer.permits (.issue child) = true) : Encloses issuer child := by
  cases issuer with
  | rootController => trivial
  | grant parent =>
    obtain ⟨-, operation, hactive⟩ := h.active
    exact narrower_of_scope hactive.valid (permitsDelegation_imp hpermits).1

-- One edge up: the issuer is resolved for the actor that signed the grant.
theorem Resolved.issuer {grant : CapabilityGrant}
    (h : Resolved P view now spaceId id subject (.grant grant))
    (hactive : ActiveGrant P view now spaceId id operation grant)
    (hparent : parent ∈ operation.authorization) :
    ∃ issuer, Resolved P view now spaceId parent operation.actorId issuer ∧
      Encloses issuer grant := by
  cases h with
  | grant hown _ authority hissuers hpermitted =>
    have hsame := hown.found.symm.trans hactive.found
    cases hsame
    have hissuer := hissuers parent hparent
    exact ⟨authority parent, hissuer, hissuer.encloses_of_permits (hpermitted parent hparent)⟩

theorem Resolved.edge (h : Resolved P view now spaceId id subject authority)
    (hedge : IssuerEdge view spaceId id parent) :
    ∃ operation grant issuer, authority = .grant grant ∧
      ActiveGrant P view now spaceId id operation grant ∧
        Resolved P view now spaceId parent operation.actorId issuer ∧ Encloses issuer grant := by
  cases authority with
  | rootController =>
    obtain ⟨_, hroot, -⟩ := h.trusted
    exact absurd hedge hroot.no_issuer
  | grant grant =>
    obtain ⟨-, operation, hactive⟩ := h.active
    obtain ⟨found, _, hfound, -, -, hparent⟩ := hedge
    have hsame := hactive.found.symm.trans hfound
    cases hsame
    obtain ⟨issuer, hissuer, hencloses⟩ := h.issuer hactive hparent
    exact ⟨operation, grant, issuer, rfl, hactive, hissuer, hencloses⟩

-- Along a path every node is resolved, and encloses the grant it starts from.
theorem Resolved.ancestor {node : OperationId} {grant : CapabilityGrant}
    (h : Resolved P view now spaceId id subject (.grant grant))
    (hpath : Reaches view spaceId id node) :
    ∃ subject' authority, Resolved P view now spaceId node subject' authority ∧
      Encloses authority grant := by
  induction hpath with
  | refl =>
    obtain ⟨-, operation, hactive⟩ := h.active
    exact ⟨subject, .grant grant, h, Narrower.of_valid hactive.valid⟩
  | tail _ hedge ih =>
    obtain ⟨subject', authority, hresolved, hencloses⟩ := ih
    obtain ⟨operation, between, issuer, rfl, -, hissuer, hissuerEncloses⟩ := hresolved.edge hedge
    exact ⟨operation.actorId, issuer, hissuer, Encloses.trans hencloses hissuerEncloses⟩

-- The walk ends at the trusted genesis, since the derivation is finite.
theorem Resolved.reaches_root (h : Resolved P view now spaceId id subject authority) :
    ∃ genesis operation, Reaches view spaceId id genesis ∧
      TrustedRoot P view spaceId genesis operation := by
  induction h with
  | root hroot => exact ⟨_, _, .refl, hroot⟩
  | grant hactive hnonempty authority _ _ ih =>
    obtain ⟨reference, hreference⟩ := exists_mem_of_ne_nil _ hnonempty
    obtain ⟨genesis, operation, hpath, hroot⟩ := ih reference hreference
    have hedge : IssuerEdge view spaceId _ reference :=
      ⟨_, _, hactive.found, hactive.schema, hactive.body, hreference⟩
    exact ⟨genesis, operation, .head hedge hpath, hroot⟩

end Resolution

section Authorization

variable {P : Primitives} {view : CapabilityView} {now : Int64} {spaceId : SpaceId}
  {subject : ActorId} {operation root : OperationEnvelope} {visits : Nat}
  {action : CapabilityAction}

-- What a grant must hold itself for the authority that is required.
def Carries (grant : CapabilityGrant) : RequiredAuthority → Prop
  | .append schema visibility =>
    CapabilityAction.appendOperation ∈ grant.actions ∧ schema ∈ grant.schemas ∧
      visibility ∈ grant.visibilities
  | .issue child =>
    (CapabilityAction.issueCapability ∈ grant.actions ∨
      CapabilityAction.linkWorkspace ∈ grant.actions) ∧ Narrower child grant
  | .revoke => CapabilityAction.revokeCapability ∈ grant.actions

theorem Carries.mono {child : CapabilityGrant} {required : RequiredAuthority}
    (hnarrower : Narrower child parent) (h : Carries child required) : Carries parent required := by
  cases required with
  | append schema visibility =>
    exact ⟨hnarrower.actions h.1, hnarrower.schemas h.2.1, hnarrower.visibilities h.2.2⟩
  | issue grant =>
    exact ⟨h.1.imp (fun hi => hnarrower.actions hi) (fun hl => hnarrower.actions hl),
      h.2.trans hnarrower⟩
  | revoke => exact hnarrower.actions h

theorem carries_of_permits {grant : CapabilityGrant} {required : RequiredAuthority}
    (hvalid : grant.Valid P)
    (h : (EffectiveAuthority.grant grant).permits required = true) : Carries grant required := by
  cases required with
  | append schema visibility =>
    simp only [EffectiveAuthority.permits, permitsAppend, Bool.and_eq_true,
      contains_iff_mem] at h
    exact ⟨h.1.1, h.1.2, h.2⟩
  | issue child =>
    obtain ⟨hscope, hactions⟩ := permitsDelegation_imp h
    exact ⟨hactions, narrower_of_scope hvalid hscope⟩
  | revoke => exact contains_iff_mem.mp h

-- Each node above the references is the trusted genesis or an active grant
-- with the property.
def Throughout (P : Primitives) (view : CapabilityView) (now : Int64) (spaceId : SpaceId)
    (references : List OperationId) (holds : CapabilityGrant → Prop) : Prop :=
  ∀ reference ∈ references, ∀ node, Reaches view spaceId reference node →
    (∃ operation, TrustedRoot P view spaceId node operation) ∨
      ∃ operation grant, ActiveGrant P view now spaceId node operation grant ∧ holds grant

-- A property that wider grants keep holds throughout if the direct
-- references have it.
theorem Resolved.throughout {holds : CapabilityGrant → Prop}
    (hmono : ∀ child parent, Narrower child parent → holds child → holds parent)
    {node : OperationId} (h : Resolved P view now spaceId reference subject authority)
    (hdirect : ∀ grant, grant.Valid P → authority = .grant grant → holds grant)
    (hpath : Reaches view spaceId reference node) :
    (∃ operation, TrustedRoot P view spaceId node operation) ∨
      ∃ operation grant, ActiveGrant P view now spaceId node operation grant ∧ holds grant := by
  cases authority with
  | rootController =>
    obtain ⟨operation, hroot, -⟩ := h.trusted
    rcases hpath.cases_head with rfl | ⟨_, hedge, -⟩
    · exact .inl ⟨operation, hroot⟩
    · exact absurd hedge hroot.no_issuer
  | grant grant =>
    obtain ⟨-, _, hactive⟩ := h.active
    obtain ⟨subject', ancestor, hresolved, hencloses⟩ := h.ancestor hpath
    cases ancestor with
    | rootController =>
      obtain ⟨operation, hroot, -⟩ := hresolved.trusted
      exact .inl ⟨operation, hroot⟩
    | grant wider =>
      obtain ⟨-, operation, hwider⟩ := hresolved.active
      exact .inr ⟨operation, wider, hwider,
        hmono grant wider hencloses (hdirect grant hactive.valid rfl)⟩

theorem authorizeOperationForVisibility_sound
    (h : authorizeOperationForVisibility P operation now view visibility = .ok ()) :
    ∃ required, RequiredAuthority.forOperation operation visibility = .ok required ∧
      operation.authorization ≠ [] ∧
      Throughout P view now operation.spaceId operation.authorization (Carries · required) := by
  simp only [authorizeOperationForVisibility, bind_eq_ok, require_eq_ok] at h
  obtain ⟨-, -, required, hrequired, authorities, hauthorities, hpermits⟩ := h
  obtain ⟨hnonempty, hresolved⟩ := resolveReferences_sound hauthorities
  refine ⟨required, hrequired, hnonempty, ?_⟩
  intro reference hreference node hpath
  obtain ⟨authority, hmem, hauthority⟩ := hresolved reference hreference
  have hpermitted := all_eq_true.mp hpermits authority hmem
  apply hauthority.throughout (fun _ _ => Carries.mono) ?_ hpath
  rintro grant hvalid rfl
  exact carries_of_permits hvalid hpermitted

-- One reference is enough where it resolves to the authority.
theorem resolveReferences_singleton
    (h : resolve P view now spaceId MAX_AUTHORIZATION_GRAPH_VISITS [] subject reference 0 =
      .ok (authority, visits)) :
    resolveReferences P view now spaceId subject [reference] = .ok [authority] := by
  simp [resolveReferences, resolveSet, resolveEach, require, h]

theorem authorizeOperationForVisibility_singleton {required : RequiredAuthority}
    (hauthorization : operation.authorization = [reference])
    (hrequired : RequiredAuthority.forOperation operation visibility = .ok required)
    (hresolve : resolve P view now operation.spaceId MAX_AUTHORIZATION_GRAPH_VISITS []
      operation.actorId reference 0 = .ok (authority, visits))
    (hpermits : authority.permits required = true) :
    authorizeOperationForVisibility P operation now view visibility = .ok () := by
  simp [authorizeOperationForVisibility, hauthorization, hrequired, require,
    resolveReferences_singleton hresolve, hpermits]

-- The controller may act under the genesis.
theorem authorized_of_root {id : OperationId} {required : RequiredAuthority}
    (hroot : TrustedRoot P view operation.spaceId id root)
    (hactor : root.actorId = operation.actorId) (hauthorization : operation.authorization = [id])
    (hrequired : RequiredAuthority.forOperation operation visibility = .ok required)
    (hpermits : EffectiveAuthority.rootController.permits required = true) :
    authorizeOperationForVisibility P operation now view visibility = .ok () := by
  have hresolve : resolve P view now operation.spaceId MAX_AUTHORIZATION_GRAPH_VISITS []
      operation.actorId id 0 = .ok (.rootController, 1) := by
    rw [← hactor, show MAX_AUTHORIZATION_GRAPH_VISITS = 4095 + 1 from rfl]
    exact resolve_root hroot (by decide) not_mem_nil
  exact authorizeOperationForVisibility_singleton hauthorization hrequired hresolve hpermits

-- The subject of a grant that the controller issued may act under it.
theorem authorized_of_grant {id genesis : OperationId} {required : RequiredAuthority}
    {grant : CapabilityGrant} (hactive : ActiveGrant P view now operation.spaceId id granting grant)
    (hroot : TrustedRoot P view operation.spaceId genesis root)
    (hissuer : root.actorId = granting.actorId) (hchain : granting.authorization = [genesis])
    (hother : genesis ≠ id) (hactor : grant.subject = operation.actorId)
    (hauthorization : operation.authorization = [id])
    (hrequired : RequiredAuthority.forOperation operation visibility = .ok required)
    (hpermits : (EffectiveAuthority.grant grant).permits required = true) :
    authorizeOperationForVisibility P operation now view visibility = .ok () := by
  have hresolve : resolve P view now operation.spaceId MAX_AUTHORIZATION_GRAPH_VISITS []
      operation.actorId id 0 = .ok (.grant grant, 2) := by
    rw [← hactor, show MAX_AUTHORIZATION_GRAPH_VISITS = 4094 + 2 from rfl]
    exact resolve_grant_of_root hactive hroot hissuer hchain (by decide) not_mem_nil
      (by simpa using hother)
  exact authorizeOperationForVisibility_singleton hauthorization hrequired hresolve hpermits

theorem action_of_grant {id genesis : OperationId} {grant : CapabilityGrant}
    (hactive : ActiveGrant P view now spaceId id granting grant)
    (hroot : TrustedRoot P view spaceId genesis root) (hissuer : root.actorId = granting.actorId)
    (hchain : granting.authorization = [genesis]) (hother : genesis ≠ id)
    (haction : action ∈ grant.actions) :
    authorizeCapabilityAction P spaceId grant.subject [id] action now view = .ok () := by
  have hresolve : resolve P view now spaceId MAX_AUTHORIZATION_GRAPH_VISITS [] grant.subject id 0 =
      .ok (.grant grant, 2) := by
    exact resolve_grant_of_root hactive hroot hissuer hchain (by decide) not_mem_nil
      (by simpa using hother)
  simp only [authorizeCapabilityAction, resolveReferences_singleton hresolve, ok_bind,
    all_cons, all_nil, Bool.and_true, require_eq_ok]
  exact contains_iff_mem.mpr haction

theorem authorizeCapabilityAction_sound
    (h : authorizeCapabilityAction P spaceId subject references action now view = .ok ()) :
    Throughout P view now spaceId references (action ∈ ·.actions) := by
  simp only [authorizeCapabilityAction, bind_eq_ok, require_eq_ok] at h
  obtain ⟨authorities, hauthorities, hpermits⟩ := h
  obtain ⟨-, hresolved⟩ := resolveReferences_sound hauthorities
  intro reference hreference node hpath
  obtain ⟨authority, hmem, hauthority⟩ := hresolved reference hreference
  have hpermitted := all_eq_true.mp hpermits authority hmem
  have hmono : ∀ child parent : CapabilityGrant, Narrower child parent →
      action ∈ child.actions → action ∈ parent.actions :=
    fun _ _ hnarrower haction => hnarrower.actions haction
  apply hauthority.throughout hmono ?_ hpath
  rintro grant - rfl
  exact contains_iff_mem.mp hpermitted

-- No chain of delegations widens what its root granted. Every reference that
-- resolves to a grant stands on a chain of active grants down to the trusted
-- genesis, each edge signed by the subject of the issuer and narrower than it;
-- hence nothing is authorised that one of the grants above does not carry.
theorem capability_attenuation (P : Primitives) (view : CapabilityView) (now : Int64) :
    (∀ spaceId fuel stack subject id visits visits' grant,
      resolve P view now spaceId fuel stack subject id visits = .ok (.grant grant, visits') →
        (grant.subject = subject ∧
          ∃ operation, ActiveGrant P view now spaceId id operation grant) ∧
        (∃ genesis operation, Reaches view spaceId id genesis ∧
          TrustedRoot P view spaceId genesis operation) ∧
        ∀ node, Reaches view spaceId id node →
          (∃ operation, TrustedRoot P view spaceId node operation) ∨
          ∃ operation child, ActiveGrant P view now spaceId node operation child ∧
            ∀ parent ∈ operation.authorization,
              (∃ root, TrustedRoot P view spaceId parent root ∧
                root.actorId = operation.actorId) ∨
              ∃ issuer held, ActiveGrant P view now spaceId parent issuer held ∧
                held.subject = operation.actorId ∧ Narrower child held) ∧
    (∀ operation visibility,
      authorizeOperationForVisibility P operation now view visibility = .ok () →
        ∃ required, RequiredAuthority.forOperation operation visibility = .ok required ∧
          Throughout P view now operation.spaceId operation.authorization (Carries · required)) ∧
    ∀ spaceId subject references action,
      authorizeCapabilityAction P spaceId subject references action now view = .ok () →
        Throughout P view now spaceId references (action ∈ ·.actions) := by
  refine ⟨?_, ?_, fun _ _ _ _ => authorizeCapabilityAction_sound⟩
  · intro spaceId fuel stack subject id visits visits' grant h
    have hresolved := resolve_sound h
    refine ⟨hresolved.active, hresolved.reaches_root, ?_⟩
    intro node hpath
    obtain ⟨subject', authority, hnode, -⟩ := hresolved.ancestor hpath
    cases authority with
    | rootController =>
      obtain ⟨operation, hroot, -⟩ := hnode.trusted
      exact .inl ⟨operation, hroot⟩
    | grant child =>
      obtain ⟨-, operation, hactive⟩ := hnode.active
      refine .inr ⟨operation, child, hactive, ?_⟩
      intro parent hparent
      obtain ⟨issuer, hissuer, hencloses⟩ := hnode.issuer hactive hparent
      cases issuer with
      | rootController => exact .inl hissuer.trusted
      | grant held =>
        obtain ⟨hsubject, above, hheld⟩ := hissuer.active
        exact .inr ⟨above, held, hheld, hsubject, hencloses⟩
  · intro operation visibility h
    obtain ⟨required, hrequired, -, hcarries⟩ := authorizeOperationForVisibility_sound h
    exact ⟨required, hrequired, hcarries⟩

open Sample (primitives writerGrant)

-- A node that has admitted the genesis and the grant of the writer.
def sampleView : CapabilityView where
  trustedGenesis _ := .ok (some Sample.genesis.operationId)
  operation _ id :=
    if id = Sample.genesis.operationId then .ok (some Sample.genesis.envelope)
    else if id = writerGrant.operationId then .ok (some writerGrant.envelope)
    else .ok none
  isRevoked _ _ := .ok false

theorem sampleView_genesis :
    TrustedRoot primitives sampleView Sample.spaceId Sample.genesis.operationId
      Sample.genesis.envelope where
  found := by simp [sampleView]
  verified := Sample.genesis_verifies
  operationId := rfl
  inSpace := rfl
  schema := rfl
  body := rfl
  trusted := rfl

theorem sampleView_writerGrant (now : Int64) :
    ∃ grant, grant.subject = Sample.writer ∧
      permitsAppend grant .record .pub = true ∧ CapabilityAction.readSpace ∈ grant.actions ∧
      ActiveGrant primitives sampleView now Sample.spaceId writerGrant.operationId
        writerGrant.envelope grant := by
  have hother : writerGrant.operationId ≠ Sample.genesis.operationId := by
    decide
  have hfound : sampleView.operation Sample.spaceId writerGrant.operationId =
      .ok (some writerGrant.envelope) := by
    simp [sampleView, hother]
  exact ⟨_, rfl, by decide, by decide, hfound, Sample.writerGrant_verifies, rfl, rfl, rfl, rfl,
    rfl, rfl⟩

-- The grant of the writer resolves, and it carries the record that the writer
-- appends.
theorem capability_attenuation_writer :
    authorizeOperationForVisibility primitives Sample.record.envelope 0 sampleView
        (some .pub) = .ok () ∧
      (∃ genesis operation,
        Reaches sampleView Sample.spaceId writerGrant.operationId genesis ∧
          TrustedRoot primitives sampleView Sample.spaceId genesis operation) ∧
      Throughout primitives sampleView 0 Sample.spaceId [writerGrant.operationId]
        (Carries · (.append .record .pub)) ∧
      Throughout primitives sampleView 0 Sample.spaceId [writerGrant.operationId]
        (CapabilityAction.readSpace ∈ ·.actions) := by
  obtain ⟨grant, hsubject, happend, hread, hactive⟩ := sampleView_writerGrant 0
  obtain ⟨hchain, hoperation, haction⟩ :=
    capability_attenuation primitives sampleView 0
  have hresolve : resolve primitives sampleView 0 Sample.spaceId
      MAX_AUTHORIZATION_GRAPH_VISITS [] Sample.writer writerGrant.operationId 0 =
        .ok (.grant grant, 2) := by
    rw [← hsubject]
    have hgenesis : Sample.genesis.operationId ∉ [writerGrant.operationId] := by
      decide
    exact resolve_grant_of_root hactive sampleView_genesis rfl rfl (by decide) not_mem_nil
      hgenesis
  have hauthorized : authorizeOperationForVisibility primitives Sample.record.envelope 0
      sampleView (some .pub) = .ok () :=
    authorizeOperationForVisibility_singleton rfl rfl hresolve happend
  have hcan := action_of_grant hactive sampleView_genesis rfl rfl (by decide) hread
  obtain ⟨required, hrequired, hcarries⟩ := hoperation _ _ hauthorized
  cases hrequired
  exact ⟨hauthorized, (hchain _ _ _ _ _ _ _ _ hresolve).2.1, hcarries, haction _ _ _ _ hcan⟩

end Authorization

end Fractonica.Application
