import Fractonica.Application.Authorization.Theorems
import Mathlib.Algebra.Order.BigOperators.Group.List
import Mathlib.Data.List.Perm.Subperm

namespace Fractonica.Application

open Lib Trust DataModel List

section Derivation

variable {view : CapabilityView} {now : Int64} {spaceId : SpaceId} {id : OperationId}
  {subject : ActorId}

-- The issuers of a resolved reference are well-founded.
theorem Resolved.acc (h : Resolved P view now spaceId id subject authority) :
    Acc (flip (IssuerEdge view spaceId)) id := by
  induction h with
  | root hroot => exact ⟨_, fun parent hedge => absurd hedge hroot.no_issuer⟩
  | grant hactive _ _ _ _ ih =>
    refine ⟨_, fun parent hedge => ?_⟩
    obtain ⟨operation, _, hfound, -, -, hparent⟩ := hedge
    cases hactive.found.symm.trans hfound
    exact ih parent hparent

theorem Resolved.acyclic (h : Resolved P view now spaceId id subject authority) :
    ¬ Relation.TransGen (IssuerEdge view spaceId) id id := by
  have hirrefl : ∀ node, Acc (Relation.TransGen (flip (IssuerEdge view spaceId))) node →
      ¬ Relation.TransGen (flip (IssuerEdge view spaceId)) node node := by
    intro node hacc
    induction hacc with
    | intro node _ ih => exact fun hself => ih node hself hself
  intro hcycle
  exact hirrefl id h.acc.transGen (Relation.transGen_swap.mpr hcycle)

end Derivation

section Visits

variable {view : CapabilityView} {now : Int64} {spaceId : SpaceId} {subject : ActorId}
  {id : OperationId}

-- The visits only grow, and never past the bound.
theorem resolveEach_visits {resolve : Resolver}
    (hresolve : ∀ reference visits authority visits',
      resolve reference visits = .ok (authority, visits') →
        visits < visits' ∧ visits' ≤ MAX_AUTHORIZATION_GRAPH_VISITS)
    (hvisits : visits ≤ MAX_AUTHORIZATION_GRAPH_VISITS)
    (h : resolveEach resolve references visits = .ok (authorities, visits')) :
    visits ≤ visits' ∧ visits' ≤ MAX_AUTHORIZATION_GRAPH_VISITS := by
  induction references generalizing visits authorities with
  | nil =>
    cases h
    exact ⟨le_rfl, hvisits⟩
  | cons reference rest ih =>
    simp only [resolveEach, bind_eq_ok, Prod.exists, Except.ok.injEq, Prod.mk.injEq] at h
    obtain ⟨authority, next, hfirst, others, last, hrest, -, rfl⟩ := h
    have hone := hresolve _ _ _ _ hfirst
    have hothers := ih hone.2 hrest
    omega

theorem resolve_visits
    (h : resolve P view now spaceId fuel stack subject id visits = .ok (authority, visits')) :
    visits < visits' ∧ visits' ≤ MAX_AUTHORIZATION_GRAPH_VISITS := by
  induction fuel generalizing stack subject id visits visits' authority with
  | zero => cases h
  | succ fuel ih =>
    obtain ⟨hvisits, -, ⟨operation, -, -, -, rfl⟩ |
      ⟨operation, grant, authorities, -, -, -, hissuers, -⟩⟩ := resolve_succ_eq_ok.mp h
    · omega
    · have heach := resolveEach_visits (fun _ _ _ _ hone => ih hone) hvisits
        (resolveSet_eq_ok.mp hissuers).2
      omega

-- Two resolvers that agree from some number of visits on agree on a list.
theorem resolveEach_congr {resolve : Resolver} {start : Nat}
    (hsame : ∀ reference visits, start ≤ visits →
      resolve reference visits = resolve' reference visits)
    (hgrow : ∀ reference visits authority visits',
      resolve reference visits = .ok (authority, visits') → visits < visits')
        (hvisits : start ≤ visits) :
    resolveEach resolve references visits = resolveEach resolve' references visits := by
  induction references generalizing visits with
  | nil => rfl
  | cons reference rest ih =>
    rw [resolveEach, resolveEach, ← hsame reference visits hvisits]
    cases hfirst : resolve reference visits with
    | error error => rfl
    | ok found =>
      have hlt := hgrow _ _ _ _ hfirst
      simp only [ok_bind]
      rw [ih (by omega)]

theorem resolve_over (hover : MAX_AUTHORIZATION_GRAPH_VISITS < visits + 1) :
    resolve P view now spaceId fuel stack subject id visits = .error .graphTooLarge := by
  cases fuel with
  | zero => rfl
  | succ fuel =>
    simp only [resolve, require, Nat.not_le_of_lt hover, decide_false, Bool.false_eq_true,
      if_false]
    rfl

-- A fuel that covers the visits left is as good as any other: the recursion
-- ends before the fuel does.
theorem resolve_fuel (hfuel : MAX_AUTHORIZATION_GRAPH_VISITS ≤ fuel + visits)
    (hfuel' : MAX_AUTHORIZATION_GRAPH_VISITS ≤ fuel' + visits) :
    resolve P view now spaceId fuel stack subject id visits =
      resolve P view now spaceId fuel' stack subject id visits := by
  induction fuel generalizing fuel' stack subject id visits with
  | zero => rw [resolve_over (by omega), resolve_over (by omega)]
  | succ fuel ih =>
    cases fuel' with
    | zero => rw [resolve_over (by omega), resolve_over (by omega)]
    | succ fuel' =>
      have hsets : ∀ actorId references,
          resolveSet (resolve P view now spaceId fuel (id :: stack) actorId) references
              (visits + 1) =
            resolveSet (resolve P view now spaceId fuel' (id :: stack) actorId) references
              (visits + 1) := by
        intro actorId references
        have hsame : ∀ reference more, visits + 1 ≤ more →
            resolve P view now spaceId fuel (id :: stack) actorId reference more =
              resolve P view now spaceId fuel' (id :: stack) actorId reference more :=
          fun reference more hmore => ih (by omega) (by omega)
        rw [resolveSet, resolveSet,
          resolveEach_congr hsame (fun _ _ _ _ hone => (resolve_visits hone).1) le_rfl]
      simp only [resolve, resolveInner, hsets]

end Visits

section Decision

variable {view : CapabilityView} {now : Int64} {spaceId : SpaceId} {stack : List OperationId}
  {subject : ActorId} {id : OperationId}

theorem resolveEach_of_sizes {resolve : Resolver} {authority : OperationId → EffectiveAuthority}
    {start : Nat}
    (hresolve : ∀ reference ∈ references, ∀ visits, start ≤ visits →
      visits + size reference ≤ MAX_AUTHORIZATION_GRAPH_VISITS →
        resolve reference visits = .ok (authority reference, visits + size reference))
    (hstart : start ≤ visits)
    (hbound : visits + (references.map size).sum ≤ MAX_AUTHORIZATION_GRAPH_VISITS) :
    resolveEach resolve references visits =
      .ok (references.map authority, visits + (references.map size).sum) := by
  induction references generalizing visits with
  | nil => rfl
  | cons reference rest ih =>
    rw [map_cons, sum_cons] at hbound
    have hfirst := hresolve reference mem_cons_self visits hstart (by omega)
    have hlater : start ≤ visits + size reference := by omega
    have hrest := ih (fun other hother => hresolve other (mem_cons_of_mem _ hother)) hlater
      (by omega)
    simp [resolveEach, hfirst, hrest, Nat.add_assoc]

theorem ActiveGrant.edge {operation : OperationEnvelope} {grant : CapabilityGrant}
    (h : ActiveGrant P view now spaceId id operation grant)
    (hparent : parent ∈ operation.authorization) : IssuerEdge view spaceId id parent :=
  ⟨operation, grant, h.found, h.schema, h.body, hparent⟩

-- The tree of a reference within the visits left is found.
theorem Derivation.resolve_eq {size : Nat}
    (h : Derivation P view now spaceId id subject authority size)
    (havoids : Avoids view spaceId stack id)
    (hbound : visits + size ≤ MAX_AUTHORIZATION_GRAPH_VISITS)
    (hfuel : MAX_AUTHORIZATION_GRAPH_VISITS ≤ fuel + visits) :
    resolve P view now spaceId fuel stack subject id visits = .ok (authority, visits + size) := by
  induction h generalizing fuel stack visits with
  | root hroot =>
    obtain ⟨fuel, rfl⟩ : ∃ less, fuel = less + 1 := ⟨fuel - 1, by omega⟩
    exact resolve_root hroot hbound (havoids _ .refl)
  | @grant id operation grant hactive hnonempty authority size hissuers hpermitted ih =>
    obtain ⟨fuel, rfl⟩ : ∃ less, fuel = less + 1 := ⟨fuel - 1, by omega⟩
    have hacyclic := (Derivation.grant hactive hnonempty authority size hissuers
      hpermitted).resolved.acyclic
    -- An issuer that leads back to the grant would make a cycle.
    have hone : ∀ reference ∈ operation.authorization, ∀ more, visits + 1 ≤ more →
        more + size reference ≤ MAX_AUTHORIZATION_GRAPH_VISITS →
        resolve P view now spaceId fuel (id :: stack) operation.actorId reference more =
          .ok (authority reference, more + size reference) := by
      intro reference hreference more hmore hless
      refine ih reference hreference ?_ hless (by omega)
      intro node hpath hmem
      have hedge := hactive.edge hreference
      rcases mem_cons.mp hmem with rfl | hmem
      · exact hacyclic (.head' hedge hpath)
      · exact havoids node (.head hedge hpath) hmem
    have heach := resolveEach_of_sizes hone le_rfl (by omega)
    have hset := resolveSet_eq_ok.mpr ⟨hnonempty, heach⟩
    have hall : (operation.authorization.map authority).all (·.permits (.issue grant))
      = true := by
      rw [all_map, all_eq_true]
      exact hpermitted
    rw [resolve_grant hactive (by omega) (havoids _ .refl) hset hall]
    congr 2
    omega

theorem resolve_eq_ok_iff (hfuel : MAX_AUTHORIZATION_GRAPH_VISITS ≤ fuel + visits) :
    resolve P view now spaceId fuel stack subject id visits = .ok (authority, visits') ↔
      ∃ size, Derivation P view now spaceId id subject authority size ∧
        visits + size ≤ MAX_AUTHORIZATION_GRAPH_VISITS ∧ visits' = visits + size ∧
        Avoids view spaceId stack id := by
  constructor
  · intro h
    obtain ⟨size, hderived, rfl, havoids⟩ := resolve_derivation h
    exact ⟨size, hderived, (resolve_visits h).2, rfl, havoids⟩
  · rintro ⟨size, hderived, hbound, rfl, havoids⟩
    exact hderived.resolve_eq havoids hbound hfuel

end Decision

namespace EvaluationContext

-- The evaluation with the counter as the source keeps it: an error leaves it
-- where it was.
abbrev Counting (α : Type) : Type := EStateM AuthorizationError Nat α

def lift {α : Type} : Except AuthorizationError α → Counting α
  | .ok value => pure value
  | .error error => throw error

def resolveEach (resolve : OperationId → Counting EffectiveAuthority) :
    List OperationId → Counting (List EffectiveAuthority)
  | [] => pure []
  | reference :: rest => do
    let authority ← resolve reference
    let authorities ← resolveEach resolve rest
    pure (authority :: authorities)

def resolveSet (resolve : OperationId → Counting EffectiveAuthority)
    (references : List OperationId) : Counting (List EffectiveAuthority) := do
  lift (require (!references.isEmpty) .required)
  resolveEach resolve references

variable (P : Primitives) (view : CapabilityView) (nowUnixMs : Int64) (spaceId : SpaceId) {α : Type}
  {visits : Nat} {subject : ActorId} {id : OperationId}

def resolveInner (issuers : ActorId → List OperationId → Counting (List EffectiveAuthority))
    (expectedSubject : ActorId) (operationId : OperationId) : Counting EffectiveAuthority := do
  let operation ← lift (loadAuthority P view spaceId operationId)
  match operation.schema, operation.body with
  | .spaceGenesis, .spaceGenesis controller => do
    let genesis ← lift (liftView (view.trustedGenesis spaceId))
    lift (require (genesis = some operationId) (.untrustedGenesis operationId))
    lift (require (controller = expectedSubject && operation.actorId = expectedSubject)
      (.subjectMismatch operationId controller expectedSubject))
    pure .rootController
  | .capabilityGrant, .capabilityGrant grant => do
    lift (require (grant.subject = expectedSubject)
      (.subjectMismatch operationId grant.subject expectedSubject))
    let revoked ← lift (liftView (view.isRevoked spaceId operationId))
    lift (require (!revoked) (.revoked operationId))
    lift (require (windowContains grant nowUnixMs) (.outsideAdmissionWindow operationId nowUnixMs))
    let authorities ← issuers operation.actorId operation.authorization
    lift (require (authorities.all (·.permits (.issue grant))) .denied)
    pure (.grant grant)
  | _, _ => throw (.notCapability operationId)

def resolve : Nat → List OperationId → ActorId → OperationId → Counting EffectiveAuthority
  | 0, _, _, _ => throw .graphTooLarge
  | fuel + 1, stack, expectedSubject, operationId => do
    modify (· + 1)
    let visits ← get
    lift (require (visits ≤ MAX_AUTHORIZATION_GRAPH_VISITS) .graphTooLarge)
    lift (require (!stack.contains operationId) (.cycle operationId))
    resolveInner P view nowUnixMs spaceId
      (fun actorId => resolveSet (resolve fuel (operationId :: stack) actorId))
      expectedSubject operationId

variable {P view nowUnixMs spaceId}

-- The outcomes agree, and the counter passes the bound only by the visit that
-- is refused for it.
def Tracks {α : Type} (result : EStateM.Result AuthorizationError Nat α)
    (expected : Except AuthorizationError (α × Nat)) : Prop :=
  match result with
  | .ok value visits => expected = .ok (value, visits) ∧ visits ≤ MAX_AUTHORIZATION_GRAPH_VISITS
  | .error error visits => expected = .error error ∧
      (visits ≤ MAX_AUTHORIZATION_GRAPH_VISITS ∨
        visits = MAX_AUTHORIZATION_GRAPH_VISITS + 1 ∧ error = .graphTooLarge)

theorem Tracks.lift_bind {g : α → Except AuthorizationError (β × Nat)}
    (hvisits : visits ≤ MAX_AUTHORIZATION_GRAPH_VISITS)
    (h : ∀ value, Tracks ((f value).run visits) (g value)) :
    Tracks ((lift x >>= f).run visits) (x >>= g) := by
  cases x with
  | error error => exact ⟨rfl, .inl hvisits⟩
  | ok value => exact h value

theorem Tracks.bind {f : α → Counting β} (hx : Tracks (x.run visits) expected)
    (h : ∀ value visits, visits ≤ MAX_AUTHORIZATION_GRAPH_VISITS →
      Tracks ((f value).run visits) (g (value, visits))) :
    Tracks ((x >>= f).run visits) (expected >>= g) := by
  rw [EStateM.run_bind]
  cases hresult : x.run visits with
  | error error after =>
    rw [hresult] at hx
    obtain ⟨rfl, hafter⟩ := hx
    exact ⟨rfl, hafter⟩
  | ok value after =>
    rw [hresult] at hx
    obtain ⟨rfl, hafter⟩ := hx
    exact h value after hafter

theorem Tracks.pure {value : α} (hvisits : visits ≤ MAX_AUTHORIZATION_GRAPH_VISITS) :
    Tracks ((Pure.pure value : Counting α).run visits) (.ok (value, visits)) :=
  ⟨rfl, hvisits⟩

theorem resolveEach_tracks {resolve : Resolver}
    (h : ∀ reference visits, visits ≤ MAX_AUTHORIZATION_GRAPH_VISITS →
      Tracks ((counting reference).run visits) (resolve reference visits))
    (hvisits : visits ≤ MAX_AUTHORIZATION_GRAPH_VISITS) :
    Tracks ((resolveEach counting references).run visits)
      (Application.resolveEach resolve references visits) := by
  induction references generalizing visits with
  | nil => exact .pure hvisits
  | cons reference rest ih =>
    apply (h reference visits hvisits).bind
    intro authority visits hvisits
    apply (ih hvisits).bind
    intro authorities visits hvisits
    exact .pure hvisits

theorem resolveInner_tracks
    (hissuers : ∀ actorId references,
      Tracks ((counting actorId references).run visits) (issuers actorId references visits))
    (hvisits : visits ≤ MAX_AUTHORIZATION_GRAPH_VISITS) :
    Tracks ((resolveInner P view nowUnixMs spaceId counting subject id).run visits)
      (Application.resolveInner P view nowUnixMs spaceId issuers subject id visits) := by
  refine .lift_bind hvisits fun operation => ?_
  by_cases hgenesis : ∃ controller, operation.schema = .spaceGenesis ∧
      operation.body = .spaceGenesis controller
  · obtain ⟨controller, hschema, hbody⟩ := hgenesis
    simp only [hschema, hbody]
    exact .lift_bind hvisits fun genesis => .lift_bind hvisits fun _ =>
      .lift_bind hvisits fun _ => .pure hvisits
  · by_cases hgrant : ∃ grant, operation.schema = .capabilityGrant ∧
        operation.body = .capabilityGrant grant
    · obtain ⟨grant, hschema, hbody⟩ := hgrant
      simp only [hschema, hbody]
      refine .lift_bind hvisits fun _ => .lift_bind hvisits fun revoked =>
        .lift_bind hvisits fun _ => .lift_bind hvisits fun _ => (hissuers _ _).bind ?_
      exact fun authorities visits hvisits => .lift_bind hvisits fun _ => .pure hvisits
    · repeat' split
      all_goals first
        | exact ⟨rfl, .inl hvisits⟩
        | exact absurd ⟨_, by assumption, by assumption⟩ hgenesis
        | exact absurd ⟨_, by assumption, by assumption⟩ hgrant

theorem resolve_tracks (hvisits : visits ≤ MAX_AUTHORIZATION_GRAPH_VISITS) :
    Tracks ((resolve P view nowUnixMs spaceId fuel stack subject id).run visits)
      (Application.resolve P view nowUnixMs spaceId fuel stack subject id visits) := by
  induction fuel generalizing stack subject id visits with
  | zero => exact ⟨rfl, .inl hvisits⟩
  | succ fuel ih =>
    have hstep : (resolve P view nowUnixMs spaceId (fuel + 1) stack subject id).run visits =
        (lift (require (visits + 1 ≤ MAX_AUTHORIZATION_GRAPH_VISITS) .graphTooLarge) >>= fun _ =>
          lift (require (!stack.contains id) (.cycle id)) >>= fun _ =>
          resolveInner P view nowUnixMs spaceId
            (fun actorId => resolveSet (resolve P view nowUnixMs spaceId fuel (id :: stack)
              actorId)) subject id).run (visits + 1) := rfl
    rw [hstep, Application.resolve]
    by_cases hmore : visits + 1 ≤ MAX_AUTHORIZATION_GRAPH_VISITS
    · refine .lift_bind hmore fun _ => .lift_bind hmore fun _ => resolveInner_tracks ?_ hmore
      intro actorId references
      exact .lift_bind hmore fun _ => resolveEach_tracks (fun _ _ hone => ih hone) hmore
    · have hover : visits + 1 = MAX_AUTHORIZATION_GRAPH_VISITS + 1 := by omega
      simp only [require, hmore, decide_false, Bool.false_eq_true, if_false]
      exact ⟨rfl, .inr ⟨hover, rfl⟩⟩

end EvaluationContext

section Resolver

-- The resolver returns on every view, after at most the bounded number of
-- visits, and accepts a reference exactly if it has a derivation tree that fits
-- in the visits left; for a reference below others the tree must avoid them.
theorem resolver_decides_derivations (P : Primitives) (view : CapabilityView) (now : Int64)
    (spaceId : SpaceId) :
    (∀ fuel stack subject id visits, MAX_AUTHORIZATION_GRAPH_VISITS ≤ fuel + visits →
      resolve P view now spaceId fuel stack subject id visits =
        resolve P view now spaceId MAX_AUTHORIZATION_GRAPH_VISITS stack subject id visits) ∧
    (∀ fuel stack subject id visits, visits ≤ MAX_AUTHORIZATION_GRAPH_VISITS →
      EvaluationContext.Tracks
        ((EvaluationContext.resolve P view now spaceId fuel stack subject id).run visits)
        (resolve P view now spaceId fuel stack subject id visits)) ∧
    (∀ subject id visits authority visits',
      resolve P view now spaceId MAX_AUTHORIZATION_GRAPH_VISITS [] subject id visits =
          .ok (authority, visits') ↔
        ∃ size, Derivation P view now spaceId id subject authority size ∧
          visits + size ≤ MAX_AUTHORIZATION_GRAPH_VISITS ∧ visits' = visits + size) ∧
    (∀ stack subject id visits authority visits',
      resolve P view now spaceId MAX_AUTHORIZATION_GRAPH_VISITS stack subject id visits =
          .ok (authority, visits') ↔
        ∃ size, Derivation P view now spaceId id subject authority size ∧
          visits + size ≤ MAX_AUTHORIZATION_GRAPH_VISITS ∧ visits' = visits + size ∧
          Avoids view spaceId stack id) ∧
    ∀ id, Relation.TransGen (IssuerEdge view spaceId) id id →
      ∀ fuel stack subject visits found,
        resolve P view now spaceId fuel stack subject id visits ≠ .ok found := by
  refine ⟨?_, ?_, ?_, ?_, ?_⟩
  · intro fuel stack subject id visits hfuel
    exact resolve_fuel hfuel (Nat.le_add_right _ _)
  · intro fuel stack subject id visits hvisits
    exact EvaluationContext.resolve_tracks hvisits
  · intro subject id visits authority visits'
    rw [resolve_eq_ok_iff (Nat.le_add_right _ _)]
    have havoids : Avoids view spaceId [] id := fun _ _ => not_mem_nil
    simp [havoids]
  · intro stack subject id visits authority visits'
    exact resolve_eq_ok_iff (Nat.le_add_right _ _)
  · rintro id hcycle fuel stack subject visits ⟨authority, visits'⟩ h
    exact (resolve_sound h).acyclic hcycle

open Sample (genesis primitives spaceId)

theorem sampleView_derivation (now : Int64) :
    ∃ grant, permitsAppend grant .record .pub = true ∧
      Derivation primitives sampleView now spaceId Sample.writerGrant.operationId
        Sample.writer (.grant grant) 2 := by
  obtain ⟨grant, hsubject, happend, -, hactive⟩ := sampleView_writerGrant now
  have hroot : Derivation primitives sampleView now spaceId genesis.operationId
      genesis.envelope.actorId .rootController 1 := .root sampleView_genesis
  refine ⟨grant, happend, ?_⟩
  rw [← hsubject]
  exact .grant hactive (cons_ne_nil _ _) (fun _ => .rootController) (fun _ => 1)
    (forall_mem_singleton.mpr hroot) (forall_mem_singleton.mpr rfl)

-- The grant of the writer is a tree of two nodes, found while two visits are
-- left.
theorem resolver_decides_writer :
    ∃ grant, resolve primitives sampleView 0 spaceId MAX_AUTHORIZATION_GRAPH_VISITS
        [] Sample.writer Sample.writerGrant.operationId 4094 = .ok (.grant grant, 4096) := by
  obtain ⟨grant, -, hderived⟩ := sampleView_derivation 0
  obtain ⟨-, -, hdecides, -, -⟩ :=
    resolver_decides_derivations primitives sampleView 0 spaceId
  exact ⟨grant, (hdecides _ _ _ _ _).mpr ⟨2, hderived, by decide, rfl⟩⟩

end Resolver

section Support

variable {P : Primitives} {view view' : CapabilityView} {now now' middle : Int64} {spaceId :
  SpaceId} {subject : ActorId} {references references' : List OperationId}
  {permitted : EffectiveAuthority → Bool} {id : OperationId} {authority : EffectiveAuthority}
  {size : Nat}

-- Every reference stands on a tree of its own, all of them together within the
-- bound, and each gives what is asked for.
def Supported (P : Primitives) (view : CapabilityView) (now : Int64) (spaceId : SpaceId)
    (subject : ActorId) (references : List OperationId) (permitted : EffectiveAuthority → Bool) :
    Prop :=
  references ≠ [] ∧ ∃ (authority : OperationId → EffectiveAuthority) (size : OperationId → Nat),
    (∀ reference ∈ references, Derivation P view now spaceId reference subject
      (authority reference) (size reference)) ∧
    (references.map size).sum ≤ MAX_AUTHORIZATION_GRAPH_VISITS ∧
    ∀ reference ∈ references, permitted (authority reference) = true

theorem resolveReferences_eq_ok :
    resolveReferences P view now spaceId subject references = .ok authorities ↔
      references ≠ [] ∧ ∃ (authority : OperationId → EffectiveAuthority) (size : OperationId → Nat),
        (∀ reference ∈ references, Derivation P view now spaceId reference subject
          (authority reference) (size reference)) ∧
        (references.map size).sum ≤ MAX_AUTHORIZATION_GRAPH_VISITS ∧
        authorities = references.map authority := by
  have havoids : ∀ reference, Avoids view spaceId [] reference := fun _ _ _ => not_mem_nil
  simp only [resolveReferences, bind_eq_ok, Prod.exists, Except.ok.injEq, resolveSet_eq_ok]
  constructor
  · rintro ⟨found, visits, ⟨hnonempty, heach⟩, rfl⟩
    have hbound := (resolveEach_visits (fun _ _ _ _ hone => resolve_visits hone)
      (Nat.zero_le _) heach).2
    obtain ⟨authority, size, hderived, -, rfl, rfl⟩ :=
      resolveEach_derivations (fun _ _ _ _ hone => resolve_derivation hone) heach
    exact ⟨hnonempty, authority, size, hderived, by omega, rfl⟩
  · rintro ⟨hnonempty, authority, size, hderived, hbound, rfl⟩
    have hone : ∀ reference ∈ references, ∀ visits, 0 ≤ visits →
        visits + size reference ≤ MAX_AUTHORIZATION_GRAPH_VISITS →
        resolve P view now spaceId MAX_AUTHORIZATION_GRAPH_VISITS [] subject reference visits =
          .ok (authority reference, visits + size reference) :=
      fun reference hreference visits _ hless =>
        (hderived reference hreference).resolve_eq (havoids reference) hless (Nat.le_add_right _ _)
    exact ⟨_, _, ⟨hnonempty, resolveEach_of_sizes hone le_rfl (by omega)⟩, rfl⟩

theorem supported_iff :
    Supported P view now spaceId subject references permitted ↔
      ∃ authorities, resolveReferences P view now spaceId subject references = .ok authorities ∧
        authorities.all permitted = true := by
  simp only [Supported, resolveReferences_eq_ok]
  constructor
  · rintro ⟨hnonempty, authority, size, hderived, hbound, hpermitted⟩
    refine ⟨_, ⟨hnonempty, authority, size, hderived, hbound, rfl⟩, ?_⟩
    rw [all_map, all_eq_true]
    exact hpermitted
  · rintro ⟨_, ⟨hnonempty, authority, size, hderived, hbound, rfl⟩, hall⟩
    rw [all_map, all_eq_true] at hall
    exact ⟨hnonempty, authority, size, hderived, hbound, hall⟩

theorem authorizeOperationForVisibility_iff {operation : OperationEnvelope} :
    authorizeOperationForVisibility P operation now view visibility = .ok () ↔
      ∃ required, RequiredAuthority.forOperation operation visibility = .ok required ∧
        Supported P view now operation.spaceId operation.actorId operation.authorization
          (·.permits required) := by
  simp only [authorizeOperationForVisibility, supported_iff, bind_eq_ok, require_eq_ok]
  constructor
  · rintro ⟨-, -, required, hrequired, authorities, hauthorities, hall⟩
    exact ⟨required, hrequired, authorities, hauthorities, hall⟩
  · rintro ⟨required, hrequired, authorities, hauthorities, hall⟩
    have hnonempty := (resolveReferences_eq_ok.mp hauthorities).1
    exact ⟨(), by simpa using hnonempty, required, hrequired, authorities, hauthorities, hall⟩

theorem authorizeCapabilityAction_iff :
    authorizeCapabilityAction P spaceId subject references action now view = .ok () ↔
      Supported P view now spaceId subject references (·.permitsAction action) := by
  simp [authorizeCapabilityAction, supported_iff, bind_eq_ok]

theorem Supported.subperm (h : Supported P view now spaceId subject references permitted)
    (hnonempty : references' ≠ []) (hsub : references'.Subperm references) :
    Supported P view now spaceId subject references' permitted := by
  obtain ⟨-, authority, size, hderived, hbound, hpermitted⟩ := h
  have hsum : (references'.map size).sum ≤ (references.map size).sum := by
    obtain ⟨chosen, hperm, hsublist⟩ := hsub
    rw [← (hperm.map size).sum_eq]
    exact (hsublist.map size).sum_le_sum (fun _ _ => Nat.zero_le _)
  exact ⟨hnonempty, authority, size, fun reference hr => hderived reference (hsub.subset hr),
    hsum.trans hbound, fun reference hr => hpermitted reference (hsub.subset hr)⟩

-- The second view has revoked what the first has, and maybe more.
structure MoreRevoked (view view' : CapabilityView) : Prop where
  trustedGenesis : view'.trustedGenesis = view.trustedGenesis
  operation : view'.operation = view.operation
  isRevoked : ∀ spaceId id, view'.isRevoked spaceId id = .ok false →
    view.isRevoked spaceId id = .ok false

theorem Derivation.of_moreRevoked (hmore : MoreRevoked view view')
    (h : Derivation P view' now spaceId id subject authority size) :
    Derivation P view now spaceId id subject authority size := by
  induction h with
  | root hroot =>
    exact .root { hroot with
      found := by rw [← hmore.operation]; exact hroot.found
      trusted := by rw [← hmore.trustedGenesis]; exact hroot.trusted }
  | grant hactive hnonempty authority size _ hpermitted ih =>
    have hactive' : ActiveGrant P view now spaceId _ _ _ := { hactive with
      found := by rw [← hmore.operation]; exact hactive.found
      unrevoked := hmore.isRevoked _ _ hactive.unrevoked }
    exact .grant hactive' hnonempty authority size ih hpermitted

theorem Supported.of_moreRevoked (hmore : MoreRevoked view view')
    (h : Supported P view' now spaceId subject references permitted) :
    Supported P view now spaceId subject references permitted := by
  obtain ⟨hnonempty, authority, size, hderived, hbound, hpermitted⟩ := h
  exact ⟨hnonempty, authority, size,
    fun reference hr => (hderived reference hr).of_moreRevoked hmore, hbound, hpermitted⟩

theorem windowContains_between {grant : CapabilityGrant} (hlow : now.toInt ≤ middle.toInt)
    (hhigh : middle.toInt ≤ now'.toInt) (h : windowContains grant now = true)
    (h' : windowContains grant now' = true) : windowContains grant middle = true := by
  simp only [windowContains, Bool.and_eq_true, Option.all_eq_true, decide_eq_true_eq] at h h' ⊢
  refine ⟨fun start hstart => ?_, fun finish hfinish => ?_⟩
  · exact (h.1 start hstart).trans hlow
  · exact lt_of_le_of_lt hhigh (h'.2 finish hfinish)

-- The tree is the same at both times, so that every window on it contains both.
theorem Derivation.between (hlow : now.toInt ≤ middle.toInt) (hhigh : middle.toInt ≤ now'.toInt)
    (h : Derivation P view now spaceId id subject authority size)
    (h' : Derivation P view now' spaceId id subject' authority' size') :
    Derivation P view middle spaceId id subject authority size := by
  induction h generalizing subject' authority' size' with
  | root hroot => exact .root hroot
  | grant hactive hnonempty authority size _ hpermitted ih =>
    cases h' with
    | root hother =>
      cases hactive.found.symm.trans hother.found
      cases hactive.schema.symm.trans hother.schema
    | grant hother _ _ _ hissuers _ =>
      cases hactive.found.symm.trans hother.found
      cases hactive.body.symm.trans hother.body
      have hactive' : ActiveGrant P view middle spaceId _ _ _ := { hactive with
        active := windowContains_between hlow hhigh hactive.active hother.active }
      exact .grant hactive' hnonempty authority size
        (fun reference hr => ih reference hr (hissuers reference hr)) hpermitted

theorem Supported.between (hlow : now.toInt ≤ middle.toInt) (hhigh : middle.toInt ≤ now'.toInt)
    (h : Supported P view now spaceId subject references permitted)
    (h' : Supported P view now' spaceId subject references permitted) :
    Supported P view middle spaceId subject references permitted := by
  obtain ⟨hnonempty, authority, size, hderived, hbound, hpermitted⟩ := h
  obtain ⟨-, _, _, hderived', -, -⟩ := h'
  exact ⟨hnonempty, authority, size,
    fun reference hr => (hderived reference hr).between hlow hhigh (hderived' reference hr),
    hbound, hpermitted⟩

-- Fewer references in any order, fewer revocations and a time between two
-- others keep what is authorised.
theorem authorization_conjunctive_antitone (P : Primitives) :
    (∀ operation now view visibility references, references ≠ [] →
      references.Subperm operation.authorization →
      authorizeOperationForVisibility P operation now view visibility = .ok () →
      authorizeOperationForVisibility P { operation with authorization := references } now view
        visibility = .ok ()) ∧
    (∀ spaceId subject references references' action now view, references' ≠ [] →
      references'.Subperm references →
      authorizeCapabilityAction P spaceId subject references action now view = .ok () →
      authorizeCapabilityAction P spaceId subject references' action now view = .ok ()) ∧
    (∀ view view', MoreRevoked view view' → ∀ now,
      (∀ operation visibility,
        authorizeOperationForVisibility P operation now view visibility ≠ .ok () →
        authorizeOperationForVisibility P operation now view' visibility ≠ .ok ()) ∧
      ∀ spaceId subject references action,
        authorizeCapabilityAction P spaceId subject references action now view ≠ .ok () →
        authorizeCapabilityAction P spaceId subject references action now view' ≠ .ok ()) ∧
    (∀ view (now middle now' : Int64), now.toInt ≤ middle.toInt → middle.toInt ≤ now'.toInt →
      (∀ operation visibility,
        authorizeOperationForVisibility P operation now view visibility = .ok () →
        authorizeOperationForVisibility P operation now' view visibility = .ok () →
        authorizeOperationForVisibility P operation middle view visibility = .ok ()) ∧
      ∀ spaceId subject references action,
        authorizeCapabilityAction P spaceId subject references action now view = .ok () →
        authorizeCapabilityAction P spaceId subject references action now' view = .ok () →
        authorizeCapabilityAction P spaceId subject references action middle view = .ok ()) := by
  simp only [authorizeOperationForVisibility_iff, authorizeCapabilityAction_iff, ne_eq]
  refine ⟨?_, ?_, ?_, ?_⟩
  · rintro operation now view visibility references hnonempty hsub ⟨required, hrequired, hsupported⟩
    exact ⟨required, hrequired, hsupported.subperm hnonempty hsub⟩
  · intro spaceId subject references references' action now view hnonempty hsub hsupported
    exact hsupported.subperm hnonempty hsub
  · intro view view' hmore now
    refine ⟨?_, fun _ _ _ _ hdenied hsupported => hdenied (hsupported.of_moreRevoked hmore)⟩
    rintro operation visibility hdenied ⟨required, hrequired, hsupported⟩
    exact hdenied ⟨required, hrequired, hsupported.of_moreRevoked hmore⟩
  · intro view now middle now' hlow hhigh
    refine ⟨?_, fun _ _ _ _ h h' => h.between hlow hhigh h'⟩
    rintro operation visibility ⟨required, hrequired, h⟩ ⟨required', hrequired', h'⟩
    cases hrequired.symm.trans hrequired'
    exact ⟨required, hrequired, h.between hlow hhigh h'⟩

open Sample (primitives)

-- The record of the writer stays authorised at every time between two others.
theorem authorization_conjunctive_record :
    authorizeOperationForVisibility primitives
        { Sample.record.envelope with authorization := [Sample.writerGrant.operationId] } 5
        sampleView (some .pub) = .ok () ∧
      authorizeOperationForVisibility primitives Sample.record.envelope 5 sampleView
        (some .pub) = .ok () := by
  obtain ⟨hreferences, -, -, htimes⟩ := authorization_conjunctive_antitone primitives
  have hauthorized : ∀ now, authorizeOperationForVisibility primitives
      Sample.record.envelope now sampleView (some .pub) = .ok () := by
    intro now
    obtain ⟨grant, happend, hderived⟩ := sampleView_derivation now
    refine authorizeOperationForVisibility_iff.mpr ⟨.append .record .pub, rfl,
      cons_ne_nil _ _, fun _ => .grant grant, fun _ => 2, ?_, by decide, fun _ _ => happend⟩
    exact forall_mem_singleton.mpr hderived
  exact ⟨hreferences _ _ _ _ _ (cons_ne_nil _ _) (List.Subperm.refl _) (hauthorized 5),
    (htimes _ 0 5 10 (by decide) (by decide)).1 _ _ (hauthorized 0) (hauthorized 10)⟩

end Support

end Fractonica.Application
