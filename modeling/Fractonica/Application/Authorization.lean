import Fractonica.DataModel.Envelope
import Fractonica.Lib.BinarySearch

namespace Fractonica.Application

open Lib Trust DataModel

def MAX_AUTHORIZATION_GRAPH_VISITS : Nat := 4096

-- The text of an error, kept as the error that it displays.
inductive Detail where
  | message (text : String)
  | trust (label : String) (error : TrustError)
  | dataModel (label : String) (error : DataModelError)
  | nested (label : String) (detail : Detail)

-- Read access to the admitted operations of a space.
structure CapabilityView where
  trustedGenesis : SpaceId → Except Detail (Option OperationId)
  operation : SpaceId → OperationId → Except Detail (Option OperationEnvelope)
  isRevoked : SpaceId → OperationId → Except Detail Bool

inductive AuthorizationError where
  | required
  | missing (operationId : OperationId)
  | crossSpaceReference (operationId : OperationId)
  | notCapability (operationId : OperationId)
  | untrustedGenesis (operationId : OperationId)
  | revoked (operationId : OperationId)
  | subjectMismatch (grantId : OperationId) (subject actor : ActorId)
  | outsideAdmissionWindow (grantId : OperationId) (nowUnixMs : Int64)
  | denied
  | cycle (operationId : OperationId)
  | graphTooLarge
  | invalidStoredOperation (operationId : OperationId) (detail : Detail)
  | view (detail : Detail)

def liftView {α : Type} (result : Except Detail α) : Except AuthorizationError α :=
  result.mapError .view

@[simp] theorem liftView_eq_ok {result : Except Detail α} {a : α} :
    liftView result = .ok a ↔ result = .ok a :=
  mapError_eq_ok

def windowContains (grant : CapabilityGrant) (nowUnixMs : Int64) : Bool :=
  grant.notBeforeUnixMs.all (fun start => start.toInt ≤ nowUnixMs.toInt) &&
    grant.expiresAtUnixMs.all (fun finish => nowUnixMs.toInt < finish.toInt)

def permitsAppend (grant : CapabilityGrant) (schema : EntitySchema) (visibility : Visibility) :
    Bool :=
  grant.actions.contains .appendOperation && grant.schemas.contains schema &&
    grant.visibilities.contains visibility

def isSubsetBy {α β : Type} [LinearOrder β] (child parent : List α) (key : α → β) : Bool :=
  child.all fun value => BinarySearch.contains key parent (key value)

-- The bounds of a child against those of its parent, where no bound is the
-- widest one.
def boundIsNarrower {α : Type} (narrower : α → α → Bool) : Option α → Option α → Bool
  | none, none => true
  | some _, none => true
  | some child, some parent => narrower child parent
  | none, some _ => false

def maximumIsNarrower (child parent : Option UInt64) : Bool :=
  boundIsNarrower (fun child parent => child.toNat ≤ parent.toNat) child parent

def lowerBoundIsNarrower (child parent : Option Int64) : Bool :=
  boundIsNarrower (fun child parent => parent.toInt ≤ child.toInt) child parent

def upperBoundIsNarrower (child parent : Option Int64) : Bool :=
  boundIsNarrower (fun child parent => child.toInt ≤ parent.toInt) child parent

def scopeIsNarrower (parent child : CapabilityGrant) : Bool :=
  isSubsetBy child.actions parent.actions CapabilityAction.ctorIdx &&
    isSubsetBy child.schemas parent.schemas (fun schema => utf8Bytes schema.asStr) &&
    isSubsetBy child.visibilities parent.visibilities Visibility.ctorIdx &&
    isSubsetBy child.contentRoles parent.contentRoles utf8Bytes &&
    maximumIsNarrower child.maxResourceByteLength parent.maxResourceByteLength &&
    lowerBoundIsNarrower child.notBeforeUnixMs parent.notBeforeUnixMs &&
    upperBoundIsNarrower child.expiresAtUnixMs parent.expiresAtUnixMs

def permitsDelegation (parent child : CapabilityGrant) : Bool :=
  let attenuated := parent.actions.contains .issueCapability && 0 < parent.delegationDepth &&
    child.delegationDepth < parent.delegationDepth && scopeIsNarrower parent child
  let workspaceLink := parent.actions.contains .linkWorkspace &&
    child.actions.contains .linkWorkspace && !child.actions.contains .issueCapability &&
    !child.actions.contains .revokeCapability && child.delegationDepth = 0 &&
    scopeIsNarrower parent child
  attenuated || workspaceLink

inductive RequiredAuthority where
  | append (schema : EntitySchema) (visibility : Visibility)
  | issue (grant : CapabilityGrant)
  | revoke

def RequiredAuthority.forOperation (operation : OperationEnvelope)
    (visibility : Option Visibility) : Except AuthorizationError RequiredAuthority :=
  if operation.schema.isClient && operation.body.isClient then
    match visibility with
    | some visibility => .ok (.append operation.schema visibility)
    | none => .error .denied
  else
    match operation.schema, operation.body with
    | .capabilityGrant, .capabilityGrant grant => .ok (.issue grant)
    | .capabilityRevoke, .capabilityRevoke _ => .ok .revoke
    | _, _ => .error .denied

inductive EffectiveAuthority where
  | rootController
  | grant (grant : CapabilityGrant)

namespace EffectiveAuthority

def permitsAction (authority : EffectiveAuthority) (action : CapabilityAction) : Bool :=
  match authority with
  | .rootController => false
  | .grant held => held.actions.contains action

def permits (authority : EffectiveAuthority) (required : RequiredAuthority) : Bool :=
  match authority, required with
  | .rootController, .issue _ => true
  | .rootController, .revoke => true
  | .rootController, .append _ _ => false
  | .grant held, .append schema visibility => permitsAppend held schema visibility
  | .grant held, .issue child => permitsDelegation held child
  | .grant held, .revoke => held.actions.contains .revokeCapability

end EffectiveAuthority

section Resolution

-- The visits counted so far are threaded through the evaluation.
abbrev Resolver : Type :=
  OperationId → Nat → Except AuthorizationError (EffectiveAuthority × Nat)

def resolveEach (resolve : Resolver) :
    List OperationId → Nat → Except AuthorizationError (List EffectiveAuthority × Nat)
  | [], visits => .ok ([], visits)
  | reference :: rest, visits => do
    let (authority, visits) ← resolve reference visits
    let (authorities, visits) ← resolveEach resolve rest visits
    .ok (authority :: authorities, visits)

def resolveSet (resolve : Resolver) (references : List OperationId) (visits : Nat) :
    Except AuthorizationError (List EffectiveAuthority × Nat) := do
  require (!references.isEmpty) .required
  resolveEach resolve references visits

-- The operation behind a reference, with the checks made on every one.
def loadAuthority (P : Primitives) (view : CapabilityView) (spaceId : SpaceId)
    (operationId : OperationId) : Except AuthorizationError OperationEnvelope := do
  let found ← liftView (view.operation spaceId operationId)
  let operation ← okOr found (.missing operationId)
  (operation.verify P).mapError fun error =>
    .invalidStoredOperation operationId (.dataModel "" error)
  require (operation.operationId = operationId)
    (.invalidStoredOperation operationId (.message "lookup returned a different operation ID"))
  require (operation.spaceId = spaceId) (.crossSpaceReference operationId)
  .ok operation

variable (P : Primitives) (view : CapabilityView) (nowUnixMs : Int64) (spaceId : SpaceId)

-- The cases of one operation; `issuers` resolves the references of a grant.
def resolveInner (issuers : ActorId → List OperationId → Nat →
      Except AuthorizationError (List EffectiveAuthority × Nat))
    (expectedSubject : ActorId) (operationId : OperationId) (visits : Nat) :
    Except AuthorizationError (EffectiveAuthority × Nat) := do
  let operation ← loadAuthority P view spaceId operationId
  match operation.schema, operation.body with
  | .spaceGenesis, .spaceGenesis controller => do
    let genesis ← liftView (view.trustedGenesis spaceId)
    require (genesis = some operationId) (.untrustedGenesis operationId)
    require (controller = expectedSubject && operation.actorId = expectedSubject)
      (.subjectMismatch operationId controller expectedSubject)
    .ok (.rootController, visits)
  | .capabilityGrant, .capabilityGrant grant => do
    require (grant.subject = expectedSubject)
      (.subjectMismatch operationId grant.subject expectedSubject)
    let revoked ← liftView (view.isRevoked spaceId operationId)
    require (!revoked) (.revoked operationId)
    require (windowContains grant nowUnixMs) (.outsideAdmissionWindow operationId nowUnixMs)
    let (authorities, visits) ← issuers operation.actorId operation.authorization visits
    require (authorities.all (·.permits (.issue grant))) .denied
    .ok (.grant grant, visits)
  | _, _ => .error (.notCapability operationId)

-- Every call counts a visit, so the bound on the visits also bounds the depth:
-- the fuel runs out only where the visits do.
def resolve : Nat → List OperationId → ActorId → Resolver
  | 0, _, _ => fun _ _ => .error .graphTooLarge
  | fuel + 1, stack, expectedSubject => fun operationId visits => do
    require (visits + 1 ≤ MAX_AUTHORIZATION_GRAPH_VISITS) .graphTooLarge
    require (!stack.contains operationId) (.cycle operationId)
    resolveInner P view nowUnixMs spaceId
      (fun actorId => resolveSet (resolve fuel (operationId :: stack) actorId))
      expectedSubject operationId (visits + 1)

-- The authorities of a list of references, from a fresh context.
def resolveReferences (subject : ActorId) (references : List OperationId) :
    Except AuthorizationError (List EffectiveAuthority) := do
  let (authorities, _) ← resolveSet
    (resolve P view nowUnixMs spaceId MAX_AUTHORIZATION_GRAPH_VISITS [] subject) references 0
  .ok authorities

end Resolution

def authorizeOperationForVisibility (P : Primitives) (operation : OperationEnvelope)
    (nowUnixMs : Int64) (view : CapabilityView) (visibility : Option Visibility) :
    Except AuthorizationError Unit := do
  require (!operation.authorization.isEmpty) .required
  let required ← RequiredAuthority.forOperation operation visibility
  let authorities ← resolveReferences P view nowUnixMs operation.spaceId operation.actorId
    operation.authorization
  require (authorities.all (·.permits required)) .denied

def authorizeOperation (P : Primitives) (operation : OperationEnvelope) (nowUnixMs : Int64)
    (view : CapabilityView) : Except AuthorizationError Unit :=
  authorizeOperationForVisibility P operation nowUnixMs view operation.body.declaredVisibility

def authorizeCapabilityAction (P : Primitives) (spaceId : SpaceId) (subject : ActorId)
    (references : List OperationId) (action : CapabilityAction) (nowUnixMs : Int64)
    (view : CapabilityView) : Except AuthorizationError Unit := do
  let authorities ← resolveReferences P view nowUnixMs spaceId subject references
  require (authorities.all (·.permitsAction action)) .denied

end Fractonica.Application
