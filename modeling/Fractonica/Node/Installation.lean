import Fractonica.Lib.Files
import Fractonica.Node.Pairing

namespace Fractonica.Node

open Lib Trust List

structure InstallationManifest where
  nodeId : NodeId
  controllerActorId : ActorId
  localWriterActorId : ActorId
deriving DecidableEq

def InstallationManifest.fromIdentity (P : Primitives) (identity : IdentityBundle) :
    InstallationManifest where
  nodeId := identity.nodeTransportKey.nodeId P
  controllerActorId := identity.spaceControllerKey.actorId P
  localWriterActorId := identity.localWriterKey.actorId P

-- `serde_json` for a manifest. An empty file is not JSON.
structure ManifestFormat where
  toVecPretty : InstallationManifest → List UInt8
  fromSlice : List UInt8 → Option InstallationManifest
  reads_back : ∀ manifest, fromSlice (toVecPretty manifest) = some manifest
  refuses_empty : fromSlice [] = none

inductive InstallationPhase where
  | fresh
  | identityInitializing
  | established (manifest : InstallationManifest)

inductive InstallationError where
  | identityMismatch
  | invalidLifecycleTransition
  | json

inductive InstallationFile where
  | identityPending
  | manifest
deriving DecidableEq

abbrev DataDir : Type := Directory InstallationFile

structure NodeInstallation where
  phase : InstallationPhase

def IDENTITY_PENDING : List UInt8 := utf8Bytes "fractonica-identity-pending\n"

namespace NodeInstallation

variable (J : ManifestFormat) (P : Primitives)

def begin (dir : DataDir) : Except InstallationError NodeInstallation :=
  match dir .manifest with
  | some bytes =>
    match J.fromSlice bytes with
    | some manifest => .ok ⟨.established manifest⟩
    | none => .error .json
  | none => .ok ⟨if (dir .identityPending).isSome then .identityInitializing else .fresh⟩

-- A call returns the file operations it makes, and the installation after them.
def startIdentity (installation : NodeInstallation) :
    Except InstallationError (List (FileEffect InstallationFile) × NodeInstallation) :=
  match installation.phase with
  | .fresh => .ok ([.write .identityPending IDENTITY_PENDING], ⟨.identityInitializing⟩)
  | _ => .error .invalidLifecycleTransition

def completeIdentity (installation : NodeInstallation) (identity : IdentityBundle) :
    Except InstallationError (List (FileEffect InstallationFile) × NodeInstallation) :=
  let manifest := InstallationManifest.fromIdentity P identity
  match installation.phase with
  | .fresh => .error .invalidLifecycleTransition
  | .established found =>
    if found = manifest then .ok ([], installation) else .error .identityMismatch
  | .identityInitializing =>
    .ok ([.write .manifest (J.toVecPretty manifest), .remove .identityPending],
      ⟨.established manifest⟩)

end NodeInstallation

-- The disk, the operations on it since the machine started, none of which is
-- synced, and what the running process holds.
structure InstallationSystem where
  durable : DataDir
  unsynced : List (FileEffect InstallationFile)
  installation : Option NodeInstallation

namespace InstallationSystem

def initial : InstallationSystem := ⟨fun _ => none, [], none⟩

def view (s : InstallationSystem) : DataDir := s.durable.after s.unsynced

inductive Call where
  | begin
  | startIdentity
  | completeIdentity (identity : IdentityBundle)

variable (J : ManifestFormat) (P : Primitives)

-- The file operations of a call and what the process holds after it. A call that
-- fails makes no operation.
def perform (s : InstallationSystem) (call : Call) :
    List (FileEffect InstallationFile) × Option NodeInstallation :=
  let settle (installation : NodeInstallation)
      (result : Except InstallationError (List (FileEffect InstallationFile) × NodeInstallation)) :=
    match result with
    | .ok (effects, later) => (effects, some later)
    | .error _ => ([], some installation)
  match call, s.installation with
  | .begin, _ => ([], (NodeInstallation.begin J s.view).toOption)
  | _, none => ([], none)
  | .startIdentity, some installation => settle installation installation.startIdentity
  | .completeIdentity identity, some installation =>
    settle installation (installation.completeIdentity J P identity)

-- What a crash leaves of the operations before the interrupted call and of those
-- of the call.
abbrev Crash : Type := List (FileEffect InstallationFile) → List (FileEffect InstallationFile) →
  DataDir → DataDir → Prop

def anyCrash : Crash := fun before during => Survives (before ++ during)

-- Finished operations stay and no file is torn.
def orderlyCrash : Crash := fun before during dir dir' =>
  ∃ count, dir' = dir.after (before ++ during.take count)

inductive Step (crash : Crash) : InstallationSystem → InstallationSystem → Prop
  | call (call : Call) :
      Step crash s ⟨s.durable, s.unsynced ++ (s.perform J P call).1, (s.perform J P call).2⟩
  | crash (call : Call) (h : crash s.unsynced (s.perform J P call).1 s.durable dir) :
      Step crash s ⟨dir, [], none⟩

def Steps (crash : Crash) : InstallationSystem → InstallationSystem → Prop :=
  Relation.ReflTransGen (Step J P crash)

end InstallationSystem

end Fractonica.Node
