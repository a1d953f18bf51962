import Fractonica.Client.Deletion
import Fractonica.Node.Pairing

namespace Fractonica.Node

open Trust Store

def NodePairingControl.deleteWorkspace (db : Database) (spaceId : SpaceId) (referenced : Bool) :
    Database × Except PairingControlError Unit :=
  match deleteSpace db spaceId referenced with
  | (db, .error (.spaceNotFound _)) => (db, .error .notFound)
  | (db, .error _) => (db, .error .storage)
  | (db, .ok ()) => (db, .ok ())

end Fractonica.Node

namespace Fractonica.Client

open Lib Trust List Node
open Store (Database deleteSpace spaceRow?)

inductive ClientRuntimeError where
  | http
  | store (error : ClientStoreError)

-- The supervising node, the store of the client and the space of its author.
structure Supervised where
  node : Database
  client : Tables
  author : Option SpaceId

-- Where a deletion is cut off. The answer of the node is lost, or one of the two
-- ends.
inductive Interruption where
  | unsent
  | unanswered
  | unstored
  | uncleared
deriving DecidableEq

namespace Supervised

-- The node deletes first, and every answer but success ends the call.
def deleteWorkspace (s : Supervised) (spaceId : SpaceId) (referenced : Bool)
    (cut : Option Interruption) : Supervised × Option (Except ClientRuntimeError Unit) :=
  if cut = some .unsent then (s, none) else
    let (node, answer) := NodePairingControl.deleteWorkspace s.node spaceId referenced
    let s := { s with node }
    if cut = some .unanswered then (s, some (.error .http)) else
      match answer with
      | .error _ => (s, some (.error .http))
      | .ok () =>
        if cut = some .unstored then (s, none) else
          match Client.deleteWorkspace s.client spaceId with
          | .error error => (s, some (.error (.store error)))
          | .ok client =>
            let s := { s with client }
            if cut = some .uncleared then (s, none) else
              ({ s with author := s.author.filter (· ≠ spaceId) }, some (.ok ()))

-- The deletion is called and cut off, again and again.
def interrupted (s : Supervised) (spaceId : SpaceId) (referenced : Bool) :
    List Interruption → Supervised
  | [] => s
  | cut :: cuts =>
    (s.deleteWorkspace spaceId referenced (some cut)).1.interrupted spaceId referenced cuts

end Supervised

section Deletion

variable {s : Supervised} {spaceId : SpaceId} {referenced : Bool}

def Hosts (db : Database) (spaceId : SpaceId) : Prop :=
  (spaceRow? db.tables spaceId).isSome = true

theorem not_hosts_without {db : Database} :
    ¬ Hosts { db with tables := db.tables.withoutSpace spaceId } spaceId := by
  simp [Hosts, spaceRow?, Store.Tables.withoutSpace, find?_filter]

-- The node deletes a workspace that it hosts, and changes nothing otherwise.
theorem nodeDeletion_cases (db : Database) (spaceId : SpaceId) (referenced : Bool) :
    ((Hosts db spaceId ∧ referenced = false) ∧
      NodePairingControl.deleteWorkspace db spaceId referenced =
        ({ db with tables := db.tables.withoutSpace spaceId }, .ok ())) ∨
    (¬ (Hosts db spaceId ∧ referenced = false) ∧ ∃ error,
      NodePairingControl.deleteWorkspace db spaceId referenced = (db, .error error)) := by
  unfold NodePairingControl.deleteWorkspace deleteSpace Hosts
  cases spaceRow? db.tables spaceId with
  | none => exact .inr ⟨by simp, _, rfl⟩
  | some row =>
    cases referenced with
    | true => exact .inr ⟨by simp, _, rfl⟩
    | false => exact .inl ⟨⟨rfl, rfl⟩, rfl⟩

theorem clientDeletion_eq_ok {t t' : Tables} :
    Client.deleteWorkspace t spaceId = .ok t' ↔
      Detached t spaceId ∧ t.withoutSpace spaceId = t' := by
  rw [← refersToSpace_eq_false]
  simp [Client.deleteWorkspace, bind_eq_ok]

-- An attempt that got past the client leaves a node that does not host the
-- workspace, or one that cannot delete it.
theorem not_hosts_of_cut {cut : Interruption} (hcut : cut ≠ .unsent) :
    ¬ (Hosts (s.deleteWorkspace spaceId referenced (some cut)).1.node spaceId ∧
      referenced = false) := by
  have hsent : some cut ≠ some Interruption.unsent := fun h => hcut (Option.some.inj h)
  rcases nodeDeletion_cases s.node spaceId referenced with ⟨-, hnode⟩ | ⟨hnot, error, hnode⟩
  · rintro ⟨hhosts, -⟩
    refine (not_hosts_without : ¬ Hosts { s.node with tables := _ } spaceId) ?_
    simp only [Supervised.deleteWorkspace, if_neg hsent, hnode] at hhosts
    split_ifs at hhosts <;> first | exact hhosts | (split at hhosts <;> exact hhosts)
  · simp only [Supervised.deleteWorkspace, if_neg hsent, hnode]
    split_ifs <;> exact hnot

theorem deleteWorkspace_isOk :
    (s.deleteWorkspace spaceId referenced none).2 = some (.ok ()) ↔
      (Hosts s.node spaceId ∧ referenced = false) ∧ Detached s.client spaceId := by
  rcases nodeDeletion_cases s.node spaceId referenced with ⟨hyes, hnode⟩ | ⟨hno, error, hnode⟩
  · rw [and_iff_right hyes]
    simp only [Supervised.deleteWorkspace, hnode, reduceCtorEq, if_false]
    cases hclient : Client.deleteWorkspace s.client spaceId with
    | error error =>
      refine iff_of_false (by simp) fun hdetached => ?_
      rw [clientDeletion_eq_ok.mpr ⟨hdetached, rfl⟩] at hclient
      cases hclient
    | ok client => exact iff_of_true rfl (clientDeletion_eq_ok.mp hclient).1
  · simp [Supervised.deleteWorkspace, hnode, hno]

end Deletion

open DataModel.Sample (spaceId)
open Sample (granted platform tables)

end Fractonica.Client
