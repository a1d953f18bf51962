import Fractonica.Pairing.Messages.Theorems
import Fractonica.Peer.Proof

namespace Fractonica.Pairing

open Lib Trust DataModel Peer List

-- The values that carry detached signatures, each under its domain. The request of
-- a peer is signed under two.
inductive Signable where
  | pairingInvitation (descriptor : InvitationDescriptor)
  | pairingJoinerClaim (claim : JoinerClaim)
  | pairingReceipt (receipt : PairingReceipt)
  | pairingAcceptance (acceptance : PairingAcceptance)
  | peerNodeRequest (proof : PeerReadChangesProof)
  | peerActorRequest (proof : PeerReadChangesProof)

namespace Signable

def domain : Signable → DetachedSignatureDomain
  | .pairingInvitation _ => .pairingInvitationV1
  | .pairingJoinerClaim _ => .pairingJoinerClaimV1
  | .pairingReceipt _ => .pairingReceiptV1
  | .pairingAcceptance _ => .pairingAcceptanceV1
  | .peerNodeRequest _ => .peerNodeRequestV1
  | .peerActorRequest _ => .peerActorRequestV1

-- The bytes that are signed, if the value can be written.
def message : Signable → Option (List UInt8)
  | .pairingInvitation descriptor => descriptor.canonicalBytes.toOption
  | .pairingJoinerClaim claim => claim.unsignedBytes.toOption
  | .pairingReceipt receipt => (encodeMessage receipt.unsignedValue).toOption
  | .pairingAcceptance acceptance => acceptance.unsignedBytes.toOption
  | .peerNodeRequest proof | .peerActorRequest proof => proof.canonicalBytes.toOption

def preimage (signable : Signable) : Option (List UInt8) :=
  signable.message.map (detachedSignatureMessage signable.domain)

def blank : DetachedSignature := ⟨FixedBytes.replicate 64 0⟩

abbrev request (proof : PeerReadChangesProof) : PeerReadChangesProof :=
  { proof with nodeSignature := blank, actorSignature := blank }

-- A value before it is signed.
def unsigned : Signable → Signable
  | .pairingInvitation descriptor => .pairingInvitation descriptor
  | .pairingJoinerClaim claim =>
    .pairingJoinerClaim { claim with nodeSignature := blank, actorSignature := blank }
  | .pairingReceipt receipt => .pairingReceipt { receipt with signature := blank }
  | .pairingAcceptance acceptance =>
    .pairingAcceptance { acceptance with nodeSignature := blank, actorSignature := blank }
  | .peerNodeRequest proof => .peerNodeRequest (request proof)
  | .peerActorRequest proof => .peerActorRequest (request proof)

def value : Signable → CanonicalValue
  | .pairingInvitation descriptor => descriptor.canonicalValue
  | .pairingJoinerClaim claim => claim.unsignedValue
  | .pairingReceipt receipt => receipt.unsignedValue
  | .pairingAcceptance acceptance => acceptance.unsignedValue
  | .peerNodeRequest proof | .peerActorRequest proof => proof.canonicalValue

theorem message_eq_some {signable : Signable} (h : signable.message = some bytes) :
    toCanonicalCbor signable.value = .ok bytes := by
  cases signable with
  | peerNodeRequest proof | peerActorRequest proof =>
    have hbytes := toOption_eq_some.mp h
    simp only [PeerReadChangesProof.canonicalBytes, bind_eq_ok, mapError_eq_ok,
      Except.ok.injEq] at hbytes
    obtain ⟨_, hencoded, -, -, rfl⟩ := hbytes
    exact hencoded
  | _ => exact (encodeMessage_eq_ok.mp (toOption_eq_some.mp h)).1

end Signable

-- No label begins another, with the zero that ends it.
theorem label_separates (left right : DetachedSignatureDomain)
    (h : left.label ++ [0] <+: right.label ++ [0]) : left = right := by
  revert h
  cases left <;> cases right <;> decide

theorem detachedSignatureMessage_inj
    (h : detachedSignatureMessage domain message = detachedSignatureMessage domain' message') :
    domain = domain' ∧ message = message' := by
  simp only [detachedSignatureMessage, append_assoc, append_cancel_left_eq] at h
  rw [← append_assoc, ← append_assoc domain'.label] at h
  have hdomain : domain = domain' := by
    rcases prefix_or_prefix_of_prefix ⟨_, rfl⟩ ⟨_, h.symm⟩ with hprefix | hprefix
    · exact label_separates _ _ hprefix
    · exact (label_separates _ _ hprefix).symm
  subst hdomain
  exact ⟨rfl, (append_inj (append_cancel_left h) (by simp)).2⟩

theorem fields_eq {left right : List CanonicalValue}
    (h : normalize (numbered left) = normalize (numbered right))
    (hleft : left.length ≤ 24 := by simp) (hright : right.length ≤ 24 := by simp) :
    left.map normalize = right.map normalize := by
  rw [normalize_numbered hleft, normalize_numbered hright] at h
  have hvalues := congrArg (map Prod.snd) (CanonicalValue.map.inj h)
  rw [map_mapIdx, map_mapIdx, mapIdx_eq_zipIdx_map, mapIdx_eq_zipIdx_map] at hvalues
  simpa using hvalues

theorem normalize_integer_injective :
    Function.Injective fun value : Int64 => Trust.normalize (.integer value) := by
  intro left right h
  have hleft := left.toInt_lt
  have hright := right.toInt_lt
  simp only [Trust.normalize] at h
  split_ifs at h
  · have hnat := congrArg UInt64.toNat (CanonicalValue.unsigned.inj h)
    rw [UInt64.toNat_ofNat', UInt64.toNat_ofNat'] at hnat
    exact Int64.toInt_inj.mp (by omega)
  · exact CanonicalValue.integer.inj h

theorem bytes_eq (left right : FixedBytes n) :
    Trust.normalize (.bytes left.bytes) = Trust.normalize (.bytes right.bytes) ↔ left = right := by
  simp only [Trust.normalize, CanonicalValue.bytes.injEq, (FixedBytes.bytes_injective n).eq_iff]

theorem optional_eq {α : Type} {encode : α → CanonicalValue} {left right : Option α}
    (hencode : Function.Injective fun value => normalize (encode value))
    (hsome : ∀ value, normalize (encode value) ≠ .null)
    (h : Trust.normalize (left.elim .null encode) = Trust.normalize (right.elim .null encode)) :
    left = right := by
  cases left <;> cases right
  · rfl
  · exact absurd h.symm (hsome _)
  · exact absurd h (hsome _)
  · exact congrArg some (hencode h)

theorem time_eq {left right : Option Int64}
    (h : Trust.normalize (left.elim .null .integer) = Trust.normalize (right.elim .null .integer)) :
    left = right := by
  refine optional_eq normalize_integer_injective ?_ h
  intro time hnull
  simp only [Trust.normalize] at hnull
  split_ifs at hnull

theorem items_eq {α : Type} {encode : α → CanonicalValue} {left right : List α}
    (hencode : Function.Injective fun value => normalize (encode value))
    (h : Trust.normalize (.array (left.map encode)) = Trust.normalize (.array (right.map encode))) :
    left = right := by
  rw [normalize_array, normalize_array, map_map, map_map] at h
  exact hencode.list_map (CanonicalValue.array.inj h)

theorem text_injective : Function.Injective fun text => Trust.normalize (.text text) :=
  fun _ _ hsame => CanonicalValue.text.inj hsame

theorem template_eq {left right : CapabilityGrantTemplate}
    (h : normalize left.canonicalValue = normalize right.canonicalValue) : left = right := by
  have hfields := fields_eq h
  simp only [map_cons, map_nil, cons.injEq] at hfields
  obtain ⟨hactions, hschemas, hvisibilities, hroles, hlength, hbefore, hexpires, hdepth, hlabel,
    -⟩ := hfields
  cases left
  cases right
  simp only [CapabilityGrantTemplate.mk.injEq]
  refine ⟨items_eq ?_ hactions, items_eq ?_ hschemas, items_eq ?_ hvisibilities,
    items_eq ?_ hroles, optional_eq ?_ ?_ hlength, time_eq hbefore, time_eq hexpires, ?_, ?_⟩
  · intro action action' hsame
    have hcode := CanonicalValue.unsigned.inj hsame
    revert hcode
    cases action <;> cases action' <;> decide
  · exact fun _ _ hsame => EntitySchema.asStr_injective (CanonicalValue.text.inj hsame)
  · intro visibility visibility' hsame
    have hcode := CanonicalValue.unsigned.inj hsame
    revert hcode
    cases visibility <;> cases visibility' <;> decide
  · exact text_injective
  · exact fun _ _ hsame => CanonicalValue.unsigned.inj hsame
  · exact fun _ hnull => nomatch hnull
  · exact UInt8.toUInt64_inj.mp (CanonicalValue.unsigned.inj hdepth)
  · exact CanonicalValue.text.inj hlabel

def requestFields (proof : PeerReadChangesProof) : List CanonicalValue :=
  match proof.canonicalValue with
  | .map entries => entries.map Prod.snd
  | _ => []

theorem request_eq {left right : PeerReadChangesProof}
    (h : normalize left.canonicalValue = normalize right.canonicalValue) :
    Signable.request left = Signable.request right := by
  have hnumbered : ∀ proof : PeerReadChangesProof,
      proof.canonicalValue = numbered (requestFields proof) := fun _ => rfl
  rw [hnumbered left, hnumbered right] at h
  rcases left with ⟨_, ⟨_⟩, ⟨_⟩, ⟨_⟩, ⟨_⟩, ⟨_⟩, _, _, _, _, ⟨_⟩, _, _⟩
  rcases right with ⟨_, ⟨_⟩, ⟨_⟩, ⟨_⟩, ⟨_⟩, ⟨_⟩, _, _, _, _, ⟨_⟩, _, _⟩
  have hfields := fields_eq h
    (by simp [requestFields, PeerReadChangesProof.canonicalValue])
    (by simp [requestFields, PeerReadChangesProof.canonicalValue])
  simp only [requestFields, PeerReadChangesProof.canonicalValue, map_cons, map_nil, cons.injEq,
    bytes_eq, normalize_unsigned, CanonicalValue.unsigned.injEq, UInt64.ofNat_uInt8ToNat,
    UInt64.ofNat_uInt16ToNat, UInt8.toUInt64_inj, UInt16.toUInt64_inj,
    normalize_integer_injective.eq_iff] at hfields
  obtain ⟨rfl, -, rfl, rfl, rfl, rfl, rfl, rfl, rfl, rfl, rfl, rfl, -⟩ := hfields
  rfl

theorem Signable.unsigned_eq {left right : Signable} (hdomain : left.domain = right.domain)
    (h : normalize left.value = normalize right.value) : left.unsigned = right.unsigned := by
  cases left <;> cases right <;> try cases hdomain
  case pairingInvitation left right =>
    rcases left with ⟨⟨_⟩, ⟨_⟩, _, ⟨_⟩, ⟨_⟩, _, _, _, _⟩
    rcases right with ⟨⟨_⟩, ⟨_⟩, _, ⟨_⟩, ⟨_⟩, _, _, _, _⟩
    have hfields := fields_eq h
    simp only [map_cons, map_nil, cons.injEq, bytes_eq,
      normalize_integer_injective.eq_iff] at hfields
    obtain ⟨-, -, rfl, -, rfl, rfl, rfl, rfl, rfl, hhints, hcapability, rfl, -⟩ := hfields
    obtain rfl := items_eq text_injective hhints
    obtain rfl := template_eq hcapability
    rfl
  case pairingJoinerClaim left right =>
    rcases left with ⟨⟨_⟩, _, ⟨_⟩, ⟨_⟩, ⟨_⟩, ⟨_⟩, ⟨_⟩, _, _, _⟩
    rcases right with ⟨⟨_⟩, _, ⟨_⟩, ⟨_⟩, ⟨_⟩, ⟨_⟩, ⟨_⟩, _, _, _⟩
    have hfields := fields_eq h
    simp only [map_cons, map_nil, cons.injEq, bytes_eq] at hfields
    obtain ⟨-, rfl, rfl, rfl, rfl, rfl, rfl, rfl, rfl, -⟩ := hfields
    rfl
  case pairingReceipt left right =>
    rcases left with ⟨⟨_⟩, _, _, _, ⟨_⟩, ⟨_⟩, _, _⟩
    rcases right with ⟨⟨_⟩, _, _, _, ⟨_⟩, ⟨_⟩, _, _⟩
    have hfields := fields_eq h
    simp only [map_cons, map_nil, cons.injEq, bytes_eq] at hfields
    obtain ⟨-, rfl, rfl, rfl, rfl, rfl, rfl, rfl, -⟩ := hfields
    rfl
  case pairingAcceptance left right =>
    rcases left with ⟨⟨_⟩, _, _, ⟨_⟩, ⟨_⟩, ⟨_⟩, ⟨_⟩, ⟨_⟩, _, _, _⟩
    rcases right with ⟨⟨_⟩, _, _, ⟨_⟩, ⟨_⟩, ⟨_⟩, ⟨_⟩, ⟨_⟩, _, _, _⟩
    have hfields := fields_eq h
    simp only [map_cons, map_nil, cons.injEq, bytes_eq] at hfields
    obtain ⟨-, rfl, rfl, rfl, rfl, rfl, rfl, rfl, rfl, rfl, -⟩ := hfields
    rfl
  case peerNodeRequest left right => exact congrArg peerNodeRequest (request_eq h)
  case peerActorRequest left right => exact congrArg peerActorRequest (request_eq h)

-- Two values with one preimage have the same domain and the same fields. A signature
-- over one digest is therefore accepted for another value only where the digests of
-- the two preimages collide.
theorem detached_signatures_bind (left right : Signable) :
    (∀ bytes, left.preimage = some bytes → right.preimage = some bytes →
      left.domain = right.domain ∧ left.unsigned = right.unsigned) ∧
    ∀ (P : SignaturePrimitives) (key : Ed25519PublicKey) (signature : DetachedSignature)
      (bytes message : List UInt8), left.preimage = some bytes → right.message = some message →
      (∀ digest : FixedBytes 32, P.verify key.bytes digest.bytes signature.bytes = true →
        digest = P.sha256 bytes) →
      Ed25519PublicKey.verifyDetached P key right.domain message signature = .ok () →
        left.domain = right.domain ∧ left.unsigned = right.unsigned ∨
          right.preimage ≠ some bytes ∧ right.preimage.map P.sha256 = some (P.sha256 bytes) := by
  have hbinds : ∀ bytes, left.preimage = some bytes → right.preimage = some bytes →
      left.domain = right.domain ∧ left.unsigned = right.unsigned := by
    intro bytes hleft hright
    obtain ⟨message, hmessage, rfl⟩ := Option.map_eq_some_iff.mp hleft
    obtain ⟨message', hmessage', hsame⟩ := Option.map_eq_some_iff.mp hright
    obtain ⟨hdomain, rfl⟩ := detachedSignatureMessage_inj hsame
    have hvalue := ((toCanonicalCbor_round_trip (Signable.message_eq_some hmessage)).2 _ _
      (Signable.message_eq_some hmessage')).mp rfl
    exact ⟨hdomain.symm, Signable.unsigned_eq hdomain.symm hvalue.symm⟩
  refine ⟨hbinds, ?_⟩
  intro P key signature bytes message hleft hmessage honly hverified
  have hright : right.preimage = some (detachedSignatureMessage right.domain message) :=
    Option.map_eq_some_iff.mpr ⟨message, hmessage, rfl⟩
  have hdigest := honly _ (verifyDetached_eq_ok.mp hverified).2
  by_cases hsame : right.preimage = some bytes
  · exact .inl (hbinds bytes hleft hsame)
  · refine .inr ⟨hsame, ?_⟩
    rw [hright, Option.map_some, ← hdigest]
    rfl

end Fractonica.Pairing
