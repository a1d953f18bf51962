import Fractonica.DataModel.Validation

namespace Fractonica.DataModel

open Lib Trust Content List

variable {P : Primitives}

section Resources

variable {resources : List ResourceRef}

theorem validateResourcesFrom_eq_ok :
    validateResourcesFrom index seen resources = .ok u ↔
      (∀ resource ∈ resources, resource.Valid) ∧
        (∀ resource ∈ resources, resource.contentId ∉ seen) ∧
        (resources.map ResourceRef.contentId).Nodup := by
  induction resources generalizing index seen with
  | nil => simp [validateResourcesFrom]
  | cons resource rest ih =>
    simp only [validateResourcesFrom, bind_eq_ok, mapError_eq_ok, ResourceRef.validate_eq_ok,
      require_eq_ok, ih, forall_mem_cons, map_cons, nodup_cons, mem_map,
      contains_eq_mem, Bool.not_eq_eq_eq_not, Bool.not_true, decide_eq_false_iff_not]
    constructor
    · rintro ⟨-, hvalid, -, hfresh, hrest, hseen, hnodup⟩
      refine ⟨⟨hvalid, hrest⟩, ⟨hfresh, ?_⟩, ?_, hnodup⟩
      · intro other hother
        exact not_mem_of_not_mem_cons (hseen other hother)
      · rintro ⟨other, hother, hsame⟩
        exact ne_of_not_mem_cons (hseen other hother) hsame
    · rintro ⟨⟨hvalid, hrest⟩, ⟨hfresh, hseen⟩, hnew, hnodup⟩
      refine ⟨(), hvalid, (), hfresh, hrest, ?_, hnodup⟩
      intro other hother hmem
      rcases mem_cons.mp hmem with hsame | hmem
      · exact hnew ⟨other, hother, hsame⟩
      · exact hseen other hother hmem

-- What the validation establishes about a list of resources.
@[mk_iff] structure ValidResources (resources : List ResourceRef) : Prop where
  count : resources.length ≤ MAX_RECORD_RESOURCES
  valid : ∀ resource ∈ resources, resource.Valid
  distinct : (resources.map ResourceRef.contentId).Nodup

theorem validateResources_eq_ok :
    validateResources resources = .ok u ↔ ValidResources resources := by
  simp [validateResources, bind_eq_ok, validateResourcesFrom_eq_ok,
    validResources_iff]

theorem validResources_nil : ValidResources [] :=
  ⟨Nat.zero_le _, by simp, List.nodup_nil⟩

theorem validResources_avatar {avatar : Option ResourceRef}
    (h : ∀ resource ∈ avatar, resource.Valid) : ValidResources avatar.toList := by
  cases avatar with
  | none => exact validResources_nil
  | some resource => exact ⟨Nat.le_of_ble_eq_true rfl, by simpa using h, nodup_singleton _⟩

theorem validResources_of_private
    (h : validatePrivateResources resources = .ok u) : ValidResources resources := by
  obtain ⟨_, hresources, -⟩ := bind_eq_ok.mp h
  exact validateResources_eq_ok.mp hresources

theorem validResources_of_protected
    (h : validateProtected (.priv envelope resources) validatePublic allowed = .ok ()) :
    envelope.validate = .ok () ∧ ValidResources resources := by
  obtain ⟨_, henvelope, hresources⟩ := bind_eq_ok.mp h
  refine ⟨henvelope, ?_⟩
  cases allowed with
  | true => exact validResources_of_private hresources
  | false =>
    rw [if_neg Bool.false_ne_true, require_eq_ok, List.isEmpty_iff] at hresources
    rw [hresources]
    exact validResources_nil

end Resources

section Bodies

variable {body : OperationBody} {schema : EntitySchema} {actorId : ActorId} {entityId : EntityId}
  {causalParents authorization : List OperationId}

-- The schemas of the bodies, and the documents behind them.
inductive ValidBody (P : Primitives) : EntitySchema → OperationBody → Prop
  | record {payload : ProtectedDocument RecordDocument}
      (valid : validateProtected payload (RecordDocument.validate P) true = .ok ()) :
      ValidBody P .record (.putRecord payload)
  | tag {payload : ProtectedDocument TagDocument}
      (valid : validateProtected payload (TagDocument.validate P) false = .ok ()) :
      ValidBody P .tag (.putTag payload)
  | event {payload : ProtectedDocument EventDocument}
      (valid : validateProtected payload (EventDocument.validate P) false = .ok ()) :
      ValidBody P .event (.putEvent payload)
  | profile {document : ProfileDocument} (valid : document.validate P = .ok ()) :
      ValidBody P .profile (.putProfile document)
  | tombstone {schema : EntitySchema} (client : schema.isClient = true) :
      ValidBody P schema .tombstone
  | spaceGenesis (controller : ActorId) : ValidBody P .spaceGenesis (.spaceGenesis controller)
  | capabilityGrant {grant : CapabilityGrant} (valid : grant.Valid P) :
      ValidBody P .capabilityGrant (.capabilityGrant grant)
  | capabilityRevoke {revocation : CapabilityRevocation} (valid : revocation.validate = .ok ()) :
      ValidBody P .capabilityRevoke (.capabilityRevoke revocation)

theorem validBody_of_validateFor
    (h : body.validateFor P schema actorId entityId causalParents authorization = .ok ()) :
    ValidBody P schema body := by
  simp only [OperationBody.validateFor, require_bind_eq_ok] at h
  obtain ⟨-, h⟩ := h
  split at h
  · exact .record h
  · exact .tag h
  · exact .event h
  · exact .profile (require_bind_eq_ok.mp h).2
  · exact .tombstone rfl
  · exact .tombstone rfl
  · exact .tombstone rfl
  · exact .tombstone rfl
  · exact .spaceGenesis _
  · exact .capabilityGrant (CapabilityGrant.valid_of_validate h)
  · exact .capabilityRevoke h
  · cases h

theorem ValidBody.resources (h : ValidBody P schema body) : ValidResources body.resources := by
  cases h with
  | @record payload valid =>
    cases payload with
    | pub document =>
      simp only [validateProtected, RecordDocument.validate, bind_eq_ok] at valid
      obtain ⟨_, -, _, -, _, -, _, -, _, hresources, -⟩ := valid
      exact validateResources_eq_ok.mp hresources
    | priv envelope resources =>
      exact (validResources_of_protected valid).2
  | @profile document valid =>
    simp only [ProfileDocument.validate, bind_eq_ok, checkSome_eq_ok, mapError_eq_ok,
      ResourceRef.validate_eq_ok] at valid
    obtain ⟨_, -, _, -, _, -, _, havatar, -⟩ := valid
    exact validResources_avatar havatar
  | _ => exact validResources_nil

theorem ValidBody.client_of_declared (h : ValidBody P schema body)
    (hdeclared : body.declaredVisibility.isSome = true) : schema.isClient = true := by
  cases h with
  | tombstone client => exact client
  | spaceGenesis => cases hdeclared
  | capabilityGrant => cases hdeclared
  | capabilityRevoke => cases hdeclared
  | _ => rfl

end Bodies

end Fractonica.DataModel
