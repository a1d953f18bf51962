import Fractonica.Application.Authorization.Theorems
import Fractonica.Store.Schema.Theorems
import Fractonica.Store.Structure

namespace Fractonica.Store

open Lib Trust Content DataModel Application List

-- The JSON functions of the database accept what the JSON writer renders, up
-- to their limits on the nesting and on the length of a text.
structure Platform.AcceptsJson (P : Platform) : Prop where
  valid : ∀ json : Json, Fits P.toPrimitives json 1000000000 1000 →
    P.jsonValid (json.render P.toPrimitives) = true
  isObject : ∀ members : List Member, Fits P.toPrimitives (.object members) 1000000000 1000 →
    P.jsonIsObject ((Json.object members).render P.toPrimitives) = true

-- What the schema demands beyond the validation: five actions at most in a
-- grant, and names of at most 255 bytes.
structure Storable (operation : OperationEnvelope) : Prop where
  actions : ∀ grant ∈ grantOf operation.body, grant.actions.length ≤ 5
  names : ∀ resource ∈ operation.body.resources, ∀ name ∈ resource.originalName,
    (utf8Bytes name).length ≤ 255

-- Where an operation goes: its space is there, a genesis is that of the space,
-- and a revocation names a grant.
structure Placed (P : Platform) (t : Tables) (stored : StoredOperation) : Prop where
  home : ∃ row ∈ t.spaces, row.spaceId = stored.space
  genesis : operationsValidateGenesis t.spaces (storedRow P stored) = .ok ()
  root : isGenesis t.spaces stored.space stored.key = true →
    stored.parents = [] ∧ stored.operation.authorization = []
  target : ∀ revocation ∈ revocationOf stored.operation.body,
    hasGrant t.capabilityGrants stored.space revocation.grantId = true
  received : 0 ≤ stored.receivedAtUnixMs.toInt
  room : stored.localSequence < 2 ^ 63

section Rows

variable {P : Platform} {t : Tables} {log : Log} {stored : StoredOperation}
  {operation : OperationEnvelope} {rows : List VisibilityRow} {grant : CapabilityGrant}

-- A payload is an array of eleven items, one of them the space.
theorem payload_checks (h : operation.verify P.toPrimitives = .ok ()) :
    32 ≤ (payloadOf P operation).length ∧ (payloadOf P operation).length ≤ 2097152 ∧
      (payloadOf P operation).head? = some 0x8b := by
  obtain ⟨signed, payload, hsound⟩ := operation.verify_sound h
  rw [payloadOf_eq (canonicalPayload_of_verified hsound)]
  obtain ⟨hbytes, -⟩ := fromCanonicalBytes_eq_ok.mp hsound.decoded
  obtain ⟨-, hbytes, hlength⟩ := toCanonicalCbor_eq_ok.mp (liftCbor_eq_ok.mp hbytes)
  have hhead : head 4 11 = [0x8b] := by decide
  have hspace := payload.spaceId.bytes.length_eq
  rw [normalize_toValue, encoding_array] at hbytes
  refine ⟨?_, hlength, ?_⟩
  · have hitem : encoding (.bytes payload.spaceId.bytes.bytes) =
        head 2 payload.spaceId.bytes.bytes.length ++ payload.spaceId.bytes.bytes := rfl
    rw [hbytes, flatMap_cons, flatMap_cons, flatMap_cons, hitem]
    simp only [length_append, hspace]
    omega
  · rw [hbytes]
    change (head 4 11 ++ _).head? = some 0x8b
    rfl

theorem cose_checks (h : operation.verify P.toPrimitives = .ok ()) :
    80 ≤ operation.coseSign1.length ∧ operation.coseSign1.length ≤ 2097408 ∧
      operation.coseSign1.head? = some 0xd2 := by
  obtain ⟨signed, payload, hsound⟩ := operation.verify_sound h
  obtain ⟨hbytes, hlength, -⟩ := fromCoseSign1_eq_ok.mp hsound.read
  have hsignature := signed.signature.length_eq
  have hpayload := (payload_checks h).1
  rw [payloadOf_eq (canonicalPayload_of_verified hsound)] at hpayload
  refine ⟨?_, hlength.trans (by decide), ?_⟩
  · rw [hbytes, coseBytes]
    simp only [length_append, hsignature]
    omega
  · rw [hbytes]
    rfl

theorem operationRow_checks (hjson : P.AcceptsJson)
    (hverified : stored.operation.verify P.toPrimitives = .ok ())
    (hreceived : 0 ≤ stored.receivedAtUnixMs.toInt) : (storedRow P stored).checks P = true := by
  obtain ⟨signed, payload, hsound⟩ := stored.operation.verify_sound hverified
  obtain ⟨hpayloadLow, hpayloadHigh, hpayloadHead⟩ := payload_checks hverified
  obtain ⟨hcoseLow, hcoseHigh, hcoseHead⟩ := cose_checks hverified
  have hfits := stored.operation.fits hverified
  have hwide : Fits P.toPrimitives stored.operation.toJson 1000000000 1000 :=
    hfits.weaken (by decide) (by decide)
  have hvalid := payload.valid
  have hentity : stored.operation.entityId.uuid.isNil = false := by
    rw [hsound.entityId]
    exact hvalid.entity
  have hoccurred : 0 ≤ stored.operation.occurredAtUnixMs.toInt := by
    rw [hsound.occurredAt]
    exact hvalid.occurredAt
  have htwo : 2 ≤ (projectionText P stored.operation).length := by
    simp [projectionText, OperationEnvelope.toJson, Json.render]
  simp only [OperationRow.checks, Bool.and_eq_true, decide_eq_true_eq]
  exact ⟨⟨⟨⟨⟨⟨⟨⟨⟨⟨⟨⟨⟨⟨⟨⟨isIdentifierText_identifier stored.operation.operationId, hsound.version⟩,
    isEntityText_toText hentity⟩, isIdentifierText_identifier stored.operation.actorId⟩,
    hoccurred⟩, hreceived⟩, stored.operation.nonce.bytes.length_eq⟩,
    le_trans (by decide) hpayloadLow⟩, hpayloadHigh⟩, hpayloadHead⟩, hcoseLow⟩, hcoseHigh⟩,
    hcoseHead⟩, htwo⟩, hfits.size⟩, hjson.valid _ hwide⟩, hjson.isObject _ hwide⟩

-- The new row is among the operations that the other tables refer to.
theorem mem_operations_new : storedRow P stored ∈ (afterInsertion P t stored).operations :=
  mem_append_right _ (mem_singleton.mpr rfl)

theorem hasOperation_new :
    hasOperation (afterInsertion P t stored).operations stored.space stored.key = true :=
  hasOperation_iff.mpr ⟨_, mem_operations_new, rfl, rfl⟩

theorem hasEntityOperation_new :
    hasEntityOperation (afterInsertion P t stored).operations stored.space
      stored.operation.entityId stored.operation.schema stored.key = true :=
  hasEntityOperation_iff.mpr ⟨_, mem_operations_new, rfl, rfl, rfl, rfl⟩

theorem hasActorOperation_new {schema : EntitySchema} (h : stored.operation.schema = schema) :
    hasActorOperation (afterInsertion P t stored).operations stored.space stored.key
      stored.operation.actorId schema = true :=
  hasActorOperation_iff.mpr ⟨_, mem_operations_new, rfl, rfl, rfl, h⟩

theorem accepts_operation (hjson : P.AcceptsJson) (hrep : Represents P t log)
    (hnext : Extends P log stored) (hplaced : Placed P t stored) :
    Table.Accepts (operationConstraints P t.spaces t.operations) t.operations
      [storedRow P stored] := by
  have hschema : operationsOneSchemaPerEntity t.operations (storedRow P stored) = .ok () := by
    rw [operationsOneSchemaPerEntity, require_eq_ok, Bool.not_eq_eq_eq_not, Bool.not_true,
      any_eq_false]
    intro row hrow
    obtain ⟨a, ha, rfl⟩ := hrep.mem_operations.mp hrow
    simp only [Bool.and_eq_true, decide_eq_true_eq, not_and, not_not]
    exact fun hentity => hnext.schemas a ha hentity
  refine ⟨?_, ?_, ?_, pairwise_singleton _ _⟩
  · intro row hrow
    rw [mem_singleton.mp hrow]
    simp only [operationConstraints, hschema, hplaced.genesis, ok_bind, require_eq_ok]
    exact operationRow_checks hjson hnext.verified hplaced.received
  · intro row hrow
    rw [mem_singleton.mp hrow]
    obtain ⟨home, hhome, hspace⟩ := hplaced.home
    exact any_eq_true.mpr ⟨home, hhome, decide_eq_true hspace⟩
  · intro row hrow other hother
    rw [mem_singleton.mp hrow]
    obtain ⟨a, ha, rfl⟩ := hrep.mem_operations.mp hother
    exact decide_eq_false fun hsame => hnext.fresh a ha hsame.symm

theorem Placed.not_genesis (h : Placed P t stored)
    (hrefers : stored.parents ≠ [] ∨ stored.operation.authorization ≠ []) :
    isGenesis t.spaces stored.space stored.key = false := by
  by_contra hgenesis
  obtain ⟨hparents, hauthorization⟩ := h.root (by simpa using hgenesis)
  exact hrefers.elim (absurd hparents) (absurd hauthorization)

-- Both reference lists are strictly ascending, so no value occurs twice.
theorem accepts_parents (hrep : Represents P t log) (hnext : Extends P log stored)
    (hplaced : Placed P t stored) :
    Table.Accepts (parentConstraints t.spaces (afterInsertion P t stored).operations)
      t.operationParents (parentRows stored.operation) := by
  obtain ⟨signed, payload, hsound⟩ := stored.operation.verify_sound hnext.verified
  have hcount : stored.operation.causalParents.length ≤ 64 :=
    hsound.causalParents ▸ payload.valid.parentCount
  have hascending : stored.operation.causalParents.Pairwise (· < ·) :=
    hsound.causalParents ▸ payload.valid.parentsAscending
  refine Table.accepts_mapIdx ParentRow.operationId (fun _ _ => rfl) ?_ ?_ ?_ ?_ hascending ?_
  · intro index parent hparent hindex
    have hroot := hplaced.not_genesis (.inl (ne_nil_of_mem hparent))
    have hother : stored.key ≠ parent := by
      obtain ⟨b, hb, rfl, -⟩ := hnext.parents parent hparent
      exact (hnext.fresh b hb).symm
    have hposition : 0 + index ≤ 63 := by omega
    simp only [parentConstraints, bind_eq_ok, require_eq_ok, Bool.and_eq_true, decide_eq_true_eq]
    exact ⟨(), congrArg not hroot, hposition, hother⟩
  · intro index parent hparent
    obtain ⟨b, hb, hkey, hentity, hschema⟩ := hnext.parents parent hparent
    simp only [parentConstraints, Bool.and_eq_true]
    exact ⟨hasEntityOperation_new, hasEntityOperation_iff.mpr
      ⟨storedRow P b, mem_append_left _ (hrep.mem_operations.mpr ⟨b, hb, rfl⟩),
        hentity.1, hentity.2, hschema, hkey⟩⟩
  · intro row other hne
    simp [parentConstraints, hne]
  · rw [hrep.operationParents]
    exact Table.owner_ne _ StoredOperation.key (fun a => owner_parentRows _) hnext.fresh
  · intro i j a b hlt hvalues
    simp [parentConstraints, parentRow, Nat.ne_of_gt hlt, ne_of_gt hvalues]

theorem accepts_authorization (hrep : Represents P t log) (hnext : Extends P log stored)
    (hplaced : Placed P t stored) :
    Table.Accepts (authorizationConstraints t.spaces (afterInsertion P t stored).operations)
      t.operationAuthorizationRefs (authorizationRows stored.operation) := by
  obtain ⟨signed, payload, hsound⟩ := stored.operation.verify_sound hnext.verified
  have hcount : stored.operation.authorization.length ≤ 64 :=
    hsound.authorization ▸ payload.valid.authorizationCount
  have hascending : stored.operation.authorization.Pairwise (· < ·) :=
    hsound.authorization ▸ payload.valid.authorizationAscending
  refine Table.accepts_mapIdx AuthorizationRow.operationId (fun _ _ => rfl) ?_ ?_ ?_ ?_
    hascending ?_
  · intro index reference hreference hindex
    have hroot := hplaced.not_genesis (.inr (ne_nil_of_mem hreference))
    have hother : stored.key ≠ reference := by
      obtain ⟨b, hb, rfl, -⟩ := hnext.authorization reference hreference
      exact (hnext.fresh b hb).symm
    have hposition : index ≤ 63 := by omega
    simp only [authorizationConstraints, bind_eq_ok, require_eq_ok, Bool.and_eq_true,
      decide_eq_true_eq]
    exact ⟨(), congrArg not hroot, hposition, hother⟩
  · intro index reference hreference
    obtain ⟨b, hb, hkey, hhome⟩ := hnext.authorization reference hreference
    simp only [authorizationConstraints, Bool.and_eq_true]
    exact ⟨hasOperation_new, hasOperation_iff.mpr
      ⟨storedRow P b, mem_append_left _ (hrep.mem_operations.mpr ⟨b, hb, rfl⟩),
        hhome, hkey⟩⟩
  · intro row other hne
    simp [authorizationConstraints, hne]
  · rw [hrep.authorizationRefs]
    exact Table.owner_ne _ StoredOperation.key (fun a => owner_authorizationRows _) hnext.fresh
  · intro i j a b hlt hvalues
    simp [authorizationConstraints, Nat.ne_of_gt hlt, ne_of_gt hvalues]

theorem accepts_head (hrep : Represents P t log) (hnext : Extends P log stored) :
    Table.Accepts (headConstraints (afterInsertion P t stored).operations)
      (keptHeads t.entityHeads stored.operation.spaceId stored.operation.causalParents)
      [headRow stored.operation] := by
  refine ⟨fun _ _ => rfl, ?_, ?_, pairwise_singleton _ _⟩
  · intro row hmem
    rw [mem_singleton.mp hmem]
    exact hasEntityOperation_new
  · intro row hmem other hother
    rw [mem_singleton.mp hmem]
    have hhead := (mem_filter.mp hother).1
    rw [hrep.entityHeads] at hhead
    obtain ⟨a, ha, rfl⟩ := mem_map.mp hhead
    have hne := (hnext.fresh a (History.mem_heads.mp ha).1).symm
    exact Bool.and_eq_false_iff.mpr (.inr (decide_eq_false hne))

-- The first operation of an entity brings its visibility.
theorem mem_visibilityRows (h : row ∈ visibilityRows operation) :
    operation.causalParents = [] ∧ operation.body.declaredVisibility.isSome = true ∧
      row.spaceId = operation.spaceId ∧ row.entityId = operation.entityId ∧
      row.schema = operation.schema ∧ row.originOperationId = operation.operationId ∧
      operation.body.declaredVisibility = some row.visibility := by
  unfold visibilityRows at h
  split_ifs at h with hfirst
  · obtain ⟨visibility, hvisibility, rfl⟩ := mem_map.mp h
    have hdeclared := Option.mem_toList.mp hvisibility
    exact ⟨List.isEmpty_iff.mp hfirst, Option.isSome_of_mem hdeclared, rfl, rfl, rfl, rfl,
      hdeclared⟩
  · cases h

theorem accepts_visibility (hrep : Represents P t log) (hnext : Extends P log stored) :
    Table.Accepts (visibilityConstraints (afterInsertion P t stored).operations)
      t.clientEntityVisibility (visibilityRows stored.operation) := by
  have hbody := stored.operation.validBody hnext.verified
  refine ⟨?_, ?_, ?_, ?_⟩
  · intro row hmem
    obtain ⟨-, hdeclared, -, -, hschema, -⟩ := mem_visibilityRows hmem
    simp only [visibilityConstraints, require_eq_ok, hschema]
    exact hbody.client_of_declared hdeclared
  · intro row hmem
    obtain ⟨-, -, hspace, hentity, hschema, horigin, -⟩ := mem_visibilityRows hmem
    simp only [visibilityConstraints, hspace, hentity, hschema, horigin]
    exact hasEntityOperation_new
  · intro row hmem other hother
    obtain ⟨hfirst, -, hspace, hentity, -, horigin, -⟩ := mem_visibilityRows hmem
    rw [hrep.visibility] at hother
    obtain ⟨a, ha, hfound⟩ := mem_flatMap.mp hother
    obtain ⟨-, -, hspace', hentity', -, horigin', -⟩ := mem_visibilityRows hfound
    have hfresh := hnext.fresh a ha
    have hapart := hnext.first hfirst a ha
    simp only [visibilityConstraints, hspace, hentity, horigin, hspace', hentity', horigin']
    rw [Bool.and_eq_false_iff, Bool.or_eq_false_iff, decide_eq_false_iff_not,
      decide_eq_false_iff_not, decide_eq_false_iff_not]
    by_cases hhome : stored.operation.spaceId = a.operation.spaceId
    · exact .inr ⟨fun hsame => hapart ⟨hhome.symm, hsame.symm⟩, hfresh.symm⟩
    · exact .inl hhome
  · unfold visibilityRows
    split_ifs
    · cases stored.operation.body.declaredVisibility with
      | none => exact .nil
      | some visibility => exact pairwise_singleton _ _
    · exact .nil

theorem toInt_i64Value {value : UInt64} (h : value.toNat ≤ MAX_CONTENT_BYTE_LENGTH) :
    (i64Value value).toInt = value.toNat := by
  simp only [MAX_CONTENT_BYTE_LENGTH] at h
  rw [i64Value, Int64.toInt_ofInt_of_le (by omega) (by omega)]

-- A bounded number of bounded lengths does not overflow.
theorem mediaBytesFrom_isOk {resources : List ResourceRef} (total : Int64)
    (hresources : ∀ resource ∈ resources, resource.Valid) (htotal : 0 ≤ total.toInt)
    (hroom : total.toInt + resources.length * MAX_CONTENT_BYTE_LENGTH < 2 ^ 63) :
    ∃ bytes, mediaBytesFrom total resources = .ok bytes ∧ 0 ≤ bytes.toInt := by
  induction resources generalizing total with
  | nil => exact ⟨total, rfl, htotal⟩
  | cons resource rest ih =>
    obtain ⟨hfirst, hrest⟩ := forall_mem_cons.mp hresources
    have hlength := hfirst.byteLength
    have hvalue := toInt_i64Value hlength
    have hone : i64OfU64 resource.byteLength "client projection media bytes exceed SQLite" =
        .ok (i64Value resource.byteLength) := by
      rw [i64OfU64_eq_ok]
      exact ⟨lt_of_le_of_lt hlength (by decide), rfl⟩
    rw [length_cons] at hroom
    simp only [MAX_CONTENT_BYTE_LENGTH] at hroom hlength ih
    have hsum : (total + i64Value resource.byteLength).toInt =
        total.toInt + resource.byteLength.toNat := by
      rw [Int64.toInt_add, hvalue]
      exact Int.bmod_eq_of_le (by omega) (by omega)
    have hguard : require (total.toInt + (i64Value resource.byteLength).toInt < 2 ^ 63)
        (RepositoryError.corruption "client projection media byte total overflows") =
          .ok () := by
      rw [require_eq_ok, decide_eq_true_eq, hvalue]
      omega
    simp only [mediaBytesFrom, hone, ok_bind, hguard]
    apply ih _ hrest
    · omega
    · rw [hsum]
      omega

theorem resources_of_columns (h : projectionColumns P operation = some columns) :
    columns.resources = operation.body.resources := by
  unfold projectionColumns at h
  generalize operation.body = body at h
  generalize operation.schema.isClient = client at h
  -- The bodies without resources have a projection for client schemas only.
  have hnone : (if client = true then some (⟨none, none, none, []⟩ : ProjectionColumns)
      else none) = some columns → columns.resources = [] := by
    intro hsome
    split_ifs at hsome
    cases hsome
    rfl
  cases body with
  | putRecord payload =>
    cases payload <;>
      · cases h
        rfl
  | putTag payload | putEvent payload =>
    cases payload with
    | pub document =>
      cases h
      rfl
    | priv envelope resources => exact hnone h
  | putProfile document =>
    cases h
    rfl
  | tombstone => exact hnone h
  | _ => cases h

-- The visibility of an entity is known once the entity has begun.
theorem projectionVisibility_isOk (hrep : Represents P t log) (hcausal : Causal P log)
    (hnext : Extends P log stored) (hclient : stored.operation.schema.isClient = true) :
    ∃ visibility, projectionVisibility (afterInsertion P t stored).clientEntityVisibility
      stored.operation = .ok visibility := by
  unfold projectionVisibility
  cases hdeclared : stored.operation.body.declaredVisibility with
  | some visibility => exact ⟨visibility, rfl⟩
  | none =>
    have hparents : stored.parents ≠ [] := by
      intro hfirst
      have hsome := hnext.declared hclient hfirst
      rw [hdeclared] at hsome
      cases hsome
    obtain ⟨parent, hparent⟩ := exists_mem_of_ne_nil _ hparents
    obtain ⟨b, hb, -, hentity, hschema⟩ := hnext.parents parent hparent
    have hhistory : log.ofEntity stored.space stored.operation.entityId ≠ [] :=
      ne_nil_of_mem (Log.mem_ofEntity.mpr ⟨hb, hentity⟩)
    obtain ⟨origin, horigin, hfirst⟩ := hcausal.exists_entityOrigin hhistory
    obtain ⟨hlog, hspace, hsame⟩ := Log.mem_ofEntity.mp horigin
    have hschema' := hnext.schemas origin hlog ⟨hspace, hsame⟩
    have hsome := hcausal.declared origin hlog (hschema' ▸ hclient) hfirst
    obtain ⟨visibility, hvisibility⟩ := Option.isSome_iff_exists.mp hsome
    have hrow : (⟨origin.operation.spaceId, origin.operation.entityId, origin.operation.schema,
        origin.operation.operationId, visibility⟩ : VisibilityRow) ∈
          (afterInsertion P t stored).clientEntityVisibility := by
      apply mem_append_left
      rw [hrep.visibility]
      refine mem_flatMap.mpr ⟨origin, hlog, ?_⟩
      rw [visibilityRows, if_pos (List.isEmpty_iff.mpr hfirst), hvisibility]
      exact mem_singleton.mpr rfl
    have hfound : ((afterInsertion P t stored).clientEntityVisibility.find? fun row =>
        row.spaceId = stored.operation.spaceId && row.entityId = stored.operation.entityId &&
          row.schema = stored.operation.schema).isSome = true := by
      rw [find?_isSome]
      refine ⟨_, hrow, ?_⟩
      simp only [Bool.and_eq_true, decide_eq_true_eq]
      exact ⟨⟨hspace, hsame⟩, hschema'⟩
    obtain ⟨row, hrow⟩ := Option.isSome_iff_exists.mp hfound
    rw [hrow]
    exact ⟨row.visibility, rfl⟩

theorem client_of_columns (hbody : ValidBody P.toPrimitives operation.schema operation.body)
    (h : projectionColumns P operation = some columns) : operation.schema.isClient = true := by
  cases hdeclared : operation.body.declaredVisibility with
  | some visibility =>
    apply hbody.client_of_declared
    rw [hdeclared]
    rfl
  | none =>
    unfold projectionColumns at h
    generalize operation.body = body at hbody hdeclared h
    generalize operation.schema = schema at hbody h ⊢
    cases hbody with
    | tombstone client => exact client
    | spaceGenesis | capabilityGrant | capabilityRevoke => cases h
    | _ => cases hdeclared

theorem mediaBytes_of_verified (hverified : operation.verify P.toPrimitives = .ok ())
    (hcolumns : projectionColumns P operation = some columns) :
    ∃ bytes, mediaBytesFrom 0 columns.resources = .ok bytes ∧ 0 ≤ bytes.toInt := by
  have hresources := (operation.validBody hverified).resources
  have hcount : operation.body.resources.length ≤ 64 := hresources.count
  have hsame := resources_of_columns hcolumns
  apply mediaBytesFrom_isOk 0 (hsame ▸ hresources.valid) le_rfl
  rw [hsame]
  simp only [Int64.toInt_zero, MAX_CONTENT_BYTE_LENGTH]
  omega

theorem clientProjection_new (hrep : Represents P t log) (hcausal : Causal P log)
    (hnext : Extends P log stored) :
    (clientProjection P (afterInsertion P t stored).clientEntityVisibility
      stored.operation).isOk = true := by
  have hbody := stored.operation.validBody hnext.verified
  unfold clientProjection
  cases hcolumns : projectionColumns P stored.operation with
  | none => rfl
  | some columns =>
    have hclient := client_of_columns hbody hcolumns
    obtain ⟨visibility, hvisibility⟩ := projectionVisibility_isOk hrep hcausal hnext hclient
    obtain ⟨bytes, hbytes, -⟩ := mediaBytes_of_verified hnext.verified hcolumns
    simp only [hvisibility, hbytes, ok_bind]
    rfl

theorem owner_projectionRows :
    ∀ row ∈ projectionRows P operation rows, row.operationId = operation.operationId := by
  intro row hrow
  obtain ⟨_, _, _, -, -, -, rfl⟩ := clientProjection_eq_some.mp (mem_projectionRows.mp hrow)
  rfl

-- A table without a projection of the operation takes it.
theorem accepts_projectionRows (hjson : P.AcceptsJson)
    (hverified : operation.verify P.toPrimitives = .ok ()) {operations : List OperationRow}
    (hstored : hasOperation operations operation.spaceId operation.operationId = true)
    (hentity : hasEntityOperation operations operation.spaceId operation.entityId
      operation.schema operation.operationId = true)
    (hfresh : ∀ other ∈ projections, other.operationId ≠ operation.operationId) :
    Table.Accepts (projectionConstraints P operations) projections
      (projectionRows P operation rows) := by
  have hbody := operation.validBody hverified
  have hfits : Fits P.toPrimitives operation.body.toJson 1000000000 1000 :=
    hbody.fits.weaken (by decide) (by decide)
  refine ⟨?_, ?_, ?_, ?_⟩
  · intro row hmem
    obtain ⟨columns, visibility, mediaBytes, hcolumns, -, hmedia, rfl⟩ :=
      clientProjection_eq_some.mp (mem_projectionRows.mp hmem)
    obtain ⟨bytes, hbytes, hpositive⟩ := mediaBytes_of_verified hverified hcolumns
    obtain rfl := Except.ok.inj (hbytes.symm.trans hmedia)
    simp only [projectionConstraints, require_eq_ok, ProjectionRow.checks, Bool.and_eq_true,
      decide_eq_true_eq]
    exact ⟨⟨client_of_columns hbody hcolumns, hpositive⟩, hjson.valid _ hfits⟩
  · intro row hmem
    obtain ⟨columns, visibility, mediaBytes, -, -, -, rfl⟩ :=
      clientProjection_eq_some.mp (mem_projectionRows.mp hmem)
    simp only [projectionConstraints, Bool.and_eq_true]
    exact ⟨hstored, hentity⟩
  · intro row hmem other hother
    simp only [projectionConstraints, owner_projectionRows row hmem]
    exact Bool.and_eq_false_iff.mpr (.inr (decide_eq_false (hfresh other hother).symm))
  · unfold projectionRows
    cases (clientProjection P rows operation).toOption.join with
    | none => exact .nil
    | some row => exact pairwise_singleton _ _

theorem accepts_projection (hjson : P.AcceptsJson) (hrep : Represents P t log)
    (hnext : Extends P log stored) :
    Table.Accepts (projectionConstraints P (afterInsertion P t stored).operations)
      t.clientOperationProjections
      (projectionRows P stored.operation (afterInsertion P t stored).clientEntityVisibility) := by
  apply accepts_projectionRows hjson hnext.verified hasOperation_new hasEntityOperation_new
  rw [hrep.projections]
  exact Table.owner_ne _ StoredOperation.key (fun a => owner_projectionRows) hnext.fresh

theorem resourceRow_checks_iff {position : Nat} {resource : ResourceRef} (hvalid : resource.Valid)
    (hposition : position < 64) :
    (storedResource operation position resource).checks = true ↔
      ∀ name ∈ resource.originalName, (utf8Bytes name).length ≤ 255 := by
  obtain ⟨hmediaLength, hslash, hnul⟩ := mediaType_checks hvalid.mediaType
  have hlength := toInt_i64Value hvalid.byteLength
  have hmost := hvalid.byteLength
  simp only [MAX_CONTENT_BYTE_LENGTH] at hmost
  have hrest : (storedResource operation position resource).checks =
      resource.originalName.all fun name => blobLengthBetween 1 255 name && hasNoNul name &&
        instr name '/' = 0 && instr name (Char.ofNat 92) = 0 := by
    have hposition' : position ≤ 63 := by omega
    have hlow : 0 ≤ (i64Value resource.byteLength).toInt := by omega
    have hhigh : (i64Value resource.byteLength).toInt ≤ 1099511627776 := by omega
    simp [ResourceRow.checks, storedResource, hposition', hlow, hhigh, hmediaLength, hslash, hnul,
      isIdentifierText_contentId, (isRoleText_of_token hvalid.role).1]
  rw [hrest]
  cases hname : resource.originalName with
  | none => simp
  | some name =>
    obtain ⟨hnonempty, hnul, hslash, hbackslash⟩ :=
      originalName_checks (hvalid.originalName name hname)
    simp [hnul, hslash, hbackslash, blobLengthBetween_iff, hnonempty]

theorem accepts_resources_iff (hrep : Represents P t log) (hnext : Extends P log stored) :
    Table.Accepts (resourceConstraints (afterInsertion P t stored).operations)
        t.operationResources (resourceRows stored.operation) ↔
      ∀ resource ∈ stored.operation.body.resources, ∀ name ∈ resource.originalName,
        (utf8Bytes name).length ≤ 255 := by
  obtain ⟨hcount, hvalid, hdistinct⟩ := (stored.operation.validBody hnext.verified).resources
  have hmost : stored.operation.body.resources.length ≤ 64 := hcount
  constructor
  · intro haccepts resource hresource
    obtain ⟨index, hindex, rfl⟩ := getElem_of_mem hresource
    have hadmits := haccepts.admits _ (mem_mapIdx.mpr ⟨index, hindex, rfl⟩)
    simp only [resourceConstraints, require_eq_ok] at hadmits
    exact (resourceRow_checks_iff (hvalid _ hresource) (by omega)).mp hadmits
  · intro hnames
    refine Table.accepts_mapIdx ResourceRow.operationId (fun _ _ => rfl) ?_ ?_ ?_ ?_
      (pairwise_map.mp hdistinct) ?_
    · intro index resource hresource hindex
      simp only [resourceConstraints, require_eq_ok]
      exact (resourceRow_checks_iff (hvalid _ hresource) (by omega)).mpr (hnames _ hresource)
    · intro index resource hresource
      exact hasOperation_new
    · intro row other hne
      simp [resourceConstraints, hne]
    · rw [hrep.resources]
      exact Table.owner_ne _ StoredOperation.key (fun a => owner_resourceRows _) hnext.fresh
    · intro i j a b hlt hvalues
      simp [resourceConstraints, storedResource, Nat.ne_of_gt hlt, hvalues.symm]

theorem grantOperationId_ne (hrep : Represents P t log) (hnext : Extends P log stored) :
    ∀ row ∈ t.capabilityGrants, row.grantOperationId ≠ stored.key := by
  rw [hrep.grants]
  exact Table.owner_ne _ StoredOperation.key (fun a => owner_grantRows _) hnext.fresh

theorem accepts_grants (hrep : Represents P t log) (hnext : Extends P log stored) :
    Table.Accepts (grantConstraints (afterInsertion P t stored).operations) t.capabilityGrants
      (grantRows stored.operation) := by
  have hrow : ∀ row ∈ grantRows stored.operation, ∃ grant,
      stored.operation.body = .capabilityGrant grant ∧
        row = storedGrant stored.operation grant := by
    intro row hmem
    obtain ⟨grant, hgrant, rfl⟩ := mem_map.mp hmem
    refine ⟨grant, ?_, rfl⟩
    generalize stored.operation.body = body at hgrant
    cases body <;> simp [grantOf] at hgrant
    rw [hgrant]
  refine ⟨?_, ?_, ?_, ?_⟩
  · intro row hmem
    obtain ⟨grant, hbody, rfl⟩ := hrow row hmem
    obtain ⟨-, hvalid⟩ := grant_of_verify hnext.verified hbody
    obtain ⟨hlabel, hnul⟩ := label_checks hvalid.label
    have hdepth : grant.delegationDepth.toNat ≤ 16 := UInt8.le_iff_toNat_le.mp hvalid.depth
    simp only [grantConstraints, require_eq_ok, GrantRow.checks, storedGrant, Bool.and_eq_true,
      Option.all_eq_true, decide_eq_true_eq]
    refine ⟨⟨⟨⟨⟨⟨⟨isIdentifierText_identifier grant.subject, hdepth⟩, hvalid.notBefore⟩,
      hvalid.expiresAt⟩, ?_⟩, hlabel⟩, hnul⟩, ?_⟩
    · intro most hmost
      obtain ⟨value, hvalue, rfl⟩ := Option.map_eq_some_iff.mp hmost
      have hlimit := hvalid.limit value hvalue
      rw [toInt_i64Value hlimit]
      simp only [MAX_CONTENT_BYTE_LENGTH] at hlimit
      omega
    · intro finish hfinish start hstart
      exact hvalid.window start hstart finish hfinish
  · intro row hmem
    obtain ⟨grant, hbody, rfl⟩ := hrow row hmem
    exact hasActorOperation_new (grant_of_verify hnext.verified hbody).1
  · intro row hmem other hother
    obtain ⟨grant, -, rfl⟩ := hrow row hmem
    have hne := grantOperationId_ne hrep hnext other hother
    simp [grantConstraints, storedGrant, hne.symm]
  · unfold grantRows
    cases grantOf stored.operation.body with
    | none => exact .nil
    | some grant => exact pairwise_singleton _ _

theorem hasGrant_new (h : grantOf stored.operation.body = some grant) :
    hasGrant (afterInsertion P t stored).capabilityGrants stored.space stored.key = true := by
  refine hasGrant_iff.mpr ⟨storedGrant stored.operation grant, ?_, rfl, rfl⟩
  apply mem_append_right
  rw [grantRows, h]
  exact mem_singleton.mpr rfl

-- A table takes one of the sets of a grant as long as it has the positions.
theorem accepts_items_iff {α : Type} [DecidableEq α] {table : TableName} {last : Nat}
    {check : α → Bool} {values : CapabilityGrant → List α} {rows : List (GrantItemRow α)}
    (hrows : rows = log.flatMap fun a => grantItemRows a.operation values)
    (hnext : Extends P log stored)
    (hcheck : ∀ grant ∈ grantOf stored.operation.body, ∀ value ∈ values grant,
      check value = true)
    (hdistinct : ∀ grant ∈ grantOf stored.operation.body, (values grant).Nodup) :
    Table.Accepts (itemConstraints (afterInsertion P t stored).capabilityGrants table last check)
        rows (grantItemRows stored.operation values) ↔
      ∀ grant ∈ grantOf stored.operation.body, (values grant).length ≤ last + 1 := by
  rw [grantItemRows]
  cases hgrant : grantOf stored.operation.body with
  | none => exact iff_of_true Table.accepts_nil (by simp)
  | some grant =>
    rw [hgrant] at hcheck hdistinct
    simp only [Option.toList_some, flatMap_cons, flatMap_nil, append_nil,
      Option.mem_some_iff, forall_eq']
    constructor
    · intro haccepts
      by_contra hlong
      have hadmits := haccepts.admits _ (mem_mapIdx.mpr ⟨last + 1, by omega, rfl⟩)
      simp only [itemConstraints, require_eq_ok, Bool.and_eq_true, decide_eq_true_eq] at hadmits
      omega
    · intro hlength
      refine Table.accepts_mapIdx GrantItemRow.grantOperationId (fun _ _ => rfl) ?_ ?_ ?_ ?_
        (hdistinct grant rfl) ?_
      · intro index value hvalue hindex
        simp only [itemConstraints, require_eq_ok, Bool.and_eq_true, decide_eq_true_eq]
        exact ⟨by omega, hcheck grant rfl _ hvalue⟩
      · intro index value hvalue
        exact hasGrant_new hgrant
      · intro row other hne
        simp [itemConstraints, hne]
      · rw [hrows]
        exact Table.owner_ne _ StoredOperation.key
          (fun a row hrow => (home_grantItemRows _ _ row hrow).2) hnext.fresh
      · intro i j a b hlt hvalues
        simp [itemConstraints, Nat.ne_of_gt hlt, hvalues.symm]

theorem accepts_revocations (hrep : Represents P t log) (hnext : Extends P log stored)
    (hplaced : Placed P t stored) :
    Table.Accepts (revocationConstraints (afterInsertion P t stored).operations
        (afterInsertion P t stored).capabilityGrants)
      t.capabilityGrantRevocations (revocationRows stored.operation) := by
  have hbody := stored.operation.validBody hnext.verified
  have hrow : ∀ row ∈ revocationRows stored.operation, ∃ revocation,
      revocation ∈ revocationOf stored.operation.body ∧ revocation.validate = .ok () ∧
        stored.operation.schema = .capabilityRevoke ∧
        row = revocationRow stored.operation revocation := by
    intro row hmem
    obtain ⟨revocation, hfound, rfl⟩ := mem_map.mp hmem
    have hsome := Option.mem_toList.mp hfound
    generalize stored.operation.body = body at hbody hsome
    generalize stored.operation.schema = schema at hbody
    cases hbody with
    | capabilityRevoke valid =>
      cases hsome
      exact ⟨_, rfl, valid, rfl, rfl⟩
    | _ => cases hsome
  refine ⟨?_, ?_, ?_, ?_⟩
  · intro row hmem
    obtain ⟨revocation, hfound, hvalid, -, rfl⟩ := hrow row hmem
    simp only [CapabilityRevocation.validate, validateBoundedLabel, checkSome_eq_ok,
      require_eq_ok] at hvalid
    have htarget : stored.key ≠ revocation.grantId := by
      obtain ⟨grant, hgrant, -, hid⟩ := hasGrant_iff.mp (hplaced.target revocation hfound)
      rw [← hid]
      exact (grantOperationId_ne hrep hnext grant hgrant).symm
    simp only [revocationConstraints, require_eq_ok, RevocationRow.checks, revocationRow,
      Bool.and_eq_true, Option.all_eq_true, decide_eq_true_eq]
    exact ⟨fun detail hdetail => label_checks (hvalid detail hdetail), htarget⟩
  · intro row hmem
    obtain ⟨revocation, hfound, -, hschema, rfl⟩ := hrow row hmem
    obtain ⟨grant, hgrant, hspace, hid⟩ := hasGrant_iff.mp (hplaced.target revocation hfound)
    simp only [revocationConstraints, Bool.and_eq_true]
    exact ⟨hasActorOperation_new hschema,
      hasGrant_iff.mpr ⟨grant, mem_append_left _ hgrant, hspace, hid⟩⟩
  · intro row hmem other hother
    obtain ⟨revocation, -, -, -, rfl⟩ := hrow row hmem
    rw [hrep.revocations] at hother
    have hne := Table.owner_ne _ StoredOperation.key (fun a => owner_revocationRows _)
      hnext.fresh other hother
    simp [revocationConstraints, revocationRow, hne.symm]
  · unfold revocationRows
    cases revocationOf stored.operation.body with
    | none => exact .nil
    | some revocation => exact pairwise_singleton _ _

theorem nodup_of_ascending {α β : Type} [Preorder β] {values : List α} {key : α → β}
    (h : (values.map key).Pairwise fun left right => left < right) : values.Nodup :=
  List.Nodup.of_map key (h.imp fun hlt => ne_of_lt hlt)

theorem grantOf_eq_some {body : OperationBody} :
    grantOf body = some grant ↔ body = .capabilityGrant grant := by
  cases body <;> simp [grantOf]

-- The schema accepts an operation that has its place exactly if the operation
-- is storable.
theorem insertable_iff (hjson : P.AcceptsJson) (h : Coherent P t log) (hnext : Extends P log stored)
    (hplaced : Placed P t stored) : Insertable P t stored ↔ Storable stored.operation := by
  have hrep := h.represents
  have hvalid : ∀ grant ∈ grantOf stored.operation.body, grant.Valid P.toPrimitives := by
    intro grant hgrant
    exact (grant_of_verify hnext.verified (grantOf_eq_some.mp hgrant)).2
  have hactions : Table.Accepts (actionConstraints (afterInsertion P t stored).capabilityGrants)
      t.capabilityGrantActions (grantItemRows stored.operation CapabilityGrant.actions) ↔
        ∀ grant ∈ grantOf stored.operation.body, grant.actions.length ≤ 5 :=
    accepts_items_iff hrep.actions hnext (fun _ _ _ _ => rfl)
      fun grant hgrant => nodup_of_ascending (hvalid grant hgrant).actions
  have hresources := accepts_resources_iff hrep hnext
  constructor
  · intro hins
    exact ⟨hactions.mp hins.actions, hresources.mp hins.resources⟩
  · intro hstorable
    have hbody := stored.operation.validBody hnext.verified
    refine {
      signed := isOk_iff.mpr ⟨_, (canonicalPayload_of_verify hnext.verified).1⟩
      room := hplaced.room
      operation := accepts_operation hjson hrep hnext hplaced
      visibility := accepts_visibility hrep hnext
      projected := clientProjection_new hrep h.causal hnext
      projection := accepts_projection hjson hrep hnext
      parents := accepts_parents hrep hnext hplaced
      authorization := accepts_authorization hrep hnext hplaced
      head := accepts_head hrep hnext
      resourceLength := ?_
      resources := hresources.mpr hstorable.names
      grantLimit := ?_
      grants := accepts_grants hrep hnext
      actions := hactions.mpr hstorable.actions
      schemas := ?_
      visibilities := ?_
      contentRoles := ?_
      revocations := accepts_revocations hrep hnext hplaced }
    · intro resource hresource
      exact lt_of_le_of_lt (hbody.resources.valid resource hresource).byteLength (by decide)
    · intro grant hgrant most hmost
      exact lt_of_le_of_lt ((hvalid grant hgrant).limit most hmost) (by decide)
    · apply (accepts_items_iff hrep.schemas hnext (fun _ _ _ _ => rfl) ?_).mpr
      · intro grant hgrant
        exact (hvalid grant hgrant).schemaCount
      · intro grant hgrant
        exact nodup_of_ascending (hvalid grant hgrant).schemas
    · apply (accepts_items_iff hrep.visibilities hnext (fun _ _ _ _ => rfl) ?_).mpr
      · intro grant hgrant
        exact length_visibilities (hvalid grant hgrant)
      · intro grant hgrant
        exact nodup_of_ascending (hvalid grant hgrant).visibilities
    · apply (accepts_items_iff hrep.contentRoles hnext ?_ ?_).mpr
      · intro grant hgrant
        exact (hvalid grant hgrant).roleCount
      · intro grant hgrant role hrole
        obtain ⟨hrole, hstar⟩ := isRoleText_of_token ((hvalid grant hgrant).roles role hrole)
        rw [hrole, hstar]
        rfl
      · intro grant hgrant
        exact nodup_of_ascending (hvalid grant hgrant).contentRoles

end Rows

section Admission

variable {operation : OperationEnvelope} {now : Int64}

theorem notGenesis_of_authorized (hverified : operation.verify P.toPrimitives = .ok ())
    (hvalid : ValidAdmission P t operation.spaceId operation now) :
    operation.authorization ≠ [] ∧ operation.schema ≠ .spaceGenesis := by
  obtain ⟨visibility, -, hauthorized⟩ := hvalid.authorized
  obtain ⟨-, -, hreferences, -⟩ := authorizeOperationForVisibility_sound hauthorized
  refine ⟨hreferences, schema_ne_genesis hverified ?_⟩
  cases hbody : operation.body with
  | spaceGenesis controller =>
    exact absurd (genesis_of_verify hverified hbody).2.2.2 hreferences
  | _ => rfl

-- The geneses of the spaces are in the log, so a new operation is none of them.
theorem Consistent.isGenesis_new (h : Consistent P t log) {spaceId : SpaceId} {id : OperationId}
    (habsent : ∀ a ∈ log, a.key ≠ id) : isGenesis t.spaces spaceId id = false := by
  apply Bool.eq_false_iff.mpr
  intro hfound
  obtain ⟨row, hrow, -, hid⟩ := isGenesis_iff.mp hfound
  obtain ⟨a, ha, -, hkey, -⟩ := h.anchored row hrow
  exact habsent a ha (hkey.trans hid)

theorem operationsValidateGenesis_of_other (hschema : row.schema ≠ .spaceGenesis)
    (hgenesis : isGenesis spaces row.spaceId row.operationId = false) :
    operationsValidateGenesis spaces row = .ok () := by
  rw [operationsValidateGenesis, if_neg]
  rw [hgenesis, Bool.or_false, decide_eq_true_eq]
  exact hschema

-- What passed the checks in front of the insertion has its place.
theorem Consistent.placed (h : Consistent P t log)
    (hverified : operation.verify P.toPrimitives = .ok ())
    (hvalid : ValidAdmission P t operation.spaceId operation now)
    (habsent : ∀ a ∈ log, a.key ≠ operation.operationId) (hnow : 0 ≤ now.toInt)
    (hroom : t.lastSequence + 1 < 2 ^ 63) : Placed P t ⟨t.lastSequence + 1, now, operation⟩ := by
  have hnext := h.coherent.extends_of_admission hverified hvalid habsent
  obtain ⟨hreferences, hschema⟩ := notGenesis_of_authorized hverified hvalid
  have hgenesis : isGenesis t.spaces operation.spaceId operation.operationId = false :=
    h.isGenesis_new habsent
  refine ⟨?_, ?_, ?_, ?_, hnow, hroom⟩
  · obtain ⟨reference, hreference⟩ := exists_mem_of_ne_nil _ hreferences
    obtain ⟨b, hb, -, hspace⟩ := hnext.authorization reference hreference
    obtain ⟨row, hrow, hhome⟩ := h.coherent.homes b hb
    exact ⟨row, hrow, hhome.trans hspace⟩
  · exact operationsValidateGenesis_of_other hschema hgenesis
  · intro hfound
    rw [hgenesis] at hfound
    cases hfound
  · intro revocation hrevocation
    have htarget := hvalid.target
    generalize operation.body = body at htarget hrevocation
    cases body with
    | capabilityRevoke found =>
      cases hrevocation
      exact require_eq_ok.mp htarget
    | _ => cases hrevocation

theorem Consistent.insertable_iff (hjson : P.AcceptsJson) (h : Consistent P t log)
    (hverified : operation.verify P.toPrimitives = .ok ())
    (hvalid : ValidAdmission P t operation.spaceId operation now)
    (habsent : ∀ a ∈ log, a.key ≠ operation.operationId) (hnow : 0 ≤ now.toInt)
    (hroom : t.lastSequence + 1 < 2 ^ 63) :
    Insertable P t ⟨t.lastSequence + 1, now, operation⟩ ↔ Storable operation :=
  Store.insertable_iff hjson h.coherent
    (h.coherent.extends_of_admission hverified hvalid habsent)
    (h.placed hverified hvalid habsent hnow hroom)

end Admission

end Fractonica.Store
