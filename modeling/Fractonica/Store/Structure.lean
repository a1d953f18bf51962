import Fractonica.Store.Runs

namespace Fractonica.Store

open Lib Trust DataModel List

variable {P : Platform}

-- The history of one entity.
def Log.ofEntity (log : Log) (spaceId : SpaceId) (entityId : EntityId) : Log :=
  log.filter fun a => a.space = spaceId && a.operation.entityId = entityId

section Entities

variable {log : Log} {spaceId : SpaceId} {entityId : EntityId}

theorem Log.mem_ofEntity :
    a ∈ log.ofEntity spaceId entityId ↔
      a ∈ log ∧ a.space = spaceId ∧ a.operation.entityId = entityId := by
  simp [Log.ofEntity]

theorem Represents.mem_currentHeads (h : Represents P t log) :
    row ∈ currentHeads t spaceId entityId ↔
      ∃ a ∈ log.ofEntity spaceId entityId, (∀ b ∈ log, a.key ∉ b.parents) ∧
        row = headRow a.operation := by
  rw [currentHeads, h.entityHeads, mem_filter, mem_map]
  constructor
  · rintro ⟨⟨a, ha, rfl⟩, hentity⟩
    obtain ⟨hmem, hhead⟩ := History.mem_heads.mp ha
    rw [Bool.and_eq_true, decide_eq_true_eq, decide_eq_true_eq] at hentity
    exact ⟨a, Log.mem_ofEntity.mpr ⟨hmem, hentity⟩, hhead, rfl⟩
  · rintro ⟨a, ha, hhead, rfl⟩
    obtain ⟨hmem, hentity⟩ := Log.mem_ofEntity.mp ha
    refine ⟨⟨a, History.mem_heads.mpr ⟨hmem, hhead⟩, rfl⟩, ?_⟩
    rw [Bool.and_eq_true, decide_eq_true_eq, decide_eq_true_eq]
    exact hentity

-- A history has a head: its last operation is not named by any other entity.
theorem Causal.exists_entityHead (h : Causal P log) (hne : log.ofEntity spaceId entityId ≠ []) :
    ∃ a ∈ log.ofEntity spaceId entityId, ∀ b ∈ log, a.key ∉ b.parents := by
  have hrank : ∀ a ∈ log.ofEntity spaceId entityId, ∀ b ∈ log.ofEntity spaceId entityId,
      a.key ∈ b.parents → a.localSequence < b.localSequence := by
    intro a ha b hb hnamed
    obtain ⟨c, hc, hkey, -, -, hlt⟩ := h.parents b (Log.mem_ofEntity.mp hb).1 _ hnamed
    rwa [← h.eq_of_key hc (Log.mem_ofEntity.mp ha).1 hkey]
  obtain ⟨a, ha⟩ := History.exists_head hne hrank
  obtain ⟨hmem, hhead⟩ := History.mem_heads.mp ha
  refine ⟨a, hmem, ?_⟩
  intro b hb hnamed
  obtain ⟨hlog, hspace, hentity⟩ := Log.mem_ofEntity.mp hmem
  obtain ⟨c, hc, hkey, hsame, -⟩ := h.parents b hb _ hnamed
  obtain rfl := h.eq_of_key hc hlog hkey
  exact hhead b (Log.mem_ofEntity.mpr ⟨hb, hsame.1 ▸ hspace, hsame.2 ▸ hentity⟩) hnamed

theorem Causal.exists_entityOrigin (h : Causal P log) (hne : log.ofEntity spaceId entityId ≠ []) :
    ∃ a ∈ log.ofEntity spaceId entityId, a.parents = [] := by
  have hparents : ∀ b ∈ log.ofEntity spaceId entityId, ∀ parent ∈ b.parents,
      ∃ a ∈ log.ofEntity spaceId entityId, a.localSequence < b.localSequence := by
    intro b hb parent hparent
    obtain ⟨hlog, hspace, hentity⟩ := Log.mem_ofEntity.mp hb
    obtain ⟨a, ha, -, hsame, -, hlt⟩ := h.parents b hlog parent hparent
    exact ⟨a, Log.mem_ofEntity.mpr ⟨ha, hsame.1.trans hspace, hsame.2.trans hentity⟩, hlt⟩
  exact History.exists_origin hne hparents

end Entities

theorem admitted_insert (hsound : Sound P db) {operation : OperationEnvelope} {now : Int64}
    (hverified : operation.verify P.toPrimitives = .ok ())
    (hvalid : ValidAdmission P db.tables operation.spaceId operation now)
    (hins : Insertable P db.tables ⟨db.tables.lastSequence + 1, now, operation⟩) :
    admitted P (afterInsertion P db.tables ⟨db.tables.lastSequence + 1, now, operation⟩) =
      admitted P db.tables ++ [⟨db.tables.lastSequence + 1, now, operation⟩] :=
  (hsound.consistent.insert hverified hvalid hins).coherent.admitted_eq

theorem admitted_create (hsound : Sound P db) {request : TrustedSpaceBootstrapRequest}
    {grant : CapabilityGrant} {now : Int64} {genesis : StoredOperation} {tables : Tables}
    (hvalid : ValidBootstrap P request grant)
    (hcreation : Creation P db.tables request (spaceRow request grant.subject now) now genesis
      initialGrant tables) :
    admitted P tables = admitted P db.tables ++ [genesis] ++ [initialGrant] :=
  (hsound.consistent.create hvalid rfl rfl hcreation).coherent.admitted_eq

theorem schema_ne_genesis {operation : OperationEnvelope}
    (hverified : operation.verify P.toPrimitives = .ok ())
    (hbody : isGenesisBody operation.body = false) : operation.schema ≠ .spaceGenesis := by
  have hvalid := operation.validBody hverified
  intro hschema
  rw [hschema] at hvalid
  generalize operation.body = body at hvalid hbody
  cases hvalid with
  | tombstone client => cases client
  | spaceGenesis controller => cases hbody

-- No submission admits a genesis.
theorem genesis_of_submit (hsound : Sound P db) (spaceId : SpaceId)
    (request : SubmitOperationRequest)
    (ha : a ∈ admitted P (submitOperation P db spaceId request).1.tables)
    (hgenesis : a.operation.schema = .spaceGenesis) : a ∈ admitted P db.tables := by
  have hsubmission := submission P db spaceId request
  generalize (submitOperation P db spaceId request).1 = db' at hsubmission ha
  generalize (submitOperation P db spaceId request).2 = answer at hsubmission
  cases hsubmission with
  | failed tables later => rwa [tables] at ha
  | replayed => exact ha
  | inserted later valid absent admission insertable =>
    rw [admitted_insert hsound valid.verified admission insertable] at ha
    rcases mem_append.mp ha with ha | ha
    · exact ha
    · rw [mem_singleton.mp ha] at hgenesis
      exact absurd hgenesis (schema_ne_genesis valid.verified valid.notGenesis)

-- What holds of the admitted operations and the heads after any calls.
structure Structured (P : Platform) (t : Tables) (log : Log) : Prop where
  rows : t.operations = log.map (storedRow P)
  heads : ∀ spaceId entityId row, row ∈ currentHeads t spaceId entityId ↔
    ∃ a ∈ log.ofEntity spaceId entityId, (∀ b ∈ log, a.key ∉ b.parents) ∧
      row = headRow a.operation
  nonempty : ∀ spaceId entityId, log.ofEntity spaceId entityId ≠ [] →
    currentHeads t spaceId entityId ≠ []
  bounded : ∀ spaceId entityId,
    ((currentHeads t spaceId entityId).map HeadRow.operationId).Nodup ∧
      (currentHeads t spaceId entityId).length ≤ MAX_ENTITY_HEADS
  parents : ∀ a ∈ log, ∀ parent ∈ a.parents, ∃ b ∈ log, b.key = parent ∧ b.SameEntity a ∧
    b.operation.schema = a.operation.schema ∧ b.localSequence < a.localSequence
  authorization : ∀ a ∈ log, ∀ reference ∈ a.operation.authorization, ∃ b ∈ log,
    b.key = reference ∧ b.space = a.space ∧ b.localSequence < a.localSequence
  schema : ∀ spaceId entityId, log.ofEntity spaceId entityId ≠ [] →
    ∃! schema, ∀ a ∈ log.ofEntity spaceId entityId, a.operation.schema = schema
  origin : ∀ spaceId entityId, log.ofEntity spaceId entityId ≠ [] →
    ∃! a, a ∈ log.ofEntity spaceId entityId ∧ a.parents = []
  homes : ∀ a ∈ log, ∃ row ∈ t.spaces, row.spaceId = a.space
  genesis : ∀ row ∈ t.spaces,
    ∃! a, a ∈ log ∧ a.space = row.spaceId ∧ a.operation.schema = .spaceGenesis

theorem Sound.structured (h : Sound P db) : Structured P db.tables (admitted P db.tables) := by
  have hcoherent := h.consistent.coherent
  have hcausal := hcoherent.causal
  refine ⟨hcoherent.represents.operations, ?_, ?_, ?_, hcausal.parents, hcausal.authorization,
    ?_, ?_, hcoherent.homes, ?_⟩
  · intro spaceId entityId row
    exact hcoherent.represents.mem_currentHeads
  · intro spaceId entityId hne
    obtain ⟨a, ha, hhead⟩ := hcausal.exists_entityHead hne
    exact ne_nil_of_mem
      (hcoherent.represents.mem_currentHeads.mpr ⟨a, ha, hhead, rfl⟩)
  · intro spaceId entityId
    refine ⟨?_, hcoherent.headBound spaceId entityId⟩
    have hheads : (db.tables.entityHeads.map HeadRow.operationId).Nodup := by
      rw [hcoherent.represents.entityHeads, map_map]
      exact hcausal.keys.sublist (filter_sublist.map _)
    exact hheads.sublist (filter_sublist.map _)
  · intro spaceId entityId hne
    obtain ⟨first, hfirst⟩ := exists_mem_of_ne_nil _ hne
    refine ⟨first.operation.schema, ?_, fun schema hschema => (hschema first hfirst).symm⟩
    intro a ha
    obtain ⟨hlog, hspace, hentity⟩ := Log.mem_ofEntity.mp ha
    obtain ⟨hlog', hspace', hentity'⟩ := Log.mem_ofEntity.mp hfirst
    exact hcausal.schemas a hlog first hlog'
      ⟨hspace.trans hspace'.symm, hentity.trans hentity'.symm⟩
  · intro spaceId entityId hne
    obtain ⟨a, ha, horigin⟩ := hcausal.exists_entityOrigin hne
    refine ⟨a, ⟨ha, horigin⟩, ?_⟩
    rintro b ⟨hb, hfirst⟩
    obtain ⟨hlog, hspace, hentity⟩ := Log.mem_ofEntity.mp hb
    obtain ⟨hlog', hspace', hentity'⟩ := Log.mem_ofEntity.mp ha
    exact hcausal.origins b hlog a hlog'
      ⟨hspace.trans hspace'.symm, hentity.trans hentity'.symm⟩ hfirst horigin
  · intro row hrow
    obtain ⟨a, ha, hspace, hkey, hschema⟩ := h.consistent.anchored row hrow
    refine ⟨a, ⟨ha, hspace, hschema⟩, ?_⟩
    rintro b ⟨hb, hhome, hgenesis⟩
    obtain ⟨row', hrow', hspace', hkey'⟩ := hcoherent.genesis b hb hgenesis
    have hsame : row' = row :=
      inj_on_of_nodup_map hcoherent.spaceIds hrow' hrow (hspace'.trans hhome)
    rw [hsame] at hkey'
    exact hcausal.eq_of_key hb ha (hkey'.symm.trans hkey.symm)

-- Every reachable store is structured, and a genesis in it was not submitted.
theorem reachable_structured (P : Platform) (db : Database) (h : Reachable P db) :
    Structured P db.tables (admitted P db.tables) ∧
      ∀ spaceId request, ∀ a ∈ admitted P (submitOperation P db spaceId request).1.tables,
        a.operation.schema = .spaceGenesis → a ∈ admitted P db.tables :=
  ⟨h.sound.structured, fun spaceId request _ ha hgenesis =>
    genesis_of_submit h.sound spaceId request ha hgenesis⟩

namespace Sample

open DataModel.Sample (genesis writerGrant)

def envelopes : List OperationEnvelope :=
  [genesis, writerGrant, DataModel.Sample.record,
    DataModel.Sample.revocation, DataModel.Sample.adminGrant].map DataModel.Sample.envelope

-- The JSON of the given envelopes can be read. The database accepts what is
-- rendered here, so its JSON functions answer yes.
def reading (P : Primitives) (envelopes : List OperationEnvelope) : Platform where
  toPrimitives := P
  readEnvelope text := okOr (envelopes.find? fun e => e.toJson.render P = text) "unknown text"
  jsonValid _ := true
  jsonIsObject _ := true
  lowercase := String.toLower

def platform : Platform := reading DataModel.Sample.primitives envelopes

def bootstrap : TrustedSpaceBootstrapRequest where
  displayName := "Workspace"
  genesis := genesis.envelope
  initialGrant := writerGrant.envelope
  receivedAtUnixMs := DataModel.Sample.occurredAtUnixMs

end Sample

open Sample (bootstrap platform)

theorem reachable_structured_bootstrap :
    Reachable platform
        (bootstrapTrustedSpace platform Database.empty bootstrap).1 ∧
      Structured platform
        (bootstrapTrustedSpace platform Database.empty bootstrap).1.tables
        (admitted platform (bootstrapTrustedSpace platform Database.empty bootstrap).1.tables) := by
  have hreachable : Reachable platform
      (bootstrapTrustedSpace platform Database.empty bootstrap).1 :=
    .single (.bootstrap _ _)
  exact ⟨hreachable, (reachable_structured _ _ hreachable).1⟩

end Fractonica.Store
