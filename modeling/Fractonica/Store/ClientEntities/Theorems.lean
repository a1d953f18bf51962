import Fractonica.Store.ClientEntities
import Fractonica.Store.Rebuild

namespace Fractonica.Store

open Lib Trust Content DataModel List

section Listing

variable (P : Platform) (t : Tables) (log : Log) (spaceId : SpaceId) (schema : EntitySchema)

def isEntity (a : StoredOperation) : Bool :=
  a.space = spaceId && a.operation.schema = schema && schema.isClient &&
    !isTombstone a.operation.body

-- The heads that a client can see.
def Log.entities : Log := log.heads.filter (isEntity spaceId schema)

def projectionPairs (a : StoredOperation) : List (StoredOperation × ProjectionRow) :=
  (projectionRows P a.operation t.clientEntityVisibility).map fun row => (a, row)

def Log.listed : List (StoredOperation × ProjectionRow) :=
  (log.entities spaceId schema).flatMap (projectionPairs P t)

end Listing

section Joining

variable {t : Tables} {log : Log} {spaceId : SpaceId} {schema : EntitySchema} {a : StoredOperation}

theorem Coherent.one_head (h : Coherent P t log) (row : ProjectionRow) :
    (t.entityHeads.filter (isHeadOf row)).length ≤ 1 := by
  have hkeys : (t.entityHeads.map HeadRow.operationId).Nodup := by
    rw [h.represents.entityHeads, map_map]
    exact h.causal.keys.sublist (filter_sublist.map _)
  apply Table.length_filter_le_one hkeys
  intro head _ hhead
  simp only [isHeadOf, Bool.and_eq_true, decide_eq_true_eq] at hhead
  exact hhead.2

theorem Coherent.meets_head_iff (h : Coherent P t log) (ha : a ∈ log)
    (hrow : row ∈ projectionRows P a.operation t.clientEntityVisibility) :
    t.entityHeads.any (isHeadOf row) =
      History.isHead StoredOperation.key StoredOperation.parents log a := by
  obtain ⟨columns, visibility, mediaBytes, -, -, -, rfl⟩ :=
    clientProjection_eq_some.mp (mem_projectionRows.mp hrow)
  rw [Bool.eq_iff_iff, any_eq_true, h.represents.entityHeads]
  constructor
  · rintro ⟨head, hhead, hmeets⟩
    obtain ⟨b, hb, rfl⟩ := mem_map.mp hhead
    obtain ⟨hmem, hisHead⟩ := mem_filter.mp hb
    simp only [isHeadOf, Bool.and_eq_true, decide_eq_true_eq] at hmeets
    rwa [← h.causal.eq_of_key hmem ha hmeets.2]
  · intro hisHead
    refine ⟨_, mem_map_of_mem (mem_filter.mpr ⟨ha, hisHead⟩), ?_⟩
    simp [isHeadOf, headRow, projectionRow]

theorem isClient_of_projection (hverified : a.operation.verify P.toPrimitives = .ok ())
    (hrow : row ∈ projectionRows P a.operation t.clientEntityVisibility) :
    a.operation.schema.isClient = true := by
  obtain ⟨columns, -, -, hcolumns, -⟩ := clientProjection_eq_some.mp (mem_projectionRows.mp hrow)
  exact client_of_columns (a.operation.validBody hverified) hcolumns

theorem Coherent.headProjections_eq (h : Coherent P t log) :
    headProjections t spaceId schema = (log.listed P t spaceId schema).map Prod.snd := by
  have hlisted : (log.listed P t spaceId schema).map Prod.snd =
      (log.entities spaceId schema).flatMap
        fun a => projectionRows P a.operation t.clientEntityVisibility := by
    simp [Log.listed, projectionPairs, map_flatMap, Function.comp_def, map_id']
  rw [hlisted, headProjections, Table.join_eq_filter fun row _ => h.one_head row,
    filter_filter, Log.entities, Log.heads, History.heads, filter_filter]
  rw [h.represents.projections]
  apply Table.filter_owned
  intro a ha row hrow
  have hclient := isClient_of_projection (h.causal.verified a ha) hrow
  rw [h.meets_head_iff ha hrow]
  obtain ⟨columns, visibility, mediaBytes, -, -, -, rfl⟩ :=
    clientProjection_eq_some.mp (mem_projectionRows.mp hrow)
  rw [Bool.eq_iff_iff]
  simp only [isEntity, Bool.and_eq_true, decide_eq_true_eq]
  constructor
  · rintro ⟨⟨⟨hspace, rfl⟩, htombstone⟩, hisHead⟩
    exact ⟨⟨⟨⟨hspace, rfl⟩, hclient⟩, htombstone⟩, hisHead⟩
  · rintro ⟨⟨⟨⟨hspace, hschema⟩, -⟩, htombstone⟩, hisHead⟩
    exact ⟨⟨⟨hspace, hschema⟩, htombstone⟩, hisHead⟩

theorem columns_of_client {operation : OperationEnvelope}
    (hbody : ValidBody P.toPrimitives operation.schema operation.body)
    (hclient : operation.schema.isClient = true) :
    ∃ columns, projectionColumns P operation = some columns := by
  unfold projectionColumns
  generalize operation.body = body at hbody
  generalize operation.schema = schema at hbody hclient ⊢
  cases hbody with
  | @record payload valid => cases payload <;> exact ⟨_, rfl⟩
  | @tag payload valid => cases payload <;> exact ⟨_, rfl⟩
  | @event payload valid => cases payload <;> exact ⟨_, rfl⟩
  | profile valid => exact ⟨_, rfl⟩
  | tombstone client => exact ⟨_, if_pos client⟩
  | spaceGenesis => cases hclient
  | capabilityGrant => cases hclient
  | capabilityRevoke => cases hclient

theorem Log.mem_entities : a ∈ log.entities spaceId schema ↔
    a ∈ log.heads ∧ isEntity spaceId schema a = true := mem_filter

theorem Log.mem_of_entity (h : a ∈ log.entities spaceId schema) : a ∈ log :=
  (History.mem_heads.mp (Log.mem_entities.mp h).1).1

theorem Coherent.one_projection (h : Coherent P t log) (ha : a ∈ log.entities spaceId schema) :
    ∃ row, projectionRows P a.operation t.clientEntityVisibility = [row] := by
  have hmem := Log.mem_of_entity ha
  have hentity := (Log.mem_entities.mp ha).2
  simp only [isEntity, Bool.and_eq_true, decide_eq_true_eq] at hentity
  have hclient : a.operation.schema.isClient = true := by
    rw [hentity.1.1.2]
    exact hentity.1.2
  have hbody := a.operation.validBody (h.causal.verified a hmem)
  obtain ⟨columns, hcolumns⟩ := columns_of_client hbody hclient
  obtain ⟨found, hfound⟩ := isOk_iff.mp (h.projected a hmem)
  have hsome : ∃ row, clientProjection P t.clientEntityVisibility a.operation =
      .ok (some row) := by
    rw [clientProjection, hcolumns] at hfound ⊢
    simp only [bind_eq_ok] at hfound ⊢
    obtain ⟨visibility, hvisibility, mediaBytes, hmedia, -⟩ := hfound
    exact ⟨_, visibility, hvisibility, mediaBytes, hmedia, rfl⟩
  obtain ⟨row, hrow⟩ := hsome
  exact ⟨row, by rw [projectionRows, hrow]; rfl⟩

theorem Coherent.listed_operations (h : Coherent P t log) :
    (log.listed P t spaceId schema).map Prod.fst = log.entities spaceId schema := by
  have hone : ∀ a ∈ log.entities spaceId schema,
      (projectionPairs P t a).map Prod.fst = [a] := by
    intro a ha
    obtain ⟨row, hrow⟩ := h.one_projection ha
    rw [projectionPairs, hrow]
    rfl
  rw [Log.listed, map_flatMap, flatMap_congr hone]
  exact flatMap_singleton' _

theorem Log.mem_listed : (a, row) ∈ log.listed P t spaceId schema ↔
    a ∈ log.entities spaceId schema ∧
      row ∈ projectionRows P a.operation t.clientEntityVisibility := by
  simp only [Log.listed, projectionPairs, mem_flatMap, mem_map, Prod.mk.injEq]
  constructor
  · rintro ⟨b, hb, row', hrow, rfl, rfl⟩
    exact ⟨hb, hrow⟩
  · rintro ⟨ha, hrow⟩
    exact ⟨a, ha, row, hrow, rfl, rfl⟩

end Joining

section Serving

variable {P : Platform} {t : Tables} {log : Log} {spaceId : SpaceId} {schema : EntitySchema}
  {pair : StoredOperation × ProjectionRow} {row other : ProjectionRow} {a : StoredOperation}

def listedSummary (t : Tables) (pair : StoredOperation × ProjectionRow) : ClientEntitySummary :=
  summaryOf t pair.2 pair.1

theorem Coherent.loadSummary_listed (h : Coherent P t log)
    (hread : ∀ a ∈ log, P.readEnvelope (projectionText P a.operation) = .ok a.operation)
    (hpair : pair ∈ log.listed P t spaceId schema) :
    loadSummary P t pair.2 = .ok (listedSummary t pair) := by
  obtain ⟨a, row⟩ := pair
  obtain ⟨hentity, hrow⟩ := Log.mem_listed.mp hpair
  have hmem := Log.mem_of_entity hentity
  obtain ⟨columns, visibility, mediaBytes, hcolumns, -, hmedia, rfl⟩ :=
    clientProjection_eq_some.mp (mem_projectionRows.mp hrow)
  obtain ⟨bytes, hbytes, hpositive⟩ :=
    mediaBytes_of_verified (h.causal.verified a hmem) hcolumns
  obtain rfl := Except.ok.inj (hbytes.symm.trans hmedia)
  have hload := h.loadStored_complete hmem (hread a hmem)
  have hcount : nonnegativeU64 bytes = .ok bytes.toInt.toNat := by
    rw [nonnegativeU64, require_bind_eq_ok]
    exact ⟨decide_eq_true hpositive, rfl⟩
  simp only [loadSummary, projectionRow, hload, liftCorrupt, Except.mapError, ok_bind, okOr, hcount]
  rfl

theorem Identifier.toText_injective (kind : IdentifierKind) :
    Function.Injective (Identifier.toText : Identifier kind → String) := by
  intro left right htext
  have hlist := congrArg String.toList htext
  simp only [Identifier.toText, String.toList_append, String.toList_ofList] at hlist
  exact Identifier.bytes_injective kind
    (FixedBytes.ext (lowerHex_injective (append_cancel_left hlist)))

theorem operationId_of_identityKey {left right : ProjectionRow}
    (h : identityKey left = identityKey right) : left.operationId = right.operationId :=
  Identifier.toText_injective _ (utf8Bytes_injective (Prod.ext_iff.mp (toLex_inj.mp h)).2)

theorem passesIdentity_iff (hentity : last.operation.operation.entityId = other.entityId)
    (hoperation : last.operation.operation.operationId = other.operationId) :
    passesIdentity row (cursorOf schema last) = true ↔ identityKey other < identityKey row := by
  simp [passesIdentity, cursorOf, hentity, hoperation, identityKey, Prod.Lex.toLex_lt_toLex,
    utf8Bytes_injective.eq_iff, @eq_comm _ row.entityId.toText]

-- Behind a cursor are the rows behind the one that it was made of.
theorem passesCursor_temporal (hschema : isTemporal schema = true)
    (hentity : a.operation.entityId = other.entityId) (hoperation : a.key = other.operationId) :
    passesCursor row schema (cursorOf schema (listedSummary t (a, other))) = true ↔
      temporalKey other < temporalKey row := by
  have hidentity : passesIdentity row (cursorOf schema (listedSummary t (a, other))) = true ↔
      identityKey other < identityKey row := passesIdentity_iff hentity hoperation
  have hnumber : (cursorOf schema (listedSummary t (a, other))).sortNumber =
      some (coalescedStart other.startAtUnixMs) := if_pos hschema
  simp only [passesCursor, if_pos hschema, hnumber, Option.all_some, Bool.or_eq_true,
    Bool.and_eq_true, decide_eq_true_eq, hidentity, temporalKey, Prod.Lex.toLex_lt_toLex,
    OrderDual.toDual_lt_toDual, OrderDual.toDual_inj, Int64.toInt_inj]
  rw [@eq_comm _ (coalescedStart row.startAtUnixMs)]

theorem passesCursor_text (hschema : isTemporal schema = false)
    (hentity : a.operation.entityId = other.entityId) (hoperation : a.key = other.operationId) :
    passesCursor row schema (cursorOf schema (listedSummary t (a, other))) = true ↔
      textKey other < textKey row := by
  have hidentity : passesIdentity row (cursorOf schema (listedSummary t (a, other))) = true ↔
      identityKey other < identityKey row := passesIdentity_iff hentity hoperation
  have hneg : ¬ isTemporal schema = true := Bool.eq_false_iff.mp hschema
  have htext : (cursorOf schema (listedSummary t (a, other))).sortText =
      some (coalescedText other.sortText) := if_neg hneg
  simp only [passesCursor, if_neg hneg, htext, Option.all_some, Bool.or_eq_true,
    Bool.and_eq_true, decide_eq_true_eq, hidentity, textKey, Prod.Lex.toLex_lt_toLex,
    utf8Bytes_injective.eq_iff]
  rw [@eq_comm _ (coalescedText row.sortText)]

section Keys

variable {κ : Type} [LinearOrder κ] {key : ProjectionRow → κ} {limit : Nat}

-- What an order must be for its pages to follow each other.
structure Paginates (schema : EntitySchema) (t : Tables) (key : ProjectionRow → κ) : Prop where
  orders : ∀ rows, orderRows schema rows = Keyset.ordered key rows
  separates : ∀ left right, key left = key right → left.operationId = right.operationId
  passes : ∀ (a : StoredOperation) (other row : ProjectionRow),
    a.operation.entityId = other.entityId → a.key = other.operationId →
      (passesCursor row schema (cursorOf schema (listedSummary t (a, other))) = true ↔
        key other < key row)

theorem Coherent.listed_keys (h : Coherent P t log) (hkey : Paginates schema t key) :
    ((log.listed P t spaceId schema).map (key ∘ Prod.snd)).Nodup := by
  have hnodup : ((log.listed P t spaceId schema).map Prod.fst).Nodup := by
    rw [h.listed_operations]
    exact (h.causal.keys.of_map.filter _).filter _
  rw [nodup_map_iff_inj_on hnodup.of_map]
  rintro ⟨a, row⟩ hpair ⟨b, other⟩ hother hsame
  have hsecond := hkey.separates row other hsame
  obtain ⟨ha, hrow⟩ := Log.mem_listed.mp hpair
  obtain ⟨hb, hotherRow⟩ := Log.mem_listed.mp hother
  rw [owner_projectionRows row hrow, owner_projectionRows other hotherRow] at hsecond
  have hab := h.causal.eq_of_key (Log.mem_of_entity ha) (Log.mem_of_entity hb) hsecond
  exact inj_on_of_nodup_map hnodup hpair hother hab

-- The order of the pages, and what they hold.
def Log.sorted (log : Log) (P : Platform) (t : Tables) (spaceId : SpaceId) (schema : EntitySchema)
    (key : ProjectionRow → κ) : List (StoredOperation × ProjectionRow) :=
  Keyset.ordered (key ∘ Prod.snd) (log.listed P t spaceId schema)

theorem Log.mem_sorted {pair : StoredOperation × ProjectionRow} :
    pair ∈ log.sorted P t spaceId schema key ↔ pair ∈ log.listed P t spaceId schema :=
  Keyset.ordered_perm.mem_iff

theorem Coherent.clientRows_behind (h : Coherent P t log) (hkey : Paginates schema t key)
    {front back : List (StoredOperation × ProjectionRow)}
    (hsplit : log.sorted P t spaceId schema key = front ++ back) (count : Nat) :
    clientRows t spaceId schema
        ((front.map (listedSummary t)).getLast?.map (cursorOf schema)) count =
      (back.map Prod.snd).take count := by
  have hsorted : (front ++ back).Pairwise fun p q => (key ∘ Prod.snd) p < (key ∘ Prod.snd) q := by
    rw [← hsplit]
    exact Keyset.ordered_strict (h.listed_keys hkey)
  have hbehind : (front ++ back).filter ((fun row => Option.all (passesCursor row schema)
      ((front.map (listedSummary t)).getLast?.map (cursorOf schema))) ∘ Prod.snd) = back := by
    rw [getLast?_map]
    cases hlast : front.getLast? with
    | none =>
      rw [getLast?_eq_none_iff.mp hlast]
      exact filter_eq_self.mpr fun _ _ => rfl
    | some last =>
      obtain ⟨a, other⟩ := last
      have hmem : (a, other) ∈ log.listed P t spaceId schema := by
        have hsorted : (a, other) ∈ log.sorted P t spaceId schema key := by
          rw [hsplit]
          exact mem_append_left _ (mem_of_getLast? hlast)
        exact Log.mem_sorted.mp hsorted
      obtain ⟨columns, visibility, mediaBytes, -, -, -, rfl⟩ :=
        clientProjection_eq_some.mp (mem_projectionRows.mp (Log.mem_listed.mp hmem).2)
      refine (filter_congr ?_).trans (Keyset.filter_behind hsorted hlast)
      rintro ⟨b, row⟩ -
      rw [Bool.eq_iff_iff, decide_eq_true_eq]
      exact hkey.passes a _ row rfl rfl
  rw [clientRows, hkey.orders, h.headProjections_eq, filter_map, Keyset.ordered_map,
    Keyset.ordered_filter (h.listed_keys hkey), ← Log.sorted, hsplit, hbehind]

theorem Coherent.serves (h : Coherent P t log) (hkey : Paginates schema t key)
    (hread : ∀ a ∈ log, P.readEnvelope (projectionText P a.operation) = .ok a.operation)
    (hlimit : limit + 1 < 2 ^ 63) :
    Keyset.Serves ClientEntityPage.items ClientEntityPage.nextCursor
      (loadClientEntities P t spaceId schema limit) (cursorOf schema) limit
      ((log.sorted P t spaceId schema key).map (listedSummary t)) := by
  intro front' back' hsplit
  obtain ⟨front, back, hpairs, rfl, rfl⟩ := map_eq_append_iff.mp hsplit
  have hitems : ((back.take limit).map Prod.snd).mapM (loadSummary P t) =
      .ok ((back.take limit).map (listedSummary t)) := by
    rw [mapM_eq_ok, forall₂_map_left_iff, forall₂_map_right_iff, forall₂_same]
    intro pair hpair
    have hmem : pair ∈ log.sorted P t spaceId schema key := by
      rw [hpairs]
      exact mem_append_right _ (mem_of_mem_take hpair)
    exact h.loadSummary_listed hread (Log.mem_sorted.mp hmem)
  refine ⟨⟨spaceId, schema, (back.take limit).map (listedSummary t),
    if limit < back.length then ((back.take limit).map (listedSummary t)).getLast?.map
      (cursorOf schema) else none⟩, ?_, ?_, ?_⟩
  · rw [loadClientEntities, require_bind_eq_ok]
    refine ⟨decide_eq_true hlimit, ?_⟩
    simp only [h.clientRows_behind hkey hpairs, Paging.trim_take, Paging.looksAhead,
      length_map]
    rw [← map_take, hitems, ok_bind]
  · exact map_take
  · rw [length_map, map_take]

theorem Coherent.follow_eq (h : Coherent P t log) (hkey : Paginates schema t key)
    (hread : ∀ a ∈ log, P.readEnvelope (projectionText P a.operation) = .ok a.operation)
    (hpos : 0 < limit) (hlimit : limit + 1 < 2 ^ 63) :
    Keyset.follow ClientEntityPage.items ClientEntityPage.nextCursor
        (loadClientEntities P t spaceId schema limit)
        ((log.entities spaceId schema).length + 1) none =
      some (.ok ((log.sorted P t spaceId schema key).map (listedSummary t))) := by
  have hlength : (log.entities spaceId schema).length =
      ((log.sorted P t spaceId schema key).map (listedSummary t)).length := by
    rw [← h.listed_operations, length_map, length_map]
    exact Keyset.ordered_perm.length_eq.symm
  rw [hlength]
  exact (h.serves hkey hread hlimit).follow_all hpos

end Keys

theorem paginates_temporal (hschema : isTemporal schema = true) :
    Paginates schema t temporalKey where
  orders _ := if_pos hschema
  separates _ _ hsame := operationId_of_identityKey (Prod.ext_iff.mp (toLex_inj.mp hsame)).2
  passes _ _ _ hentity hoperation := passesCursor_temporal hschema hentity hoperation

theorem paginates_text (hschema : isTemporal schema = false) : Paginates schema t textKey where
  orders _ := if_neg (Bool.eq_false_iff.mp hschema)
  separates _ _ hsame := operationId_of_identityKey (Prod.ext_iff.mp (toLex_inj.mp hsame)).2
  passes _ _ _ hentity hoperation := passesCursor_text hschema hentity hoperation

end Serving

section Declared

-- Lower case does not lose a text.
def KeepsText (P : Platform) : Prop := ∀ text, text ≠ "" → P.lowercase text ≠ ""

-- The order of the heads: the latest times first and those without a time last, texts
-- ascending and those without a text first, and the ids where they are the same.
def byIdentity (a b : StoredOperation) : Prop :=
  utf8Bytes a.operation.entityId.toText < utf8Bytes b.operation.entityId.toText ∨
    a.operation.entityId.toText = b.operation.entityId.toText ∧
      utf8Bytes a.key.toText < utf8Bytes b.key.toText

def startOf (P : Platform) (a : StoredOperation) : Option Int :=
  (projectionColumns P a.operation).bind fun columns => columns.startAtUnixMs.map Int64.toInt

def sortTextOf (P : Platform) (a : StoredOperation) : Option (List UInt8) :=
  (projectionColumns P a.operation).bind fun columns => columns.sortText.map utf8Bytes

def Precedes (P : Platform) (schema : EntitySchema) (a b : StoredOperation) : Prop :=
  if isTemporal schema then
    startOf P b < startOf P a ∨ startOf P a = startOf P b ∧ byIdentity a b
  else
    sortTextOf P a < sortTextOf P b ∨ sortTextOf P a = sortTextOf P b ∧ byIdentity a b

variable {P : Platform} {operation : OperationEnvelope} {columns : ProjectionColumns}
  {value : String} {maximum limit : Nat}

theorem validateClientTimes_nonneg {start : Int64} {finish : Option Int64}
    (h : validateClientTimes start finish = .ok u) : 0 ≤ start.toInt :=
  of_decide_eq_true (require_bind_eq_ok.mp h).1

theorem isBoundedLabel_ne_empty (h : isBoundedLabel value maximum false = true) : value ≠ "" := by
  rintro rfl
  cases h

theorem isToken_ne_empty (h : isToken maximum value = true) : value ≠ "" := by
  rintro rfl
  cases h

-- What a valid body makes of the columns that a client sorts by.
structure Sortable (P : Platform) (columns : ProjectionColumns) : Prop where
  start : ∀ start ∈ columns.startAtUnixMs, 0 ≤ start.toInt
  text : KeepsText P → ∀ text ∈ columns.sortText, text ≠ ""

theorem sortable_none {resources : List ResourceRef} : Sortable P ⟨none, none, none, resources⟩ :=
  ⟨fun _ hstart => (Option.not_mem_none _ hstart).elim,
    fun _ _ htext => (Option.not_mem_none _ htext).elim⟩

theorem sortable_of_body (hbody : ValidBody P.toPrimitives operation.schema operation.body)
    (hcolumns : projectionColumns P operation = some columns) : Sortable P columns := by
  unfold projectionColumns at hcolumns
  generalize operation.body = body at hbody hcolumns
  generalize operation.schema = schema at hbody hcolumns
  cases hbody with
  | @record payload valid =>
    cases payload with
    | pub document =>
      cases hcolumns
      simp only [validateProtected, RecordDocument.validate, bind_eq_ok] at valid
      obtain ⟨_, htimes, -⟩ := valid
      refine ⟨?_, by simp⟩
      simpa using validateClientTimes_nonneg htimes
    | priv envelope resources =>
      cases hcolumns
      exact sortable_none
  | @event payload valid =>
    cases payload with
    | pub document =>
      cases hcolumns
      simp only [validateProtected, EventDocument.validate, bind_eq_ok,
        validateBoundedLabel, require_eq_ok] at valid
      obtain ⟨_, htimes, _, hlabel, -⟩ := valid
      refine ⟨?_, fun hkeeps => ?_⟩
      · simpa using validateClientTimes_nonneg htimes
      · simpa using hkeeps _ (isBoundedLabel_ne_empty hlabel)
    | priv envelope resources =>
      cases hcolumns
      exact sortable_none
  | @tag payload valid =>
    cases payload with
    | pub document =>
      cases hcolumns
      simp only [validateProtected, TagDocument.validate, bind_eq_ok,
        validateBoundedLabel, require_eq_ok] at valid
      obtain ⟨_, hname, -⟩ := valid
      refine ⟨by simp, fun hkeeps => ?_⟩
      simpa using hkeeps _ (isBoundedLabel_ne_empty hname)
    | priv envelope resources =>
      cases hcolumns
      exact sortable_none
  | profile valid =>
    cases hcolumns
    simp only [ProfileDocument.validate, require_bind_eq_ok] at valid
    refine ⟨by simp, fun _ => ?_⟩
    simpa using isToken_ne_empty valid.1
  | tombstone client =>
    simp only [if_pos client, Option.some.injEq] at hcolumns
    cases hcolumns
    exact sortable_none
  | spaceGenesis => cases hcolumns
  | capabilityGrant => cases hcolumns
  | capabilityRevoke => cases hcolumns

theorem coalescedStart_eq (start : Option Int64) :
    (coalescedStart start).toInt = (start.map Int64.toInt).getD (-1) := by
  cases start <;> rfl

theorem coalescedText_eq (text : Option String) :
    utf8Bytes (coalescedText text) = (text.map utf8Bytes).getD [] := by
  cases text <;> rfl

theorem Sortable.start_above (h : Sortable P columns) :
    ∀ value ∈ columns.startAtUnixMs.map Int64.toInt, -1 < value := by
  intro value hvalue
  obtain ⟨start, hstart, rfl⟩ := Option.mem_map.mp hvalue
  have hnonneg := h.start start hstart
  omega

theorem Sortable.text_above (h : Sortable P columns) (hkeeps : KeepsText P) :
    ∀ value ∈ columns.sortText.map utf8Bytes, [] < value := by
  intro value hvalue
  obtain ⟨text, htext, rfl⟩ := Option.mem_map.mp hvalue
  cases hbytes : utf8Bytes text with
  | nil => exact absurd (utf8Bytes_injective hbytes) (h.text hkeeps text htext)
  | cons byte rest => exact nil_lt_cons byte rest

variable {t : Tables} {log : Log} {spaceId : SpaceId} {schema : EntitySchema}
  {a b : StoredOperation} {row other : ProjectionRow}

-- The columns of a listed projection are those of its operation.
theorem Coherent.listed_columns (h : Coherent P t log)
    (hpair : (a, row) ∈ log.listed P t spaceId schema) :
    ∃ columns visibility mediaBytes, Sortable P columns ∧
      projectionColumns P a.operation = some columns ∧
      row = projectionRow P a.operation columns visibility mediaBytes := by
  obtain ⟨hentity, hrow⟩ := Log.mem_listed.mp hpair
  obtain ⟨columns, visibility, mediaBytes, hcolumns, -, -, rfl⟩ :=
    clientProjection_eq_some.mp (mem_projectionRows.mp hrow)
  have hbody := a.operation.validBody (h.causal.verified a (Log.mem_of_entity hentity))
  exact ⟨columns, visibility, mediaBytes, sortable_of_body hbody hcolumns, hcolumns, rfl⟩

theorem byIdentity_of_lt
    (h : identityKey (projectionRow P a.operation columns visibility mediaBytes) <
      identityKey (projectionRow P b.operation columns' visibility' mediaBytes')) :
    byIdentity a b := by
  simp only [identityKey, Prod.Lex.toLex_lt_toLex, utf8Bytes_injective.eq_iff] at h
  exact h

theorem Coherent.precedes_temporal (h : Coherent P t log) (hschema : isTemporal schema = true)
    (hpair : (a, row) ∈ log.listed P t spaceId schema)
    (hother : (b, other) ∈ log.listed P t spaceId schema)
    (hlt : temporalKey row < temporalKey other) : Precedes P schema a b := by
  obtain ⟨columns, visibility, mediaBytes, hsortable, hcolumns, rfl⟩ := h.listed_columns hpair
  obtain ⟨columns', visibility', mediaBytes', hsortable', hcolumns', rfl⟩ :=
    h.listed_columns hother
  simp only [temporalKey, Prod.Lex.toLex_lt_toLex, OrderDual.toDual_lt_toDual, OrderDual.toDual_inj,
    coalescedStart_eq] at hlt
  simp only [Precedes, if_pos hschema, startOf, hcolumns, hcolumns', Option.bind_some]
  rcases hlt with hlt | ⟨heq, hlt⟩
  · exact .inl ((Keyset.getD_lt_iff hsortable'.start_above hsortable.start_above).mp hlt)
  · exact .inr ⟨(Keyset.getD_inj_iff hsortable.start_above hsortable'.start_above).mp heq,
      byIdentity_of_lt hlt⟩

theorem Coherent.precedes_text (h : Coherent P t log) (hkeeps : KeepsText P)
    (hschema : isTemporal schema = false) (hpair : (a, row) ∈ log.listed P t spaceId schema)
    (hother : (b, other) ∈ log.listed P t spaceId schema)
    (hlt : textKey row < textKey other) : Precedes P schema a b := by
  obtain ⟨columns, visibility, mediaBytes, hsortable, hcolumns, rfl⟩ := h.listed_columns hpair
  obtain ⟨columns', visibility', mediaBytes', hsortable', hcolumns', rfl⟩ :=
    h.listed_columns hother
  have habove := hsortable.text_above hkeeps
  have habove' := hsortable'.text_above hkeeps
  simp only [textKey, Prod.Lex.toLex_lt_toLex, coalescedText_eq] at hlt
  simp only [Precedes, if_neg (Bool.eq_false_iff.mp hschema), sortTextOf, hcolumns, hcolumns',
    Option.bind_some]
  rcases hlt with hlt | ⟨heq, hlt⟩
  · exact .inl ((Keyset.getD_lt_iff habove habove').mp hlt)
  · exact .inr ⟨(Keyset.getD_inj_iff habove habove').mp heq, byIdentity_of_lt hlt⟩

-- The heads in the order of a key.
theorem Coherent.partition (h : Coherent P t log) {κ : Type} [LinearOrder κ]
    {key : ProjectionRow → κ} (hkey : Paginates schema t key)
    (hprecedes : ∀ a row b other, (a, row) ∈ log.listed P t spaceId schema →
      (b, other) ∈ log.listed P t spaceId schema → key row < key other → Precedes P schema a b)
    (hread : ∀ a ∈ log, P.readEnvelope (projectionText P a.operation) = .ok a.operation)
    (hpos : 0 < limit) (hlimit : limit + 1 < 2 ^ 63) :
    ∃ summaries, Keyset.follow ClientEntityPage.items ClientEntityPage.nextCursor
        (loadClientEntities P t spaceId schema limit)
        ((log.entities spaceId schema).length + 1) none = some (.ok summaries) ∧
      (summaries.map ClientEntitySummary.operation).Perm (log.entities spaceId schema) ∧
      (summaries.map ClientEntitySummary.operation).Pairwise (Precedes P schema) := by
  have hoperations : ((log.sorted P t spaceId schema key).map (listedSummary t)).map
      ClientEntitySummary.operation = (log.sorted P t spaceId schema key).map Prod.fst := by
    rw [map_map]
    rfl
  refine ⟨_, h.follow_eq hkey hread hpos hlimit, ?_, ?_⟩
  · rw [hoperations, ← h.listed_operations]
    exact Keyset.ordered_perm.map _
  · rw [hoperations, pairwise_map]
    refine List.Pairwise.imp_of_mem ?_ (Keyset.ordered_strict (h.listed_keys hkey))
    rintro ⟨a, row⟩ ⟨b, other⟩ hpair hother hlt
    exact hprecedes a row b other (Log.mem_sorted.mp hpair) (Log.mem_sorted.mp hother) hlt

end Declared

namespace Sample

theorem keepsText : KeepsText platform := by
  intro text hne hempty
  have hlower : text.map Char.toLower = "" := hempty
  exact hne (String.map_eq_empty.mp hlower)

theorem entities_recorded : (admitted platform recorded.tables).entities
    DataModel.Sample.spaceId .record = [record] := by
  rw [admitted_recorded, Log.entities, Log.heads, History.heads, filter_filter,
    filter_cons_of_neg (by decide), filter_cons_of_neg (by decide),
    filter_cons_of_pos (by decide), filter_nil]

end Sample

open Sample (platform recorded supports)

open DataModel.Sample (spaceId)

end Fractonica.Store
