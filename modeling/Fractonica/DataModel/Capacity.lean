import Fractonica.Trust.Cbor.Capacity
import Fractonica.DataModel.Body.Canonical
import Fractonica.DataModel.Projection.Theorems

namespace Fractonica.DataModel

open Lib Trust Content List

section Texts

variable {text : String} {maximum : Nat}

theorem length_utf8Bytes_le (text : String) : (utf8Bytes text).length ≤ 4 * text.toList.length := by
  rw [utf8Bytes_eq]
  exact Utf8.length_encode_le text.toList

-- A character takes at most four bytes.
theorem compact_characters {count : Nat} (h : text.toList.length ≤ count)
    (hcount : 4 * count < USIZE) : Compact (.text text) (levels + 1) (4 * count + 9) := by
  have hbytes := length_utf8Bytes_le text
  exact compact_text (by omega) hcount

theorem compact_label (h : isBoundedLabel text maximum allowEmpty = true)
    (hmaximum : 4 * maximum < USIZE) : Compact (.text text) (levels + 1) (4 * maximum + 9) :=
  compact_characters (length_label h) hmaximum

theorem compact_token (h : isToken maximum text = true)
    (hmaximum : maximum < USIZE) : Compact (.text text) (levels + 1) (maximum + 9) := by
  simp only [isToken, Bool.and_eq_true, decide_eq_true_eq] at h
  exact compact_text h.1.2 hmaximum

theorem compact_elim {value : Option α} {encode : α → CanonicalValue}
    (h : ∀ found ∈ value, Compact (encode found) (levels + 1) (size + 1)) :
    Compact (value.elim .null encode) (levels + 1) (size + 1) := by
  cases value with
  | none => exact compact_null.weaken (by omega)
  | some found => exact h found rfl

theorem compact_optionalText {text : Option String}
    (h : ∀ found ∈ text, Compact (.text found) (levels + 1) (size + 1)) :
    Compact (optionalText text) (levels + 1) (size + 1) := compact_elim h

theorem compact_optionalUnsigned (value : Option UInt64) :
    Compact (optionalUnsigned value) (levels + 1) 9 :=
  compact_elim fun found _ => compact_unsigned found

theorem compact_identifier (id : Identifier kind) :
    Compact (.bytes id.bytes.bytes) (levels + 1) 41 :=
  compact_bytes id.bytes.length_eq.le (by decide)

theorem compact_nonnegative {value : Int64}
    (h : nonnegativeInteger value = .ok encoded) : Compact encoded (levels + 1) 9 := by
  unfold nonnegativeInteger at h
  split_ifs at h
  cases h
  exact compact_unsigned _

theorem compact_optionalNonnegative {value : Option Int64}
    (h : optionalNonnegativeInteger value = .ok encoded) : Compact encoded (levels + 1) 9 := by
  cases value with
  | none =>
    cases h
    exact compact_null.weaken (by decide)
  | some value => exact compact_nonnegative h

theorem compact_signedInteger (value : Int64) : Compact (signedInteger value) (levels + 1) 9 := by
  unfold signedInteger
  split_ifs
  · exact compact_integer value
  · exact compact_unsigned _

end Texts

section Metadata

variable {depth : Nat} {entries : List Member}

theorem length_le_quote (bytes : List UInt8) : bytes.length + 2 ≤ (quote bytes).length := by
  have hescape : bytes.length ≤ (bytes.flatMap escapeByte).length := by
    induction bytes with
    | nil => exact le_rfl
    | cons byte rest ih =>
      have hone : 1 ≤ (escapeByte byte).length := by
        unfold escapeByte
        split_ifs <;> simp
      rw [flatMap_cons, length_append, length_cons]
      omega
  simp only [quote, length_cons, length_append, length_nil]
  omega

-- Members are separated by commas, so each has one more byte.
theorem le_length_intercalate (texts : List (List UInt8)) :
    (texts.map fun text => text.length + 1).sum ≤ ([0x2c].intercalate texts).length + 1 := by
  induction texts with
  | nil => simp
  | cons text rest ih =>
    cases rest with
    | nil => simp [List.intercalate]
    | cons next rest =>
      simp only [List.intercalate, intersperse_cons_cons, flatten_cons,
        length_append, map_cons, sum_cons, length_cons,
        length_nil] at ih ⊢
      omega

theorem encoding_text_injective {left right : String} (hleft : (utf8Bytes left).length < USIZE)
    (hright : (utf8Bytes right).length < USIZE)
    (h : encoding (.text left) = encoding (.text right)) : left = right := by
  have hcanonical : ∀ text : String, (utf8Bytes text).length < USIZE → Canonical 1 (.text text) :=
    fun _ hlength => hlength
  exact CanonicalValue.text.inj (encoding_injective (hcanonical left hleft)
    (hcanonical right hright) h)

theorem length_key {key : JsonKey} (h : validateMetadataKey key = .ok u) :
    (utf8Bytes key.text).length < USIZE := by
  have hlabel := length_label (require_eq_ok.mp h)
  have hbytes := length_utf8Bytes_le key.text
  have hlimit : 4 * MAX_METADATA_KEY_CHARS < USIZE := by decide
  omega

theorem sum_le_mul_sum {α : Type} {items : List α} {bound text : α → Nat}
    (h : ∀ item ∈ items, bound item ≤ factor * text item) :
    (items.map bound).sum ≤ factor * (items.map text).sum := by
  induction items with
  | nil => exact Nat.zero_le _
  | cons item rest ih =>
    obtain ⟨hitem, hrest⟩ := forall_mem_cons.mp h
    rw [map_cons, map_cons, sum_cons, sum_cons, Nat.mul_add]
    exact Nat.add_le_add hitem (ih hrest)

-- The entries of an object. Each takes at most nine times its text and a comma.
theorem compact_entries (hsorted : SortedMap.Sorted entries)
    (hcount : entries.length ≤ MAX_CANONICAL_CONTAINER_ITEMS)
    (hkeys : ∀ entry ∈ entries, validateMetadataKey entry.1 = .ok ()) (hvalues : ∀ entry ∈ entries,
      Compact (jsonValue entry.2) (levels + 1) (9 * (entry.2.render P).length + 9)) :
    Compact (.map (entries.map entryValue)) (levels + 2)
      (9 * ((Json.object entries).render P).length) := by
  have hkey : ∀ entry ∈ entries, Compact (entryValue entry).1 (levels + 1)
      ((utf8Bytes entry.1.text).length + 9) :=
    fun entry hentry => compact_text le_rfl (length_key (hkeys entry hentry))
  have hnodup : ((entries.map entryValue).map fun entry => encoding (normalize entry.1)).Nodup := by
    rw [List.Nodup, map_map, pairwise_map]
    refine hsorted.imp_of_mem ?_
    intro left right hleft hright hlt hsame
    have htext : left.1.text = right.1.text :=
      encoding_text_injective (length_key (hkeys left hleft))
        (length_key (hkeys right hright)) hsame
    exact hlt.ne (congrArg JsonKey.mk htext)
  have hcompact := (compactEntries_map hkey hvalues).map (by rwa [length_map]) hnodup
  have hsum : (entries.map fun entry => (utf8Bytes entry.1.text).length + 9 +
      (9 * (entry.2.render P).length + 9)).sum ≤
        9 * (entries.map ((fun text => text.length + 1) ∘ fun entry =>
          quote (utf8Bytes entry.1.text) ++ 0x3a :: entry.2.render P)).sum := by
    apply sum_le_mul_sum
    intro entry _
    have hquote := length_le_quote (utf8Bytes entry.1.text)
    simp only [Function.comp_apply, length_append, length_cons]
    omega
  have htexts := le_length_intercalate (Json.render.pairs P entries)
  rw [render_pairs, map_map, ← render_pairs] at htexts
  refine hcompact.weaken ?_
  simp only [Json.render, length_cons, length_append, length_nil]
  omega

theorem compact_items (hcount : values.length ≤ MAX_CANONICAL_CONTAINER_ITEMS)
    (hvalues : ∀ value ∈ values,
      Compact (jsonValue value) levels (9 * (value.render P).length + 9)) :
    Compact (.array (values.map jsonValue)) (levels + 1)
      (9 * ((Json.array values).render P).length) := by
  have hcompact := (compactFields_map hvalues).array (by rwa [length_map])
  have hsum : (values.map fun value => 9 * (value.render P).length + 9).sum ≤
      9 * (values.map ((fun text => text.length + 1) ∘ Json.render P)).sum := by
    apply sum_le_mul_sum
    intro value _
    rw [Function.comp_apply]
    omega
  have htexts := le_length_intercalate (Json.render.items P values)
  rw [render_items, map_map, ← render_items] at htexts
  refine hcompact.weaken ?_
  simp only [Json.render, length_cons, length_append, length_nil]
  omega

-- The containers left below a level bound the levels of the encoding.
theorem compact_jsonValue {value : Json} (hwellFormed : value.WellFormed)
    (hvalid : validateMetadataValue P value depth = .ok ())
    (hlevels : MAX_METADATA_DEPTH + 1 - depth < levels) :
    Compact (jsonValue value) levels (9 * (value.render P).length + 9) := by
  obtain ⟨levels, rfl⟩ := Nat.exists_eq_add_one_of_ne_zero (Nat.ne_zero_of_lt hlevels)
  induction value using Json.memberInduction generalizing depth levels with
  | null => exact compact_null.weaken (by omega)
  | bool value => exact (compact_bool value).weaken (by omega)
  | number number =>
    cases number with
    | posInt value => exact (compact_unsigned value).weaken (by omega)
    | negInt value negative => exact (compact_integer value).weaken (by omega)
    | float bits finite => exact (compact_float finite).weaken (by omega)
  | string value =>
    have hquote := length_le_quote (utf8Bytes value)
    have hbytes := length_utf8Bytes_le value
    have hchars : value.toList.length ≤ MAX_METADATA_STRING_CHARS := by
      simpa [validateMetadataValue] using hvalid
    have hlimit : 4 * MAX_METADATA_STRING_CHARS < USIZE := by decide
    refine (compact_text le_rfl (by omega)).weaken ?_
    simp only [Json.render]
    omega
  | array values ih =>
    simp only [validateMetadataValue, validateMetadataContainer, bind_eq_ok, require_eq_ok,
      decide_eq_true_eq, validateItems_eq_ok] at hvalid
    obtain ⟨-, ⟨-, hdepth, hcount⟩, hvalues⟩ := hvalid
    obtain ⟨levels, rfl⟩ : ∃ inner, levels = inner + 1 := ⟨levels - 1, by omega⟩
    have hmembers : ∀ value ∈ values,
        Compact (jsonValue value) (levels + 1) (9 * (value.render P).length + 9) :=
      fun value hvalue => ih value hvalue (Json.wellFormed_array.mp hwellFormed value hvalue)
        (hvalues value hvalue) levels (by omega)
    rw [jsonValue_array]
    exact (compact_items (hcount.trans (by decide)) hmembers).weaken (by omega)
  | object entries ih =>
    simp only [validateMetadataValue, validateMetadataContainer, bind_eq_ok, require_eq_ok,
      decide_eq_true_eq, validatePairs_eq_ok] at hvalid
    obtain ⟨-, ⟨-, hdepth, hcount⟩, hentries⟩ := hvalid
    obtain ⟨hsorted, hwell⟩ := Json.wellFormed_object.mp hwellFormed
    obtain ⟨levels, rfl⟩ : ∃ inner, levels = inner + 1 := ⟨levels - 1, by omega⟩
    have hmembers : ∀ entry ∈ entries,
        Compact (jsonValue entry.2) (levels + 1) (9 * (entry.2.render P).length + 9) :=
      fun entry hentry => ih entry hentry (hwell entry hentry) (hentries entry hentry).2 levels
        (by omega)
    rw [jsonValue_object]
    exact (compact_entries hsorted (hcount.trans (by decide)) (fun entry hentry => (hentries entry
      hentry).1) hmembers).weaken (by omega)

theorem compact_metadata {metadata : Metadata} (h : validateMetadata P metadata = .ok ()) :
    Compact (metadataValue metadata) (levels + 18) 589824 := by
  simp only [validateMetadata, bind_eq_ok, require_eq_ok, checkAll_eq_ok, decide_eq_true_eq] at h
  obtain ⟨-, hcount, -, hentries, hsize⟩ := h
  obtain ⟨hsorted, hwell⟩ := Json.wellFormed_object.mp metadata.wellFormed
  have hmembers : ∀ entry ∈ metadata.entries,
      Compact (jsonValue entry.2) (levels + 17) (9 * (entry.2.render P).length + 9) := by
    intro entry hentry
    obtain ⟨_, -, hvalue⟩ := hentries entry hentry
    have hlevels : MAX_METADATA_DEPTH + 1 - 1 < levels + 17 := by
      unfold MAX_METADATA_DEPTH
      omega
    exact compact_jsonValue (hwell entry hentry) hvalue hlevels
  have hkeys : ∀ entry ∈ metadata.entries, validateMetadataKey entry.1 = .ok () :=
    fun entry hentry => (hentries entry hentry).elim fun _ hkey => hkey.1
  refine (compact_entries hsorted (hcount.trans (by decide)) hkeys hmembers).weaken ?_
  exact Nat.mul_le_mul_left 9 hsize

end Metadata

theorem compact_resource {resource : ResourceRef} (h : resource.Valid) :
    Compact (encodeResource resource) (levels + 2) 1297 := by
  have hmedia : (utf8Bytes resource.mediaType).length ≤ MAX_MEDIA_TYPE_BYTES := by
    have hvalid := h.mediaType
    simp only [isMediaType, Bool.and_eq_true, decide_eq_true_eq] at hvalid
    exact hvalid.1.1.2
  have hname : ∀ name ∈ resource.originalName,
      Compact (.text name) (levels + 1) (4 * MAX_ORIGINAL_NAME_CHARS + 9) := by
    intro name hfound
    have hvalid := h.originalName name hfound
    simp only [isOriginalName, Bool.and_eq_true, decide_eq_true_eq] at hvalid
    exact compact_characters hvalid.1.1.1.2 (by decide)
  exact ((compact_bytes resource.contentId.bytes.length_eq.le (by decide)).cons
    ((compact_unsigned _).cons ((compact_text hmedia (by decide)).cons
    ((compact_token h.role (by decide)).cons ((compact_optionalText hname).cons
    compactFields_nil))))).tuple (by simp)

theorem compact_resources {resources : List ResourceRef} (h : ValidResources resources) :
    Compact (.array (resources.map encodeResource)) (levels + 3) 83017 :=
  compact_array (fun resource hresource => compact_resource (h.valid resource hresource)) h.count
    (by decide)

theorem compact_target (target : ReferenceTarget) :
    Compact (encodeTarget target) (levels + 2) 125 := by
  cases target with
  | actor actorId =>
    exact (((compact_unsigned 0).cons ((compact_identifier actorId).cons
      compactFields_nil)).tuple (by simp)).weaken (by decide)
  | entity spaceId entityId operationId =>
    have hoperation : Compact (operationId.elim .null fun id => .bytes id.bytes.bytes)
        (levels + 1) 41 := compact_elim fun id _ => compact_identifier id
    exact ((compact_unsigned 1).cons ((compact_identifier spaceId).cons
      ((compact_bytes entityId.uuid.bytes.length_eq.le (by decide)).cons (hoperation.cons
      compactFields_nil)))).tuple (by simp)

theorem compact_references (h : validateReferences P references = .ok ()) :
    Compact (encodeReferences references) (levels + 4) 53001 := by
  simp only [validateReferences, bind_eq_ok, require_eq_ok, checkAll_eq_ok,
    decide_eq_true_eq] at h
  obtain ⟨-, hcount, -, hvalid, -⟩ := h
  have hreferences : ∀ reference ∈ references, Compact (.array [.text reference.relation,
      encodeTarget reference.target]) (levels + 3) 207 := by
    intro reference hreference
    have hchecked := hvalid reference hreference
    simp only [EntityReference.validate, bind_eq_ok, require_eq_ok] at hchecked
    obtain ⟨-, hrelation, -⟩ := hchecked
    exact ((compact_token hrelation (by decide)).cons ((compact_target reference.target).cons
      compactFields_nil)).tuple (by simp)
  exact compact_array hreferences hcount (by decide)

theorem compact_base64 {text : String} {bytes : List UInt8} {maximum : Nat}
    (h : decodeCanonicalBase64url text = some bytes) (hlength : bytes.length ≤ maximum)
    (hmaximum : (4 * maximum + 2) / 3 < USIZE) :
    Compact (.text text) (levels + 1) ((4 * maximum + 2) / 3 + 9) := by
  apply compact_text ?_ hmaximum
  rw [utf8Bytes_of_base64 h]
  exact length_base64 hlength

theorem compact_encrypted {payload : EncryptedPayload} (h : payload.validate = .ok ()) :
    Compact (encodeEncryptedPayload payload) (levels + 2) 1398238 := by
  simp only [EncryptedPayload.validate, bind_eq_ok, require_eq_ok, okOr_eq_ok,
    decide_eq_true_eq] at h
  obtain ⟨-, hkey, nonce, hnonce, -, hnonceLength, ciphertext, hciphertext, -, hlength⟩ := h
  exact ((compact_unsigned _).cons ((compact_text (length_keyId hkey) (by decide)).cons
    ((compact_base64 hnonce hnonceLength.le (by decide)).cons
    ((compact_base64 hciphertext hlength (by decide)).cons compactFields_nil)))).tuple (by simp)

theorem compact_record (h : document.validate P = .ok ())
    (hencoded : encodeRecordDocument P document = .ok encoded) :
    Compact encoded (levels + 19) 1774600 := by
  simp only [RecordDocument.validate, validateBoundedLabel, bind_eq_ok, checkSome_eq_ok,
    require_eq_ok, decide_eq_true_eq] at h
  obtain ⟨-, -, -, hemoji, -, htext, _, hmetadata, _, hresources, hreferences⟩ := h
  simp only [encodeRecordDocument, encodeMetadataObject_eq, bind_eq_ok] at hencoded
  obtain ⟨start, hstart, finish, hfinish, _, hvalue, hencoded⟩ := hencoded
  cases hvalue
  cases hencoded
  have hemoji : Compact (optionalText document.emoji) (levels + 18) (4 * MAX_EMOJI_CHARS + 9) :=
    compact_optionalText fun emoji hfound => compact_label (hemoji emoji hfound) (by decide)
  have htext : Compact (optionalText document.text) (levels + 18) (4 * MAX_TEXT_CHARS + 9) :=
    compact_optionalText fun text hfound => compact_characters (htext text hfound) (by decide)
  exact (((compact_nonnegative hstart).cons ((compact_optionalNonnegative hfinish).cons (hemoji.cons
    (htext.cons ((compact_metadata hmetadata).cons
    ((compact_resources (validateResources_eq_ok.mp hresources)).cons
    ((compact_references hreferences).cons compactFields_nil))))))).tuple (by simp)).weaken
    (by decide)

theorem compact_tag (h : document.validate P = .ok ())
    (hencoded : encodeTagDocument P document = .ok encoded) :
    Compact encoded (levels + 19) 1774600 := by
  simp only [TagDocument.validate, validateBoundedLabel, bind_eq_ok, checkSome_eq_ok,
    require_eq_ok] at h
  obtain ⟨-, hname, -, hemoji, -, hnotes, -, hcolor, _, hmetadata, hreferences⟩ := h
  simp only [encodeTagDocument, encodeMetadataObject_eq, ok_bind, Except.ok.injEq] at hencoded
  subst hencoded
  have hemoji : Compact (optionalText document.emoji) (levels + 18) (4 * MAX_EMOJI_CHARS + 9) :=
    compact_optionalText fun emoji hfound => compact_label (hemoji emoji hfound) (by decide)
  have hnotes : Compact (optionalText document.notes) (levels + 18) (4 * MAX_TEXT_CHARS + 9) :=
    compact_optionalText fun notes hfound => compact_label (hnotes notes hfound) (by decide)
  have hcolor : Compact (optionalText document.colorHex) (levels + 18) (7 + 9) :=
    compact_optionalText fun color hfound =>
      compact_text (length_color (hcolor color hfound)).le (by decide)
  exact (((compact_label hname (by decide)).cons (hemoji.cons (hnotes.cons (hcolor.cons
    ((compact_metadata hmetadata).cons ((compact_references hreferences).cons
    compactFields_nil)))))).tuple (by simp)).weaken (by decide)

theorem compact_event (h : document.validate P = .ok ())
    (hencoded : encodeEventDocument P document = .ok encoded) :
    Compact encoded (levels + 19) 1774600 := by
  simp only [EventDocument.validate, validateBoundedLabel, bind_eq_ok, require_eq_ok] at h
  obtain ⟨-, -, -, hlabel, _, hmetadata, hreferences⟩ := h
  simp only [encodeEventDocument, encodeMetadataObject_eq, bind_eq_ok] at hencoded
  obtain ⟨start, hstart, finish, hfinish, _, hvalue, hencoded⟩ := hencoded
  cases hvalue
  cases hencoded
  exact (((compact_nonnegative hstart).cons ((compact_optionalNonnegative hfinish).cons
    ((compact_label hlabel (by decide)).cons ((compact_signedInteger document.typeNumber).cons
    ((compact_metadata hmetadata).cons ((compact_references hreferences).cons
    compactFields_nil)))))).tuple (by simp)).weaken (by decide)

theorem compact_profile (h : document.validate P = .ok ())
    (hencoded : encodeProfileDocument P document = .ok encoded) :
    Compact encoded (levels + 19) 1774600 := by
  simp only [ProfileDocument.validate, validateBoundedLabel, bind_eq_ok, checkSome_eq_ok,
    mapError_eq_ok, ResourceRef.validate_eq_ok, require_eq_ok] at h
  obtain ⟨-, hhandle, -, hname, -, -, -, havatar, hmetadata⟩ := h
  simp only [encodeProfileDocument, encodeMetadataObject_eq, ok_bind, Except.ok.injEq] at hencoded
  subst hencoded
  have havatar : Compact (document.avatar.elim .null encodeResource) (levels + 18) 1297 :=
    compact_elim fun avatar hfound => compact_resource (havatar avatar hfound)
  exact (((compact_token hhandle (by decide)).cons ((compact_label hname (by decide)).cons
    ((compact_unsigned _).cons (havatar.cons ((compact_metadata hmetadata).cons
    compactFields_nil))))).tuple (by simp)).weaken (by decide)

theorem compact_protected {payload : ProtectedDocument α}
    (h : validateProtected payload validatePublic allowPrivateResources = .ok ())
    (hpublic : ∀ document encoded, validatePublic document = .ok () →
      encodePublic document = .ok encoded → Compact encoded (levels + 19) 1774600)
    (hencoded : encodeProtected payload encodePublic = .ok encoded) :
    Compact encoded (levels + 20) 1774627 := by
  cases payload with
  | pub document =>
    simp only [encodeProtected, bind_eq_ok] at hencoded
    obtain ⟨value, hvalue, hencoded⟩ := hencoded
    cases hencoded
    have hempty : Compact (.array []) (levels + 19) 9 := compactFields_nil.tuple (by simp)
    exact ((compact_unsigned 0).cons ((hpublic document value h hvalue).cons (hempty.cons
      compactFields_nil))).tuple (by simp)
  | priv envelope resources =>
    cases hencoded
    obtain ⟨henvelope, hvalid⟩ := validResources_of_protected h
    exact (((compact_unsigned 1).cons ((compact_encrypted henvelope).cons
      ((compact_resources hvalid).cons compactFields_nil))).tuple (by simp)).weaken (by decide)

theorem length_schemaName (schema : EntitySchema) : (utf8Bytes schema.asStr).length ≤ 32 := by
  cases schema <;> decide

theorem compact_grant {grant : CapabilityGrant} (h : grant.Valid P)
    (hencoded : encodeCapabilityGrant grant = .ok encoded) :
    Compact encoded (levels + 3) 10000 := by
  simp only [encodeCapabilityGrant, bind_eq_ok] at hencoded
  obtain ⟨start, hstart, finish, hfinish, hencoded⟩ := hencoded
  cases hencoded
  have hactions : Compact (.array (grant.actions.map fun action => .unsigned (actionCode action)))
      (levels + 2) (6 * 9 + 9) :=
    compact_array (fun action _ => compact_unsigned _) (length_actions h) (by decide)
  have hschemas : Compact (.array (grant.schemas.map fun schema => .text schema.asStr))
      (levels + 2) (MAX_CAPABILITY_SCHEMAS * (32 + 9) + 9) :=
    compact_array (fun schema _ => compact_text (length_schemaName schema) (by decide))
      h.schemaCount (by decide)
  have hvisibilities : Compact (.array (grant.visibilities.map fun visibility =>
      .unsigned (visibilityCode visibility))) (levels + 2) (2 * 9 + 9) :=
    compact_array (fun visibility _ => compact_unsigned _) (length_visibilities h) (by decide)
  have hroles : Compact (.array (grant.contentRoles.map .text)) (levels + 2)
      (MAX_CAPABILITY_CONTENT_ROLES * (MAX_RESOURCE_ROLE_BYTES + 9) + 9) :=
    compact_array (fun role hrole => compact_token (h.roles role hrole) (by decide)) h.roleCount
      (by decide)
  exact (((compact_unsigned _).cons ((compact_identifier grant.subject).cons (hactions.cons
    (hschemas.cons (hvisibilities.cons (hroles.cons
    ((compact_optionalUnsigned grant.maxResourceByteLength).cons
    ((compact_optionalNonnegative hstart).cons ((compact_optionalNonnegative hfinish).cons
    ((compact_unsigned _).cons ((compact_label h.label (by decide)).cons
    compactFields_nil))))))))))).tuple (by simp)).weaken (by decide)

theorem compact_revocation {revocation : CapabilityRevocation} (h : revocation.validate = .ok ())
    (hencoded : encodeCapabilityRevocation revocation = .ok encoded) :
    Compact encoded (levels + 2) 10000 := by
  cases hencoded
  simp only [CapabilityRevocation.validate, validateBoundedLabel, checkSome_eq_ok,
    require_eq_ok] at h
  have hdetail : Compact (optionalText revocation.detail) (levels + 1)
      (4 * MAX_REVOCATION_DETAIL_CHARS + 9) :=
    compact_optionalText fun detail hfound => compact_label (h detail hfound) (by decide)
  exact (((compact_unsigned _).cons ((compact_identifier revocation.grantId).cons
    ((compact_unsigned _).cons (hdetail.cons compactFields_nil)))).tuple (by simp)).weaken
    (by decide)

-- A body is a kind and what belongs to it.
theorem compact_kind {value : CanonicalValue} (h : Compact value (levels + 1) 1774627) :
    Compact (.array [.unsigned kind, value]) (levels + 2) 1774645 :=
  ((compact_unsigned kind).cons (h.cons compactFields_nil)).tuple (by simp)

theorem compact_put (h : ∀ value, result = .ok value → Compact value (levels + 1) 1774627)
    (hencoded : (do
      let value ← result
      .ok (.array [.unsigned kind, value]) : Except DataModelError CanonicalValue) =
        .ok encoded) : Compact encoded (levels + 2) 1774645 := by
  obtain ⟨value, hvalue, hencoded⟩ := bind_eq_ok.mp hencoded
  cases hencoded
  exact compact_kind (h value hvalue)

theorem ValidBody.compact {schema : EntitySchema} {body : OperationBody}
    (h : ValidBody P schema body) (hencoded : encodeBody P schema body = .ok encoded) :
    Compact encoded (levels + 21) 1774645 := by
  cases h with
  | record valid =>
    exact compact_put (fun _ => compact_protected valid fun _ _ => compact_record) hencoded
  | tag valid =>
    exact compact_put (fun _ => compact_protected valid fun _ _ => compact_tag) hencoded
  | event valid =>
    exact compact_put (fun _ => compact_protected valid fun _ _ => compact_event) hencoded
  | profile valid =>
    refine compact_put (fun value hvalue => ?_) hencoded
    have hprofile : Compact value (levels + 20) 1774600 := compact_profile valid hvalue
    exact hprofile.weaken (by decide)
  | @tombstone schema client =>
    have hvalue : encoded = .array [.unsigned BODY_TOMBSTONE] := by
      cases schema with
      | record | tag | event | profile =>
        cases hencoded
        rfl
      | _ => cases client
    rw [hvalue]
    exact (((compact_unsigned _).cons compactFields_nil).tuple (by simp)).weaken (by decide)
  | spaceGenesis controller =>
    cases hencoded
    exact compact_kind ((compact_identifier controller).weaken (by decide))
  | capabilityGrant valid => exact (compact_grant valid hencoded).weaken (by decide)
  | capabilityRevoke valid => exact (compact_revocation valid hencoded).weaken (by decide)

theorem JsonNumber.beq_self (number : JsonNumber) : number.beq number = true := by
  cases number <;> simp [JsonNumber.beq]

theorem Json.beq_self (value : Json) : value.beq value = true := by
  induction value using Json.memberInduction with
  | null => rfl
  | bool value => simp [Json.beq]
  | number number => exact number.beq_self
  | string value => simp [Json.beq]
  | array values ih =>
    rw [Json.beq]
    induction values with
    | nil => rfl
    | cons value rest ihRest =>
      obtain ⟨hvalue, hrest⟩ := forall_mem_cons.mp ih
      rw [Json.beq.items, hvalue, ihRest hrest]
      rfl
  | object entries ih =>
    rw [Json.beq]
    induction entries with
    | nil => rfl
    | cons entry rest ihRest =>
      obtain ⟨hvalue, hrest⟩ := forall_mem_cons.mp ih
      rw [Json.beq.pairs, hvalue, ihRest hrest]
      simp

instance : ReflBEq Metadata := ⟨Json.beq_self _⟩

deriving instance ReflBEq for
  ProtectedDocument, RecordDocument, TagDocument, EventDocument, ProfileDocument, OperationBody

theorem body_beq_self (body : OperationBody) : (body == body) = true := BEq.rfl

section Operations

variable {P : Primitives} {ids : List OperationId}

theorem compact_digests {maximum : Nat} (hcount : ids.length ≤ maximum)
    (hmost : maximum ≤ MAX_CANONICAL_CONTAINER_ITEMS) :
    Compact (.array (ids.map fun id => .bytes id.bytes.bytes)) (levels + 2) (maximum * 41 + 9) :=
  compact_array (fun id _ => compact_identifier id) hcount hmost

theorem compact_operation {f : OperationFields} (hschema : schemaIsValid f.schema = true)
    (hparents : f.causalParents.length ≤ MAX_CAUSAL_PARENTS)
    (hauthorization : f.authorization.length ≤ MAX_AUTHORIZATION_REFERENCES)
    (hbody : Compact f.body MAX_CANONICAL_DEPTH 1774645) :
    Compact f.toValue (MAX_CANONICAL_DEPTH + 1) 1780176 := by
  have hname : (utf8Bytes f.schema).length ≤ MAX_SCHEMA_BYTES := by
    unfold schemaIsValid at hschema
    cases hbytes : utf8Bytes f.schema with
    | nil => exact Nat.zero_le _
    | cons first rest =>
      rw [hbytes] at hschema
      simp only [Bool.and_eq_true, decide_eq_true_eq] at hschema
      exact hschema.1.1
  have hdomain : (utf8Bytes OPERATION_DOMAIN).length ≤ 24 := by decide
  exact ((compact_text hdomain (by decide)).cons ((compact_unsigned _).cons
    ((compact_identifier f.spaceId).cons ((compact_identifier f.actorId).cons
    ((compact_bytes f.entityId.bytes.length_eq.le (by decide)).cons
    ((compact_text hname (by decide)).cons ((compact_digests hparents (by decide)).cons
    ((compact_digests hauthorization (by decide)).cons ((compact_integer f.occurredAtUnixMs).cons
    ((compact_bytes f.nonce.bytes.length_eq.le (by decide)).cons
    (hbody.cons compactFields_nil))))))))))).tuple (by simp)

-- The header that the trust layer permits around a body.
structure Permitted (P : Primitives) (spaceId : SpaceId) (entityId : EntityId)
    (causalParents authorization : List OperationId) (occurredAtUnixMs : Int64)
    (key : Ed25519SigningKey) : Prop where
  space : spaceId.bytes ≠ FixedBytes.replicate 32 0
  actor : P.validKey (key.actorId P).bytes = true
  entity : entityId.uuid.isNil = false
  parentCount : causalParents.length ≤ MAX_CAUSAL_PARENTS
  parents : causalParents.Nodup
  authorizationCount : authorization.length ≤ MAX_AUTHORIZATION_REFERENCES
  authorization : authorization.Nodup
  occurredAt : 0 ≤ occurredAtUnixMs.toInt

def sortIds (ids : List OperationId) : List OperationId := ids.insertionSort (· ≤ ·)

theorem sortIds_perm (ids : List OperationId) : (sortIds ids).Perm ids :=
  perm_insertionSort _ _

theorem sortIds_ascending (h : ids.Nodup) : (sortIds ids).Pairwise (· < ·) := by
  have hsorted : (sortIds ids).Pairwise (· ≤ ·) := pairwise_insertionSort _ _
  have hnodup : (sortIds ids).Nodup := (sortIds_perm ids).nodup_iff.mpr h
  exact hsorted.imp₂ (fun _ _ hle hne => lt_of_le_of_ne hle hne) hnodup

variable {spaceId : SpaceId} {entityId : EntityId} {schema : EntitySchema}
  {causalParents authorization : List OperationId} {occurredAtUnixMs : Int64}
  {nonce : OperationNonce} {body : OperationBody} {key : Ed25519SigningKey} {actorId : ActorId}

theorem isEmpty_sortIds (ids : List OperationId) : (sortIds ids).isEmpty = ids.isEmpty := by
  rw [Bool.eq_iff_iff, List.isEmpty_iff, List.isEmpty_iff]
  constructor
  · intro hnil
    exact nil_perm.mp (hnil ▸ sortIds_perm ids)
  · rintro rfl
    rfl

theorem validateFor_sortIds : body.validateFor P schema actorId entityId (sortIds causalParents)
    (sortIds authorization) =
      body.validateFor P schema actorId entityId causalParents authorization := by
  simp only [OperationBody.validateFor, isEmpty_sortIds]

theorem sign_sortIds :
    OperationEnvelope.sign P spaceId entityId schema (sortIds causalParents)
        (sortIds authorization) occurredAtUnixMs nonce body key =
      OperationEnvelope.sign P spaceId entityId schema causalParents authorization
        occurredAtUnixMs nonce body key := by
  have hsame : ∀ f : OperationFields, OperationPayload.new P { f with
      causalParents := sortIds f.causalParents, authorization := sortIds f.authorization } =
        OperationPayload.new P f :=
    fun f => new_congr (check_perm (sortIds_perm f.causalParents) (sortIds_perm f.authorization))
  have hnew := fun value => hsame ⟨spaceId, key.actorId P, entityId.uuid, schema.asStr,
    causalParents, authorization, occurredAtUnixMs, nonce, value⟩
  simp only [OperationEnvelope.sign, validateFor_sortIds, hnew]

-- The fields of the operation that is signed.
def signedFields (P : Primitives) (spaceId : SpaceId) (entityId : EntityId)
    (schema : EntitySchema) (causalParents authorization : List OperationId)
    (occurredAtUnixMs : Int64) (nonce : OperationNonce) (key : Ed25519SigningKey)
    (encoded : CanonicalValue) : OperationFields where
  spaceId := spaceId
  actorId := key.actorId P
  entityId := entityId.uuid
  schema := schema.asStr
  causalParents := sortIds causalParents
  authorization := sortIds authorization
  occurredAtUnixMs := occurredAtUnixMs
  nonce := nonce
  body := encoded

theorem Permitted.sign (h : Permitted P spaceId entityId causalParents authorization
      occurredAtUnixMs key) (hP : P.Correct)
    (hvalid : body.validateFor P schema (key.actorId P) entityId causalParents authorization =
      .ok ()) (hencoded : encodeBody P schema body = .ok encoded) {bytes : List UInt8}
    (hbytes : (signedFields P spaceId entityId schema causalParents authorization
      occurredAtUnixMs nonce key encoded).canonicalBytes = .ok bytes)
    (hsize : bytes.length + 77 ≤ MAX_CANONICAL_BYTES)
    (hown : hashOperationPayload P bytes ∉ causalParents) :
    ∃ e, OperationEnvelope.sign P spaceId entityId schema causalParents authorization
      occurredAtUnixMs nonce body key = .ok e := by
  have hfields : (signedFields P spaceId entityId schema causalParents authorization
      occurredAtUnixMs nonce key encoded).Valid P :=
    { space := h.space
      actor := h.actor
      entity := h.entity
      schema := Sample.schemaIsValid_asStr schema
      occurredAt := h.occurredAt
      parentCount := (sortIds_perm causalParents).length_eq.le.trans h.parentCount
      parentsAscending := sortIds_ascending h.parents
      authorizationCount := (sortIds_perm authorization).length_eq.le.trans h.authorizationCount
      authorizationAscending := sortIds_ascending h.authorization
      encodes := ⟨bytes, hbytes⟩ }
  let signature := P.sign key.seed (encoding (signatureValue bytes))
  let e : OperationEnvelope :=
    { protocolVersion := PROTOCOL_VERSION
      operationId := hashOperationPayload P bytes
      spaceId := spaceId
      actorId := key.actorId P
      entityId := entityId
      schema := schema
      causalParents := sortIds causalParents
      authorization := sortIds authorization
      occurredAtUnixMs := occurredAtUnixMs
      nonce := nonce
      body := body
      coseSign1 := coseBytes bytes signature }
  have hsigned : OperationEnvelope.Signed P e encoded bytes signature :=
    { version := rfl
      notOwnParent := fun hmem => hown ((sortIds_perm causalParents).mem_iff.mp hmem)
      fields := hfields
      valid := validateFor_sortIds.trans hvalid
      reflexive := body_beq_self body
      encodes := hencoded
      written := hbytes
      size := hsize
      operationId := rfl
      verifies := hP.verifyStrict_sign key.seed _ h.actor
      cose := rfl }
  exact ⟨e, sign_sortIds.symm.trans (hsigned.sign rfl rfl)⟩

end Operations

open Sample (record recording writerKey)

-- Whatever body the validators accept, with whatever permitted header, the operation
-- stays within the limits of the codec, and it is signed.
theorem valid_bodies_sign (P : Primitives) (hP : P.Correct) (spaceId : SpaceId)
    (entityId : EntityId) (schema : EntitySchema) (causalParents authorization : List OperationId)
    (occurredAtUnixMs : Int64) (nonce : OperationNonce) (body : OperationBody)
    (key : Ed25519SigningKey)
    (hpermitted : Permitted P spaceId entityId causalParents authorization occurredAtUnixMs key)
    (hvalid : body.validateFor P schema (key.actorId P) entityId causalParents authorization =
      .ok ()) :
    ∃ encoded bytes, encodeBody P schema body = .ok encoded ∧
      Canonical (MAX_CANONICAL_DEPTH + 1) (normalize (signedFields P spaceId entityId schema
        causalParents authorization occurredAtUnixMs nonce key encoded).toValue) ∧
      (signedFields P spaceId entityId schema causalParents authorization occurredAtUnixMs nonce
        key encoded).canonicalBytes = .ok bytes ∧
      bytes.length + 77 ≤ MAX_CANONICAL_BYTES ∧
      (hashOperationPayload P bytes ∉ causalParents →
        ∃ e, OperationEnvelope.sign P spaceId entityId schema causalParents authorization
          occurredAtUnixMs nonce body key = .ok e) := by
  obtain ⟨encoded, hencoded⟩ := encodeBody_isOk hvalid
  have hbody : Compact encoded MAX_CANONICAL_DEPTH 1774645 :=
    (validBody_of_validateFor hvalid).compact hencoded
  have hparents := (sortIds_perm causalParents).length_eq.le.trans hpermitted.parentCount
  have hauthorization := (sortIds_perm authorization).length_eq.le.trans
    hpermitted.authorizationCount
  have hcompact : Compact (signedFields P spaceId entityId schema causalParents authorization
      occurredAtUnixMs nonce key encoded).toValue (MAX_CANONICAL_DEPTH + 1) 1780176 :=
    compact_operation (Sample.schemaIsValid_asStr schema) hparents hauthorization hbody
  have hbytes := liftCbor_eq_ok.mpr (hcompact.written (by decide))
  have hlimit : 1780176 + 77 ≤ MAX_CANONICAL_BYTES := by decide
  have hsize := (Nat.add_le_add_right hcompact.size 77).trans hlimit
  exact ⟨encoded, _, hencoded, hcompact.canonical, hbytes, hsize,
    hpermitted.sign hP hvalid hencoded hbytes hsize⟩

namespace Sample

theorem record_permitted : Permitted (recording [record]).primitives spaceId record.entityId []
    record.authorization occurredAtUnixMs writerKey where
  space := spaceId_ne_zero
  actor := by decide
  entity := by decide
  parentCount := Nat.zero_le _
  parents := nodup_nil
  authorizationCount := by decide
  authorization := by decide
  occurredAt := occurredAtUnixMs_nonneg

theorem record_validates : record.body.validateFor (recording [record]).primitives .record
    (writerKey.actorId (recording [record]).primitives) record.entityId []
      record.authorization = .ok () := by
  decide

end Sample

theorem valid_bodies_sign_record :
    ∃ e, OperationEnvelope.sign (recording [record]).primitives Sample.spaceId
      record.entityId .record [] record.authorization Sample.occurredAtUnixMs
      record.nonce record.body writerKey = .ok e := by
  obtain ⟨encoded, bytes, -, -, -, -, hsign⟩ :=
    valid_bodies_sign (recording [record]).primitives
      (Recording.primitives_correct _) Sample.spaceId record.entityId .record []
      record.authorization Sample.occurredAtUnixMs record.nonce record.body
      writerKey Sample.record_permitted Sample.record_validates
  exact hsign not_mem_nil

end Fractonica.DataModel
