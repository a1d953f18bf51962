import Fractonica.Client.Transfers.Theorems

namespace Fractonica.Client

open Lib Trust Content DataModel List
open Store (Platform)

section Pages

variable (P : Platform)

-- The commits of a page in `run_cycle`: each is a transaction of its own, and the
-- first that fails ends the cycle.
def commitPage (peerId : NodeId) (pullTime : Int64) :
    Tables → List OperationEnvelope → Tables × Except ClientStoreError Unit
  | t, [] => (t, .ok ())
  | t, operation :: rest =>
    match commitTransaction P t operation pullTime (.ofPeer peerId) with
    | .ok (next, _) => commitPage peerId pullTime next rest
    | .error error => (t, .error error)

-- What `run_cycle` does with a page that a target has sent.
def pullPage (t : Tables) (target : SyncTarget) (operations : List OperationEnvelope)
    (nextAfter : Nat) (pullTime nextPull : Int64) : Tables × Except ClientStoreError Unit :=
  match commitPage P target.peerId pullTime t operations with
  | (next, .ok ()) =>
    match advancePullCursor next target.peerId target.spaceId target.after nextAfter pullTime
        nextPull with
    | .ok last => (last, .ok ())
    | .error error => (next, .error error)
  | (next, .error error) => (next, .error error)

end Pages

-- The source of a commit is a peer that is configured, if it is one.
def CommitSource.Known (p : PeerTables) : CommitSource → Prop
  | .ofPeer peerId => (peer? p peerId).isSome = true
  | _ => True

def knows (m : MediaTables) (contentId : ContentId) : Prop :=
  contentId ∈ m.resources.map (·.contentId)

def ResourceRow.unexpected (row : ResourceRow) : ResourceRow := { row with localExpected := false }

-- The resources are the same, but for whether their bytes are expected here.
structure SameMedia (m m' : MediaTables) : Prop where
  links : m'.operationResources = m.operationResources
  resources : m'.resources.map ResourceRow.unexpected = m.resources.map ResourceRow.unexpected

-- Nothing but the deliveries, the transfers and the expected bytes has changed.
structure Bookkeeping (t t' : Tables) : Prop where
  graph : t'.graph = t.graph
  peers : t'.peering.peers = t.peering.peers
  spaces : t'.peering.spaces = t.peering.spaces
  media : SameMedia t.media t'.media
  workspaces : t'.workspaces = t.workspaces
  activeWorkspace : t'.activeWorkspace = t.activeWorkspace

-- The log, with the resources that its operations name.
structure Resourced (P : Platform) (t : Tables) (log : Log) : Prop where
  stored : Stored P t.graph log
  known : ∀ a ∈ log, ∀ resource ∈ a.operation.body.resources, knows t.media resource.contentId

section Media

variable {m m' : MediaTables} {contentId : ContentId} {references : List ResourceRef}

theorem SameMedia.refl (m : MediaTables) : SameMedia m m := ⟨rfl, rfl⟩

theorem SameMedia.trans (h : SameMedia m m') (h' : SameMedia m' m'') : SameMedia m m'' :=
  ⟨h'.links.trans h.links, h'.resources.trans h.resources⟩

theorem SameMedia.knows (h : SameMedia m m') : knows m' contentId ↔ knows m contentId := by
  have hids : m'.resources.map (·.contentId) = m.resources.map (·.contentId) := by
    have hmap := congrArg (List.map (·.contentId)) h.resources
    rw [map_map, map_map] at hmap
    exact hmap
  rw [Client.knows, hids, Client.knows]

theorem sameMedia_applyResource (h : applyResource g p m contentId atUnixMs source = .ok m') :
    SameMedia m m' := by
  cases source with
  | ofRemote =>
    cases h
    exact .refl _
  | ofLocal =>
    cases h
    refine ⟨rfl, ?_⟩
    simp only [queueResourceUploads, map_map]
    refine map_congr_left fun row _ => ?_
    by_cases hid : row.contentId = contentId <;> simp [hid, ResourceRow.unexpected]
  | ofPeer peerId =>
    simp only [applyResource, bind_eq_ok, Except.ok.injEq] at h
    obtain ⟨resource, -, peer, -, rfl⟩ := h
    split <;> exact ⟨rfl, rfl⟩

-- The source of an operation is recorded if it and the resources are known.
theorem applyResource_isOk (hsource : source.Known p) (hknown : knows m contentId) :
    ∃ m', applyResource g p m contentId atUnixMs source = .ok m' := by
  cases source with
  | ofRemote => exact ⟨_, rfl⟩
  | ofLocal => exact ⟨_, rfl⟩
  | ofPeer peerId =>
    obtain ⟨peer, hpeer⟩ := Option.isSome_iff_exists.mp hsource
    obtain ⟨row, hrow, hid⟩ := mem_map.mp hknown
    have hsome : (resourceRow? m contentId).isSome = true := by
      rw [resourceRow?, find?_isSome]
      exact ⟨row, hrow, decide_eq_true hid⟩
    obtain ⟨resource, hresource⟩ := Option.isSome_iff_exists.mp hsome
    simp only [applyResource, bind_eq_ok, okOr_eq_ok, Except.ok.injEq]
    exact ⟨_, resource, hresource, peer, hpeer, rfl⟩

theorem sameMedia_applyResources (h : references.foldlM (fun m resource =>
      applyResource g p m resource.contentId atUnixMs source) m = .ok m') : SameMedia m m' := by
  induction references generalizing m with
  | nil =>
    cases h
    exact .refl _
  | cons resource rest ih =>
    rw [foldlM_cons, bind_eq_ok] at h
    obtain ⟨next, hnext, h⟩ := h
    exact (sameMedia_applyResource hnext).trans (ih h)

theorem applyResources_isOk (hsource : source.Known p)
    (hknown : ∀ resource ∈ references, knows m resource.contentId) :
    ∃ m', references.foldlM (fun m resource =>
      applyResource g p m resource.contentId atUnixMs source) m = .ok m' := by
  induction references generalizing m with
  | nil => exact ⟨m, rfl⟩
  | cons resource rest ih =>
    rw [forall_mem_cons] at hknown
    obtain ⟨next, hnext⟩ := applyResource_isOk (g := g) hsource hknown.1
    have hrest := fun other hother =>
      (sameMedia_applyResource hnext).knows.mpr (hknown.2 other hother)
    obtain ⟨m', hm'⟩ := ih hrest
    refine ⟨m', ?_⟩
    rw [foldlM_cons, hnext]
    exact hm'

theorem insertResources_knows {operation : OperationEnvelope} {position : Nat}
    (h : insertResources g operation atUnixMs position references m = .ok m') :
    (∀ id, knows m id → knows m' id) ∧ ∀ resource ∈ references, knows m' resource.contentId := by
  induction references generalizing position m with
  | nil =>
    cases h
    exact ⟨fun _ => id, forall_mem_nil _⟩
  | cons resource rest ih =>
    simp only [insertResources, bind_eq_ok, okOr_eq_ok] at h
    obtain ⟨byteLength, -, existing, hexisting, -, -, rows, -, h⟩ := h
    obtain ⟨hkept, hrest⟩ := ih h
    have hgrows : ∀ id, knows m id → knows { m with
        resources := Table.insertOrIgnore (fun row other => row.contentId = other.contentId)
          m.resources (resourceRow resource byteLength atUnixMs) } id := by
      intro id hid
      simp only [Client.knows, Table.insertOrIgnore]
      split
      · exact hid
      · rw [map_append]
        exact mem_append_left _ hid
    refine ⟨fun id hid => hkept id (hgrows id hid), ?_⟩
    rw [forall_mem_cons]
    refine ⟨hkept _ ?_, hrest⟩
    obtain ⟨hmem, hid⟩ := resourceRow?_eq_some hexisting
    exact mem_map.mpr ⟨existing, hmem, hid⟩

end Media

section Commits

variable {P : Platform} {t : Tables} {log : Log} {operation : OperationEnvelope}
  {storedAtUnixMs : Int64} {source : CommitSource} {a : StoredOperation}

-- Two verified envelopes are compared by their signed bytes.
theorem beq_iff_cose {left right : OperationEnvelope} (hleft : left.verify P.toPrimitives = .ok ())
    (hright : right.verify P.toPrimitives = .ok ()) :
    (left == right) = true ↔ left.coseSign1 = right.coseSign1 := by
  constructor
  · intro hbeq
    simp only [BEq.beq, instBEqOperationEnvelope.beq, Bool.and_eq_true] at hbeq
    obtain ⟨-, -, -, -, -, -, -, -, -, -, -, hcose⟩ := hbeq
    exact eq_of_beq (a := left.coseSign1) hcose
  · intro hcose
    obtain rfl := OperationEnvelope.eq_of_verify hleft hright hcose
    simp only [BEq.beq, instBEqOperationEnvelope.beq, Bool.and_eq_true, decide_true, true_and]
    exact ⟨beq_self_eq_true left.causalParents, beq_self_eq_true left.authorization,
      OperationEnvelope.body_reflexive hleft, beq_self_eq_true left.coseSign1⟩

theorem Resourced.commit (h : Resourced P t log)
    (hcommit : Committed P t operation storedAtUnixMs source t' result) :
    ∃ log', Resourced P t' log' := by
  obtain ⟨media, hmedia, hsource⟩ := hcommit.sources
  simp only [applySource, bind_eq_ok, Except.ok.injEq, Prod.mk.injEq] at hsource
  obtain ⟨_, -, _, hresources, -, rfl⟩ := hsource
  have hsame : SameMedia media t'.media := sameMedia_applyResources hresources
  have hgrows : ∀ id, knows t.media id → knows t'.media id := by
    intro id hid
    rw [hsame.knows]
    rcases hmedia with ⟨-, rfl⟩ | ⟨-, hinsert⟩
    · exact hid
    · exact (insertResources_knows hinsert).1 id hid
  have hkept : ∀ a ∈ log, ∀ resource ∈ a.operation.body.resources,
      knows t'.media resource.contentId := fun a ha resource hresource =>
    hgrows _ (h.known a ha resource hresource)
  cases hcommit.outcome with
  | replayed hgraph hstored hflag =>
    refine ⟨log, ?_, hkept⟩
    rw [hgraph]
    exact h.stored
  | inserted hins hflag =>
    refine ⟨_, h.stored.insert hins hcommit.verified hcommit.time, ?_⟩
    refine forall_mem_append.mpr ⟨hkept, forall_mem_singleton.mpr ?_⟩
    intro resource hresource
    rw [hflag] at hmedia
    obtain ⟨hreplayed, -⟩ | ⟨-, hinsert⟩ := hmedia
    · cases hreplayed
    · exact hsame.knows.mpr ((insertResources_knows hinsert).2 resource hresource)

theorem Reachable.resourced (h : Reachable P t) : ∃ log, Resourced P t log := by
  refine Reachable.induction (fun t => ∃ log, Resourced P t log) ?_ ?_ ?_ ?_ ?_ h
  · exact ⟨[], Stored.empty, forall_mem_nil _⟩
  · intro t t' operation storedAtUnixMs source result _ ⟨log, hlog⟩ hcommit
    exact hlog.commit (committed_of_ok hcommit)
  · intro t workspaces ⟨log, hlog⟩
    exact ⟨log, hlog.stored, hlog.known⟩
  · intro t spaceId ⟨log, hlog⟩ hfree
    exact ⟨_, hlog.stored.delete hfree, fun a ha => hlog.known a (mem_of_mem_filter ha)⟩
  · intro t t' call _ ⟨log, hlog⟩ hstores hrun
    refine ⟨log, ?_, ?_⟩
    · rw [call.graph_eq hstores hrun]
      exact hlog.stored
    · intro a ha resource hresource
      rw [knows, call.resources_eq hstores hrun]
      exact hlog.known a ha resource hresource

-- A copy of a stored operation is looked at through the stored one.
theorem Stored.commit_stored (h : Stored P t.graph log) (hreads : ReadsBack P) (ha : a ∈ log)
    (hverified : operation.verify P.toPrimitives = .ok ()) (hid : operation.operationId = a.key)
    (htime : 0 ≤ storedAtUnixMs.toInt) :
    commitTransaction P t operation storedAtUnixMs source = (do
      require (a.operation == operation) (.operationConflict operation.operationId)
      let (peering, media) ← applySource t.graph t.peering t.media operation storedAtUnixMs source
      .ok ({ t with peering, media },
        { localSequence := a.localSequence, operationId := operation.operationId,
          replayed := true, queuedPeers := deliveryCount peering operation.operationId })) := by
  have hload := h.load hreads ha
  rw [← hid] at hload
  rw [commitTransaction, hverified, hload]
  simp [Except.mapError, require, htime]

theorem bookkeeping_applySource
    (h : applySource t.graph t.peering t.media operation storedAtUnixMs source = .ok (p, m)) :
    Bookkeeping t { t with peering := p, media := m } := by
  simp only [applySource, bind_eq_ok, Except.ok.injEq, Prod.mk.injEq] at h
  obtain ⟨peering, hdeliveries, media, hresources, rfl, rfl⟩ := h
  have hframe : peering.peers = t.peering.peers ∧ peering.spaces = t.peering.spaces := by
    cases source with
    | ofRemote =>
      cases hdeliveries
      exact ⟨rfl, rfl⟩
    | ofLocal =>
      cases hdeliveries
      exact ⟨rfl, rfl⟩
    | ofPeer peerId =>
      simp only [applyDeliverySource, bind_eq_ok, Except.ok.injEq] at hdeliveries
      obtain ⟨-, -, rfl⟩ := hdeliveries
      exact ⟨rfl, rfl⟩
  exact ⟨rfl, hframe.1, hframe.2, sameMedia_applyResources hresources, rfl, rfl⟩

theorem Resourced.applySource_isOk (h : Resourced P t log) (ha : a ∈ log)
    (hsource : source.Known t.peering) :
    ∃ p m, applySource t.graph t.peering t.media a.operation storedAtUnixMs source =
      .ok (p, m) := by
  have hdeliveries : ∃ p, applyDeliverySource t.graph t.peering a.key storedAtUnixMs source =
      .ok p ∧ p.peers = t.peering.peers := by
    cases source with
    | ofRemote => exact ⟨_, rfl, rfl⟩
    | ofLocal => exact ⟨_, rfl, rfl⟩
    | ofPeer peerId =>
      simp only [applyDeliverySource, bind_eq_ok, require_eq_ok, Except.ok.injEq]
      exact ⟨_, ⟨(), hsource, rfl⟩, rfl⟩
  obtain ⟨p, hp, hpeers⟩ := hdeliveries
  have hknown : source.Known p := by
    cases source with
    | ofRemote => trivial
    | ofLocal => trivial
    | ofPeer peerId =>
      rw [CommitSource.Known, peer?, hpeers]
      exact hsource
  obtain ⟨m, hm⟩ := applyResources_isOk (g := t.graph) (m := t.media) hknown (h.known a ha)
  refine ⟨p, m, ?_⟩
  simp only [applySource, bind_eq_ok, Except.ok.injEq]
  exact ⟨p, hp, m, hm, rfl⟩

-- A copy is a replay exactly if it carries the stored signature.
theorem Resourced.replay_iff (h : Resourced P t log) (hreads : ReadsBack P) (ha : a ∈ log)
    (hverified : operation.verify P.toPrimitives = .ok ()) (hid : operation.operationId = a.key)
    (htime : 0 ≤ storedAtUnixMs.toInt) (hsource : source.Known t.peering) :
    (operation.coseSign1 = a.operation.coseSign1 →
      ∃ t' result, commitTransaction P t operation storedAtUnixMs source = .ok (t', result) ∧
        result.replayed = true ∧ Bookkeeping t t') ∧
      (operation.coseSign1 ≠ a.operation.coseSign1 →
        commitTransaction P t operation storedAtUnixMs source =
          .error (.operationConflict operation.operationId)) := by
  have hstored := h.stored.verified a ha
  rw [h.stored.commit_stored hreads ha hverified hid htime]
  refine ⟨?_, ?_⟩
  · intro hcose
    obtain rfl := OperationEnvelope.eq_of_verify hverified hstored hcose
    obtain ⟨p, m, happly⟩ : ∃ p m, applySource t.graph t.peering t.media a.operation
      storedAtUnixMs source = .ok (p, m) := h.applySource_isOk ha hsource
    have hequal := (beq_iff_cose hstored hstored).mpr rfl
    rw [happly]
    simp only [require, hequal, if_true, ok_bind]
    exact ⟨_, _, rfl, rfl, bookkeeping_applySource happly⟩
  · intro hcose
    have hdiffers : (a.operation == operation) = false := by
      rw [← Bool.not_eq_true, beq_iff_cose hstored hverified]
      exact fun heq => hcose heq.symm
    simp only [require, hdiffers, Bool.false_eq_true, if_false]
    rfl

end Commits

section PulledPages

variable {P : Platform} {t : Tables} {target : SyncTarget} {nextAfter : Nat}
  {pullTime nextPull : Int64} {operation : OperationEnvelope}

-- The operation is stored with this signature.
def IsCopy (P : Platform) (t : Tables) (operation : OperationEnvelope) : Prop :=
  ∃ localSequence stored, loadOperationRow P t.graph operation.operationId =
    .ok (some (localSequence, stored)) ∧ operation.coseSign1 = stored.coseSign1

-- A target as the store has it, with a cursor and times that can be stored.
structure Pullable (t : Tables) (target : SyncTarget) (nextAfter : Nat)
    (pullTime nextPull : Int64) : Prop where
  peer : (peer? t.peering target.peerId).isSome = true
  cursor : ∃ row ∈ t.peering.spaces, row.peerId = target.peerId ∧
    row.spaceId = target.spaceId ∧ row.pullAfter = target.after
  pulled : 0 ≤ pullTime.toInt
  next : 0 ≤ nextPull.toInt
  advances : target.after ≤ nextAfter
  room : nextAfter < 2 ^ 63

theorem Bookkeeping.refl (t : Tables) : Bookkeeping t t :=
  ⟨rfl, rfl, rfl, .refl _, rfl, rfl⟩

theorem Bookkeeping.trans (h : Bookkeeping t t') (h' : Bookkeeping t' t'') : Bookkeeping t t'' :=
  ⟨h'.graph.trans h.graph, h'.peers.trans h.peers, h'.spaces.trans h.spaces,
    h.media.trans h'.media, h'.workspaces.trans h.workspaces,
    h'.activeWorkspace.trans h.activeWorkspace⟩

theorem Resourced.bookkeeping (h : Resourced P t log) (hkeeps : Bookkeeping t t') :
    Resourced P t' log := by
  refine ⟨?_, fun a ha resource hresource => ?_⟩
  · rw [hkeeps.graph]
    exact h.stored
  · exact hkeeps.media.knows.mpr (h.known a ha resource hresource)

theorem Bookkeeping.isCopy (h : Bookkeeping t t') :
    IsCopy P t' operation ↔ IsCopy P t operation := by
  rw [IsCopy, IsCopy, h.graph]

theorem Stored.isCopy_iff (h : Stored P t.graph log) (hreads : ReadsBack P) (ha : a ∈ log)
    (hid : operation.operationId = a.key) :
    IsCopy P t operation ↔ operation.coseSign1 = a.operation.coseSign1 := by
  have hload := h.load hreads ha
  rw [← hid] at hload
  constructor
  · rintro ⟨localSequence, stored, hfound, hcose⟩
    rw [hload] at hfound
    cases hfound
    exact hcose
  · exact fun hcose => ⟨_, _, hload, hcose⟩

theorem Stored.of_hasOperation (h : Stored P t.graph log) {id : OperationId}
    (hid : hasOperation t.graph.operations id = true) : ∃ a ∈ log, id = a.key := by
  obtain ⟨row, hrow, hname⟩ := any_eq_true.mp hid
  obtain ⟨a, ha, rfl⟩ := h.coherent.represents.mem_operations.mp hrow
  exact ⟨a, ha, (of_decide_eq_true hname).symm⟩

-- A page of known operations is committed up to the first that is no copy.
theorem Resourced.commitPage_known (h : Resourced P t log) (hreads : ReadsBack P)
    (hpeer : (peer? t.peering peerId).isSome = true) (htime : 0 ≤ pullTime.toInt)
    {operations : List OperationEnvelope}
    (hknown : ∀ operation ∈ operations, operation.verify P.toPrimitives = .ok () ∧
      hasOperation t.graph.operations operation.operationId = true) :
    ∃ t', Bookkeeping t t' ∧
      ((∀ operation ∈ operations, IsCopy P t operation) ∧
          commitPage P peerId pullTime t operations = (t', .ok ()) ∨
        ∃ operation ∈ operations, ¬ IsCopy P t operation ∧
          commitPage P peerId pullTime t operations =
            (t', .error (.operationConflict operation.operationId))) := by
  induction operations generalizing t with
  | nil => exact ⟨t, .refl t, .inl ⟨forall_mem_nil _, rfl⟩⟩
  | cons operation rest ih =>
    rw [forall_mem_cons] at hknown
    obtain ⟨⟨hverified, hstored⟩, hrest⟩ := hknown
    obtain ⟨a, ha, hid⟩ := h.stored.of_hasOperation hstored
    have hsource : (CommitSource.ofPeer peerId).Known t.peering := hpeer
    obtain ⟨hsame, hother⟩ := h.replay_iff hreads ha hverified hid htime hsource
    have hiff := h.stored.isCopy_iff hreads ha hid
    by_cases hcose : operation.coseSign1 = a.operation.coseSign1
    · obtain ⟨next, result, hcommit, -, hkeeps⟩ := hsame hcose
      have hpeer' : (peer? next.peering peerId).isSome = true := by
        rw [peer?, hkeeps.peers]
        exact hpeer
      have hrest' : ∀ operation ∈ rest, operation.verify P.toPrimitives = .ok () ∧
          hasOperation next.graph.operations operation.operationId = true := by
        rw [hkeeps.graph]
        exact hrest
      obtain ⟨last, hlast, hcases⟩ := ih (h.bookkeeping hkeeps) hpeer' hrest'
      have hpage : commitPage P peerId pullTime t (operation :: rest) =
          commitPage P peerId pullTime next rest := by
        rw [commitPage, hcommit]
      refine ⟨last, hkeeps.trans hlast, ?_⟩
      rw [hpage]
      rcases hcases with ⟨hcopies, hok⟩ | ⟨blocked, hblocked, hno, herror⟩
      · refine .inl ⟨forall_mem_cons.mpr ⟨hiff.mpr hcose, ?_⟩, hok⟩
        exact fun other hmem => hkeeps.isCopy.mp (hcopies other hmem)
      · refine .inr ⟨blocked, mem_cons_of_mem _ hblocked, ?_, herror⟩
        exact fun hcopy => hno (hkeeps.isCopy.mpr hcopy)
    · refine ⟨t, .refl t, .inr ⟨operation, mem_cons_self, ?_, ?_⟩⟩
      · exact fun hcopy => hcose (hiff.mp hcopy)
      · rw [commitPage, hother hcose]

theorem advancePullCursor_isOk (h : Pullable t target nextAfter pullTime nextPull) :
    ∃ t', advancePullCursor t target.peerId target.spaceId target.after nextAfter pullTime
        nextPull = .ok t' ∧
      ∃ row ∈ t'.peering.spaces, row.peerId = target.peerId ∧ row.spaceId = target.spaceId ∧
        row.pullAfter = nextAfter := by
  obtain ⟨row, hrow, hpeer, hspace, hafter⟩ := h.cursor
  have harguments : (0 ≤ pullTime.toInt && 0 ≤ nextPull.toInt && target.after < 2 ^ 63 &&
      nextAfter < 2 ^ 63 && target.after ≤ nextAfter : Bool) = true := by
    simp only [Bool.and_eq_true, decide_eq_true_eq]
    exact ⟨⟨⟨⟨h.pulled, h.next⟩, lt_of_le_of_lt h.advances h.room⟩, h.room⟩, h.advances⟩
  have htarget : (row.peerId = target.peerId && row.spaceId = target.spaceId &&
      row.pullAfter = target.after : Bool) = true := by
    simp only [Bool.and_eq_true, decide_eq_true_eq]
    exact ⟨⟨hpeer, hspace⟩, hafter⟩
  simp only [advancePullCursor, updateCursor, bind_eq_ok, require_eq_ok, Except.ok.injEq]
  refine ⟨_, ⟨(), harguments, (), any_eq_true.mpr ⟨row, hrow, htarget⟩, rfl⟩, ?_⟩
  refine ⟨_, mem_map_of_mem hrow, ?_⟩
  rw [if_pos htarget]
  exact ⟨hpeer, hspace, rfl⟩

theorem Bookkeeping.pullable (h : Bookkeeping t t')
    (hpull : Pullable t target nextAfter pullTime nextPull) :
    Pullable t' target nextAfter pullTime nextPull := by
  refine ⟨?_, ?_, hpull.pulled, hpull.next, hpull.advances, hpull.room⟩
  · rw [peer?, h.peers]
    exact hpull.peer
  · rw [h.spaces]
    exact hpull.cursor

end PulledPages

namespace Sample

open DataModel.Sample (envelope spaceId)

-- The genesis with another signature of its controller.
def resigned : DataModel.Sample :=
  { DataModel.Sample.genesis with
    signature :=
      ⟨toBE 32 0x156066fae0212dbd64f85f330238e93fc600324b4b2f16a8a21ca59aeede783c ++
        toBE 32 0xc5769d7a201848b8e589afc7ae484ab6154b33034d4240ae1d2cb94591e80607, by decide⟩ }

-- Libraries that accept both signatures, as a verification of signatures does.
def lenient : Primitives :=
  { (DataModel.Sample.recording [DataModel.Sample.genesis]).primitives with
    verifyStrict := fun key message signature =>
      (DataModel.Sample.recording [DataModel.Sample.genesis, resigned]).signatures.contains
        ((key, message), signature) }

def resigning : Platform :=
  Store.Sample.reading lenient
    ([DataModel.Sample.genesis, resigned].map envelope)

theorem resigning_verified :
    ∀ e ∈ [DataModel.Sample.genesis, resigned].map envelope,
      e.verify resigning.toPrimitives = .ok () := by
  decide +kernel

def target : SyncTarget where
  peerId := peer.peerId
  endpoint := peer.endpoint
  spaceId := spaceId
  readMode := .supervisorBearer
  after := 0
  pullFailureCount := 0

def cursor : PeerSpaceRow where
  peerId := peer.peerId
  spaceId := spaceId
  readMode := .supervisorBearer
  pullAfter := 0
  nextPullAtUnixMs := 0
  pullFailureCount := 0
  lastPullError := none
  lastPullAtUnixMs := none

def pulling : Tables :=
  { connected resigning with peering := { (connected resigning).peering with spaces := [cursor] } }

theorem reachable_pulling : Reachable resigning pulling := by
  have hconnected : Reachable resigning (connected resigning) :=
    reachable_connected (resigning_verified _ mem_cons_self) rfl
  exact hconnected.call (.configurePeerSpace
    { peerId := peer.peerId, spaceId := spaceId, readMode := .supervisorBearer,
      startAfter := 0, nextPullAtUnixMs := 0 })

theorem load_pulling : loadOperationRow resigning pulling.graph genesis.key =
    .ok (some (1, genesis.operation)) :=
  loadOperationRow_stored (a := genesis) (resigning_verified _ mem_cons_self)
    (Store.Sample.readEnvelope_text resigning_verified mem_cons_self) Nat.one_pos rfl

theorem commit_resigned {storedAtUnixMs : Int64} (htime : 0 ≤ storedAtUnixMs.toInt)
    (source : CommitSource) :
    commitTransaction resigning pulling resigned.envelope storedAtUnixMs source =
      .error (.operationConflict genesis.key) := by
  have hdiffers : (genesis.operation == resigned.envelope) = false := by decide +kernel
  rw [commitTransaction, resigning_verified resigned.envelope (by simp)]
  have hload : loadOperationRow resigning pulling.graph resigned.envelope.operationId =
      .ok (some (1, genesis.operation)) := load_pulling
  rw [hload]
  simp only [Except.mapError, ok_bind, require, htime, decide_true, if_true, hdiffers,
    Bool.false_eq_true, if_false]
  rfl

end Sample

open Sample (connected outbox pulling resigned resigning)

end Fractonica.Client
