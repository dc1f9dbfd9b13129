import LumioVoxel.MutationPrepare

/-!
# Committing a mutation

Commit looks its transaction up, captures the published view, rechecks the token
against it, overlays the replacement on the captured root and publishes the
result.  The steps are separate functions because other publishers may act
between them; `commit` runs them back to back.
-/

namespace LumioVoxel

open DebugText Fallible

structure CommitEvidence where
  oldRoot : Digest
  newRoot : Digest
  txnId : String
  receiptHash : Digest
  deriving DecidableEq

structure MutationReceipt where
  txnId : String
  receipt : Bytes
  evidence : CommitEvidence
  deriving DecidableEq

/-! ## 1. Receipts -/

def receiptMembers (txnId : String) (oldRoot newRoot fingerprint : Digest) :
    List (String × CanonicalValue) :=
  [("txn_id", .text txnId), ("old_root", .text (hex32 oldRoot)),
   ("new_root", .text (hex32 newRoot)), ("fingerprint", .text (hex32 fingerprint))]

def receiptBytes (txnId : String) (oldRoot newRoot fingerprint : Digest) :
    Except MutationError Bytes := do
  let object ← (CanonicalObject.new.insertAll
    (receiptMembers txnId oldRoot newRoot fingerprint)).mapError fun _ =>
      MutationError.invalidHandle
  return object.encodeBytes

theorem pairwise_receiptMembers (txnId : String) (oldRoot newRoot fingerprint : Digest) :
    (receiptMembers txnId oldRoot newRoot fingerprint).Pairwise fun a b => a.1 ≠ b.1 := by
  rw [← List.pairwise_map (f := Prod.fst) (R := (· ≠ ·))]
  show ["txn_id", "old_root", "new_root", "fingerprint"].Pairwise (· ≠ ·)
  decide

theorem exists_receiptBytes (txnId : String) (oldRoot newRoot fingerprint : Digest) :
    ∃ bytes, receiptBytes txnId oldRoot newRoot fingerprint = .ok bytes := by
  have hall := insertAll_of_fresh (pairwise_receiptMembers txnId oldRoot newRoot fingerprint)
    (o := CanonicalObject.new) fun m _ => BTreeMap.getElem?_empty m.1
  rw [receiptBytes, hall]
  exact ⟨_, rfl⟩

/-- A replayed receipt, with the evidence the token carries or else its own base. -/
def duplicateReceipt (prepared : PreparedMutation) (receipt : Bytes) : MutationReceipt :=
  let roots := prepared.replayEvidence.getD ⟨prepared.baseIdentity, prepared.baseIdentity⟩
  ⟨prepared.txnId, receipt, ⟨roots.oldRoot, roots.newRoot, prepared.txnId, sha256 receipt⟩⟩

/-! ## 2. Rechecks -/

def recheckPrepared [UnicodeTables] (prepared : PreparedMutation) (view : PublishedReadView)
    (ledger : ReceiptLedger) : Except MutationError Unit := do
  let stamp := view.root.stamp
  require (prepared.generation = stamp.generation ∧
    prepared.request.generation = stamp.generation ∧
    prepared.reservation.generation = stamp.generation) .staleEpoch
  require (prepared.request.worldId = stamp.worldId ∧
    prepared.reservation.worldId = stamp.worldId) .sessionMismatch
  require (prepared.configHash = ledger.configHash) .sessionMismatch
  require (prepared.baseIdentity = view.root.identity) .snapshotBaseMismatch

def recheckRevisions (stamp : RevisionStamp) (item : String × List MutationEntry) :
    Except MutationError Unit :=
  require (∀ entry ∈ item.2, entry.expectedSectionRevision = stamp.effectiveRevision item.1)
    .staleSectionRevision

def recheckPresence (request : MutationRequest) (view : PublishedReadView) :
    Except MutationError Unit := do
  let stamp := view.root.stamp
  require (request.worldId = stamp.worldId) .sessionMismatch
  require (request.generation = stamp.generation) .staleEpoch
  let plan ← MutationPlanner.build request
  foldSteps (fun _ item => recheckRevisions stamp item) () plan.sectionEdits.toList
  foldSteps (fun _ sectionId =>
    MutationPreconditions.checkReady view.root.directory sectionId) () plan.sectionIds

/-! ## 3. The new root -/

/-- The sections with a revision and the sections the request names, in key order. -/
def overlayIds (stampIds requestIds : List String) : List String :=
  ((stampIds ++ requestIds).foldl (fun (m : BTreeMap String Unit) id => m.insert id ()) ∅).toList.map
    (·.1)

def overlaySlot (replacement : SectionReplacement) (builder : SectionDirectoryBuilder)
    (id : String) : Except MutationError SectionDirectoryBuilder := do
  let slot ← (replacement.get id).mapError MutationError.fromSection
  let slot ← someOr slot .invalidHandle
  (builder.insert id slot).mapError MutationError.fromSection

/-- The captured directory with the changed slots; every other slot is kept. -/
def overlayDirectory (view : PublishedReadView) (replacement : SectionReplacement)
    (changedIds : List String) : Except MutationError SectionDirectoryRoot := do
  let builder ← foldSteps (overlaySlot replacement) (.fromRoot view.root.directory) changedIds
  return builder.freeze

def overlayRevision (stamp : RevisionStamp) (replacement : SectionReplacement) (id : String) :
    Except MutationError (String × UInt64) := do
  let slot ← (replacement.get id).mapError MutationError.fromSection
  match slot with
  | some _ =>
    let revision ← someOr (checkedSucc (stamp.effectiveRevision id)) .invalidHandle
    return (id, revision)
  | none => return (id, stamp.effectiveRevision id)

def buildStamp (prepared : PreparedMutation) (view : PublishedReadView)
    (replacement : SectionReplacement) (ids : List String) : Except MutationError RevisionStamp := do
  let stamp := view.root.stamp
  let pairs ← ids.mapM (overlayRevision stamp replacement)
  return toRevisionStamp stamp.worldId stamp.contextId stamp.generation
    prepared.targetWorldRevision pairs

/-- What a commit asks the authority to prepare. -/
structure CommitDraft where
  world : UInt64
  newRoot : PublishedStateRoot
  replacement : SectionReplacement

/-- Everything between capturing the view and asking the authority. -/
def draft [UnicodeTables] (prepared : PreparedMutation) (view : PublishedReadView)
    (ledger : ReceiptLedger) : Except MutationError CommitDraft := do
  recheckPrepared prepared view ledger
  recheckPresence prepared.request view
  let plan ← MutationPlanner.build prepared.request
  let ids := overlayIds (view.root.stamp.sectionRevisionSet.toList.map (·.1)) plan.sectionIds
  let directory ← overlayDirectory view prepared.replacement plan.sectionIds
  let stamp ← buildStamp prepared view prepared.replacement ids
  return ⟨prepared.targetWorldRevision, .new stamp directory prepared.dirty, prepared.replacement⟩

/-! ## 4. Commit -/

section Commit

variable [UnicodeTables]

/-- Publishes the sealed token and completes the transaction's entry. -/
def publishAndFinalize (prepared : PreparedMutation) (authority : PublicationAuthority)
    (ledger : ReceiptLedger) (token : PublicationToken) (receipt : Bytes)
    (h : ledger.entries[prepared.request.txnId]?.isSome) :
    Except MutationError MutationReceipt × PublicationAuthority × ReceiptLedger :=
  match authority.publishOnce token with
  | (.error err, authority) => (.error (.fromPublish err), authority, ledger)
  | (.ok published, authority) =>
    let newRoot := token.newRoot.identity
    let finalized := ledger.finalizeAfterPublish prepared.request receipt h
    (.ok ⟨prepared.txnId, finalized.1,
        ⟨prepared.baseIdentity, newRoot, prepared.txnId, sha256 receipt⟩⟩,
      authority.dropPin published.lease,
      finalized.2.recordEvidenceAfterPublish prepared.request ⟨prepared.baseIdentity, newRoot⟩
        (ReceiptLedger.isSome_finalizeAfterPublish ledger prepared.request receipt h))

/-- From the captured view on. -/
def commitView (prepared : PreparedMutation) (view : PublishedReadView)
    (authority : PublicationAuthority) (ledger : ReceiptLedger)
    (h : ledger.entries[prepared.request.txnId]?.isSome) :
    Except MutationError MutationReceipt × PublicationAuthority × ReceiptLedger :=
  match draft prepared view ledger with
  | .error err => (.error err, authority, ledger)
  | .ok d =>
    match authority.prepare d.world d.newRoot d.replacement with
    | .error err => (.error (.fromPublish err), authority, ledger)
    | .ok (publication, authority) =>
      match receiptBytes prepared.txnId prepared.baseIdentity publication.newRoot.identity
          prepared.fingerprint.hash with
      | .error err => (.error err, authority, ledger)
      | .ok receipt =>
        match authority.sealPublication publication with
        | .error err => (.error (.fromPublish err), authority, ledger)
        | .ok (token, _, authority) => publishAndFinalize prepared authority ledger token receipt h

/-- A completed transaction is answered from its receipt; an in-flight one is
rechecked, overlaid and published. -/
def commit (prepared : PreparedMutation) (authority : PublicationAuthority)
    (ledger : ReceiptLedger) :
    Except MutationError MutationReceipt × PublicationAuthority × ReceiptLedger :=
  match h : ledger.lookup prepared.request with
  | .error err => (.error (.fromLedger err), authority, ledger)
  | .ok (.duplicate receipt) =>
    (.ok (duplicateReceipt prepared (prepared.replayReceipt.getD receipt)), authority, ledger)
  | .ok .vacant => (.error .invalidHandle, authority, ledger)
  | .ok .inFlight =>
    let captured := authority.capture
    let result := commitView prepared captured.1 captured.2 ledger
      (ReceiptLedger.isSome_of_inFlight h)
    (result.1, result.2.1.dropPin captured.1.lease, result.2.2)

end Commit

/-! ## 5. What a draft is -/

section Drafts

variable {replacement : SectionReplacement} {stamp : RevisionStamp}

private theorem mem_overlayIds {stampIds requestIds : List String} {key : String} :
    key ∈ overlayIds stampIds requestIds ↔ key ∈ stampIds ∨ key ∈ requestIds := by
  have hfold : ∀ (ids : List String) (m : BTreeMap String Unit),
      (ids.foldl (fun (m : BTreeMap String Unit) id => m.insert id ()) m)[key]? = some () ↔
        m[key]? = some () ∨ key ∈ ids := by
    intro ids
    induction ids with
    | nil => simp
    | cons id rest ih =>
      intro m
      rw [List.foldl_cons, ih, BTreeMap.getElem?_insert, List.mem_cons]
      by_cases hid : id = key
      · simp [hid]
      · simp [hid, Ne.symm hid]
  rw [overlayIds, List.mem_map]
  constructor
  · rintro ⟨item, hitem, rfl⟩
    have hin := (hfold (stampIds ++ requestIds) ∅).mp (BTreeMap.mem_toList.mp hitem)
    rw [BTreeMap.getElem?_empty] at hin
    simpa using hin
  · intro hkey
    have hin := (hfold (stampIds ++ requestIds) ∅).mpr (.inr (List.mem_append.mpr hkey))
    exact ⟨(key, ()), BTreeMap.mem_toList.mpr hin, rfl⟩

private theorem pairwise_overlayIds (stampIds requestIds : List String) :
    (overlayIds stampIds requestIds).Pairwise (· ≠ ·) :=
  List.pairwise_map.mpr (BTreeMap.pairwise_toList _)

private theorem overlaySlot_eq_ok {builder next : SectionDirectoryBuilder} {key : String}
    (h : overlaySlot replacement builder key = .ok next) :
    ∃ (id : SectionId) (slot : SectionSlot), key = id.key ∧ replacement.entries[id]? = some slot ∧
      next = ⟨builder.entries.insert id slot⟩ := by
  simp only [overlaySlot, bind_eq_ok, mapError_eq_ok, someOr_eq_ok] at h
  obtain ⟨found, hget, slot, rfl, hinsert⟩ := h
  obtain ⟨id, rfl, hslot⟩ := SectionReplacement.get_eq_ok hget
  obtain ⟨id', hid', rfl⟩ := SectionDirectoryBuilder.insert_eq_ok hinsert
  obtain rfl := SectionId.key_injective hid'
  exact ⟨id, slot, rfl, hslot.symm, rfl⟩

/-- Changed sections get their replacement slot; all others keep theirs. -/
theorem overlayDirectory_eq_ok {view : PublishedReadView} {plan : MutationPlan}
    {directory : SectionDirectoryRoot}
    (h : overlayDirectory view replacement plan.sectionIds = .ok directory) (id : SectionId) :
    (id.key ∈ plan.sectionIds → (∃ slot, replacement.entries[id]? = some slot) ∧
      directory.entries[id]? = replacement.entries[id]?) ∧
    (id.key ∉ plan.sectionIds → directory.entries[id]? = view.root.directory.entries[id]?) := by
  simp only [overlayDirectory, bind_eq_ok, pure_eq_ok] at h
  obtain ⟨builder, hfold, rfl⟩ := h
  have hother : ∀ b key next, ¬ key = id.key → overlaySlot replacement b key = .ok next →
      next.entries[id]? = b.entries[id]? := by
    intro b key next hne hstep
    obtain ⟨id', slot, rfl, -, rfl⟩ := overlaySlot_eq_ok hstep
    exact BTreeMap.getElem?_insert_ne _ (fun heq => hne (congrArg SectionId.key heq)) _
  refine ⟨fun hkey => ?_, fun hkey => ?_⟩
  · obtain ⟨b₁, b₂, hstep, -, hb₂⟩ := foldSteps_named
      (fun b : SectionDirectoryBuilder => b.entries[id]?) hother
      (PlanOf.pairwise_sectionIds plan id.key) hfold hkey rfl
    obtain ⟨id', slot, hid', hslot, rfl⟩ := overlaySlot_eq_ok hstep
    obtain rfl := SectionId.key_injective hid'
    refine ⟨⟨slot, hslot⟩, ?_⟩
    rw [hslot]
    exact hb₂.trans Std.ExtTreeMap.getElem?_insert_self
  · exact foldSteps_other (fun b : SectionDirectoryBuilder => b.entries[id]?) hother hfold
      fun key hmem heq => hkey (heq ▸ hmem)

private theorem overlayRevision_eq_ok {key : String} {pair : String × UInt64}
    (h : overlayRevision stamp replacement key = .ok pair) :
    pair.1 = key ∧ ∃ id : SectionId, key = id.key ∧
      ((∃ slot, replacement.entries[id]? = some slot ∧
        checkedSucc (stamp.effectiveRevision key) = some pair.2) ∨
      replacement.entries[id]? = none ∧ pair.2 = stamp.effectiveRevision key) := by
  simp only [overlayRevision, bind_eq_ok, mapError_eq_ok] at h
  obtain ⟨found, hget, h⟩ := h
  obtain ⟨id, hid, hslot⟩ := SectionReplacement.get_eq_ok hget
  cases found with
  | none =>
    obtain rfl := pure_eq_ok.mp h
    exact ⟨rfl, id, hid, .inr ⟨hslot.symm, rfl⟩⟩
  | some slot =>
    simp only [bind_eq_ok, someOr_eq_ok, pure_eq_ok] at h
    obtain ⟨revision, hrevision, rfl⟩ := h
    exact ⟨rfl, id, hid, .inl ⟨slot, hslot.symm, hrevision⟩⟩

private theorem overlayRevisions_keys {ids : List String} {pairs : List (String × UInt64)}
    (h : List.Forall₂ (fun id pair => overlayRevision stamp replacement id = .ok pair) ids pairs) :
    pairs.map (·.1) = ids := by
  induction h with
  | nil => rfl
  | cons hstep _ ih => rw [List.map_cons, ih, (overlayRevision_eq_ok hstep).1]

private theorem exists_overlayRevision {ids : List String} {pairs : List (String × UInt64)}
    (h : List.Forall₂ (fun id pair => overlayRevision stamp replacement id = .ok pair) ids pairs)
    {key : String} (hkey : key ∈ ids) :
    ∃ pair ∈ pairs, overlayRevision stamp replacement key = .ok pair := by
  induction h with
  | nil => exact absurd hkey List.not_mem_nil
  | cons hstep _ ih =>
    rcases List.mem_cons.mp hkey with rfl | hkey
    · exact ⟨_, List.mem_cons_self, hstep⟩
    · obtain ⟨pair, hmem, hpair⟩ := ih hkey
      exact ⟨pair, List.mem_cons_of_mem _ hmem, hpair⟩

/-- The new stamp: replaced sections at their next revision, every other entry
as it was, under the token's world revision. -/
structure StampOverlay (old new : RevisionStamp) (replacement : SectionReplacement)
    (named : SectionId → Prop) (world : UInt64) : Prop where
  belongs : new.BelongsTo old.worldId old.contextId old.generation
  world : new.worldRevision = world
  replaced : ∀ (id : SectionId) (slot : SectionSlot),
    named id ∨ old.sectionRevisionSet[id.key]? ≠ none → replacement.entries[id]? = some slot →
    ∃ next, checkedSucc (old.effectiveRevision id.key) = some next ∧
      new.sectionRevisionSet[id.key]? = some next
  kept : ∀ key : String, (∀ id : SectionId, key = id.key → replacement.entries[id]? = none) →
    new.sectionRevisionSet[key]? = old.sectionRevisionSet[key]?

/-- Every key in the new stamp's way is a section key. -/
theorem buildStamp_eq_ok {prepared : PreparedMutation} {view : PublishedReadView}
    {requestIds : List String} {new : RevisionStamp}
    (hnamed : ∀ id : SectionId, id.key ∈ requestIds → ∃ slot, replacement.entries[id]? = some slot)
    (h : buildStamp prepared view replacement (overlayIds
      (view.root.stamp.sectionRevisionSet.toList.map (·.1)) requestIds) = .ok new) :
    StampOverlay view.root.stamp new replacement (fun id => id.key ∈ requestIds)
      prepared.targetWorldRevision := by
  have hstamp : ∀ key : String, key ∈ view.root.stamp.sectionRevisionSet.toList.map (·.1) ↔
      view.root.stamp.sectionRevisionSet[key]? ≠ none := by
    intro key
    rw [← Option.isSome_iff_ne_none, Option.isSome_iff_exists, List.mem_map]
    constructor
    · rintro ⟨item, hitem, rfl⟩
      exact ⟨item.2, BTreeMap.mem_toList.mp hitem⟩
    · rintro ⟨revision, hrevision⟩
      exact ⟨(key, revision), BTreeMap.mem_toList.mpr hrevision, rfl⟩
  generalize hstampIds : view.root.stamp.sectionRevisionSet.toList.map (·.1) = stampIds at h hstamp
  simp only [buildStamp, bind_eq_ok, mapM_eq_ok, pure_eq_ok] at h
  obtain ⟨pairs, hpairs, rfl⟩ := h
  have hkeys := overlayRevisions_keys hpairs
  have hdistinct : pairs.Pairwise fun a b => a.1 ≠ b.1 := by
    have hpair := pairwise_overlayIds stampIds requestIds
    rw [← hkeys] at hpair
    exact List.pairwise_map.mp hpair
  have hfind : ∀ key ∈ overlayIds stampIds requestIds, ∃ pair ∈ pairs,
      overlayRevision view.root.stamp replacement key = .ok pair :=
    fun key hkey => exists_overlayRevision hpairs hkey
  have hlook : ∀ pair ∈ pairs, (toRevisionStamp view.root.stamp.worldId view.root.stamp.contextId
      view.root.stamp.generation prepared.targetWorldRevision pairs).sectionRevisionSet[pair.1]? =
        some pair.2 := fun pair hmem => BTreeMap.getElem?_foldl_insert_of_mem hdistinct hmem
  refine ⟨⟨rfl, rfl, rfl, rfl⟩, rfl, fun id slot hover hslot => ?_, fun key hnone => ?_⟩
  · have hover := mem_overlayIds.mpr (hover.symm.imp_left (hstamp id.key).mpr)
    obtain ⟨pair, hmem, hpair⟩ := hfind id.key hover
    obtain ⟨hkey, id', hid', ⟨-, -, hnext⟩ | ⟨hno, -⟩⟩ := overlayRevision_eq_ok hpair
    · exact ⟨pair.2, hnext, hkey ▸ hlook pair hmem⟩
    · rw [← SectionId.key_injective hid', hslot] at hno
      cases hno
  · cases hold : view.root.stamp.sectionRevisionSet[key]? with
    | none =>
      refine BTreeMap.getElem?_foldl_insert_of_not_mem fun hmem => ?_
      rw [hkeys] at hmem
      rcases mem_overlayIds.mp hmem with hin | hin
      · exact (hstamp key).mp hin hold
      · obtain ⟨pair, -, hpair⟩ := hfind key hmem
        obtain ⟨-, id, rfl, -⟩ := overlayRevision_eq_ok hpair
        obtain ⟨slot, hslot⟩ := hnamed id hin
        rw [hnone id rfl] at hslot
        cases hslot
    | some revision =>
      have hin : key ∈ stampIds := (hstamp key).mpr (by rw [hold]; exact Option.some_ne_none _)
      obtain ⟨pair, hmem, hpair⟩ := hfind key (mem_overlayIds.mpr (.inl hin))
      obtain ⟨hkey, id, hid, ⟨slot, hsome, -⟩ | ⟨-, hsame⟩⟩ := overlayRevision_eq_ok hpair
      · rw [hnone id hid] at hsome
        cases hsome
      · rw [← hkey, hlook pair hmem, hsame, RevisionStamp.effectiveRevision, hold]
        rfl

/-- What a draft says about its token, the captured view and the root it built. -/
structure DraftOf [UnicodeTables] (prepared : PreparedMutation) (view : PublishedReadView)
    (ledger : ReceiptLedger) (d : CommitDraft) : Prop where
  baseIdentity : prepared.baseIdentity = view.root.identity
  worldId : prepared.request.worldId = view.root.stamp.worldId
  generation : prepared.request.generation = view.root.stamp.generation
  configHash : prepared.configHash = ledger.configHash
  expected : ∀ entry ∈ prepared.request.entries,
    entry.expectedSectionRevision = view.root.stamp.effectiveRevision entry.sectionKey
  resident : ∀ id, prepared.request.Names id →
    ∃ payload, view.root.directory.entries[id]? = some (.ready payload)
  world : d.world = prepared.targetWorldRevision
  replacement : d.replacement = prepared.replacement
  dirtyFrontier : d.newRoot.dirtyFrontier = prepared.dirty
  changed : ∀ id, prepared.request.Names id →
    (∃ slot, prepared.replacement.entries[id]? = some slot) ∧
      d.newRoot.directory.entries[id]? = prepared.replacement.entries[id]?
  unchanged : ∀ id, ¬ prepared.request.Names id →
    d.newRoot.directory.entries[id]? = view.root.directory.entries[id]?
  stamp : StampOverlay view.root.stamp d.newRoot.stamp prepared.replacement
    prepared.request.Names prepared.targetWorldRevision

private theorem key_mem_sectionIds {request : MutationRequest} {plan : MutationPlan}
    (hplan : PlanOf request plan) (id : SectionId) :
    id.key ∈ plan.sectionIds ↔ request.Names id := by
  constructor
  · intro hkey
    by_contra hno
    obtain ⟨item, hitem, hsame⟩ := List.mem_map.mp hkey
    exact hplan.not_names hno item hitem hsame
  · exact fun hname => List.mem_map.mpr ⟨_, (hplan.names_iff id).mp hname, rfl⟩

theorem draft_eq_ok [UnicodeTables] {prepared : PreparedMutation} {view : PublishedReadView}
    {ledger : ReceiptLedger} {d : CommitDraft} (h : draft prepared view ledger = .ok d) :
    DraftOf prepared view ledger d := by
  simp only [draft, recheckPrepared, recheckPresence, bind_eq_ok, require_eq_ok, pure_eq_ok,
    exists_and_left, exists_const] at h
  obtain ⟨⟨-, -, hconfig, hbase⟩, _, ⟨hworld, hgen, plan, hbuild, _, hrevisions, hready⟩,
    plan', hbuild', directory, hdirectory, new, hstamp, rfl⟩ := h
  obtain rfl := Except.ok.inj (hbuild.symm.trans hbuild')
  have hplan := build_eq_ok.mp hbuild
  have hslots := overlayDirectory_eq_ok hdirectory
  have hoverlay := buildStamp_eq_ok (fun id hkey => ((hslots id).1 hkey).1) hstamp
  simp only [key_mem_sectionIds hplan] at hslots hoverlay
  exact {
    baseIdentity := hbase
    worldId := hworld
    generation := hgen
    configHash := hconfig
    expected := by
      intro entry hentry
      obtain ⟨hmem, hedit⟩ := hplan.edits_of_entry hentry
      have hitem := require_eq_ok.mp (forall_of_foldSteps hrevisions _ hmem)
      exact hitem entry hedit
    resident := by
      intro id hname
      have hkey := (key_mem_sectionIds hplan id).mpr hname
      exact MutationPreconditions.checkReady_key.mp (forall_of_foldSteps hready _ hkey)
    world := rfl
    replacement := rfl
    dirtyFrontier := rfl
    changed := fun id => (hslots id).1
    unchanged := fun id => (hslots id).2
    stamp := hoverlay }

end Drafts

/-! ## 6. The outcomes of commit -/

section Outcomes

variable [UnicodeTables]

/-- What a commit from a captured view did to a ledger and an authority when it
published the draft `d` of that view. -/
structure Committed (prepared : PreparedMutation) (view : PublishedReadView)
    (authority : PublicationAuthority) (ledger : ReceiptLedger) (d : CommitDraft)
    (receipt : MutationReceipt) (authority' : PublicationAuthority) (ledger' : ReceiptLedger) :
    Prop where
  draft_ok : draft prepared view ledger = .ok d
  root : authority'.root = d.newRoot.incorporateReplacement d.replacement
  sameWorld : authority.SameWorld authority'
  txnId : receipt.txnId = prepared.txnId
  receipt_ok : receiptBytes prepared.txnId prepared.baseIdentity authority'.root.identity
    prepared.fingerprint.hash = .ok receipt.receipt
  evidence : receipt.evidence = ⟨prepared.baseIdentity, authority'.root.identity, prepared.txnId,
    sha256 receipt.receipt⟩
  applied : ∃ entry entry', ledger.entries[prepared.txnId]? = some entry ∧
    ledger'.entries[prepared.txnId]? = some entry' ∧ entry'.reservation = entry.reservation ∧
    entry'.receipt = some receipt.receipt ∧ (entry.evidence = none →
      entry'.evidence = some ⟨prepared.baseIdentity, authority'.root.identity⟩)
  others : ∀ txnId, txnId ≠ prepared.txnId → ledger'.entries[txnId]? = ledger.entries[txnId]?
  configHash : ledger'.configHash = ledger.configHash
  maxEntries : ledger'.maxEntries = ledger.maxEntries
  admits : ∀ request, ledger'.Admits request ↔ ledger.Admits request

theorem Committed.draftOf {prepared : PreparedMutation} {view : PublishedReadView}
    {authority authority' : PublicationAuthority} {ledger ledger' : ReceiptLedger} {d : CommitDraft}
    {receipt : MutationReceipt}
    (h : Committed prepared view authority ledger d receipt authority' ledger') :
    DraftOf prepared view ledger d := draft_eq_ok h.draft_ok

/-- A request that was in flight is a duplicate from then on. -/
theorem Committed.lookup_duplicate {prepared : PreparedMutation} {view : PublishedReadView}
    {authority authority' : PublicationAuthority} {ledger ledger' : ReceiptLedger} {d : CommitDraft}
    {receipt : MutationReceipt} {request : MutationRequest}
    (h : Committed prepared view authority ledger d receipt authority' ledger')
    (htxn : prepared.txnId = request.txnId) (hflight : ledger.lookup request = .ok .inFlight) :
    ledger'.lookup request = .ok (.duplicate receipt.receipt) := by
  obtain ⟨hadmits, entry, hentry, hmatches, -⟩ := ReceiptLedger.lookup_inFlight.mp hflight
  obtain ⟨before, after, hbefore, hafter, hreservation, hreceipt, -⟩ := h.applied
  rw [htxn] at hbefore hafter
  obtain rfl := Option.some.inj (hentry.symm.trans hbefore)
  refine ReceiptLedger.lookup_duplicate.mpr
    ⟨(h.admits request).mpr hadmits, after, hafter, ?_, hreceipt⟩
  rw [ReceiptLedger.Matches, hreservation]
  exact hmatches

/-- The last step: a refusal changes neither root nor ledger. -/
theorem publishAndFinalize_cases (prepared : PreparedMutation) (authority : PublicationAuthority)
    {ledger : ReceiptLedger} (token : PublicationToken) (bytes : Bytes) {entry : LedgerEntry}
    (hentry : ledger.entries[prepared.request.txnId]? = some entry) (hfree : entry.receipt = none)
    (h : ledger.entries[prepared.request.txnId]?.isSome) :
    (∃ err, publishAndFinalize prepared authority ledger token bytes h =
      (.error err, authority.dropPin token.pin, ledger)) ∨
    ∃ authority' ledger', publishAndFinalize prepared authority ledger token bytes h =
        (.ok ⟨prepared.txnId, bytes, ⟨prepared.baseIdentity, token.newRoot.identity,
          prepared.txnId, sha256 bytes⟩⟩, authority', ledger') ∧
      token.baseIdentity = authority.root.identity ∧ authority'.root = token.newRoot ∧
      authority.SameWorld authority' ∧
      (∃ entry', ledger'.entries[prepared.txnId]? = some entry' ∧
        entry'.reservation = entry.reservation ∧ entry'.receipt = some bytes ∧
        (entry.evidence = none →
          entry'.evidence = some ⟨prepared.baseIdentity, token.newRoot.identity⟩)) ∧
      (∀ txnId, txnId ≠ prepared.txnId → ledger'.entries[txnId]? = ledger.entries[txnId]?) ∧
      ledger'.configHash = ledger.configHash ∧ ledger'.maxEntries = ledger.maxEntries ∧
      ∀ request, ledger'.Admits request ↔ ledger.Admits request := by
  unfold publishAndFinalize
  cases hpublish : authority.publishOnce token with
  | mk result authority₁ =>
    cases result with
    | error err =>
      have hdrop := PublicationAuthority.publishOnce_error (congrArg Prod.fst hpublish)
      rw [hpublish] at hdrop
      exact .inl ⟨_, by rw [← hdrop]⟩
    | ok view =>
      obtain ⟨hbase, -, hroot, hworld, -⟩ :=
        PublicationAuthority.publishOnce_ok (congrArg Prod.fst hpublish)
      rw [hpublish] at hroot hworld
      have hfinal := ReceiptLedger.finalizeAfterPublish_of_inFlight hentry hfree bytes h
      have hown : (ledger.finalizeAfterPublish prepared.request bytes h).2.entries[
          prepared.request.txnId]? = some { entry with receipt := some bytes } := by
        rw [hfinal]
        exact Std.ExtTreeMap.getElem?_insert_self
      have hlook := ReceiptLedger.getElem?_recordEvidence _ prepared.request
        ⟨prepared.baseIdentity, token.newRoot.identity⟩
        (ReceiptLedger.isSome_finalizeAfterPublish ledger prepared.request bytes h) hown
      have hbytes : (ledger.finalizeAfterPublish prepared.request bytes h).1 = bytes :=
        congrArg Prod.fst hfinal
      refine .inr ⟨_, _, Prod.ext ?_ rfl, hbase, hroot, hworld, ?_, fun txnId hne => ?_, ?_,
        ?_, fun request => ?_⟩
      · simp only [hbytes]
      · rw [PreparedMutation.txnId, hlook]
        split
        · exact ⟨_, rfl, rfl, rfl, fun _ => rfl⟩
        · rename_i hkept
          refine ⟨_, hown, rfl, rfl, fun hnone => ?_⟩
          exact absurd ⟨rfl, rfl, hnone⟩ hkept
      · rw [hlook, if_neg fun hh => hne hh.1.symm, hfinal]
        exact BTreeMap.getElem?_insert_ne _ (Ne.symm hne) _
      · simp only [ReceiptLedger.recordEvidenceAfterPublish, hfinal]
        split <;> rfl
      · simp only [ReceiptLedger.recordEvidenceAfterPublish, hfinal]
        split <;> rfl
      · simp only [ReceiptLedger.recordEvidenceAfterPublish, hfinal]
        split <;> exact Iff.rfl

theorem commitView_cases {prepared : PreparedMutation} (view : PublishedReadView)
    (authority : PublicationAuthority) {ledger : ReceiptLedger} {entry : LedgerEntry}
    (hentry : ledger.entries[prepared.request.txnId]? = some entry) (hfree : entry.receipt = none)
    (h : ledger.entries[prepared.request.txnId]?.isSome) :
    (∃ err authority', commitView prepared view authority ledger h =
      (.error err, authority', ledger) ∧ authority'.root = authority.root ∧
      authority.SameWorld authority') ∨
    ∃ d receipt authority' ledger', commitView prepared view authority ledger h =
      (.ok receipt, authority', ledger') ∧
      Committed prepared view authority ledger d receipt authority' ledger' := by
  cases hdraft : draft prepared view ledger with
  | error err =>
    have hrun : commitView prepared view authority ledger h = (.error err, authority, ledger) := by
      simp only [commitView, hdraft]
    exact .inl ⟨_, _, hrun, rfl, .refl authority⟩
  | ok d =>
    cases hprepare : authority.prepare d.world d.newRoot d.replacement with
    | error err =>
      have hrun : commitView prepared view authority ledger h =
          (.error (.fromPublish err), authority, ledger) := by
        simp only [commitView, hdraft, hprepare]
      exact .inl ⟨_, _, hrun, rfl, .refl authority⟩
    | ok bound =>
      obtain ⟨publication, authority₁⟩ := bound
      obtain ⟨-, -, hnew, -, -, -, next, rfl⟩ := PublicationAuthority.prepare_eq_ok hprepare
      cases hbytes : receiptBytes prepared.txnId prepared.baseIdentity
          publication.newRoot.identity prepared.fingerprint.hash with
      | error err =>
        have hrun : commitView prepared view authority ledger h =
            (.error err, { authority with nextTokenId := next }, ledger) := by
          simp only [commitView, hdraft, hprepare, hbytes]
        exact .inl ⟨_, _, hrun, rfl, rfl, rfl, rfl⟩
      | ok bytes =>
        cases hseal : PublicationAuthority.sealPublication { authority with nextTokenId := next }
            publication with
        | error err =>
          have hrun : commitView prepared view authority ledger h =
              (.error (.fromPublish err), { authority with nextTokenId := next }, ledger) := by
            simp only [commitView, hdraft, hprepare, hbytes, hseal]
          exact .inl ⟨_, _, hrun, rfl, rfl, rfl, rfl⟩
        | ok bound =>
          obtain ⟨token, publication', authority₂⟩ := bound
          obtain ⟨-, htoken, -, -, -, pins, rfl⟩ := PublicationAuthority.sealPublication_eq_ok hseal
          have hrun : commitView prepared view authority ledger h =
              publishAndFinalize prepared { authority with pins := pins, nextTokenId := next }
                ledger token bytes h := by
            simp only [commitView, hdraft, hprepare, hbytes, hseal]
          rcases publishAndFinalize_cases prepared
            { authority with pins := pins, nextTokenId := next } token bytes hentry hfree h with
            ⟨err, hlast⟩ | ⟨authority', ledger', hlast, -, hroot, hworld,
              ⟨entry', hown, hres, hreceipt, hevidence⟩, hothers, hconfig, hmax, hadmits⟩
          · exact .inl ⟨_, _, hrun.trans hlast, rfl, rfl, rfl, rfl⟩
          · refine .inr ⟨d, _, authority', ledger', hrun.trans hlast, {
              draft_ok := hdraft
              root := hroot.trans (htoken.trans hnew)
              sameWorld := hworld
              txnId := rfl
              receipt_ok := ?_
              evidence := ?_
              applied := ⟨entry, entry', hentry, hown, hres, hreceipt, by rw [hroot]; exact hevidence⟩
              others := hothers
              configHash := hconfig
              maxEntries := hmax
              admits := hadmits }⟩
            · rw [hroot, htoken]
              exact hbytes
            · rw [hroot]

/-- **Commit.** An error changes neither the published root nor the ledger; a
completed transaction is answered without publishing; otherwise the draft of the
captured view is published and the transaction, in flight before, completed. -/
theorem commit_cases (prepared : PreparedMutation) (authority : PublicationAuthority)
    (ledger : ReceiptLedger) :
    (∃ err authority', commit prepared authority ledger = (.error err, authority', ledger) ∧
      authority'.root = authority.root ∧ authority.SameWorld authority') ∨
    (∃ receipt, ledger.lookup prepared.request = .ok (.duplicate receipt) ∧
      commit prepared authority ledger =
        (.ok (duplicateReceipt prepared (prepared.replayReceipt.getD receipt)), authority, ledger)) ∨
    ∃ d receipt authority' ledger', ledger.lookup prepared.request = .ok .inFlight ∧
      commit prepared authority ledger = (.ok receipt, authority', ledger') ∧
      Committed prepared authority.capture.1 authority ledger d receipt authority' ledger' := by
  unfold commit
  split
  · exact .inl ⟨_, authority, rfl, rfl, .refl authority⟩
  · rename_i receipt hlookup
    exact .inr (.inl ⟨receipt, hlookup, rfl⟩)
  · exact .inl ⟨_, authority, rfl, rfl, .refl authority⟩
  · rename_i hlookup
    obtain ⟨-, entry, hentry, -, hfree⟩ := ReceiptLedger.lookup_inFlight.mp hlookup
    rcases commitView_cases authority.capture.1 authority.capture.2 hentry
      hfree (ReceiptLedger.isSome_of_inFlight hlookup) with
      ⟨err, authority₁, hrun, hroot, hworld⟩ | ⟨d, receipt, authority₁, ledger₁, hrun, hdone⟩
    · refine .inl ⟨err, authority₁.dropPin authority.capture.1.lease, ?_, hroot, hworld⟩
      simp only [hrun]
    · refine .inr (.inr ⟨d, receipt, authority₁.dropPin authority.capture.1.lease, ledger₁,
        hlookup, ?_, ?_⟩)
      · simp only [hrun]
      · exact {
          draft_ok := hdone.draft_ok
          root := hdone.root
          sameWorld := hdone.sameWorld
          txnId := hdone.txnId
          receipt_ok := hdone.receipt_ok
          evidence := hdone.evidence
          applied := hdone.applied
          others := hdone.others
          configHash := hdone.configHash
          maxEntries := hdone.maxEntries
          admits := hdone.admits }

theorem commit_of_error {prepared : PreparedMutation} {authority : PublicationAuthority}
    {ledger : ReceiptLedger} {err : LedgerError} (h : ledger.lookup prepared.request = .error err) :
    commit prepared authority ledger = (.error (.fromLedger err), authority, ledger) := by
  unfold commit
  split
  all_goals
    rename_i hlookup
    rw [h] at hlookup
    cases hlookup
  rfl

theorem commit_of_inFlight {prepared : PreparedMutation} {authority : PublicationAuthority}
    {ledger : ReceiptLedger} (h : ledger.lookup prepared.request = .ok .inFlight) :
    commit prepared authority ledger =
      ((commitView prepared authority.capture.1 authority.capture.2 ledger
          (ReceiptLedger.isSome_of_inFlight h)).1,
        (commitView prepared authority.capture.1 authority.capture.2 ledger
          (ReceiptLedger.isSome_of_inFlight h)).2.1.dropPin authority.capture.1.lease,
        (commitView prepared authority.capture.1 authority.capture.2 ledger
          (ReceiptLedger.isSome_of_inFlight h)).2.2) := by
  unfold commit
  split
  · rename_i hlookup
    cases h.symm.trans hlookup
  · rename_i hlookup
    cases h.symm.trans hlookup
  · rename_i hlookup
    cases h.symm.trans hlookup
  · rfl

theorem commit_of_vacant {prepared : PreparedMutation} {authority : PublicationAuthority}
    {ledger : ReceiptLedger} (h : ledger.lookup prepared.request = .ok .vacant) :
    commit prepared authority ledger = (.error .invalidHandle, authority, ledger) := by
  unfold commit
  split
  all_goals first | rfl | (rename_i hlookup; rw [h] at hlookup; cases hlookup)

theorem commit_of_duplicate {prepared : PreparedMutation} {authority : PublicationAuthority}
    {ledger : ReceiptLedger} {receipt : Bytes}
    (h : ledger.lookup prepared.request = .ok (.duplicate receipt)) :
    commit prepared authority ledger =
      (.ok (duplicateReceipt prepared (prepared.replayReceipt.getD receipt)), authority, ledger) := by
  unfold commit
  split
  all_goals rename_i hlookup; rw [h] at hlookup; cases hlookup
  rfl

end Outcomes

/-! ## 7. When commit succeeds -/

section Success

variable [UnicodeTables] {request : MutationRequest} {base view : PublishedReadView}
  {configHash : String} {token : PreparedMutation} {ledger : ReceiptLedger}

omit [UnicodeTables] in
private theorem overlayDirectory_of (view : PublishedReadView) (replacement : SectionReplacement)
    (requestIds : List String)
    (h : ∀ key ∈ requestIds, ∃ (id : SectionId) (slot : SectionSlot), key = id.key ∧
      replacement.entries[id]? = some slot) :
    ∃ directory, overlayDirectory view replacement requestIds = .ok directory := by
  let P (_ : SectionDirectoryBuilder) (rest : List String) : Prop := ∀ key ∈ rest, key ∈ requestIds
  have hstep : ∀ builder key rest, P builder (key :: rest) →
      ∃ next, overlaySlot replacement builder key = .ok next ∧ P next rest := by
    intro builder key rest hP
    obtain ⟨id, slot, rfl, hslot⟩ := h key (hP key List.mem_cons_self)
    have hoverlay : overlaySlot replacement builder id.key =
        .ok ⟨builder.entries.insert id slot⟩ := by
      simp only [overlaySlot, SectionReplacement.get_key, mapError_ok, ok_bind, hslot, someOr,
        SectionDirectoryBuilder.insert_key]
    exact ⟨_, hoverlay, fun key' hkey' => hP key' (List.mem_cons_of_mem _ hkey')⟩
  have hstart : P (.fromRoot view.root.directory) requestIds := fun _ hkey => hkey
  obtain ⟨builder, hfold, -⟩ := foldSteps_progress hstep hstart
  exact ⟨builder.freeze, by rw [overlayDirectory, hfold]; rfl⟩

omit [UnicodeTables] in
private theorem buildStamp_of (token : PreparedMutation) (view : PublishedReadView)
    (replacement : SectionReplacement) (ids : List String)
    (h : ∀ key ∈ ids, ∃ id : SectionId, key = id.key ∧ ∀ slot,
      replacement.entries[id]? = some slot →
        ∃ next, checkedSucc (view.root.stamp.effectiveRevision key) = some next) :
    ∃ stamp, buildStamp token view replacement ids = .ok stamp := by
  have hstep : ∀ key ∈ ids, ∃ pair, overlayRevision view.root.stamp replacement key = .ok pair := by
    intro key hkey
    obtain ⟨id, rfl, hnext⟩ := h key hkey
    simp only [overlayRevision, SectionReplacement.get_key, mapError_ok, ok_bind]
    cases hslot : replacement.entries[id]? with
    | none => exact ⟨_, rfl⟩
    | some slot =>
      obtain ⟨next, hnext⟩ := hnext slot hslot
      simp only [hnext, someOr, ok_bind]
      exact ⟨_, rfl⟩
  obtain ⟨pairs, hpairs⟩ := exists_mapM hstep
  exact ⟨_, by rw [buildStamp, hpairs]; rfl⟩

/-- A token's draft over the root it was prepared from. -/
theorem draft_of (view : PublishedReadView) (ledger : ReceiptLedger)
    (hsealed : SealedFrom request base configHash token)
    (hroot : view.root = base.root) (hconfig : configHash = ledger.configHash)
    (hworld : request.worldId = base.root.stamp.worldId)
    (hgen : request.generation = base.root.stamp.generation)
    (hexpected : ∀ entry ∈ request.entries,
      entry.expectedSectionRevision = base.root.stamp.effectiveRevision entry.sectionKey)
    (hkeys : ∀ key : String, base.root.stamp.sectionRevisionSet[key]? ≠ none →
      ∃ id : SectionId, key = id.key) :
    ∃ d, draft token view ledger = .ok d := by
  obtain ⟨plan, hplan⟩ := hsealed.planned
  obtain ⟨fingerprint, -, hres⟩ := ReceiptLedger.fromRequest_eq_ok.mp hsealed.reservation_ok
  have hprepared : recheckPrepared token view ledger = .ok () := by
    simp only [recheckPrepared, hroot]
    rw [require_of ⟨hsealed.generation_eq.trans hgen, by rw [hsealed.request_eq, hgen],
      by rw [hres]; exact hgen⟩, ok_bind,
      require_of ⟨by rw [hsealed.request_eq, hworld], by rw [hres]; exact hworld⟩, ok_bind,
      require_of (hsealed.configHash_eq.trans hconfig), ok_bind,
      require_of hsealed.baseIdentity_eq]
  have hresident : ∀ id, request.Names id →
      ∃ payload, base.root.directory.entries[id]? = some (.ready payload) := by
    intro id hname
    obtain ⟨old, -, -, hold, -⟩ := hsealed.edited id hname
    exact ⟨old, hold⟩
  have hnamed : ∀ key ∈ plan.sectionIds, ∃ id : SectionId, key = id.key ∧ request.Names id := by
    intro key hkey
    obtain ⟨id, rfl⟩ := hplan.exists_key hkey
    exact ⟨id, rfl, (key_mem_sectionIds hplan id).mp hkey⟩
  have hpresence : recheckPresence request view = .ok () := by
    simp only [recheckPresence, hroot, require_of hworld, require_of hgen, ok_bind,
      build_eq_ok.mpr hplan, MutationPlan.sectionEdits]
    have hrevisions : foldSteps (fun _ item => recheckRevisions base.root.stamp item) ()
        plan.sections.toList = .ok () := by
      refine foldSteps_of_forall fun item hitem => require_of (fun entry hentry => ?_) _
      obtain ⟨-, hedits, -⟩ := hplan.mem_toList (show (item.1, item.2) ∈ _ from hitem)
      rw [hedits] at hentry
      obtain ⟨hin, hkey⟩ := List.mem_filter.mp hentry
      rw [hexpected entry hin, of_decide_eq_true hkey]
    have hready : foldSteps (fun _ sectionId =>
        MutationPreconditions.checkReady base.root.directory sectionId) () plan.sectionIds =
          .ok () := by
      refine foldSteps_of_forall fun key hkey => ?_
      obtain ⟨id, rfl, hname⟩ := hnamed key hkey
      exact MutationPreconditions.checkReady_key.mpr (hresident id hname)
    rw [hrevisions]
    exact hready
  obtain ⟨directory, hdirectory⟩ := overlayDirectory_of view token.replacement
    plan.sectionIds fun key hkey => by
      obtain ⟨id, rfl, hname⟩ := hnamed key hkey
      obtain ⟨-, -, payload, -, -, hslot, -⟩ := hsealed.edited id hname
      exact ⟨id, _, rfl, hslot⟩
  obtain ⟨stamp, hstamp⟩ := buildStamp_of token view token.replacement
    (overlayIds (view.root.stamp.sectionRevisionSet.toList.map (·.1)) plan.sectionIds)
    fun key hkey => by
      have hcanonical : ∃ id : SectionId, key = id.key := by
        rcases mem_overlayIds.mp hkey with hin | hin
        · obtain ⟨item, hitem, rfl⟩ := List.mem_map.mp hin
          rw [hroot] at hitem
          exact hkeys item.1 (by rw [BTreeMap.mem_toList.mp hitem]; exact Option.some_ne_none _)
        · exact hplan.exists_key hin
      obtain ⟨id, rfl⟩ := hcanonical
      refine ⟨id, rfl, fun slot hslot => ?_⟩
      by_cases hname : request.Names id
      · obtain ⟨next, hnext, -⟩ := hsealed.recorded.named id hname
        exact ⟨next, by rw [hroot, hnext]⟩
      · rw [hsealed.untouched id hname] at hslot
        cases hslot
  refine ⟨⟨token.targetWorldRevision, .new stamp directory token.dirty, token.replacement⟩, ?_⟩
  simp only [draft, hprepared, hsealed.request_eq, hpresence, build_eq_ok.mpr hplan, hdirectory,
    hstamp, ok_bind]
  rfl

/-- Publishing a draft on an authority with room, whatever was published since
its view was captured. -/
theorem commitView_of {view : PublishedReadView} (authority : PublicationAuthority) {n : Nat}
    {d : CommitDraft} (hlookup : ledger.lookup token.request = .ok .inFlight)
    (hdraft : draft token view ledger = .ok d)
    (hbelongs : view.root.stamp.BelongsTo authority.worldId authority.contextId
      authority.generation) (hroom : authority.CanPublish (n + 1)) :
    ∃ receipt authority' ledger',
      commitView token view authority ledger (ReceiptLedger.isSome_of_inFlight hlookup) =
        (.ok receipt, authority', ledger') ∧
      Committed token view authority ledger d receipt authority' ledger' ∧
      authority'.CanPublish n := by
  have hdraftOf := draft_eq_ok hdraft
  have hnew : d.newRoot.stamp.BelongsTo authority.worldId authority.contextId
      authority.generation := by
    obtain ⟨hschema, hworld, hcontext, hgen⟩ := hdraftOf.stamp.belongs
    obtain ⟨-, hworld', hcontext', hgen'⟩ := hbelongs
    exact ⟨hschema, hworld.trans hworld', hcontext.trans hcontext', hgen.trans hgen'⟩
  obtain ⟨publication, authority₁, published, publication', authority₂, result, authority₃, hprepare,
    hseal, hpublish, -, -, -, hroom₃⟩ := PublicationAuthority.publish_of hroom d.replacement hnew
  obtain ⟨bytes, hbytes⟩ := exists_receiptBytes token.txnId token.baseIdentity
    publication.newRoot.identity token.fingerprint.hash
  have hworld : d.world = d.newRoot.stamp.worldRevision :=
    hdraftOf.world.trans hdraftOf.stamp.world.symm
  rw [← hworld] at hprepare
  have hsome := ReceiptLedger.isSome_of_inFlight hlookup
  have hrun : (∃ receipt, (commitView token view authority ledger hsome).1 = .ok receipt) ∧
      (commitView token view authority ledger hsome).2.1.CanPublish n := by
    simp only [commitView, hdraft, hprepare, hbytes, hseal, publishAndFinalize, hpublish]
    exact ⟨⟨_, rfl⟩, PublicationAuthority.dropPin_canPublish hroom₃ _⟩
  obtain ⟨⟨receipt, hok⟩, hroom'⟩ := hrun
  obtain ⟨-, entry, hentry, -, hfree⟩ := ReceiptLedger.lookup_inFlight.mp hlookup
  rcases commitView_cases view authority hentry hfree hsome with ⟨err, authority', hview, -⟩ |
    ⟨d', receipt', authority', ledger', hview, hdone⟩
  · rw [hview] at hok
    cases hok
  · rw [hview] at hroom'
    obtain rfl := Except.ok.inj (hdraft.symm.trans hdone.draft_ok)
    exact ⟨receipt', authority', ledger', hview, hdone, hroom'⟩

/-- **Committing undisturbed.** An in-flight token whose draft goes through is
published by an authority with room. -/
theorem commit_of {authority : PublicationAuthority} {n : Nat} {d : CommitDraft}
    (hlookup : ledger.lookup token.request = .ok .inFlight)
    (hdraft : draft token authority.capture.1 ledger = .ok d)
    (hroom : authority.CanPublish (n + 1)) :
    ∃ receipt authority' ledger', commit token authority ledger = (.ok receipt, authority', ledger') ∧
      Committed token authority.capture.1 authority ledger d receipt authority' ledger' ∧
      authority'.CanPublish n := by
  obtain ⟨receipt, authority', ledger', hview, hdone, hroom'⟩ := commitView_of
    authority.capture.2 hlookup hdraft authority.root_belongs
    (PublicationAuthority.capture_canPublish hroom)
  refine ⟨receipt, authority'.dropPin authority.capture.1.lease, ledger', ?_, ?_,
    PublicationAuthority.dropPin_canPublish hroom' _⟩
  · rw [commit_of_inFlight hlookup, hview]
  · exact {
      draft_ok := hdone.draft_ok
      root := hdone.root
      sameWorld := hdone.sameWorld
      txnId := hdone.txnId
      receipt_ok := hdone.receipt_ok
      evidence := hdone.evidence
      applied := hdone.applied
      others := hdone.others
      configHash := hdone.configHash
      maxEntries := hdone.maxEntries
      admits := hdone.admits }

end Success

end LumioVoxel
