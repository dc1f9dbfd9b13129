import LumioVoxel.MutationCommit

/-!
# What a commit does

A request that is prepared against the published root and committed over the
same root changes exactly the cells, revisions and dirty marks it names, and its
receipt names the two roots.  A prepare or a commit that fails changes nothing
an observer of the root or of the ledger's entries can see.
-/

namespace LumioVoxel

open DebugText Fallible

/-! ## 1. The effect of a batch -/

/-- The block of the last entry of a request that targets one cell. -/
def MutationRequest.lastWrite (request : MutationRequest) (id : SectionId) (offset : CellOffset) :
    Option BlockId :=
  (request.entries.filter fun entry =>
    entry.sectionKey = id.key ∧ entry.cellOffset = offset).getLast?.map (·.blockId)

theorem MutationRequest.lastWrite_eq (request : MutationRequest) (id : SectionId)
    (offset : CellOffset) :
    request.lastWrite id offset = lastBlock (request.entriesFor id.key) offset := by
  simp only [lastWrite, lastBlock, entriesFor, List.filter_filter, Bool.decide_and, Bool.and_comm]

theorem MutationRequest.lastWrite_of_not_names {request : MutationRequest} {id : SectionId}
    (h : ¬ request.Names id) (offset : CellOffset) : request.lastWrite id offset = none := by
  rw [lastWrite_eq, not_not.mp h]
  rfl

/-- The published effect of a committed request, against the root it replaced. -/
structure CommitEffect [UnicodeTables] (request : MutationRequest) (old new : PublishedStateRoot)
    (receipt : MutationReceipt) : Prop where
  /-- A cell reads its last write, or else what it read before. -/
  cells : ∀ id offset, new.readCell id offset =
    (request.lastWrite id offset).or (old.readCell id offset)
  slots : ∀ id, ¬ request.Names id → new.directory.entries[id]? = old.directory.entries[id]?
  world : new.stamp.worldRevision.toNat = old.stamp.worldRevision.toNat + 1
  named : ∀ id, request.Names id → ∃ revision, new.stamp.sectionRevisionSet[id.key]? = some revision ∧
    revision.toNat = (old.stamp.effectiveRevision id.key).toNat + 1
  unnamed : ∀ key : String, (∀ id, request.Names id → key ≠ id.key) →
    new.stamp.sectionRevisionSet[key]? = old.stamp.sectionRevisionSet[key]?
  /-- The named sections are recorded dirty at their new revisions, no others. -/
  dirtyNamed : ∀ id, request.Names id → ∀ revision,
    new.stamp.sectionRevisionSet[id.key]? = some revision →
    new.dirtyFrontier.entries[id]? =
      some (DirtyFrontier.recordEntry old.dirtyFrontier.entries[id]? revision "mutation")
  dirtyUnnamed : ∀ id, ¬ request.Names id →
    new.dirtyFrontier.entries[id]? = old.dirtyFrontier.entries[id]?
  dirtyOwner : new.dirtyFrontier.worldId = old.dirtyFrontier.worldId ∧
    new.dirtyFrontier.generation = old.dirtyFrontier.generation
  receiptRoots : ∃ object, CanonicalObject.decode receipt.receipt = .ok object ∧
    object.members["old_root"]? = some (.text (hex32 old.identity)) ∧
    object.members["new_root"]? = some (.text (hex32 new.identity))
  evidenceRoots : receipt.evidence.oldRoot = old.identity ∧
    receipt.evidence.newRoot = new.identity

theorem receiptBytes_members {txnId : String} {oldRoot newRoot fingerprint : Digest}
    {bytes : Bytes} (h : receiptBytes txnId oldRoot newRoot fingerprint = .ok bytes) :
    ∃ object, CanonicalObject.decode bytes = .ok object ∧
      ∀ member ∈ receiptMembers txnId oldRoot newRoot fingerprint,
        object.members[member.1]? = some member.2 := by
  have hnames := pairwise_receiptMembers txnId oldRoot newRoot fingerprint
  have hall := insertAll_of_fresh hnames (o := CanonicalObject.new)
    fun m _ => BTreeMap.getElem?_empty m.1
  rw [receiptBytes, hall] at h
  obtain rfl := Except.ok.inj h
  exact ⟨_, decode_encodeBytes _, fun member hmember =>
    BTreeMap.getElem?_foldl_insert_of_mem hnames hmember⟩

section Effect

variable [UnicodeTables] {request : MutationRequest} {configHash : String}
  {token : PreparedMutation} {base view : PublishedReadView} {ledger ledger' : ReceiptLedger}
  {authority authority' : PublicationAuthority} {receipt : MutationReceipt} {d : CommitDraft}

/-- The cells of a drafted root: last writes over what the token was built from. -/
theorem cells_of_draft (hsealed : SealedFrom request base configHash token)
    (hsame : PublishedStateRoot.SameCut view.root base.root)
    (hdraft : DraftOf token view ledger d) (id : SectionId) (offset : CellOffset) :
    d.newRoot.readCell id offset =
      (request.lastWrite id offset).or (view.root.readCell id offset) := by
  by_cases hname : request.Names id
  · obtain ⟨old, storage, payload, hold, hstorage, hslot, hpayload⟩ := hsealed.edited id hname
    replace hpayload : payload.storage = some (editedStorage storage (request.entriesFor id.key)) :=
      congrArg SectionPayload.storage hpayload
    have hnew := (hdraft.changed id (hsealed.request_eq ▸ hname)).2
    rw [hsame.cells]
    simp only [PublishedStateRoot.readCell, hnew, hslot, hold,
      SectionSlot.storage, SectionSlot.payload, Option.bind_some, hpayload, hstorage,
      Option.map_some, read_editedStorage, request.lastWrite_eq]
    cases lastBlock (request.entriesFor id.key) offset with
    | none => rfl
    | some block => rfl
  · have hnew := hdraft.unchanged id (hsealed.request_eq ▸ hname)
    rw [PublishedStateRoot.readCell, hnew, MutationRequest.lastWrite_of_not_names hname]
    rfl

/-- A fresh token committed over a root that reads like the one it was prepared
from. -/
theorem commitEffect_of_committed (hsealed : SealedFrom request base configHash token)
    (hsame : PublishedStateRoot.SameCut view.root base.root)
    (hdone : Committed token view authority ledger d receipt authority' ledger') :
    CommitEffect request view.root authority'.root receipt := by
  have hstamp := hsame.stamp
  have hfrontier := hsame.dirtyFrontier
  have hdraft := hdone.draftOf
  have hoverlay := hdraft.stamp
  obtain ⟨hstampNew, hdirNew, hfrontierNew⟩ : authority'.root.stamp = d.newRoot.stamp ∧
      authority'.root.directory = d.newRoot.directory ∧
      authority'.root.dirtyFrontier = token.dirty := by
    rw [hdone.root]
    exact ⟨rfl, rfl, hdraft.dirtyFrontier⟩
  have hnext : ∀ id, request.Names id → ∃ revision,
      checkedSucc (view.root.stamp.effectiveRevision id.key) = some revision ∧
      authority'.root.stamp.sectionRevisionSet[id.key]? = some revision := by
    intro id hname
    obtain ⟨-, -, payload, -, -, hslot, -⟩ := hsealed.edited id hname
    rw [hstampNew]
    exact hoverlay.replaced id _ (.inl (hsealed.request_eq ▸ hname)) hslot
  obtain ⟨object, hdecode, hmembers⟩ := receiptBytes_members hdone.receipt_ok
  exact {
    cells := by
      intro id offset
      rw [← cells_of_draft hsealed hsame hdraft id offset, PublishedStateRoot.readCell, hdirNew]
      rfl
    slots := by
      intro id hname
      rw [hdirNew]
      exact hdraft.unchanged id (hsealed.request_eq ▸ hname)
    world := by
      rw [hstampNew, hoverlay.world, hstamp]
      exact checkedSucc_eq_some.mp hsealed.target
    named := by
      intro id hname
      obtain ⟨revision, hsucc, hrevision⟩ := hnext id hname
      exact ⟨revision, hrevision, checkedSucc_eq_some.mp hsucc⟩
    unnamed := by
      intro key hkey
      rw [hstampNew]
      refine hoverlay.kept key fun id hid => ?_
      exact hsealed.untouched id fun hname => hkey id hname hid
    dirtyNamed := by
      intro id hname revision hrevision
      obtain ⟨revision', hsucc, hrevision'⟩ := hnext id hname
      obtain ⟨next, hnext', hdirty⟩ := hsealed.recorded.named id hname
      obtain rfl := Option.some.inj (hrevision.symm.trans hrevision')
      rw [hstamp] at hsucc
      obtain rfl := Option.some.inj (hsucc.symm.trans hnext')
      rw [hfrontierNew, hfrontier]
      exact hdirty
    dirtyUnnamed := by
      intro id hname
      rw [hfrontierNew, hfrontier]
      exact hsealed.recorded.other id hname
    dirtyOwner := by
      rw [hfrontierNew, hfrontier]
      exact ⟨hsealed.recorded.worldId, hsealed.recorded.generation⟩
    receiptRoots := by
      refine ⟨object, hdecode, ?_, hmembers _ (.tail _ (.tail _ (.head _)))⟩
      rw [← hdraft.baseIdentity]
      exact hmembers _ (.tail _ (.head _))
    evidenceRoots := by
      rw [hdone.evidence]
      exact ⟨hdraft.baseIdentity, rfl⟩ }

/-- A preparable request has a token in flight that drafts over any view of the
root it was prepared from. -/
theorem prepare_draft_of (hprep : Preparable request base ledger)
    (hkeys : ∀ key : String, base.root.stamp.sectionRevisionSet[key]? ≠ none →
      ∃ id : SectionId, key = id.key) :
    ∃ token ledger₁, prepare request base ledger = (.ok token, ledger₁) ∧
      SealedFrom request base ledger.configHash token ∧
      ledger₁.lookup token.request = .ok .inFlight ∧
      ∀ view : PublishedReadView, view.root = base.root → ∃ d, draft token view ledger₁ = .ok d := by
  obtain ⟨token, ledger₁, hprepare, hreserve, hsealed⟩ := prepare_of hprep
  obtain ⟨hadmits, hnone⟩ := ReceiptLedger.lookup_vacant.mp hprep.vacant
  have hlookup := ReceiptLedger.lookup_of_reserved hadmits hnone hreserve
  obtain ⟨-, -, hconfig, -⟩ := ReceiptLedger.reserve_of_vacant hnone hreserve
  rw [← hsealed.request_eq] at hlookup
  refine ⟨token, ledger₁, hprepare, hsealed, hlookup, fun view hview => ?_⟩
  exact draft_of view ledger₁ hsealed hview hconfig.symm hprep.worldId hprep.generation
    hprep.expected hkeys

/-- **A request nobody disturbs goes through.** -/
theorem prepare_commit_of {n : Nat} (hprep : Preparable request authority.capture.1 ledger)
    (hkeys : ∀ key : String, authority.root.stamp.sectionRevisionSet[key]? ≠ none →
      ∃ id : SectionId, key = id.key) (hroom : authority.CanPublish (n + 1)) :
    ∃ token ledger₁ d receipt authority' ledger₂,
      prepare request authority.capture.1 ledger = (.ok token, ledger₁) ∧
      SealedFrom request authority.capture.1 ledger.configHash token ∧
      commit token authority ledger₁ = (.ok receipt, authority', ledger₂) ∧
      Committed token authority.capture.1 authority ledger₁ d receipt authority' ledger₂ ∧
      authority'.CanPublish n := by
  obtain ⟨token, ledger₁, hprepare, hsealed, hlookup, hdraftable⟩ := prepare_draft_of hprep hkeys
  obtain ⟨d, hdraft⟩ := hdraftable authority.capture.1 rfl
  obtain ⟨receipt, authority', ledger₂, hcommit, hdone, hroom'⟩ := commit_of hlookup hdraft hroom
  exact ⟨token, ledger₁, d, receipt, authority', ledger₂, hprepare, hsealed, hcommit, hdone, hroom'⟩

end Effect

/-! ## 2. A world with one section -/

/-- A first cut with one resident section, all of one block. -/
def oneSectionRoot (block : BlockId) : PublishedStateRoot :=
  .new (toRevisionStamp "world" "context" 1 0 [])
    ⟨(∅ : BTreeMap SectionId SectionSlot).insert originSection
      (.ready (.ofStorage (.uniform block)))⟩
    ⟨"world", 1, ∅⟩

def emptyLedger : ReceiptLedger := ⟨"config", 8, ∅, 0, none, none⟩

theorem emptyLedger_admits {request : MutationRequest}
    (h : request.txnId ≠ "" ∧ request.worldId ≠ "") : emptyLedger.Admits request :=
  ⟨h, (fun _ hw => nomatch hw), (fun _ hg => nomatch hg)⟩

/-- A write to the section's first revision. -/
def originWrite (offset : CellOffset) (block : BlockId) : MutationEntry :=
  ⟨originSection.key, offset, block, 0⟩

theorem oneSectionRoot_keys (block : BlockId) (key : String)
    (h : (oneSectionRoot block).stamp.sectionRevisionSet[key]? ≠ none) :
    ∃ id : SectionId, key = id.key := by
  have hnone : (∅ : BTreeMap String UInt64)[key]? = none := BTreeMap.getElem?_empty key
  exact absurd hnone h

/-- An authority that publishes the first cut and has room for seven more. -/
theorem exists_oneSectionAuthority (block : BlockId) :
    ∃ authority, PublicationAuthority.new "world" "context" 1 (.new 8 "context" 1)
        (oneSectionRoot block) = .ok authority ∧
      authority.root = oneSectionRoot block ∧ authority.CanPublish 7 := by
  obtain ⟨authority, hnew, hroot, -, -, -, hroom⟩ :=
    PublicationAuthority.new_of (show "world" ≠ "" ∧ "context" ≠ "" by decide)
      (show (oneSectionRoot block).stamp.BelongsTo "world" "context" 1 from ⟨rfl, rfl, rfl, rfl⟩)
      (show 7 + 1 ≤ 8 by decide) (by decide)
  exact ⟨authority, hnew, hroot, hroom⟩

section OneSection

variable {writes : List (CellOffset × BlockId)} {view : PublishedReadView} {block : BlockId}

def originRequest (txnId : String) (writes : List (CellOffset × BlockId)) : MutationRequest :=
  ⟨txnId, "world", 1, writes.map fun w => originWrite w.1 w.2⟩

theorem originRequest_names {txnId : String} {id : SectionId}
    (h : (originRequest txnId writes).Names id) : id = originSection := by
  obtain ⟨entry, hentry⟩ := List.exists_mem_of_ne_nil _ h
  obtain ⟨hin, hkey⟩ := List.mem_filter.mp hentry
  obtain ⟨w, -, rfl⟩ := List.mem_map.mp hin
  exact (SectionId.key_injective (of_decide_eq_true hkey)).symm

theorem emptyLedger_vacant {txnId : String} (htxn : txnId ≠ "")
    (writes : List (CellOffset × BlockId)) :
    emptyLedger.lookup (originRequest txnId writes) = .ok .vacant :=
  ReceiptLedger.lookup_vacant.mpr
    ⟨emptyLedger_admits ⟨htxn, show "world" ≠ "" by decide⟩, BTreeMap.getElem?_empty _⟩

/-- Over a first stamp, writes to the resident section at the origin. -/
theorem preparable_of_firstStamp {storage : SectionStorage} {ledger : ReceiptLedger}
    {txnId : String} (hstamp : view.root.stamp = toRevisionStamp "world" "context" 1 0 [])
    (hentry : view.root.directory.entries[originSection]? = some (.ready (.ofStorage storage)))
    (hvacant : ledger.lookup (originRequest txnId writes) = .ok .vacant)
    (hroom : ledger.entries.size < ledger.maxEntries)
    (hsize : writes.length ≤ MAX_ENTRIES_PER_WRITE_BATCH) :
    Preparable (originRequest txnId writes) view ledger := by
  have heffective : ∀ key, view.root.stamp.effectiveRevision key = 0 := fun key => by
    rw [hstamp]
    show (∅ : BTreeMap String UInt64)[key]?.getD 0 = 0
    rw [BTreeMap.getElem?_empty, Option.getD_none]
  exact {
    worldId := by rw [hstamp]; rfl
    generation := by rw [hstamp]; rfl
    vacant := hvacant
    room := hroom
    size := by rw [originRequest, List.length_map]; exact hsize
    canonical := fun entry hin => by
      obtain ⟨w, -, rfl⟩ := List.mem_map.mp hin
      exact ⟨originSection, rfl⟩
    expected := fun entry hin => by
      obtain ⟨w, -, rfl⟩ := List.mem_map.mp hin
      exact (heffective _).symm
    resident := fun id hname => by
      rw [originRequest_names hname]
      exact ⟨_, _, hentry, rfl⟩
    revisions := fun id _ => ⟨1, by rw [heffective]; decide⟩
    world := ⟨1, by rw [hstamp]; exact show checkedSucc 0 = some 1 by decide⟩ }

theorem originRequest_preparable (hroot : view.root = oneSectionRoot block) {txnId : String}
    (htxn : txnId ≠ "") (hsize : writes.length ≤ MAX_ENTRIES_PER_WRITE_BATCH) :
    Preparable (originRequest txnId writes) view emptyLedger := by
  have hentry : view.root.directory.entries[originSection]? =
      some (.ready (.ofStorage (.uniform block))) := by
    rw [hroot]
    exact Std.ExtTreeMap.getElem?_insert_self
  exact preparable_of_firstStamp (by rw [hroot]; rfl) hentry (emptyLedger_vacant htxn writes)
    (by decide) hsize

end OneSection

/-! ## 3. A world without sections -/

section Bare

variable [UnicodeTables]

/-- A first cut without sections, and the cut after an empty request. -/
def bareRoot : PublishedStateRoot :=
  .new (toRevisionStamp "world" "context" 1 0 []) ⟨∅⟩ ⟨"world", 1, ∅⟩

def bareNext : PublishedStateRoot :=
  (PublishedStateRoot.new (toRevisionStamp "world" "context" 1 1 []) ⟨∅⟩
    ⟨"world", 1, ∅⟩).incorporateReplacement ⟨∅⟩

omit [UnicodeTables] in
theorem bareRoot_preparable {view : PublishedReadView} (hroot : view.root = bareRoot)
    {ledger : ReceiptLedger} (hvacant : ledger.lookup (originRequest "txn" []) = .ok .vacant)
    (hsize : ledger.entries.size < ledger.maxEntries) :
    Preparable (originRequest "txn" []) view ledger := {
  worldId := by rw [hroot]; rfl
  generation := by rw [hroot]; rfl
  vacant := hvacant
  room := hsize
  size := by decide
  canonical := fun entry hin => absurd hin List.not_mem_nil
  expected := fun entry hin => absurd hin List.not_mem_nil
  resident := fun id hname => absurd rfl hname
  revisions := fun id hname => absurd rfl hname
  world := ⟨1, by rw [hroot]; exact show checkedSucc 0 = some 1 by decide⟩ }

/-- The only draft of an empty request over the bare root. -/
theorem bareNext_of_draft {configHash : String} {token : PreparedMutation}
    {base view : PublishedReadView} {ledger : ReceiptLedger} {d : CommitDraft}
    (hbase : base.root = bareRoot) (hview : view.root = bareRoot)
    (hsealed : SealedFrom (originRequest "txn" []) base configHash token)
    (hdraft : DraftOf token view ledger d) :
    d.newRoot.incorporateReplacement d.replacement = bareNext := by
  have hstamp := hdraft.stamp
  rw [hview] at hstamp
  have hnever : ∀ id, ¬ (originRequest "txn" []).Names id := fun id hname => hname rfl
  have htarget : token.targetWorldRevision = 1 := by
    have htarget := hsealed.target
    rw [hbase] at htarget
    exact Option.some.inj (htarget.symm.trans (show checkedSucc 0 = some 1 by decide))
  have hnewStamp : d.newRoot.stamp = toRevisionStamp "world" "context" 1 1 [] := by
    have hrevisions : d.newRoot.stamp.sectionRevisionSet = ∅ := by
      apply Std.ExtTreeMap.ext_getElem?
      intro key
      exact hstamp.kept key fun id _ => hsealed.untouched id (hnever id)
    obtain ⟨hschema, hworld, hcontext, hgen⟩ := hstamp.belongs
    have hrevision := hstamp.world.trans htarget
    generalize d.newRoot.stamp = new at *
    rcases new with ⟨schemaId, worldId, contextId, generation, worldRevision, revisions⟩
    subst hschema hworld hcontext hgen hrevision hrevisions
    rfl
  have hdirectory : d.newRoot.directory = ⟨∅⟩ := by
    apply congrArg SectionDirectoryRoot.mk
    apply Std.ExtTreeMap.ext_getElem?
    intro id
    rw [hdraft.unchanged id (by rw [hsealed.request_eq]; exact hnever id), hview]
    rfl
  have hfrontier : d.newRoot.dirtyFrontier = ⟨"world", 1, ∅⟩ := by
    have hentries : token.dirty.entries = ∅ := by
      apply Std.ExtTreeMap.ext_getElem?
      intro id
      rw [hsealed.recorded.other id (hnever id), hbase]
      rfl
    have hworld := hsealed.recorded.worldId
    have hgeneration := hsealed.recorded.generation
    rw [hbase] at hworld hgeneration
    rw [hdraft.dirtyFrontier]
    generalize token.dirty = dirty at *
    rcases dirty with ⟨worldId, generation, entries⟩
    subst hworld hgeneration hentries
    rfl
  have hreplacement : d.replacement = ⟨∅⟩ := by
    rw [hdraft.replacement]
    apply congrArg SectionReplacement.mk
    apply Std.ExtTreeMap.ext_getElem?
    intro id
    exact (hsealed.untouched id (hnever id)).trans (BTreeMap.getElem?_empty id).symm
  rw [PublishedStateRoot.incorporateReplacement, hnewStamp, hdirectory, hfrontier, hreplacement]
  rfl

omit [UnicodeTables] in
theorem bareRoot_identity_ne : letI := asciiOnly
    bareRoot.identity ≠ bareNext.identity := by decide +kernel

end Bare

/-! ## 4. Commit semantics -/

section Main

variable [UnicodeTables]

/-- **Commit semantics.** A freshly prepared token committed over the root it was
prepared from has exactly the effect of its request. -/
theorem commit_effect (request : MutationRequest) (view : PublishedReadView)
    (ledger ledger₁ ledger₂ : ReceiptLedger) (authority authority' : PublicationAuthority)
    (token : PreparedMutation) (receipt : MutationReceipt) (hview : view.root = authority.root)
    (hprepare : prepare request view ledger = (.ok token, ledger₁))
    (hfresh : token.replayReceipt = none)
    (hcommit : commit token authority ledger₁ = (.ok receipt, authority', ledger₂)) :
    CommitEffect request authority.root authority'.root receipt := by
  rcases prepare_cases request view ledger with ⟨err, herr, -⟩ |
    ⟨stored, token', -, hreplay, -, hreceipt, -⟩ |
    ⟨token', ledger', hvacant, hreserve, hprepare', -, hsealed⟩
  · rw [hprepare] at herr
    cases herr
  · rw [hprepare] at hreplay
    obtain ⟨htoken, -⟩ := Prod.mk.inj hreplay
    rw [Except.ok.inj htoken, hreceipt] at hfresh
    cases hfresh
  · rw [hprepare] at hprepare'
    obtain ⟨htoken, rfl⟩ := Prod.mk.inj hprepare'
    obtain rfl := Except.ok.inj htoken
    rcases commit_cases token authority ledger₁ with ⟨err, authority₁, herr, -⟩ |
      ⟨stored, hdup, -⟩ | ⟨d, receipt', authority₁, ledger', -, hcommit', hdone⟩
    · rw [hcommit] at herr
      cases herr
    · -- the entry was reserved just now, so it has no receipt
      obtain ⟨-, entry, hentry, -, hreceipt⟩ := ReceiptLedger.lookup_duplicate.mp hdup
      obtain ⟨-, hnone⟩ := ReceiptLedger.lookup_vacant.mp hvacant
      obtain ⟨-, hentries, -⟩ := ReceiptLedger.reserve_of_vacant hnone hreserve
      rw [hsealed.request_eq, hentries, BTreeMap.getElem?_insert, if_pos rfl] at hentry
      rw [← Option.some.inj hentry] at hreceipt
      cases hreceipt
    · rw [hcommit] at hcommit'
      obtain ⟨hok, hrest⟩ := Prod.mk.inj hcommit'
      obtain ⟨rfl, rfl⟩ := Prod.mk.inj hrest
      obtain rfl := Except.ok.inj hok
      have hsame : PublishedStateRoot.SameCut authority.capture.1.root view.root := by
        rw [hview]
        exact .refl _
      exact commitEffect_of_committed hsealed hsame hdone

omit [UnicodeTables] in
/-- Two writes to one cell: the new root reads the later one. -/
theorem commit_effect_twoWrites : ∃ new receipt,
    @CommitEffect asciiOnly (originRequest "txn" [(⟨5, by decide⟩, ⟨1⟩), (⟨5, by decide⟩, ⟨2⟩)])
        (oneSectionRoot ⟨0⟩) new receipt ∧
      new.readCell originSection ⟨5, by decide⟩ = some ⟨2⟩ := by
  let _ := asciiOnly
  obtain ⟨authority, -, hroot, hroom⟩ := exists_oneSectionAuthority ⟨0⟩
  have hprep : Preparable (originRequest "txn" [(⟨5, by decide⟩, ⟨1⟩), (⟨5, by decide⟩, ⟨2⟩)])
      authority.capture.1 emptyLedger :=
    originRequest_preparable hroot (by decide) (by decide)
  obtain ⟨token, ledger₁, d, receipt, authority', ledger₂, hprepare, hsealed, hcommit, -⟩ :=
    prepare_commit_of hprep (by rw [hroot]; exact oneSectionRoot_keys ⟨0⟩) hroom
  have heffect := commit_effect _ authority.capture.1 emptyLedger ledger₁ ledger₂ authority authority'
    token receipt rfl hprepare hsealed.fresh hcommit
  rw [hroot] at heffect
  refine ⟨authority'.root, receipt, heffect, ?_⟩
  rw [heffect.cells]
  rfl

end Main

/-! ## 5. Failures -/

/-- The receipt a ledger stores for a transaction, and the evidence. -/
def ReceiptLedger.storedReceipt (ledger : ReceiptLedger) (txnId : String) : Option Bytes :=
  ledger.entries[txnId]?.bind (·.receipt)

def ReceiptLedger.storedEvidence (ledger : ReceiptLedger) (txnId : String) :
    Option ReceiptEvidence :=
  ledger.entries[txnId]?.bind (·.evidence)

/-- No transaction has another status, receipt or evidence. -/
def SameRecords (old new : ReceiptLedger) : Prop :=
  ∀ txnId, new.status txnId = old.status txnId ∧
    new.storedReceipt txnId = old.storedReceipt txnId ∧
    new.storedEvidence txnId = old.storedEvidence txnId

theorem sameRecords_of_entries {old new : ReceiptLedger} (h : new.entries = old.entries) :
    SameRecords old new := fun txnId => by
  simp only [ReceiptLedger.status, ReceiptLedger.storedReceipt, ReceiptLedger.storedEvidence, h,
    and_self]

section Failures

variable [UnicodeTables]

/-- A cut at the last world revision. -/
def exhaustedView : PublishedReadView :=
  let root : PublishedStateRoot :=
    .new (toRevisionStamp "world" "context" 1 0xffffffffffffffff []) ⟨∅⟩ ⟨"world", 1, ∅⟩
  ⟨root, ⟨root.stamp, 0⟩⟩

/-- **All or nothing.** However prepare or commit fails, the records of the
ledger are those before the call, and so is the published root: prepare is not
given the authority, and commit leaves it with the root it had. -/
theorem failure_unchanged (request : MutationRequest) (view : PublishedReadView)
    (token : PreparedMutation) (authority : PublicationAuthority) (ledger : ReceiptLedger) :
    (∀ err ledger', prepare request view ledger = (.error err, ledger') →
      SameRecords ledger ledger') ∧
    (∀ err authority' ledger', commit token authority ledger = (.error err, authority', ledger') →
      authority'.root = authority.root ∧ SameRecords ledger ledger') := by
  refine ⟨fun err ledger' hprepare => ?_, fun err authority' ledger' hcommit => ?_⟩
  · rcases prepare_cases request view ledger with ⟨-, -, hentries, -⟩ |
      ⟨stored, token', -, hok, -⟩ | ⟨token', ledger₁, -, -, hok, -⟩
    · rw [hprepare] at hentries
      exact sameRecords_of_entries hentries
    · rw [hprepare] at hok
      cases hok
    · rw [hprepare] at hok
      cases hok
  · rcases commit_cases token authority ledger with ⟨err', authority₁, herr, hroot, -⟩ |
      ⟨stored, -, hok⟩ | ⟨d, receipt, authority₁, ledger₁, -, hok, -⟩
    · rw [hcommit] at herr
      obtain ⟨-, hrest⟩ := Prod.mk.inj herr
      obtain ⟨rfl, rfl⟩ := Prod.mk.inj hrest
      exact ⟨hroot, sameRecords_of_entries rfl⟩
    · rw [hcommit] at hok
      cases hok
    · rw [hcommit] at hok
      cases hok

omit [UnicodeTables] in
/-- A reservation undone after its world ran out of revisions, and a token whose
transaction is not in the ledger. -/
theorem failure_unchanged_exhausted :
    ∃ (token : PreparedMutation) (ledger' : ReceiptLedger)
      (authority authority' : PublicationAuthority),
      @prepare asciiOnly (originRequest "txn" []) exhaustedView emptyLedger =
        (.error .invalidHandle, ledger') ∧ SameRecords emptyLedger ledger' ∧
      @commit asciiOnly token authority emptyLedger =
        (.error .invalidHandle, authority', emptyLedger) ∧ authority'.root = authority.root := by
  let _ := asciiOnly
  obtain ⟨authority, -, hroot, hroom⟩ := exists_oneSectionAuthority ⟨0⟩
  have hprep : Preparable (originRequest "txn" []) authority.capture.1 emptyLedger :=
    originRequest_preparable hroot (by decide) (by decide)
  obtain ⟨token, ledger₁, hprepare, -, hsealed⟩ := prepare_of hprep
  have hunchanged :=
    failure_unchanged (originRequest "txn" []) exhaustedView token authority emptyLedger
  have hexhausted : (prepare (originRequest "txn" []) exhaustedView emptyLedger).1 =
      .error .invalidHandle := by
    decide +kernel
  have hvacant : commit token authority emptyLedger =
      (.error .invalidHandle, authority, emptyLedger) := by
    refine commit_of_vacant (ReceiptLedger.lookup_vacant.mpr ?_)
    rw [hsealed.request_eq]
    exact ⟨emptyLedger_admits ⟨show "txn" ≠ "" by decide, show "world" ≠ "" by decide⟩,
      BTreeMap.getElem?_empty _⟩
  obtain ⟨⟨result, ledger'⟩, hprepared⟩ :
      ∃ outcome, prepare (originRequest "txn" []) exhaustedView emptyLedger = outcome := ⟨_, rfl⟩
  rw [hprepared] at hexhausted
  rw [show result = .error .invalidHandle from hexhausted] at hprepared
  exact ⟨token, ledger', authority, authority, hprepared, hunchanged.1 _ _ hprepared, hvacant,
    (hunchanged.2 _ _ _ hvacant).1⟩

end Failures

/-! ## 6. Sections a request does not name -/

/-- A first cut with two resident sections; neither has a revision of its own. -/
def twoSectionRoot : PublishedStateRoot :=
  .new (toRevisionStamp "world" "context" 1 0 [])
    ⟨((∅ : BTreeMap SectionId SectionSlot).insert neighbourSection
      (.ready (.ofStorage (.uniform ⟨0⟩)))).insert originSection
        (.ready (.ofStorage (.uniform ⟨0⟩)))⟩
    ⟨"world", 1, ∅⟩

theorem twoSectionRoot_unlisted (key : String) :
    twoSectionRoot.stamp.sectionRevisionSet[key]? = none := BTreeMap.getElem?_empty key

section Unnamed

variable [UnicodeTables]

/-- **Unnamed sections.** A commit keeps the effective revision of a section its
request does not name exactly when the section has a revision of its own: without
one it counts at the world revision, which every commit advances. -/
theorem unnamed_revision_kept_iff (request : MutationRequest) (base : PublishedReadView)
    (before after ledger ledger' : ReceiptLedger) (authority authority' : PublicationAuthority)
    (token : PreparedMutation) (receipt : MutationReceipt)
    (hprepare : prepare request base before = (.ok token, after))
    (hfresh : token.replayReceipt = none)
    (hflight : ledger.lookup token.request = .ok .inFlight)
    (hcommit : commit token authority ledger = (.ok receipt, authority', ledger'))
    (hfree : PublishedStateRoot.CollisionFree fun r => r = base.root ∨ r = authority.root)
    (id : SectionId) (hname : ¬ request.Names id) :
    authority'.root.stamp.effectiveRevision id.key = authority.root.stamp.effectiveRevision id.key ↔
      authority.root.stamp.sectionRevisionSet[id.key]? ≠ none := by
  obtain ⟨hsealed⟩ : Nonempty (SealedFrom request base before.configHash token) := by
    rcases prepare_cases request base before with ⟨err, herr, -⟩ |
      ⟨stored, token', -, hreplay, -, hreceipt, -⟩ | ⟨token', ledger', -, -, hok, -, hsealed⟩
    · rw [hprepare] at herr
      cases herr
    · rw [hprepare] at hreplay
      obtain rfl := Except.ok.inj (Prod.mk.inj hreplay).1
      rw [hreceipt] at hfresh
      cases hfresh
    · rw [hprepare] at hok
      obtain rfl := Except.ok.inj (Prod.mk.inj hok).1
      exact ⟨hsealed⟩
  rcases commit_cases token authority ledger with ⟨err, authority₁, herr, -⟩ | ⟨stored, hdup, -⟩ |
    ⟨d, receipt', authority₁, ledger₁, -, hok, hdone⟩
  · rw [hcommit] at herr
    cases herr
  · rw [hflight] at hdup
    cases hdup
  · rw [hcommit] at hok
    obtain ⟨rfl, rfl⟩ := Prod.mk.inj (Prod.mk.inj hok).2
    have hdraft := hdone.draftOf
    have hidentity : base.root.identity = authority.root.identity :=
      hsealed.baseIdentity_eq.symm.trans hdraft.baseIdentity
    have hworld : base.root.stamp.worldRevision = authority.root.stamp.worldRevision := by
      rw [(hfree _ _ (.inl rfl) (.inr rfl) hidentity).stamp]
    have hnewWorld := checkedSucc_eq_some.mp hsealed.target
    have hentry : authority'.root.stamp.sectionRevisionSet[id.key]? =
        authority.root.stamp.sectionRevisionSet[id.key]? := by
      rw [hdone.root]
      refine hdraft.stamp.kept id.key fun id' hid' => hsealed.untouched id' ?_
      rw [← SectionId.key_injective hid']
      exact hname
    have htarget : authority'.root.stamp.worldRevision = token.targetWorldRevision := by
      rw [hdone.root]
      exact hdraft.stamp.world
    simp only [RevisionStamp.effectiveRevision, hentry, htarget]
    cases hlisted : authority.root.stamp.sectionRevisionSet[id.key]? with
    | some revision => simp only [Option.getD_some, ne_eq, reduceCtorEq, not_false_eq_true]
    | none =>
      simp only [Option.getD_none, ne_eq, not_true_eq_false, iff_false]
      intro heq
      rw [heq, hworld] at hnewWorld
      omega

end Unnamed

section TwoSections

/-- The two resident sections over an authority, and a write to the first. -/
private theorem exists_twoSectionCommit : letI := asciiOnly
    ∃ (authority authority' : PublicationAuthority) (token : PreparedMutation)
      (after ledger' : ReceiptLedger) (receipt : MutationReceipt),
      authority.root = twoSectionRoot ∧
      prepare (originRequest "txn" [(⟨5, by decide⟩, ⟨1⟩)]) authority.capture.1 emptyLedger =
        (.ok token, after) ∧
      token.replayReceipt = none ∧ after.lookup token.request = .ok .inFlight ∧
      commit token authority after = (.ok receipt, authority', ledger') ∧
      CommitEffect (originRequest "txn" [(⟨5, by decide⟩, ⟨1⟩)]) authority.root authority'.root
        receipt := by
  let _ := asciiOnly
  obtain ⟨authority, -, hroot, -, -, -, hroom⟩ :=
    PublicationAuthority.new_of (show "world" ≠ "" ∧ "context" ≠ "" by decide)
      (show twoSectionRoot.stamp.BelongsTo "world" "context" 1 from ⟨rfl, rfl, rfl, rfl⟩)
      (show 7 + 1 ≤ 8 by decide) (by decide)
  have hentry : authority.capture.1.root.directory.entries[originSection]? =
      some (.ready (.ofStorage (.uniform ⟨0⟩))) := by
    rw [PublicationAuthority.capture_view_root, hroot]
    exact Std.ExtTreeMap.getElem?_insert_self
  have hprep : Preparable (originRequest "txn" [(⟨5, by decide⟩, ⟨1⟩)]) authority.capture.1
      emptyLedger := by
    refine preparable_of_firstStamp ?_ hentry (emptyLedger_vacant (by decide) _) (by decide)
      (by decide)
    rw [PublicationAuthority.capture_view_root, hroot]
    rfl
  obtain ⟨token, after, hprepare, hsealed, hlookup, hdraftable⟩ := prepare_draft_of hprep
    (fun key hkey => by
      rw [PublicationAuthority.capture_view_root, hroot] at hkey
      exact absurd (twoSectionRoot_unlisted key) hkey)
  obtain ⟨d, hdraft⟩ := hdraftable authority.capture.1 rfl
  obtain ⟨receipt, authority', ledger', hcommit, hdone, -⟩ := commit_of hlookup hdraft hroom
  exact ⟨authority, authority', token, after, ledger', receipt, hroot, hprepare, hsealed.fresh,
    hlookup, hcommit, commitEffect_of_committed hsealed (.refl _) hdone⟩

private theorem neighbour_not_named (txnId : String) (writes : List (CellOffset × BlockId)) :
    ¬ (originRequest txnId writes).Names neighbourSection := by
  intro hname
  exact absurd (originRequest_names hname) (by decide)

/-- A section with no revision of its own counts at another one after a commit
that does not name it. -/
theorem unnamed_revision_moves : letI := asciiOnly
    ∃ (authority authority' : PublicationAuthority) (token : PreparedMutation)
      (after ledger' : ReceiptLedger) (receipt : MutationReceipt),
      prepare (originRequest "txn" [(⟨5, by decide⟩, ⟨1⟩)]) authority.capture.1 emptyLedger =
        (.ok token, after) ∧
      commit token authority after = (.ok receipt, authority', ledger') ∧
      ¬ (originRequest "txn" [(⟨5, by decide⟩, ⟨1⟩)]).Names neighbourSection ∧
      authority.root.directory.entries[neighbourSection]? ≠ none ∧
      authority'.root.stamp.effectiveRevision neighbourSection.key ≠
        authority.root.stamp.effectiveRevision neighbourSection.key := by
  let _ := asciiOnly
  obtain ⟨authority, authority', token, after, ledger', receipt, hroot, hprepare, -, -, hcommit,
    heffect⟩ := exists_twoSectionCommit
  refine ⟨authority, authority', token, after, ledger', receipt, hprepare, hcommit,
    neighbour_not_named _ _, ?_, ?_⟩
  · rw [hroot]
    have hentry : twoSectionRoot.directory.entries[neighbourSection]? =
        some (.ready (.ofStorage (.uniform ⟨0⟩))) :=
      (BTreeMap.getElem?_insert_ne _ (by decide) _).trans
        Std.ExtTreeMap.getElem?_insert_self
    rw [hentry]
    exact Option.some_ne_none _
  · have hunlisted := heffect.unnamed neighbourSection.key fun id hname hkey =>
      neighbour_not_named _ _ (SectionId.key_injective hkey ▸ hname)
    have hworld := heffect.world
    simp only [RevisionStamp.effectiveRevision, hunlisted]
    rw [hroot] at hworld ⊢
    rw [twoSectionRoot_unlisted, Option.getD_none, Option.getD_none]
    intro heq
    rw [heq] at hworld
    omega

/-- The same commit, through the general theorem. -/
theorem unnamed_revision_kept_iff_neighbour : letI := asciiOnly
    ∃ (authority authority' : PublicationAuthority), authority.root = twoSectionRoot ∧
      (authority'.root.stamp.effectiveRevision neighbourSection.key =
        authority.root.stamp.effectiveRevision neighbourSection.key ↔
      authority.root.stamp.sectionRevisionSet[neighbourSection.key]? ≠ none) := by
  let _ := asciiOnly
  obtain ⟨authority, authority', token, after, ledger', receipt, hroot, hprepare, hfresh, hlookup,
    hcommit, -⟩ := exists_twoSectionCommit
  have hfree : PublishedStateRoot.CollisionFree
      fun r => r = authority.capture.1.root ∨ r = authority.root := by
    rintro a b (rfl | rfl) (rfl | rfl) -
    all_goals exact .refl _
  exact ⟨authority, authority', hroot, unnamed_revision_kept_iff _ _ _ _ _ _ _ _ _ _ hprepare hfresh
    hlookup hcommit hfree neighbourSection (neighbour_not_named _ _)⟩

end TwoSections

end LumioVoxel
