import LumioVoxel.CommitSemantics
import LumioVoxel.RootIdentity

/-!
# Filling a section

A request that writes one block to every cell of a resident section leaves a storage whose
canonical bytes are those of a section of that block.  So the cut it publishes looks like a cut
that can be written down, and the identities of such cuts can be computed and compared.
-/

namespace LumioVoxel

open DebugText Fallible

/-! ## 1. Sections of one block -/

theorem SectionStorage.encodedPayload_of_read {storage : SectionStorage} {block : BlockId}
    (h : ∀ offset, storage.read offset = block) :
    storage.encodedPayload = u32LeBytes block.raw := by
  have hsame : storage.compacted = (SectionStorage.uniform block).compacted :=
    SectionStorage.compacted_eq_iff.mpr h
  rw [← SectionStorage.encodedPayload_compacted, hsame, SectionStorage.encodedPayload_compacted]
  simp only [SectionStorage.encodedPayload, SectionStorage.compacted_uniform]
  rfl

/-- The payload of a section of one block, its page spelled out. -/
def SectionPayload.ofBlock (block : BlockId) : SectionPayload where
  pages := [⟨"Dense", "None", u32LeBytes block.raw, sha256 (u32LeBytes block.raw), rfl⟩]
  storage := some (.uniform block)
  sidecar := congrArg (fun bytes => [bytes])
    (SectionStorage.encodedPayload_of_read fun _ => rfl).symm

theorem SectionPayload.ofBlock_eq (block : BlockId) :
    SectionPayload.ofBlock block = .ofStorage (.uniform block) := by
  have hbytes : (SectionStorage.uniform block).encodedPayload = u32LeBytes block.raw :=
    SectionStorage.encodedPayload_of_read fun _ => rfl
  simp only [SectionPayload.ofBlock, SectionPayload.ofStorage, SectionPayload.storagePage, hbytes]

/-- A storage that reads one block everywhere shows as a section of that block. -/
theorem SectionSlot.face_of_read {storage : SectionStorage} {block : BlockId}
    (h : ∀ offset, storage.read offset = block) :
    (SectionSlot.ready (.ofStorage storage)).face = (SectionSlot.ready (.ofBlock block)).face := by
  rw [SectionPayload.ofBlock_eq]
  exact face_eq_of_read h

/-! ## 2. Requests that fill a section -/

/-- Every cell of a section. -/
def CellOffset.all : List CellOffset :=
  (List.finRange SECTION_CELLS).map fun (i : Fin SECTION_CELLS) => ⟨UInt16.ofNat i, by
    rw [UInt16.toNat_ofNat', Nat.mod_eq_of_lt (Nat.lt_trans i.isLt (by decide))]
    exact Nat.le_of_lt_succ i.isLt⟩

theorem CellOffset.mem_all (offset : CellOffset) : offset ∈ CellOffset.all := by
  refine List.mem_map.mpr ⟨⟨offset.index, offset.index_lt⟩, List.mem_finRange _, ?_⟩
  apply CellOffset.index_injective
  show (UInt16.ofNat offset.index).toNat = offset.index
  rw [UInt16.toNat_ofNat', Nat.mod_eq_of_lt (Nat.lt_trans offset.index_lt (by decide))]

theorem CellOffset.length_all : CellOffset.all.length = SECTION_CELLS := by
  rw [CellOffset.all, List.length_map, List.length_finRange]

/-- One block for every cell of one section, and nothing else. -/
structure MutationRequest.Fills (request : MutationRequest) (id : SectionId) (block : BlockId) :
    Prop where
  names : ∀ other, request.Names other ↔ other = id
  writes : ∀ offset, request.lastWrite id offset = some block

def fillRequest (txnId : String) (id : SectionId) (block : BlockId) (revision : UInt64) :
    MutationRequest :=
  ⟨txnId, "world", 1, CellOffset.all.map fun offset => ⟨id.key, offset, block, revision⟩⟩

section Fills

variable {txnId : String} {id : SectionId} {block : BlockId} {revision : UInt64}

theorem mem_fillRequest {entry : MutationEntry} :
    entry ∈ (fillRequest txnId id block revision).entries ↔
      ∃ offset, entry = ⟨id.key, offset, block, revision⟩ := by
  simp only [fillRequest, List.mem_map, CellOffset.mem_all, true_and, eq_comm]

theorem length_fillRequest :
    (fillRequest txnId id block revision).entries.length = SECTION_CELLS := by
  rw [fillRequest, List.length_map, CellOffset.length_all]

theorem fillRequest_fills : (fillRequest txnId id block revision).Fills id block where
  names := by
    intro other
    constructor
    · intro hname
      obtain ⟨entry, hentry⟩ := List.exists_mem_of_ne_nil _ hname
      obtain ⟨hin, hkey⟩ := List.mem_filter.mp hentry
      obtain ⟨offset, rfl⟩ := mem_fillRequest.mp hin
      exact (SectionId.key_injective (of_decide_eq_true hkey)).symm
    · rintro rfl
      exact List.ne_nil_of_mem
        (List.mem_filter.mpr ⟨mem_fillRequest.mpr ⟨⟨0, by decide⟩, rfl⟩, decide_eq_true rfl⟩)
  writes := by
    intro offset
    -- there is an entry for the cell, and all of them write the block
    rw [MutationRequest.lastWrite]
    cases hlast : ((fillRequest txnId id block revision).entries.filter fun entry =>
        entry.sectionKey = id.key ∧ entry.cellOffset = offset).getLast? with
    | none =>
      have hin : (⟨id.key, offset, block, revision⟩ : MutationEntry) ∈
          (fillRequest txnId id block revision).entries := mem_fillRequest.mpr ⟨offset, rfl⟩
      have hnone := List.filter_eq_nil_iff.mp (List.getLast?_eq_none_iff.mp hlast) _ hin
      exact absurd (decide_eq_true ⟨rfl, rfl⟩) hnone
    | some entry =>
      obtain ⟨hin, -⟩ := List.mem_filter.mp (List.mem_of_getLast? hlast)
      obtain ⟨offset', rfl⟩ := mem_fillRequest.mp hin
      rfl

end Fills

/-! ## 3. The cut after a fill -/

section Cuts

variable [UnicodeTables]

namespace PublishedStateRoot

/-- The cut after a request that fills one section with one block. -/
def filled (root : PublishedStateRoot) (id : SectionId) (block : BlockId) : PublishedStateRoot :=
  let revision := root.stamp.effectiveRevision id.key + 1
  (new ⟨REVISION_STAMP_SCHEMA, root.stamp.worldId, root.stamp.contextId, root.stamp.generation,
      root.stamp.worldRevision + 1, root.stamp.sectionRevisionSet.insert id.key revision⟩
    ⟨root.directory.entries.insert id (.ready (.ofBlock block))⟩
    { root.dirtyFrontier with
      entries := root.dirtyFrontier.entries.insert id
        (DirtyFrontier.recordEntry root.dirtyFrontier.entries[id]? revision
          "mutation") }).incorporateReplacement
    ⟨(∅ : BTreeMap SectionId SectionSlot).insert id (.ready (.ofBlock block))⟩

/-- The cut after every mark is acknowledged. -/
def settled (root : PublishedStateRoot) : PublishedStateRoot :=
  (new root.stamp root.directory { root.dirtyFrontier with entries := ∅ }).incorporateReplacement
    ⟨∅⟩

/-- The cut after an unload. -/
def ticketed (root : PublishedStateRoot) (id : SectionId) : PublishedStateRoot :=
  (new root.stamp ⟨root.directory.entries.insert id .unchanged⟩
    root.dirtyFrontier).incorporateReplacement
    ⟨(∅ : BTreeMap SectionId SectionSlot).insert id .unchanged⟩

/-- The cut after a restore of a snapshot that lists one section. -/
def rewound (root : PublishedStateRoot) (id : SectionId) : PublishedStateRoot :=
  (new root.stamp ⟨(∅ : BTreeMap SectionId SectionSlot).insert id .unchanged⟩
    ⟨root.stamp.worldId, root.stamp.generation, ∅⟩).incorporateReplacement ⟨∅⟩

end PublishedStateRoot

/-- Replacements of one ready section have one digest when the slots look alike. -/
theorem SectionReplacement.digest_of_face {payload payload' : SectionPayload}
    (h : (SectionSlot.ready payload).face = (SectionSlot.ready payload').face) (id : SectionId) :
    digest ⟨(∅ : BTreeMap SectionId SectionSlot).insert id (.ready payload)⟩ =
      digest ⟨(∅ : BTreeMap SectionId SectionSlot).insert id (.ready payload')⟩ := by
  have hdigest : payload.replacementIdentityDigest = payload'.replacementIdentityDigest := by
    rcases payload with ⟨pages, storage, hsidecar⟩
    rcases payload' with ⟨pages', storage', hsidecar'⟩
    obtain rfl : pages = pages' := congrArg (·.1.2) h
    have hstorage : storage.isSome = storage'.isSome := congrArg Prod.snd h
    cases storage with
    | none =>
      obtain rfl := Option.isNone_iff_eq_none.mp (Option.isSome_eq_false_iff.mp hstorage.symm)
      rfl
    | some storage =>
      obtain ⟨_, rfl⟩ := Option.isSome_iff_exists.mp hstorage.symm
      rfl
  simp only [digest, BTreeMap.toList_insert_empty, List.flatMap_singleton, SectionSlot.presence,
    SectionSlot.payload, hdigest]

section Filled

variable {request : MutationRequest} {base view : PublishedReadView} {configHash : String}
  {token : PreparedMutation} {ledger : ReceiptLedger} {d : CommitDraft} {id : SectionId}
  {block : BlockId} {known : PublishedStateRoot}

/-- The replacement of a filled section is the only one. -/
theorem replacement_of_fills (hsealed : SealedFrom request base configHash token)
    (hfills : request.Fills id block) : ∃ storage : SectionStorage,
      (∀ offset, storage.read offset = block) ∧ token.replacement =
        ⟨(∅ : BTreeMap SectionId SectionSlot).insert id (.ready (.ofStorage storage))⟩ := by
  obtain ⟨-, storage, payload, -, -, hslot, rfl⟩ :=
    hsealed.edited id ((hfills.names id).mpr rfl)
  refine ⟨editedStorage storage (request.entriesFor id.key), fun offset => ?_, ?_⟩
  · rw [read_editedStorage, ← request.lastWrite_eq, hfills.writes]
    rfl
  · suffices hentries : token.replacement.entries = _ from congrArg SectionReplacement.mk hentries
    apply BTreeMap.eq_insert hslot
    intro other hne
    rw [BTreeMap.getElem?_empty]
    exact hsealed.untouched other fun hname => hne ((hfills.names other).mp hname)

/-- The world and the filled section are one revision further. -/
theorem stamp_filled (hsealed : SealedFrom request base configHash token)
    (hdraft : DraftOf token view ledger d) (hfills : request.Fills id block)
    (hbase : base.root.Alike known) (hview : view.root.Alike known) :
    d.newRoot.stamp = (known.filled id block).stamp := by
  obtain ⟨storage, -, hreplacement⟩ := replacement_of_fills hsealed hfills
  have hname : token.request.Names id := hsealed.request_eq ▸ (hfills.names id).mpr rfl
  have hslot : token.replacement.entries[id]? = some (.ready (.ofStorage storage)) := by
    rw [hreplacement]
    exact Std.ExtTreeMap.getElem?_insert_self
  have hstamp := hdraft.stamp
  obtain ⟨next, hnext, hrevision⟩ := hstamp.replaced id _ (.inl hname) hslot
  obtain rfl := checkedSucc_eq_succ hnext
  have hset : d.newRoot.stamp.sectionRevisionSet = known.stamp.sectionRevisionSet.insert id.key
      (known.stamp.effectiveRevision id.key + 1) := by
    rw [← hview.stamp]
    apply BTreeMap.eq_insert hrevision
    intro key hkey
    apply hstamp.kept key
    rintro other rfl
    apply hsealed.untouched other
    exact fun hother => hkey (congrArg SectionId.key ((hfills.names other).mp hother))
  have hworldRevision := hstamp.world
  rw [checkedSucc_eq_succ hsealed.target, hbase.stamp] at hworldRevision
  obtain ⟨hschema, hworld, hcontext, hgeneration⟩ := hstamp.belongs
  rw [hview.stamp] at hworld hcontext hgeneration
  generalize d.newRoot.stamp = new at *
  rcases new with ⟨schemaId, worldId, contextId, generation, worldRevision, revisions⟩
  subst hschema hworld hcontext hgeneration hworldRevision hset
  rfl

/-- One mark more. -/
theorem dirtyFrontier_filled (hsealed : SealedFrom request base configHash token)
    (hdraft : DraftOf token view ledger d) (hfills : request.Fills id block)
    (hbase : base.root.Alike known) :
    d.newRoot.dirtyFrontier = (known.filled id block).dirtyFrontier := by
  obtain ⟨next, hnext, hmark⟩ := hsealed.recorded.named id ((hfills.names id).mpr rfl)
  obtain rfl := checkedSucc_eq_succ hnext
  have hentries : token.dirty.entries = known.dirtyFrontier.entries.insert id
      (DirtyFrontier.recordEntry known.dirtyFrontier.entries[id]?
        (known.stamp.effectiveRevision id.key + 1) "mutation") := by
    rw [← hbase.dirtyFrontier, ← hbase.stamp]
    apply BTreeMap.eq_insert hmark
    intro other hne
    exact hsealed.recorded.other other fun h => hne ((hfills.names other).mp h)
  have hworld := hsealed.recorded.worldId
  have hgeneration := hsealed.recorded.generation
  rw [hbase.dirtyFrontier] at hworld hgeneration
  rw [hdraft.dirtyFrontier]
  generalize token.dirty = dirty at *
  rcases dirty with ⟨worldId, generation, entries⟩
  subst hworld hgeneration hentries
  rfl

/-- **Fills.** What a committed fill publishes looks like the filled cut. -/
theorem alike_filled (hsealed : SealedFrom request base configHash token)
    (hdraft : DraftOf token view ledger d) (hfills : request.Fills id block)
    (hbase : base.root.Alike known) (hview : view.root.Alike known) :
    (d.newRoot.incorporateReplacement d.replacement).Alike (known.filled id block) := by
  obtain ⟨storage, hread, hreplacement⟩ := replacement_of_fills hsealed hfills
  have hname : token.request.Names id := hsealed.request_eq ▸ (hfills.names id).mpr rfl
  refine ⟨stamp_filled hsealed hdraft hfills hbase hview, fun other => ?_,
    dirtyFrontier_filled hsealed hdraft hfills hbase, ?_⟩
  · -- only the filled section has another slot
    show d.newRoot.directory.entries[other]?.map SectionSlot.face =
      (known.directory.entries.insert id (.ready (.ofBlock block)))[other]?.map SectionSlot.face
    rw [BTreeMap.getElem?_insert]
    split
    · rename_i heq
      rw [← heq, (hdraft.changed id hname).2, hreplacement, Std.ExtTreeMap.getElem?_insert_self,
        Option.map_some, Option.map_some, SectionSlot.face_of_read hread]
    · rename_i hne
      have hunnamed : ¬ token.request.Names other := by
        rw [hsealed.request_eq]
        exact fun h => hne ((hfills.names other).mp h).symm
      rw [hdraft.unchanged other hunnamed, hview.slots]
  · show some d.replacement.digest = some _
    rw [hdraft.replacement, hreplacement,
      SectionReplacement.digest_of_face (SectionSlot.face_of_read hread) id]

end Filled

omit [UnicodeTables] in
/-- What looks like a resident section with a storage is one. -/
theorem PublishedStateRoot.Alike.resident {a b : PublishedStateRoot} (h : a.Alike b)
    {id : SectionId} {payload : SectionPayload} {storage : SectionStorage}
    (hentry : b.directory.entries[id]? = some (.ready payload))
    (hstorage : payload.storage = some storage) : ∃ payload storage,
      a.directory.entries[id]? = some (.ready payload) ∧ payload.storage = some storage := by
  have hface := h.slots id
  rw [hentry, Option.map_some, Option.map_eq_some_iff] at hface
  obtain ⟨slot, hslot, hface⟩ := hface
  have hsome : slot.storage.isSome = true := by
    have hsame : slot.storage.isSome = payload.storage.isSome := congrArg Prod.snd hface
    rw [hsame, hstorage]
    rfl
  obtain ⟨storage, hsome⟩ := Option.isSome_iff_exists.mp hsome
  obtain ⟨payload, hpayload, hstorage⟩ := Option.bind_eq_some_iff.mp hsome
  cases slot <;> cases hpayload
  exact ⟨payload, storage, hslot, hstorage⟩

/-- A cut over which a section can be filled. -/
structure PublishedStateRoot.Fillable (root : PublishedStateRoot) (id : SectionId) : Prop where
  worldId : root.stamp.worldId = "world"
  generation : root.stamp.generation = 1
  resident : ∃ payload storage, root.directory.entries[id]? = some (.ready payload) ∧
    payload.storage = some storage
  revision : ∃ next, checkedSucc (root.stamp.effectiveRevision id.key) = some next
  world : ∃ target, checkedSucc root.stamp.worldRevision = some target
  canonical : ∀ key : String, root.stamp.sectionRevisionSet[key]? ≠ none →
    ∃ id : SectionId, key = id.key

omit [UnicodeTables] in
theorem fillRequest_vacant {txnId : String} (htxn : txnId ≠ "") (id : SectionId) (block : BlockId)
    (revision : UInt64) :
    emptyLedger.lookup (fillRequest txnId id block revision) = .ok .vacant :=
  ReceiptLedger.lookup_vacant.mpr
    ⟨emptyLedger_admits ⟨htxn, show "world" ≠ "" by decide⟩, BTreeMap.getElem?_empty _⟩

omit [UnicodeTables] in
theorem fillRequest_preparable {known : PublishedStateRoot} {view : PublishedReadView}
    {ledger : ReceiptLedger} {txnId : String} {id : SectionId} {block : BlockId}
    (hview : view.root.Alike known) (h : known.Fillable id)
    (hvacant : ledger.lookup (fillRequest txnId id block (known.stamp.effectiveRevision id.key)) =
      .ok .vacant) (hroom : ledger.entries.size < ledger.maxEntries) :
    Preparable (fillRequest txnId id block (known.stamp.effectiveRevision id.key)) view ledger where
  worldId := by rw [hview.stamp, h.worldId, fillRequest]
  generation := by rw [hview.stamp, h.generation, fillRequest]
  vacant := hvacant
  room := hroom
  size := by
    rw [length_fillRequest]
    decide
  canonical := by
    intro entry hin
    obtain ⟨offset, rfl⟩ := mem_fillRequest.mp hin
    exact ⟨id, rfl⟩
  expected := by
    intro entry hin
    obtain ⟨offset, rfl⟩ := mem_fillRequest.mp hin
    rw [hview.stamp]
  resident := by
    intro other hname
    obtain rfl := (fillRequest_fills.names other).mp hname
    obtain ⟨payload, storage, hentry, hstorage⟩ := h.resident
    exact hview.resident hentry hstorage
  revisions := by
    intro other hname
    obtain rfl := (fillRequest_fills.names other).mp hname
    rw [hview.stamp]
    exact h.revision
  world := by
    rw [hview.stamp]
    exact h.world

/-! ## 4. A section beside another, filled twice -/

/-- A first cut with two sections of one block, their pages spelled out. -/
def twoBlockRoot (block : BlockId) : PublishedStateRoot :=
  .new (toRevisionStamp "world" "context" 1 0 [])
    ⟨((∅ : BTreeMap SectionId SectionSlot).insert neighbourSection
      (.ready (.ofBlock block))).insert originSection (.ready (.ofBlock block))⟩
    ⟨"world", 1, ∅⟩

/-- The cut after the section is filled with another block, and with the first one again. -/
def filledRoot : PublishedStateRoot := (twoBlockRoot ⟨0⟩).filled originSection ⟨1⟩

def refilledRoot : PublishedStateRoot := filledRoot.filled originSection ⟨0⟩

omit [UnicodeTables] in
theorem effectiveRevision_twoBlockRoot (block : BlockId) (key : String) :
    (twoBlockRoot block).stamp.effectiveRevision key = 0 := by
  have hnone : (twoBlockRoot block).stamp.sectionRevisionSet[key]? = none :=
    BTreeMap.getElem?_empty key
  rw [RevisionStamp.effectiveRevision, hnone]
  rfl

/-- A fill lists its section, one revision further. -/
theorem listed_revision_filled (root : PublishedStateRoot) (id : SectionId) (block : BlockId)
    (key : String) : (root.filled id block).stamp.sectionRevisionSet[key]? =
      if id.key = key then some (root.stamp.effectiveRevision id.key + 1)
      else root.stamp.sectionRevisionSet[key]? :=
  BTreeMap.getElem?_insert _ _ _ _

theorem effectiveRevision_filled (root : PublishedStateRoot) (id : SectionId) (block : BlockId) :
    (root.filled id block).stamp.effectiveRevision id.key =
      root.stamp.effectiveRevision id.key + 1 := by
  rw [RevisionStamp.effectiveRevision, listed_revision_filled, if_pos rfl]
  rfl

omit [UnicodeTables] in
theorem slot_twoBlockRoot (block : BlockId) :
    (twoBlockRoot block).directory.entries[originSection]? = some (.ready (.ofBlock block)) :=
  Std.ExtTreeMap.getElem?_insert_self

omit [UnicodeTables] in
theorem slot_neighbour (block : BlockId) :
    (twoBlockRoot block).directory.entries[neighbourSection]? = some (.ready (.ofBlock block)) :=
  (BTreeMap.getElem?_insert_ne _ (show originSection ≠ neighbourSection by decide) _).trans
    Std.ExtTreeMap.getElem?_insert_self

omit [UnicodeTables] in
theorem PublishedStateRoot.readCell_ofBlock {root : PublishedStateRoot} {id : SectionId}
    {block : BlockId} (h : root.directory.entries[id]? = some (.ready (.ofBlock block)))
    (offset : CellOffset) : root.readCell id offset = some block := by
  rw [readCell, h]
  rfl

theorem slot_filled (root : PublishedStateRoot) (id : SectionId) (block : BlockId) :
    (root.filled id block).directory.entries[id]? = some (.ready (.ofBlock block)) :=
  Std.ExtTreeMap.getElem?_insert_self

omit [UnicodeTables] in
theorem fillable_twoBlockRoot (block : BlockId) :
    (twoBlockRoot block).Fillable originSection where
  worldId := rfl
  generation := rfl
  resident := ⟨.ofBlock block, .uniform block, slot_twoBlockRoot block, rfl⟩
  revision := ⟨1, by rw [effectiveRevision_twoBlockRoot]; decide⟩
  world := ⟨1, show checkedSucc 0 = some 1 by decide⟩
  canonical := fun key hkey => absurd (BTreeMap.getElem?_empty key) hkey

/-- A filled section is listed, and no other section newly is. -/
theorem canonical_filled {root : PublishedStateRoot} {id : SectionId} (block : BlockId)
    (h : ∀ key : String, root.stamp.sectionRevisionSet[key]? ≠ none →
      ∃ id : SectionId, key = id.key) (key : String)
    (hkey : (root.filled id block).stamp.sectionRevisionSet[key]? ≠ none) :
    ∃ id : SectionId, key = id.key := by
  rw [listed_revision_filled] at hkey
  split at hkey
  · rename_i hsame
    exact ⟨id, hsame.symm⟩
  · exact h key hkey

theorem effectiveRevision_filledRoot :
    filledRoot.stamp.effectiveRevision originSection.key = 1 := by
  rw [filledRoot, effectiveRevision_filled, effectiveRevision_twoBlockRoot]
  rfl

theorem fillable_filledRoot : filledRoot.Fillable originSection where
  worldId := rfl
  generation := rfl
  resident := ⟨.ofBlock ⟨1⟩, .uniform ⟨1⟩, slot_filled .., rfl⟩
  revision := ⟨2, by
    rw [effectiveRevision_filledRoot]
    decide⟩
  world := ⟨2, show checkedSucc 1 = some 2 by decide⟩
  canonical := canonical_filled ⟨1⟩ (fillable_twoBlockRoot ⟨0⟩).canonical

/-- Filled and filled back, both sections are as they were. -/
theorem slot_refilled {id : SectionId}
    (h : (twoBlockRoot ⟨0⟩).directory.entries[id]? = some (.ready (.ofBlock ⟨0⟩))) :
    refilledRoot.directory.entries[id]? = some (.ready (.ofBlock ⟨0⟩)) := by
  have hinsert : refilledRoot.directory.entries =
      ((twoBlockRoot ⟨0⟩).directory.entries.insert originSection (.ready (.ofBlock ⟨1⟩))).insert
        originSection (.ready (.ofBlock ⟨0⟩)) := rfl
  rw [hinsert, BTreeMap.getElem?_insert, BTreeMap.getElem?_insert]
  split
  · rfl
  · exact h

/-- The cuts of a section that is filled twice, acknowledged, unloaded and restored. -/
def fillCuts : List PublishedStateRoot :=
  [twoBlockRoot ⟨0⟩, filledRoot, refilledRoot, refilledRoot.settled,
    refilledRoot.settled.ticketed originSection, filledRoot.rewound originSection]

omit [UnicodeTables] in
theorem nodup_fillCuts : letI := asciiOnly
    (fillCuts.map PublishedStateRoot.identityNumbers).Nodup := by
  decide +kernel

end Cuts

end LumioVoxel
