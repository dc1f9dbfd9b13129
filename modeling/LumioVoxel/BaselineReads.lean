import LumioVoxel.DurabilityFence
import LumioVoxel.QueryCuts
import LumioVoxel.ReadPathAgreement
import LumioVoxel.ReceiptLineage

/-!
# Block reads over the original map

A resident section reads like the original map with the commits of the run laid over it,
a ticket like the original map alone.  An unload turns a clean section into a ticket
whatever was committed to it, and a restore does so with every section that has a
revision.  What a reader then finds in a cell is what it found before exactly when the
commits come out at the original map's block there.
-/

namespace LumioVoxel

open DebugText Fallible StepRuns

/-! ## 1. The original map with edits laid over it -/

/-- The last block that a list of requests writes to a cell. -/
def lastEdit (edits : List MutationRequest) (id : SectionId) (offset : CellOffset) :
    Option BlockId :=
  edits.foldl (fun last request => (request.lastWrite id offset).or last) none

theorem lastEdit_concat (edits : List MutationRequest) (request : MutationRequest) (id : SectionId)
    (offset : CellOffset) : lastEdit (edits ++ [request]) id offset =
      (request.lastWrite id offset).or (lastEdit edits id offset) := by
  simp only [lastEdit, List.foldl_append, List.foldl_cons, List.foldl_nil]

namespace PublishedStateRoot

variable {root : PublishedStateRoot} {baseline : SectionStorageResolver}
  {edits : List MutationRequest} {id : SectionId} {payload : SectionPayload}

/-- Resident cells read like the original map. -/
def ReadsLike (root : PublishedStateRoot) (baseline : SectionStorageResolver) : Prop :=
  ∀ id offset block, root.readCell id offset = some block →
    ∃ storage, baseline id = some storage ∧ block = storage.read offset

/-- Resident cells read like the original map with the edits laid over it. -/
def Overlays (root : PublishedStateRoot) (baseline : SectionStorageResolver)
    (edits : List MutationRequest) : Prop :=
  ∀ id offset block, root.readCell id offset = some block →
    ∃ storage, baseline id = some storage ∧
      block = (lastEdit edits id offset).getD (storage.read offset)

theorem ReadsLike.overlays (h : root.ReadsLike baseline) : root.Overlays baseline [] := h

/-- Cells that go away are no matter. -/
theorem Overlays.of_reads {new : PublishedStateRoot} (h : root.Overlays baseline edits)
    (hreads : ∀ id offset block, new.readCell id offset = some block →
      root.readCell id offset = some block) : new.Overlays baseline edits :=
  fun id offset block hread => h id offset block (hreads id offset block hread)

/-- What a cell reads is up to its section's slot. -/
theorem readCell_congr {new : PublishedStateRoot} {id : SectionId}
    (h : new.directory.entries[id]? = root.directory.entries[id]?) (offset : CellOffset) :
    new.readCell id offset = root.readCell id offset := by
  rw [readCell, h, readCell]

/-- The block that a reader of the cut finds in a cell. -/
def shownBlock (root : PublishedStateRoot) (baseline : SectionStorageResolver)
    (id : SectionId) (offset : CellOffset) : Option BlockId :=
  (root.resolvedStorage baseline id).map (·.read offset)

/-- The edits leave the original map's block in the cell. -/
def Unedited (baseline : SectionStorageResolver) (edits : List MutationRequest) (id : SectionId)
    (offset : CellOffset) : Prop :=
  ∀ storage block, baseline id = some storage → lastEdit edits id offset = some block →
    block = storage.read offset

theorem unedited_iff {storage : SectionStorage} (h : baseline id = some storage)
    (offset : CellOffset) : Unedited baseline edits id offset ↔
      storage.read offset = (lastEdit edits id offset).getD (storage.read offset) := by
  cases hedit : lastEdit edits id offset with
  | none =>
    refine iff_of_true ?_ rfl
    intro _ block _ hblock
    cases hedit.symm.trans hblock
  | some written =>
    constructor
    · intro hall
      exact (hall storage written h hedit).symm
    · intro hwritten found block hfound hblock
      obtain rfl := Option.some.inj (h.symm.trans hfound)
      obtain rfl := Option.some.inj (hedit.symm.trans hblock)
      exact hwritten.symm

/-- A section is listed when the stamp has a revision of its own for it. -/
def Listed (root : PublishedStateRoot) (id : SectionId) : Prop :=
  root.stamp.sectionRevisionSet[id.key]? ≠ none

/-- Only ready sections hold resident cells. -/
theorem ready_of_readCell {offset : CellOffset} {block : BlockId}
    (h : root.readCell id offset = some block) :
    ∃ payload, root.directory.entries[id]? = some (.ready payload) := by
  rw [readCell] at h
  cases hslot : root.directory.entries[id]? with
  | none =>
    rw [hslot] at h
    cases h
  | some slot =>
    rw [hslot] at h
    cases slot with
    | ready payload => exact ⟨payload, rfl⟩
    | unchanged => cases h
    | pending => cases h
    | unavailable => cases h

/-- A resident cell is shown as it reads. -/
theorem shown_of_readCell {offset : CellOffset} {block : BlockId}
    (h : root.readCell id offset = some block) :
    root.shownBlock baseline id offset = some block := by
  obtain ⟨payload, hready⟩ := ready_of_readCell h
  rw [readCell, hready] at h
  rw [shownBlock, resolvedStorage, hready]
  exact h

/-- A reader finds the edited original map in a ready section. -/
theorem Overlays.shown_ready (hover : root.Overlays baseline edits)
    (hmaterializes : root.Materializes baseline)
    (hready : root.directory.entries[id]? = some (.ready payload)) :
    ∃ storage, baseline id = some storage ∧ ∀ offset, root.shownBlock baseline id offset =
      some ((lastEdit edits id offset).getD (storage.read offset)) := by
  obtain ⟨resident, hresident⟩ := hmaterializes id _ hready (.inl rfl)
  have hpayload : payload.storage = some resident := hresident
  have hread : ∀ offset, root.readCell id offset = some (resident.read offset) := by
    intro offset
    simp only [readCell, hready, SectionSlot.storage, SectionSlot.payload, Option.bind_some,
      hpayload, Option.map_some]
  obtain ⟨storage, hstorage, -⟩ := hover id (.fromWorld 0 ⟨0⟩ 0) _ (hread _)
  refine ⟨storage, hstorage, fun offset => ?_⟩
  obtain ⟨found, hfound, hblock⟩ := hover id offset _ (hread offset)
  obtain rfl := Option.some.inj (hstorage.symm.trans hfound)
  rw [shown_of_readCell (hread offset), hblock]

theorem shown_unchanged (h : root.directory.entries[id]? = some .unchanged)
    (offset : CellOffset) :
    root.shownBlock baseline id offset = (baseline id).map (·.read offset) := by
  rw [shownBlock, resolvedStorage, h]
  rfl

end PublishedStateRoot

/-! ## 2. What readers see -/

namespace BlockReadWorld

variable {view view' : PublishedReadView} {baseline : SectionStorageResolver}
  {reader reader' : BlockReadWorld}

/-- The block id a read of the cell returns. -/
def blockAt (reader : BlockReadWorld) (x : Int32) (y : Int64) (z : Int32) :
    Except QueryError (Option BlockId) :=
  (reader.readCell x y z).map (·.cell.blockId)

theorem blockAt_eq (h : fromPublishedViewWithBaseline view baseline = .ok reader) {x z : Int32}
    {y : Int64} {worldY : WorldY} (hy : WorldY.new y = .ok worldY) :
    reader.blockAt x y z = .ok (view.root.shownBlock baseline (SectionId.ofCell x worldY z)
      (CellOffset.fromWorld x worldY z)) := by
  rw [blockAt, readCell_eq h hy]
  rfl

/-- Above and below the world every reader refuses alike. -/
theorem blockAt_outside (reader : BlockReadWorld) {x z : Int32} {y : Int64} {err : WorldYError}
    (hy : WorldY.new y = .error err) : reader.blockAt x y z = .error (.fromWorldY err) := by
  have hbudget : admitBudget 1 = .ok () := require_of (by decide) _
  simp only [blockAt, readCell, hbudget, ok_bind, cellAtSection, hy]
  rfl

/-- Two readers agree on a cell when their cuts show the same there. -/
theorem blockAt_eq_iff (h : fromPublishedViewWithBaseline view baseline = .ok reader)
    (h' : fromPublishedViewWithBaseline view' baseline = .ok reader') {x z : Int32} {y : Int64}
    {worldY : WorldY} (hy : WorldY.new y = .ok worldY) :
    reader'.blockAt x y z = reader.blockAt x y z ↔
      view'.root.shownBlock baseline (SectionId.ofCell x worldY z)
          (CellOffset.fromWorld x worldY z) =
        view.root.shownBlock baseline (SectionId.ofCell x worldY z)
          (CellOffset.fromWorld x worldY z) := by
  rw [blockAt_eq h hy, blockAt_eq h' hy]
  constructor
  · intro hsame
    exact Except.ok.inj hsame
  · intro hsame
    rw [hsame]

/-- And everywhere, when they show the same in every cell of the world. -/
theorem blockAt_eq_everywhere_iff (h : fromPublishedViewWithBaseline view baseline = .ok reader)
    (h' : fromPublishedViewWithBaseline view' baseline = .ok reader') :
    (∀ x y z, reader'.blockAt x y z = reader.blockAt x y z) ↔
      ∀ x y z worldY, WorldY.new y = .ok worldY →
        view'.root.shownBlock baseline (SectionId.ofCell x worldY z)
            (CellOffset.fromWorld x worldY z) =
          view.root.shownBlock baseline (SectionId.ofCell x worldY z)
            (CellOffset.fromWorld x worldY z) := by
  constructor
  · intro hall x y z worldY hy
    exact (blockAt_eq_iff h h' hy).mp (hall x y z)
  · intro hshown x y z
    cases hy : WorldY.new y with
    | error err => rw [reader'.blockAt_outside hy, reader.blockAt_outside hy]
    | ok worldY => exact (blockAt_eq_iff h h' hy).mpr (hshown x y z worldY hy)

end BlockReadWorld

section Runs

variable [UnicodeTables]

/-! ## 3. The commits of a run -/

namespace WorldSession

variable {s : WorldSession} {op : WorldOp}

/-- The request that the step commits. -/
def edit (s : WorldSession) (op : WorldOp) : Option MutationRequest :=
  match op with
  | .commit i => (s.publishes (.commit i)).bind fun _ => s.tokens[i]?.map (·.request)
  | _ => none

/-- The requests that a run commits, in order. -/
def edits (s : WorldSession) (ops : List WorldOp) : List MutationRequest := trace step edit s ops

theorem Commits.edit_eq {token : PreparedMutation} {d : CommitDraft} {receipt : MutationReceipt}
    (h : s.Commits op token d receipt) : s.edit op = some token.request := by
  obtain ⟨i, rfl, htoken⟩ := h.named
  have hpublished : s.publishes (.commit i) = some token.txnId := by
    have hnow : (s.step (.commit i)).Applied token.txnId :=
      (h.committed.applied_iff token.txnId).mpr (.inr rfl)
    rcases applied_step_iff.mp hnow with hold | hnew
    · exact absurd hold (ReceiptLedger.not_applied_of_inFlight h.inFlight)
    · exact hnew
  rw [edit, hpublished, Option.bind_some, htoken, Option.map_some]

/-- A step that applies nothing new commits nothing. -/
theorem edit_of_sameApplied (h : s.world.ledger.SameApplied (s.step op).world.ledger) :
    s.edit op = none := by
  cases op with
  | commit i =>
    cases hpublished : s.publishes (.commit i) with
    | none => rw [edit, hpublished, Option.bind_none]
    | some txnId =>
      obtain ⟨hnot, hnow⟩ := of_publishes hpublished
      exact absurd ((h txnId).mp hnow) hnot
  | _ => rfl

/-- A commit writes to resident cells only. -/
theorem Commits.overwrites {roots : PublishedStateRoot → Prop}
    (hfree : PublishedStateRoot.CollisionFree roots) (h : Known roots s)
    {token : PreparedMutation} {d : CommitDraft} {receipt : MutationReceipt}
    (hcommits : s.Commits op token d receipt) {id : SectionId} {offset : CellOffset}
    {block : BlockId} (hwrite : token.request.lastWrite id offset = some block) :
    ∃ old, s.root.readCell id offset = some old := by
  obtain ⟨base, configHash, hbase, hsealed, hidentity⟩ := hcommits.sealed h
  have hname : token.request.Names id := by
    intro hno
    rw [MutationRequest.lastWrite_of_not_names (not_not.mpr hno)] at hwrite
    cases hwrite
  obtain ⟨old, storage, payload, hold, hstorage, -⟩ := hsealed.edited id hname
  have hread : base.root.readCell id offset = some (storage.read offset) := by
    simp only [PublishedStateRoot.readCell, hold, SectionSlot.storage, SectionSlot.payload,
      Option.bind_some, hstorage, Option.map_some]
  exact ⟨_, ((hfree _ _ hbase h.root hidentity).cells id offset).symm.trans hread⟩

end WorldSession

/-! ## 4. Resident sections along a run -/

namespace WorldSession

variable {s : WorldSession} {roots : PublishedStateRoot → Prop} {baseline : SectionStorageResolver}
  {done : List MutationRequest}

theorem overlays_step (hfree : PublishedStateRoot.CollisionFree roots) (h : Known roots s)
    (hover : s.root.Overlays baseline done) (op : WorldOp) :
    (s.step op).root.Overlays baseline (done ++ (s.edit op).toList) := by
  cases effect_step s op with
  | kept hroot hsame =>
    rw [edit_of_sameApplied hsame, hroot, Option.toList_none, List.append_nil]
    exact hover
  | committed token d receipt hcommits =>
    rw [hcommits.edit_eq, Option.toList_some]
    intro id offset block hread
    rw [(hcommits.effect hfree h).cells] at hread
    rw [lastEdit_concat]
    cases hwrite : token.request.lastWrite id offset with
    | none =>
      rw [hwrite, Option.none_or] at hread
      exact hover id offset block hread
    | some written =>
      rw [hwrite, Option.some_or] at hread
      obtain ⟨old, hold⟩ := hcommits.overwrites hfree h hwrite
      obtain ⟨storage, hstorage, -⟩ := hover id offset old hold
      exact ⟨storage, hstorage, (Option.some.inj hread).symm⟩
  | acked evidence coverage _ hacked hsame =>
    rw [edit_of_sameApplied hsame, Option.toList_none, List.append_nil]
    apply hover.of_reads
    intro id offset block hread
    rw [← hread]
    exact (PublishedStateRoot.readCell_congr (by rw [hacked.directory]) offset).symm
  | unloaded hook named _ hunloaded _ hsame =>
    rw [edit_of_sameApplied hsame, Option.toList_none, List.append_nil]
    apply hover.of_reads
    intro id offset block hread
    by_cases hname : id = named
    · subst hname
      rw [PublishedStateRoot.readCell, hunloaded.ticket] at hread
      cases hread
    · rw [← hread]
      exact (PublishedStateRoot.readCell_congr (hunloaded.others id hname) offset).symm
  | restored snapshot candidate hrestores hsame =>
    rw [edit_of_sameApplied hsame, Option.toList_none, List.append_nil]
    intro id offset block hread
    rw [PublishedStateRoot.readCell, hrestores.cut.slots] at hread
    cases hrevision : snapshot.capture.root.stamp.sectionRevisionSet[id.key]? with
    | none =>
      rw [hrevision] at hread
      cases hread
    | some revision =>
      rw [hrevision] at hread
      cases hread

/-- Resident sections carry the commits of the run. -/
theorem overlays_run (hfree : PublishedStateRoot.CollisionFree roots) {ops : List WorldOp}
    (h : Known roots s) (hroots : ∀ t ∈ visited step s ops, roots t.root)
    (hover : s.root.Overlays baseline done) :
    (run step s ops).root.Overlays baseline (done ++ s.edits ops) := by
  induction ops generalizing s done with
  | nil =>
    rw [edits, trace, List.append_nil]
    exact hover
  | cons op rest ih =>
    have hnext := overlays_step hfree h hover op
    have hlater : ∀ t ∈ visited step (s.step op) rest, roots t.root :=
      fun t ht => hroots t (List.mem_cons_of_mem s ht)
    have hknown := known_step h (hlater _ (start_mem_visited _ _))
    have hrun := ih hknown hlater hnext
    rw [List.append_assoc] at hrun
    exact hrun

theorem overlays_start (hfree : PublishedStateRoot.CollisionFree roots) {world : WorldInstance}
    (hbaseline : world.root.ReadsLike baseline) {ops : List WorldOp}
    (hroots : ∀ t ∈ visited step (.start world) ops, roots t.root) :
    (run step (.start world) ops).root.Overlays baseline ((start world).edits ops) :=
  overlays_run hfree (known_start (hroots _ (start_mem_visited _ _))) hroots hbaseline.overlays

end WorldSession

/-! ## 5. The section at the origin -/

section Origin

open PublishedStateRoot

omit [UnicodeTables] in
theorem oneSectionRoot_entry (block : BlockId) (id : SectionId) :
    (oneSectionRoot block).directory.entries[id]? =
      if originSection = id then some (.ready (.ofStorage (.uniform block))) else none := by
  refine (BTreeMap.getElem?_insert _ originSection id _).trans ?_
  rw [BTreeMap.getElem?_empty]

omit [UnicodeTables] in
theorem oneSectionRoot_readsLike (block : BlockId) :
    (oneSectionRoot block).ReadsLike (uniformBaseline block) := by
  intro id offset shown hread
  refine ⟨.uniform block, rfl, ?_⟩
  rw [readCell, oneSectionRoot_entry] at hread
  split at hread
  · exact (Option.some.inj hread).symm
  · cases hread

/-- The first cell of the origin. -/
def originCell : CellOffset := .fromWorld 0 ⟨0⟩ 0

/-- One block written there. -/
def originEdit : MutationRequest := originRequest "txn" [(originCell, ⟨1⟩)]

/-- A reader of the published root. -/
theorem WorldSession.exists_reader {s : WorldSession} {baseline : SectionStorageResolver}
    (h : s.root.Materializes baseline) : ∃ reader,
      BlockReadWorld.fromPublishedViewWithBaseline s.world.authority.capture.1 baseline =
        .ok reader :=
  BlockReadWorld.exists_fromPublishedView_iff.mpr h

/-- Its read of the first cell of the world. -/
theorem WorldSession.blockAt_origin {s : WorldSession} {baseline : SectionStorageResolver}
    {reader : BlockReadWorld} {block : BlockId}
    (h : BlockReadWorld.fromPublishedViewWithBaseline s.world.authority.capture.1 baseline =
      .ok reader)
    (hshown : s.root.shownBlock baseline originSection originCell = some block) :
    reader.blockAt 0 0 0 = .ok (some block) := by
  rw [BlockReadWorld.blockAt_eq h (show WorldY.new 0 = .ok ⟨0⟩ from rfl), ofCell_origin]
  exact congrArg Except.ok hshown

/-- The first cut with that block committed over it. -/
structure OriginEdited (root : PublishedStateRoot) : Prop where
  cell : root.readCell originSection originCell = some ⟨1⟩
  ready : ∃ payload, root.directory.entries[originSection]? = some (.ready payload)
  sole : ∀ id, id ≠ originSection → root.directory.entries[id]? = none
  world : root.stamp.worldRevision = 1
  revision : root.stamp.sectionRevisionSet[originSection.key]? = some 1
  keys : ∀ key revision, root.stamp.sectionRevisionSet[key]? = some revision →
    ∃ id : SectionId, key = id.key
  mark : root.dirtyFrontier.entries[originSection]? = some ⟨1, 1, "mutation"⟩
  owner : root.dirtyFrontier.worldId = "world" ∧ root.dirtyFrontier.generation = 1

theorem originEdited_of_commit {new : PublishedStateRoot} {receipt : MutationReceipt}
    (h : CommitEffect originEdit (oneSectionRoot ⟨0⟩) new receipt) : OriginEdited new := by
  have hcell : new.readCell originSection originCell = some ⟨1⟩ :=
    (h.cells originSection originCell).trans rfl
  have hnames : originEdit.Names originSection :=
    List.ne_nil_of_mem (List.mem_filter.mpr ⟨List.mem_singleton.mpr rfl, decide_eq_true rfl⟩)
  have hother : ∀ id, id ≠ originSection → ¬ originEdit.Names id :=
    fun id hne hname => hne (originRequest_names hname)
  obtain ⟨revision, hrevision, hsucc⟩ := h.named originSection hnames
  have hone : revision = 1 := UInt64.toNat_inj.mp (hsucc.trans rfl)
  rw [hone] at hrevision
  have hmark := h.dirtyNamed originSection hnames 1 hrevision
  have hclean : (oneSectionRoot ⟨0⟩).dirtyFrontier.entries[originSection]? = none :=
    BTreeMap.getElem?_empty originSection
  rw [hclean] at hmark
  refine ⟨hcell, ready_of_readCell hcell, ?_, ?_, hrevision, ?_, hmark, h.dirtyOwner⟩
  · intro id hne
    rw [h.slots id (hother id hne)]
    exact (BTreeMap.getElem?_insert_ne _ (Ne.symm hne) _).trans (BTreeMap.getElem?_empty id)
  · exact UInt64.toNat_inj.mp (h.world.trans rfl)
  · intro key found hfound
    by_cases hkey : key = originSection.key
    · exact ⟨originSection, hkey⟩
    · have hold := h.unnamed key fun id hname hid =>
        hkey (hid.trans (congrArg SectionId.key (originRequest_names hname)))
      rw [hold] at hfound
      apply oneSectionRoot_keys ⟨0⟩ key
      rw [hfound]
      exact Option.some_ne_none found

omit [UnicodeTables] in
theorem OriginEdited.materializes {root : PublishedStateRoot}
    (h : OriginEdited root) (baseline : SectionStorageResolver) : root.Materializes baseline := by
  intro id slot hslot _
  by_cases hname : id = originSection
  · subst hname
    obtain ⟨payload, hready⟩ := h.ready
    obtain rfl := Option.some.inj (hready.symm.trans hslot)
    have hcell := h.cell
    rw [readCell, hready] at hcell
    obtain ⟨storage, hstorage, -⟩ := Option.map_eq_some_iff.mp hcell
    exact ⟨storage, hstorage⟩
  · cases (h.sole id hname).symm.trans hslot

omit [UnicodeTables] in
/-- Reading from a root is a matter of how it looks. -/
theorem PublishedStateRoot.Alike.materializes {a b : PublishedStateRoot}
    {baseline : SectionStorageResolver} (h : a.Alike b) (hb : b.Materializes baseline) :
    a.Materializes baseline := by
  intro id slot hslot hholds
  have hface := h.slots id
  rw [hslot, Option.map_some, eq_comm, Option.map_eq_some_iff] at hface
  obtain ⟨known, hknown, hface⟩ := hface
  have hpresence : known.presence = slot.presence := by
    have hshown : known.presence = known.face.1.1 := by cases known <;> rfl
    rw [hshown, hface]
    cases slot <;> rfl
  obtain ⟨storage, hstorage⟩ := hb id known hknown (hpresence ▸ hholds)
  have hsome : slot.storage.isSome = known.storage.isSome := congrArg Prod.snd hface.symm
  cases slot with
  | ready payload =>
    cases known with
    | ready kept =>
      have hkept : kept.storage = some storage := hstorage
      rw [show (SectionSlot.ready kept).storage = kept.storage from rfl, hkept] at hsome
      exact Option.isSome_iff_exists.mp hsome
    | unchanged => cases hpresence
    | pending => cases hpresence
    | unavailable => cases hpresence
  | unchanged =>
    cases known with
    | ready kept => cases hpresence
    | unchanged => exact ⟨storage, hstorage⟩
    | pending => cases hpresence
    | unavailable => cases hpresence
  | pending => cases hholds with
    | inl hready => cases hready
    | inr hticket => cases hticket
  | unavailable => cases hholds with
    | inl hready => cases hready
    | inr hticket => cases hticket

omit [UnicodeTables] in
/-- A slot can be set to one that can be read. -/
theorem materializes_insert {root : PublishedStateRoot} {baseline : SectionStorageResolver}
    {id : SectionId} {slot : SectionSlot} (h : root.Materializes baseline)
    (hslot : ∃ storage, slot.resolve baseline id = some storage) {new : PublishedStateRoot}
    (hnew : new.directory.entries = root.directory.entries.insert id slot) :
    new.Materializes baseline := by
  intro other found hfound hholds
  rw [hnew, BTreeMap.getElem?_insert] at hfound
  split at hfound
  · rename_i hsame
    obtain rfl := Option.some.inj hfound
    exact hsame ▸ hslot
  · exact h other found hfound hholds

omit [UnicodeTables] in
theorem twoBlockRoot_entry {block : BlockId} {id : SectionId} {slot : SectionSlot}
    (h : (twoBlockRoot block).directory.entries[id]? = some slot) :
    slot = .ready (.ofBlock block) := by
  have hentry : (twoBlockRoot block).directory.entries[id]? =
      if originSection = id then some (.ready (.ofBlock block))
      else ((∅ : BTreeMap SectionId SectionSlot).insert neighbourSection
        (.ready (.ofBlock block)))[id]? := BTreeMap.getElem?_insert _ _ _ _
  rw [hentry, BTreeMap.getElem?_insert, BTreeMap.getElem?_empty] at h
  split at h
  · exact (Option.some.inj h).symm
  · split at h
    · exact (Option.some.inj h).symm
    · cases h

omit [UnicodeTables] in
theorem twoBlockRoot_readsLike (block : BlockId) :
    (twoBlockRoot block).ReadsLike (uniformBaseline block) := by
  intro id offset shown hread
  obtain ⟨payload, hready⟩ := ready_of_readCell hread
  rw [readCell, hready, twoBlockRoot_entry hready] at hread
  exact ⟨.uniform block, rfl, (Option.some.inj hread).symm⟩

omit [UnicodeTables] in
theorem twoBlockRoot_materializes (block : BlockId) (baseline : SectionStorageResolver) :
    (twoBlockRoot block).Materializes baseline := by
  intro id slot hslot _
  rw [twoBlockRoot_entry hslot]
  exact ⟨.uniform block, rfl⟩

theorem refilled_materializes {baseline : SectionStorageResolver} :
    refilledRoot.Materializes baseline := by
  have hfilled : filledRoot.Materializes baseline :=
    materializes_insert (twoBlockRoot_materializes ⟨0⟩ baseline) ⟨.uniform ⟨1⟩, rfl⟩ rfl
  exact materializes_insert hfilled ⟨.uniform ⟨0⟩, rfl⟩ rfl

theorem settled_materializes {baseline : SectionStorageResolver} :
    refilledRoot.settled.Materializes baseline := refilled_materializes

end Origin

namespace WorldSession

/-- The host has the edited section. -/
def originAck : DurabilityAckEvidence :=
  ⟨ACK_KIND, "world", ⟨"context", 1⟩, 1, [⟨originSection.key, 1⟩]⟩

theorem originAck_accepted {s : WorldSession} {n : Nat} (h : OriginEdited s.root)
    (hserves : s.world.Serves (n + 1)) (hworld : s.world.worldId = "world")
    (hcontext : s.world.worldContextId = "context") (hgen : s.world.generation = 1) :
    (∃ receipt, (applyDurabilityAck s.world originAck).1 = .ok receipt) ∧
      (s.step (.ack originAck)).world.Serves n := by
  have hvalid : DurabilityAckBarrier.validateBeforeOccupancy s.world originAck = .ok () := by
    have hrevision : originAck.coveredWorldRevision ≤ s.world.root.stamp.worldRevision :=
      UInt64.le_of_eq h.world.symm
    simp only [DurabilityAckBarrier.validateBeforeOccupancy]
    rw [require_of (show originAck.kind = ACK_KIND from rfl), ok_bind,
      require_of (show originAck.worldId = s.world.worldId from hworld.symm), ok_bind,
      require_of (show originAck.context.contextId = s.world.worldContextId from hcontext.symm),
      ok_bind,
      require_of (show originAck.context.generation = s.world.generation from hgen.symm), ok_bind]
    exact require_of hrevision _
  obtain ⟨coverage, hcoverage⟩ : ∃ coverage, s.root.dirtyFrontier.coveredBy originAck =
      .ok coverage := by
    apply DirtyFrontier.exists_coverage rfl h.owner.1.symm h.owner.2.symm rfl
    intro entry hentry
    obtain rfl := Option.some.inj (h.mark.symm.trans hentry)
    exact UInt64.le_refl _
  have hcovered : coverage.covered[originSection]? = some 1 :=
    ((DirtyFrontier.covers_of_coveredBy hcoverage).covered_iff originSection 1).mpr
      ⟨_, h.mark, rfl, 1, List.mem_singleton.mpr rfl⟩
  apply ack_step hserves hvalid hcoverage
  intro hempty
  rw [hempty, BTreeMap.getElem?_empty] at hcovered
  cases hcovered

omit [UnicodeTables] in
/-- The block at the origin is edited, acknowledged and unloaded. -/
theorem exists_originUnloadedEdit : letI := asciiOnly
    ∃ authority, authority.root = oneSectionRoot ⟨0⟩ ∧
      let s := run step (.start (runningWorld authority none))
        [.prepare originEdit, .commit 0, .ack originAck]
      s.root.readCell originSection originCell = some ⟨1⟩ ∧
      (∀ baseline, s.root.Materializes baseline) ∧
      Unloaded originSection s.root (s.step (.unload originSection.key fun _ => .ok ())).root := by
  let _ := asciiOnly
  obtain ⟨authority, token, d, receipt, hroot, hcommits, heffect, hserves, hworld, hcontext,
    hgen⟩ := exists_firstCommit [(originCell, ⟨1⟩)] (by decide)
  rw [hroot] at heffect
  let s₂ := ((start (runningWorld authority none)).step (.prepare originEdit)).step (.commit 0)
  have hedited : OriginEdited s₂.root := originEdited_of_commit heffect
  let s₃ := s₂.step (.ack originAck)
  obtain ⟨⟨done, haccepted⟩, hserves₃⟩ := originAck_accepted hedited hserves hworld hcontext hgen
  have hslots : ∀ id : SectionId,
      s₃.root.directory.entries[id]? = s₂.root.directory.entries[id]? := by
    rcases ack_outcome s₂.world originAck with ⟨err, herr, -⟩ | ⟨_, _, -, hacked, -⟩
    · cases haccepted.symm.trans herr
    · intro id
      exact congrArg (fun directory => directory.entries[id]?) hacked.directory
  have hclean : s₃.root.dirtyFrontier.entries[originSection]? = none :=
    (mark_ack haccepted originSection).1 ⟨1, List.mem_singleton.mpr rfl⟩
  have hpolicy : UnloadBarrier.checkAttachedPolicy s₃.world.regionPins originSection.key =
      .ok () := by
    rw [pins_step, pins_step, pins_step]
    rfl
  refine ⟨authority, hroot, ?_⟩
  rw [run_cons, run_cons, run_cons, run_nil]
  refine ⟨?_, ?_, ?_⟩
  · exact (PublishedStateRoot.readCell_congr (hslots originSection) _).trans hedited.cell
  · intro baseline id slot hslot
    exact hedited.materializes baseline id slot ((hslots id).symm.trans hslot)
  · obtain ⟨payload, hready⟩ := hedited.ready
    have hready₃ := (hslots originSection).trans hready
    exact (unload_step (s := s₃) hserves₃ hready₃ hclean hpolicy rfl).1

end WorldSession

/-! ## 6. Unloads -/

section Unloads

variable {id : SectionId} {old new : PublishedStateRoot} {baseline : SectionStorageResolver}
  {done : List MutationRequest}

open PublishedStateRoot

/-- The ticket an unload leaves can be resolved where the original map has the section. -/
theorem Unloaded.materializes (h : Unloaded id old new) {storage : SectionStorage}
    (hstorage : baseline id = some storage) (hmaterializes : old.Materializes baseline) :
    new.Materializes baseline := by
  intro other slot hslot hholds
  by_cases hname : other = id
  · subst hname
    obtain rfl := Option.some.inj (h.ticket.symm.trans hslot)
    exact ⟨storage, hstorage⟩
  · rw [h.others other hname] at hslot
    exact hmaterializes other slot hslot hholds

/-- The unloaded section shows what it did where it is unedited, every other section
everywhere. -/
theorem Unloaded.shown_iff (h : Unloaded id old new) (hover : old.Overlays baseline done)
    (hmaterializes : old.Materializes baseline) (other : SectionId) (offset : CellOffset) :
    new.shownBlock baseline other offset = old.shownBlock baseline other offset ↔
      (other = id → Unedited baseline done other offset) := by
  by_cases hname : other = id
  · subst hname
    obtain ⟨payload, hready⟩ := h.resident
    obtain ⟨storage, hstorage, hshown⟩ := hover.shown_ready hmaterializes hready
    rw [shown_unchanged h.ticket, hshown, hstorage, Option.map_some, Option.some.injEq,
      ← unedited_iff hstorage]
    exact (imp_iff_right rfl).symm
  · refine iff_of_true ?_ fun heq => absurd heq hname
    rw [shownBlock, resolvedStorage, h.others other hname, shownBlock, resolvedStorage]

end Unloads

namespace WorldSession

open PublishedStateRoot

theorem exists_unloadReceipt {s : WorldSession} {id : SectionId} {hook : PinExemptionHook}
    (h : Unloaded id s.root (s.step (.unload id.key hook)).root) :
    ∃ receipt, (unloadSection s.world id.key hook).1 = .ok receipt := by
  rcases unload_outcome s.world id.key hook with ⟨hkept, -⟩ | ⟨receipt, -, -, hok, -⟩
  · obtain ⟨payload, hready⟩ := h.resident
    have hsame : (s.step (.unload id.key hook)).root = s.root := hkept.root
    have hticket := h.ticket
    rw [hsame, hready] at hticket
    cases hticket
  · exact ⟨receipt, hok⟩

/-- **Unloads and what readers see.** Over an original map that the first root reads like,
an unload that succeeds after any run leaves every cell's block as readers found it
exactly when, if the section was ready, the commits of the run come out at the original
map's block in each of its cells. -/
theorem unload_keeps_blocks_iff (roots : PublishedStateRoot → Prop)
    (hfree : PublishedStateRoot.CollisionFree roots) (world : WorldInstance)
    (baseline : SectionStorageResolver) (hbaseline : world.root.ReadsLike baseline)
    (ops : List WorldOp) (hroots : ∀ s ∈ visited step (.start world) ops, roots s.root)
    (sectionId : String) (hook : PinExemptionHook) (receipt : UnloadReceipt)
    (hunload : (unloadSection (run step (.start world) ops).world sectionId hook).1 = .ok receipt)
    (view view' : PublishedReadView) (reader : BlockReadWorld)
    (hview : view.root = (run step (.start world) ops).root)
    (hview' : view'.root = (run step (.start world) (ops ++ [.unload sectionId hook])).root)
    (hreader : BlockReadWorld.fromPublishedViewWithBaseline view baseline = .ok reader) :
    (∃ reader', BlockReadWorld.fromPublishedViewWithBaseline view' baseline = .ok reader' ∧
        ∀ x y z, reader'.blockAt x y z = reader.blockAt x y z) ↔
      ∀ x y z worldY, WorldY.new y = .ok worldY → (SectionId.ofCell x worldY z).key = sectionId →
        (∃ payload, view.root.directory.entries[SectionId.ofCell x worldY z]? =
          some (.ready payload)) →
        Unedited baseline ((start world).edits ops) (SectionId.ofCell x worldY z)
          (CellOffset.fromWorld x worldY z) := by
  have hover := overlays_start hfree hbaseline hroots
  rw [← hview] at hover
  have hmaterializes := BlockReadWorld.exists_fromPublishedView_iff.mp ⟨reader, hreader⟩
  rw [run_append, run_cons, run_nil] at hview'
  rcases unload_outcome (run step (.start world) ops).world sectionId hook with
    ⟨hkept, hticket⟩ | ⟨-, id, rfl, -, hunloaded, -⟩
  · -- a ticket was there already
    obtain ⟨id, rfl, -, hentry⟩ := hticket receipt hunload
    have hsame : view'.root = view.root := hview'.trans (hkept.root.trans hview.symm)
    obtain ⟨reader', hreader'⟩ : ∃ reader',
        BlockReadWorld.fromPublishedViewWithBaseline view' baseline = .ok reader' :=
      BlockReadWorld.exists_fromPublishedView_iff.mpr (hsame ▸ hmaterializes)
    apply iff_of_true
    · refine ⟨reader', hreader', ?_⟩
      apply (BlockReadWorld.blockAt_eq_everywhere_iff hreader hreader').mpr
      intro x y z worldY _
      rw [hsame]
    · rintro x y z worldY - hkey ⟨payload, hready⟩
      rw [SectionId.key_injective hkey, hview] at hready
      cases hentry.symm.trans hready
  · replace hunloaded : Unloaded id view.root view'.root := by
      rw [hview, hview']
      exact hunloaded
    obtain ⟨payload, hready⟩ := hunloaded.resident
    obtain ⟨storage, hstorage, -⟩ := hover.shown_ready hmaterializes hready
    obtain ⟨reader', hreader'⟩ : ∃ reader',
        BlockReadWorld.fromPublishedViewWithBaseline view' baseline = .ok reader' :=
      BlockReadWorld.exists_fromPublishedView_iff.mpr
        (hunloaded.materializes hstorage hmaterializes)
    have hshown := BlockReadWorld.blockAt_eq_everywhere_iff hreader hreader'
    constructor
    · rintro ⟨found, hfound, hall⟩ x y z worldY hy hkey -
      obtain rfl := Except.ok.inj (hreader'.symm.trans hfound)
      apply (hunloaded.shown_iff hover hmaterializes _ _).mp (hshown.mp hall x y z worldY hy)
      exact SectionId.key_injective hkey
    · intro hunedited
      refine ⟨reader', hreader', hshown.mpr fun x y z worldY hy => ?_⟩
      apply (hunloaded.shown_iff hover hmaterializes _ _).mpr
      rintro rfl
      exact hunedited x y z worldY hy rfl hunloaded.resident

/-- Where nothing is committed, nothing is edited. -/
theorem edits_of_quiet {s : WorldSession} {ops : List WorldOp} (h : ∀ i, WorldOp.commit i ∉ ops) :
    s.edits ops = [] := by
  induction ops generalizing s with
  | nil => rfl
  | cons op rest ih =>
    have hedit : s.edit op = none := by
      cases op with
      | commit i => exact absurd List.mem_cons_self (h i)
      | _ => rfl
    show (s.edit op).toList ++ (s.step op).edits rest = []
    rw [hedit, ih fun i hin => h i (List.mem_cons_of_mem _ hin)]
    rfl

theorem Life.edits_firstFill {s : WorldSession} {cut : RuntimeSnapshotCut} {cap : Nat}
    (h : s.Life cut cap) :
    s.edits firstFill = [fillRequest "first" originSection ⟨1⟩ 0] := by
  obtain ⟨token, d, receipt, hcommits, hrequest⟩ := h.fills
  have hedits : s.edits firstFill = ((s.step (.prepare
    (fillRequest "first" originSection ⟨1⟩ 0))).edit (.commit 0)).toList ++ [] := rfl
  rw [hedits, hcommits.edit_eq, hrequest]
  rfl

/-- The two fills are all a section's life commits. -/
theorem Life.edits_written {s : WorldSession} {cut : RuntimeSnapshotCut} {cap : Nat}
    (h : s.Life cut cap) {later : List WorldOp} (hquiet : ∀ i, WorldOp.commit i ∉ later) :
    s.edits (written cut cap ++ later) =
      [fillRequest "first" originSection ⟨1⟩ 0, fillRequest "second" originSection ⟨0⟩ 1] := by
  obtain ⟨token, d, receipt, hcommits, hrequest⟩ := h.fills
  obtain ⟨token', d', receipt', hcommits', hrequest'⟩ := h.refills
  have hedits : s.edits (written cut cap ++ later) =
      ((s.step (.prepare (fillRequest "first" originSection ⟨1⟩ 0))).edit (.commit 0)).toList ++
        ((((run step s (firstFill ++ saving cut cap)).step
          (.prepare (fillRequest "second" originSection ⟨0⟩ 1))).edit (.commit 0)).toList ++
        (run step s (written cut cap)).edits later) := rfl
  rw [hedits, hcommits.edit_eq, hcommits'.edit_eq, hrequest, hrequest', edits_of_quiet hquiet]
  rfl

omit [UnicodeTables] in
theorem lastWrite_fill_other {txnId : String} {id other : SectionId} {block : BlockId}
    {revision : UInt64} (h : other ≠ id) (offset : CellOffset) :
    (fillRequest txnId id block revision).lastWrite other offset = none :=
  MutationRequest.lastWrite_of_not_names
    (fun hname => h ((fillRequest_fills.names other).mp hname)) offset

omit [UnicodeTables] in
/-- Filled and filled back, every cell holds the original map's block. -/
theorem unedited_refilled (id : SectionId) (offset : CellOffset) :
    Unedited (uniformBaseline ⟨0⟩)
      [fillRequest "first" originSection ⟨1⟩ 0, fillRequest "second" originSection ⟨0⟩ 1]
      id offset := by
  intro storage block hbaseline hedit
  obtain rfl := Option.some.inj hbaseline
  simp only [lastEdit, List.foldl_cons, List.foldl_nil] at hedit
  by_cases hid : id = originSection
  · subst hid
    rw [fillRequest_fills.writes, Option.some_or] at hedit
    exact (Option.some.inj hedit).symm
  · rw [lastWrite_fill_other hid, lastWrite_fill_other hid] at hedit
    cases hedit

omit [UnicodeTables] in
/-- A section whose edits come out at the original map's blocks is acknowledged and unloaded. -/
theorem unload_keeps_blocks_iff_life : letI := asciiOnly
    ∃ authority cut cap, let s := start (runningWorld authority none)
      let settled := written cut cap ++ [.ack lateAck, .ack fullAck]
      let t := run step s settled
      let u := run step s (settled ++ [.unload originSection.key fun _ => .ok ()])
      s.edits settled =
        [fillRequest "first" originSection ⟨1⟩ 0, fillRequest "second" originSection ⟨0⟩ 1] ∧
      (∀ offset, (run step s firstFill).root.readCell originSection offset = some ⟨1⟩) ∧
      (∀ offset, t.root.readCell originSection offset = some ⟨0⟩) ∧
      u.root.directory.entries[originSection]? = some .unchanged ∧ ∃ reader reader',
        BlockReadWorld.fromPublishedViewWithBaseline t.world.authority.capture.1
          (uniformBaseline ⟨0⟩) = .ok reader ∧
        BlockReadWorld.fromPublishedViewWithBaseline u.world.authority.capture.1
          (uniformBaseline ⟨0⟩) = .ok reader' ∧
        reader.blockAt 0 0 0 = .ok (some ⟨0⟩) ∧
        ∀ x y z, reader'.blockAt x y z = reader.blockAt x y z := by
  let _ := asciiOnly
  obtain ⟨authority, cut, cap, -, hroot, hlife⟩ := exists_lived
  let s : WorldSession := start (runningWorld authority none)
  let settled := written cut cap ++ [.ack lateAck, .ack fullAck]
  let t := run step s settled
  let u := run step s (settled ++ [.unload originSection.key fun _ => .ok ()])
  have hroot' : (runningWorld authority none).root = twoBlockRoot ⟨0⟩ := hroot
  obtain ⟨receipt, hreceipt⟩ := hlife.drops
  have hmaterializes : t.root.Materializes (uniformBaseline ⟨0⟩) :=
    hlife.settled.alike.materializes settled_materializes
  obtain ⟨reader, hreader⟩ := exists_reader hmaterializes
  have hedits : s.edits settled = _ := hlife.edits_written (by simp)
  have hshows : ∀ u : WorldSession, u.world.authority.capture.1.root = u.root := fun _ => rfl
  obtain ⟨reader', hreader', hsame⟩ := (unload_keeps_blocks_iff OfLife collisionFree_ofLife
    (runningWorld authority none) (uniformBaseline ⟨0⟩) (hroot' ▸ twoBlockRoot_readsLike ⟨0⟩)
    settled (hlife.roots [.unload originSection.key fun _ => .ok (), .release 0,
      .restore 0 "world" 1 approvedConfig] rfl) originSection.key (fun _ => .ok ()) receipt hreceipt
    t.world.authority.capture.1 u.world.authority.capture.1 reader (hshows t) (hshows u)
    hreader).mpr (by
      intro x y z worldY _ _ _
      rw [hedits]
      exact unedited_refilled _ _)
  have hcells : ∀ offset, t.root.readCell originSection offset = some ⟨0⟩ :=
    fun offset => (hlife.cells offset).2.2.2.1
  exact ⟨authority, cut, cap, hedits, fun offset => (hlife.cells offset).2.1, hcells,
    hlife.unloads.ticket, reader, reader', hreader, hreader',
    blockAt_origin hreader (shown_of_readCell (hcells originCell)), hsame⟩

omit [UnicodeTables] in
/-- The block committed at the origin is gone after the unload. -/
theorem unload_loses_edit : letI := asciiOnly
    ∃ authority,
      let s := run step (.start (runningWorld authority none))
        [.prepare originEdit, .commit 0, .ack originAck]
      let t := s.step (.unload originSection.key fun _ => .ok ())
      authority.root.ReadsLike (uniformBaseline ⟨0⟩) ∧
      (∃ receipt, (unloadSection s.world originSection.key fun _ => .ok ()).1 = .ok receipt) ∧
      ∃ reader reader',
        BlockReadWorld.fromPublishedViewWithBaseline s.world.authority.capture.1
          (uniformBaseline ⟨0⟩) = .ok reader ∧
        BlockReadWorld.fromPublishedViewWithBaseline t.world.authority.capture.1
          (uniformBaseline ⟨0⟩) = .ok reader' ∧
        reader.blockAt 0 0 0 = .ok (some ⟨1⟩) ∧ reader'.blockAt 0 0 0 = .ok (some ⟨0⟩) := by
  let _ := asciiOnly
  obtain ⟨authority, hroot, hcell, hmaterializes, hunloaded⟩ := exists_originUnloadedEdit
  obtain ⟨reader, hreader⟩ := exists_reader (hmaterializes (uniformBaseline ⟨0⟩))
  obtain ⟨reader', hreader'⟩ := exists_reader
    (hunloaded.materializes (show uniformBaseline ⟨0⟩ originSection = some _ from rfl)
      (hmaterializes _))
  refine ⟨authority, hroot ▸ oneSectionRoot_readsLike ⟨0⟩, exists_unloadReceipt hunloaded, reader,
    reader', hreader, hreader', blockAt_origin hreader (shown_of_readCell hcell), ?_⟩
  exact blockAt_origin hreader' (shown_unchanged hunloaded.ticket _)

end WorldSession

/-! ## 7. Restores -/

/-- What it takes for a cell of a captured cut to come back: its section held blocks and
is listed, and holds the original map's block, or it held none and is not listed. -/
def PublishedStateRoot.ComesBack (cut : PublishedStateRoot) (baseline : SectionStorageResolver)
    (edits : List MutationRequest) (id : SectionId) (offset : CellOffset) : Prop :=
  match cut.directory.entries[id]? with
  | some (.ready _) => cut.Listed id ∧ Unedited baseline edits id offset
  | some .unchanged => cut.Listed id
  | some .pending => ¬ cut.Listed id
  | some .unavailable => ¬ cut.Listed id
  | none => ¬ cut.Listed id

namespace WorldSession

section Restores

variable {cut new : PublishedStateRoot} {baseline : SectionStorageResolver}
  {done : List MutationRequest} {id : SectionId}

open PublishedStateRoot

omit [UnicodeTables] in
/-- A restored section shows the original map when it is listed. -/
theorem CutRestored.shown_listed (h : CutRestored cut new) (hlisted : cut.Listed id)
    (offset : CellOffset) :
    new.shownBlock baseline id offset = (baseline id).map (·.read offset) := by
  obtain ⟨revision, hrevision⟩ := Option.ne_none_iff_exists'.mp hlisted
  apply shown_unchanged
  rw [h.slots, hrevision, Option.map_some]

omit [UnicodeTables] in
/-- And nothing when it is not. -/
theorem CutRestored.shown_unlisted (h : CutRestored cut new) (hlisted : ¬ cut.Listed id)
    (offset : CellOffset) : new.shownBlock baseline id offset = none := by
  rw [shownBlock, resolvedStorage, h.slots, not_not.mp hlisted]
  rfl

omit [UnicodeTables] in
/-- Every listed section needs its storage at hand, and no other. -/
theorem CutRestored.materializes_iff (h : CutRestored cut new) : new.Materializes baseline ↔
    ∀ id, cut.Listed id → ∃ storage, baseline id = some storage := by
  constructor
  · intro hmaterializes id hlisted
    obtain ⟨revision, hrevision⟩ := Option.ne_none_iff_exists'.mp hlisted
    apply hmaterializes id .unchanged _ (.inr rfl)
    rw [h.slots, hrevision, Option.map_some]
  · intro hstorages id slot hslot _
    rw [h.slots] at hslot
    obtain ⟨revision, hrevision, rfl⟩ := Option.map_eq_some_iff.mp hslot
    apply hstorages id
    rw [Listed, hrevision]
    exact Option.some_ne_none revision

omit [UnicodeTables] in
/-- Where the cut shows nothing, the restored root does so for sections not listed. -/
theorem CutRestored.shown_none_iff (h : CutRestored cut new)
    (hmaterializes : new.Materializes baseline) (offset : CellOffset) :
    new.shownBlock baseline id offset = none ↔ ¬ cut.Listed id := by
  constructor
  · intro hnone hlisted
    obtain ⟨storage, hstorage⟩ := h.materializes_iff.mp hmaterializes id hlisted
    rw [h.shown_listed hlisted, hstorage] at hnone
    cases hnone
  · intro hlisted
    exact h.shown_unlisted hlisted offset

omit [UnicodeTables] in
/-- Where the cut shows a block, the restored root shows the original map's block for
listed sections. -/
theorem CutRestored.shown_some_iff (h : CutRestored cut new) {storage : SectionStorage}
    (hstorage : baseline id = some storage) (offset : CellOffset) (block : BlockId) :
    new.shownBlock baseline id offset = some block ↔
      cut.Listed id ∧ storage.read offset = block := by
  by_cases hlisted : cut.Listed id
  · rw [h.shown_listed hlisted, hstorage, Option.map_some, Option.some.injEq, and_iff_right hlisted]
  · rw [h.shown_unlisted hlisted]
    refine iff_of_false ?_ fun hboth => hlisted hboth.1
    exact Option.some_ne_none block ∘ Eq.symm

omit [UnicodeTables] in
theorem CutRestored.shown_iff (h : CutRestored cut new) (hover : cut.Overlays baseline done)
    (hcut : cut.Materializes baseline) (hnew : new.Materializes baseline) (offset : CellOffset) :
    new.shownBlock baseline id offset = cut.shownBlock baseline id offset ↔
      cut.ComesBack baseline done id offset := by
  have hnothing : ∀ slot?, cut.directory.entries[id]? = slot? →
      slot?.bind (·.resolve baseline id) = none →
      (new.shownBlock baseline id offset = cut.shownBlock baseline id offset ↔
        ¬ cut.Listed id) := by
    intro slot? hslot hresolve
    have hshown : cut.shownBlock baseline id offset = none := by
      rw [shownBlock, resolvedStorage, hslot, hresolve]
      rfl
    rw [hshown]
    exact h.shown_none_iff hnew offset
  cases hslot : cut.directory.entries[id]? with
  | none =>
    simp only [ComesBack, hslot]
    exact hnothing _ hslot rfl
  | some slot =>
    cases slot with
    | ready payload =>
      obtain ⟨storage, hstorage, hshown⟩ := hover.shown_ready hcut hslot
      simp only [ComesBack, hslot]
      rw [hshown, h.shown_some_iff hstorage, unedited_iff hstorage]
    | unchanged =>
      obtain ⟨storage, hstorage⟩ := hcut id _ hslot (.inr rfl)
      replace hstorage : baseline id = some storage := hstorage
      simp only [ComesBack, hslot]
      rw [shown_unchanged hslot, hstorage, Option.map_some, h.shown_some_iff hstorage]
      exact and_iff_left rfl
    | pending =>
      simp only [ComesBack, hslot]
      exact hnothing _ hslot rfl
    | unavailable =>
      simp only [ComesBack, hslot]
      exact hnothing _ hslot rfl

end Restores

/-- What a restore makes of the cut it goes back to, as readers over the original map
see it. -/
structure CutReproduced (baseline : SectionStorageResolver) (world : WorldInstance)
    (ops : List WorldOp) (cut new : PublishedStateRoot) : Prop where
  /-- The cut was published in the run. -/
  published : ∃ first rest, ops = first ++ rest ∧
    (run step (.start world) first).root = cut
  worldRevision : new.stamp.worldRevision = cut.stamp.worldRevision
  revisions : ∀ key : String,
    new.stamp.effectiveRevision key = cut.stamp.effectiveRevision key
  /-- There is a reader when the original map has every listed section. -/
  readable : ∀ view' : PublishedReadView, view'.root = new →
    ((∃ reader', BlockReadWorld.fromPublishedViewWithBaseline view' baseline = .ok reader') ↔
      ∀ id, cut.Listed id → ∃ storage, baseline id = some storage)
  /-- A cell reads as over the cut exactly when it comes back. -/
  blocks : ∀ first rest, ops = first ++ rest →
    (run step (.start world) first).root = cut →
    ∀ (view view' : PublishedReadView) (reader reader' : BlockReadWorld),
      view.root = cut → view'.root = new →
      BlockReadWorld.fromPublishedViewWithBaseline view baseline = .ok reader →
      BlockReadWorld.fromPublishedViewWithBaseline view' baseline = .ok reader' →
      ∀ x y z worldY, WorldY.new y = .ok worldY →
        (reader'.blockAt x y z = reader.blockAt x y z ↔
          cut.ComesBack baseline ((start world).edits first)
            (SectionId.ofCell x worldY z) (CellOffset.fromWorld x worldY z))

/-- **Restores and what readers see.** A restore that goes through puts the revisions of
the captured cut back, and the original map's blocks in the sections listed there. -/
theorem restore_reproduces_cut (roots : PublishedStateRoot → Prop)
    (hfree : PublishedStateRoot.CollisionFree roots) (world : WorldInstance)
    (baseline : SectionStorageResolver) (hbaseline : world.root.ReadsLike baseline)
    (ops : List WorldOp) (hroots : ∀ s ∈ visited step (.start world) ops, roots s.root)
    (op : WorldOp) (snapshot : SavedSnapshot) (candidate : SealedRestoreCandidate)
    (hrestores : (run step (.start world) ops).Restores op snapshot candidate) :
    CutReproduced baseline world ops snapshot.capture.root
      ((run step (.start world) ops).step op).root where
  published := by
    have hknown : Known (fun root => ∃ t ∈ visited step (.start world) ops, root = t.root)
        (run step (.start world) ops) :=
      known_visited (fun t ht => ⟨t, ht, rfl⟩) _ (run_mem_visited _ ops)
    obtain ⟨j, worldId, generation, config, -, hsnapshot, -⟩ := hrestores.named
    obtain ⟨t, ht, hroot⟩ := hknown.snapshots snapshot (List.mem_of_getElem? hsnapshot)
    obtain ⟨first, rest, hsplit, rfl⟩ := mem_visited_iff.mp ht
    exact ⟨first, rest, hsplit, hroot.symm⟩
  worldRevision := hrestores.cut.world
  revisions := by
    intro key
    rw [RevisionStamp.effectiveRevision, hrestores.cut.revisions, hrestores.cut.world]
    rfl
  readable := by
    rintro view' hview'
    rw [BlockReadWorld.exists_fromPublishedView_iff, hview']
    exact hrestores.cut.materializes_iff
  blocks := by
    intro first rest hsplit hcut view view' reader reader' hview hview' hreader hreader' x y z
      worldY hy
    subst hsplit
    have hvisited : ∀ t ∈ visited step (.start world) first, roots t.root :=
      fun t ht => hroots t (mem_visited_append_left _ ht)
    have hover := overlays_start hfree hbaseline hvisited
    rw [hcut, ← hview] at hover
    have hrestored := hrestores.cut
    rw [← hview, ← hview'] at hrestored
    rw [BlockReadWorld.blockAt_eq_iff hreader hreader' hy, ← hview]
    apply hrestored.shown_iff hover
    · exact BlockReadWorld.exists_fromPublishedView_iff.mp ⟨reader, hreader⟩
    · exact BlockReadWorld.exists_fromPublishedView_iff.mp ⟨reader', hreader'⟩

omit [UnicodeTables] in
/-- A cut with two resident sections, one of them listed, is put back: the listed one reads as
over the cut, the other one is no longer there. -/
theorem restore_reproduces_cut_life : letI := asciiOnly
    ∃ (authority : PublicationAuthority) (ops : List WorldOp) (snapshot : SavedSnapshot)
      (candidate : SealedRestoreCandidate),
      let world := runningWorld authority none
      let s := run step (.start world) ops
      let t := s.step (.restore 1 "world" 1 approvedConfig)
      (start world).edits ops =
        [fillRequest "first" originSection ⟨1⟩ 0, fillRequest "second" originSection ⟨0⟩ 1] ∧
      s.Restores (.restore 1 "world" 1 approvedConfig) snapshot candidate ∧
      CutReproduced (uniformBaseline ⟨0⟩) world ops snapshot.capture.root t.root ∧
      snapshot.capture.root.Listed originSection ∧
      ¬ snapshot.capture.root.Listed neighbourSection ∧
      t.root.stamp.worldRevision = 2 ∧ t.root.stamp.effectiveRevision originSection.key = 2 ∧
      ∃ reader reader',
        BlockReadWorld.fromPublishedViewWithBaseline s.world.authority.capture.1
          (uniformBaseline ⟨0⟩) = .ok reader ∧
        BlockReadWorld.fromPublishedViewWithBaseline t.world.authority.capture.1
          (uniformBaseline ⟨0⟩) = .ok reader' ∧
        reader.blockAt 0 0 0 = .ok (some ⟨0⟩) ∧ reader'.blockAt 0 0 0 = .ok (some ⟨0⟩) ∧
        reader.blockAt 16 0 0 = .ok (some ⟨0⟩) ∧ reader'.blockAt 16 0 0 = .ok none := by
  let _ := asciiOnly
  obtain ⟨authority, cut, cap, -, hroot, hlife⟩ := exists_lived
  obtain ⟨cut', cap', snapshot, candidate, hover, hroots, hrestores, hsnapshot⟩ := hlife.resave
  let ops := written cut cap ++ [.capture cut', .encode 1 cap']
  let s := run step (.start (runningWorld authority none)) ops
  let t := s.step (.restore 1 "world" 1 approvedConfig)
  have hroot' : (runningWorld authority none).root = twoBlockRoot ⟨0⟩ := hroot
  have hreproduced := restore_reproduces_cut OfLife collisionFree_ofLife (runningWorld authority none)
    (uniformBaseline ⟨0⟩) (hroot' ▸ twoBlockRoot_readsLike ⟨0⟩) ops hroots _ snapshot candidate
    hrestores
  have hlisted : ∀ id : SectionId, snapshot.capture.root.Listed id ↔ id.key = originSection.key := by
    intro id
    rw [PublishedStateRoot.Listed, hsnapshot.stamp]
    exact listed_filled ⟨0⟩ (fun key => (listed_filledRoot key).mp) id.key
  have hneighbour : ¬ snapshot.capture.root.Listed neighbourSection := fun hyes =>
    absurd (SectionId.key_injective ((hlisted neighbourSection).mp hyes)) (by decide)
  have hrevision : snapshot.capture.root.stamp.effectiveRevision originSection.key = 2 := by
    rw [hsnapshot.stamp, refilledRoot, effectiveRevision_filled, effectiveRevision_filledRoot]
    rfl
  have hmaterializes : s.root.Materializes (uniformBaseline ⟨0⟩) :=
    hover.alike.materializes refilled_materializes
  obtain ⟨reader, hreader⟩ := exists_reader hmaterializes
  have hall : ∀ id, snapshot.capture.root.Listed id →
      ∃ storage, uniformBaseline ⟨0⟩ id = some storage := fun id _ => ⟨_, rfl⟩
  obtain ⟨reader', hreader'⟩ := exists_reader (s := t) (hrestores.cut.materializes_iff.mpr hall)
  have hcell : ∀ id, (twoBlockRoot ⟨0⟩).directory.entries[id]? = some (.ready (.ofBlock ⟨0⟩)) →
      ∀ offset, s.root.shownBlock (uniformBaseline ⟨0⟩) id offset = some ⟨0⟩ := by
    intro id hid offset
    apply PublishedStateRoot.shown_of_readCell
    rw [hover.alike.sameCut.cells]
    exact PublishedStateRoot.readCell_ofBlock (slot_refilled hid) offset
  have hy : WorldY.new 0 = .ok ⟨0⟩ := rfl
  have hx : SectionId.ofCell 16 ⟨0⟩ 0 = neighbourSection := by decide
  refine ⟨authority, ops, snapshot, candidate, hlife.edits_written (by simp), hrestores, hreproduced,
    (hlisted originSection).mpr rfl, hneighbour, ?_, ?_, reader, reader', hreader, hreader',
    blockAt_origin hreader (hcell _ (slot_twoBlockRoot ⟨0⟩) _),
    blockAt_origin hreader' (hrestores.cut.shown_listed ((hlisted originSection).mpr rfl) _), ?_, ?_⟩
  · rw [hrestores.cut.world, hsnapshot.stamp]
    rfl
  · rw [hreproduced.revisions, hrevision]
  · rw [BlockReadWorld.blockAt_eq hreader hy, hx]
    exact congrArg Except.ok (hcell _ (slot_neighbour ⟨0⟩) _)
  · rw [BlockReadWorld.blockAt_eq hreader' hy, hx]
    exact congrArg Except.ok (hrestores.cut.shown_unlisted hneighbour _)

omit [UnicodeTables] in
/-- The block committed at the origin is in the captured cut and not in the restored one. -/
theorem restore_loses_edit : letI := asciiOnly
    ∃ (authority : PublicationAuthority) (cut : RuntimeSnapshotCut) (cap : Nat) (worldId : String)
      (generation : UInt64) (config : VoxelConfigSnapshot) (snapshot : SavedSnapshot)
      (candidate : SealedRestoreCandidate),
      let s := run step (.start (runningWorld authority none)) [.prepare originEdit, .commit 0]
      let t := run step s [.capture cut, .encode 0 cap]
      authority.root.ReadsLike (uniformBaseline ⟨0⟩) ∧
      t.Restores (.restore 0 worldId generation config) snapshot candidate ∧
      snapshot.capture.root = s.root ∧ ∃ reader reader',
        BlockReadWorld.fromPublishedViewWithBaseline s.world.authority.capture.1
          (uniformBaseline ⟨0⟩) = .ok reader ∧
        BlockReadWorld.fromPublishedViewWithBaseline
          (t.step (.restore 0 worldId generation config)).world.authority.capture.1
          (uniformBaseline ⟨0⟩) = .ok reader' ∧
        reader.blockAt 0 0 0 = .ok (some ⟨1⟩) ∧ reader'.blockAt 0 0 0 = .ok (some ⟨0⟩) := by
  let _ := asciiOnly
  obtain ⟨authority, token, d, receipt, hroot, hcommits, heffect, hserves, -⟩ :=
    exists_firstCommit [(originCell, ⟨1⟩)] (by decide)
  rw [hroot] at heffect
  let s := ((start (runningWorld authority none)).step (.prepare originEdit)).step (.commit 0)
  have hedited : OriginEdited s.root := originEdited_of_commit heffect
  obtain ⟨cap, snapshot, candidate, hrestores, hcut⟩ :=
    save_restore_step (s := s) hserves (show "cut" ≠ "" by decide) hedited.keys
  have hrestored := hrestores.cut
  rw [hcut] at hrestored
  have hlisted : s.root.Listed originSection := by
    intro hnone
    cases hnone.symm.trans hedited.revision
  obtain ⟨reader, hreader⟩ := exists_reader (hedited.materializes (uniformBaseline ⟨0⟩))
  have hall : ∀ id, s.root.Listed id → ∃ storage, uniformBaseline ⟨0⟩ id = some storage :=
    fun id _ => ⟨_, rfl⟩
  obtain ⟨reader', hreader'⟩ := exists_reader (hrestored.materializes_iff.mpr hall)
  have hbefore := blockAt_origin hreader (PublishedStateRoot.shown_of_readCell hedited.cell)
  have hafter := blockAt_origin hreader' (hrestored.shown_listed hlisted _)
  exact ⟨authority, _, cap, _, _, _, snapshot, candidate, hroot ▸ oneSectionRoot_readsLike ⟨0⟩,
    hrestores, hcut, reader, reader', hreader, hreader', hbefore, hafter⟩

end WorldSession

end Runs

end LumioVoxel
