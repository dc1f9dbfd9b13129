import LumioVoxel.PhysicsLookup
import LumioVoxel.QueryExecution
import LumioVoxel.RegionPins

/-!
# Three read paths over one cut

Block reads, physical queries and section queries each map a published cut to
what their callers see, with code of their own.  Block reads and physical
queries show the same blocks, since both refine what the cut shows.  They do not
report the same presence: a resolved `Unchanged` ticket is `Unchanged` to one
and `Ready` to the other, which a residency guard tells apart.  Section queries
and block reads agree on every section the directory lists.
-/

namespace LumioVoxel

open Fallible

/-! ## 1. Cuts of at most one section -/

/-- A view of a cut that holds the section at the origin in one slot, or nothing. -/
def originView (slot? : Option SectionSlot) : PublishedReadView :=
  let stamp := toRevisionStamp "world" "context" 1 0 []
  ⟨.new stamp ⟨match slot? with
      | some slot => (∅ : BTreeMap SectionId SectionSlot).insert originSection slot
      | none => ∅⟩ ⟨"world", 1, ∅⟩, ⟨stamp, 0⟩⟩

theorem originView_entry {slot? : Option SectionSlot} {id : SectionId} :
    (originView slot?).root.directory.entries[id]? = if originSection = id then slot? else none := by
  cases slot? with
  | none => exact (BTreeMap.getElem?_empty id).trans (ite_self none).symm
  | some slot =>
    refine (BTreeMap.getElem?_insert _ originSection id slot).trans ?_
    rw [BTreeMap.getElem?_empty]

theorem originView_materializes {slot? : Option SectionSlot} {baseline : SectionStorageResolver}
    (h : ∀ slot, slot? = some slot → ∃ storage, slot.resolve baseline originSection = some storage) :
    (originView slot?).root.Materializes baseline := by
  intro id slot hentry _
  rw [originView_entry] at hentry
  split at hentry
  · rename_i hid
    exact hid ▸ h slot hentry
  · cases hentry

theorem ofCell_origin : SectionId.ofCell 0 ⟨0⟩ 0 = originSection :=
  SectionId.ext (by decide) (by decide) (by decide)

/-- The original map holds one block everywhere. -/
def uniformBaseline (block : BlockId) : SectionStorageResolver := fun _ => some (.uniform block)

def solidEverywhere : MaterialClassLookup := fun _ => some .solid

theorem exists_ticketWorlds (block : BlockId) :
    ∃ blocks physics,
      BlockReadWorld.fromPublishedViewWithBaseline (originView (some .unchanged))
        (uniformBaseline block) = .ok blocks ∧
      PhysicsWorld.fromPublishedViewWithBaseline (originView (some .unchanged))
        (uniformBaseline block) = .ok physics := by
  have hmaterializes : (originView (some .unchanged)).root.Materializes (uniformBaseline block) :=
    originView_materializes fun slot hslot => by
      obtain rfl := Option.some.inj hslot
      exact ⟨_, rfl⟩
  obtain ⟨blocks, hblocks⟩ := BlockReadWorld.exists_fromPublishedView_iff.mpr hmaterializes
  obtain ⟨physics, hphysics⟩ := PhysicsWorld.exists_fromPublishedView_iff.mpr hmaterializes
  exact ⟨blocks, physics, hblocks, hphysics⟩

/-! ## 2. The same blocks -/

theorem exists_worldY {y : Int32} (h0 : 0 ≤ y.toInt) (h255 : y.toInt ≤ 255) :
    ∃ worldY, WorldY.new y.toInt64 = .ok worldY := by
  refine ⟨⟨UInt8.ofNat y.toInt.toNat⟩, WorldY.new_eq_ok.mpr ?_⟩
  rw [Int32.toInt_toInt64, UInt8.toNat_ofNat_of_lt']
  · omega
  · simp only [UInt8.size]
    omega

/-- The lookup of a cell given by its coordinates. -/
private theorem lookup_at {view : PublishedReadView} {baseline : SectionStorageResolver}
    (query : PhysicsQuery)
    (h : PhysicsWorld.fromPublishedViewWithBaseline view baseline = .ok query.world)
    (x z : Int32) {y : Int32} {worldY : WorldY} (hy : WorldY.new y.toInt64 = .ok worldY) :
    query.lookup ⟨x, y, z⟩ = (do
      query.validatePresence (SectionId.ofCell x worldY z)
        (observedPresence view.root (SectionId.ofCell x worldY z)).name
      return match view.root.resolvedStorage baseline (SectionId.ofCell x worldY z) with
        | some storage => .block (storage.read (CellOffset.fromWorld x worldY z))
        | none => .unresolved (SectionId.ofCell x worldY z)) :=
  PhysicsQuery.lookup_eq h (show WorldY.new (CellCoord.mk x y z).y.toInt64 = .ok worldY from hy)

/-- **Block reads and physical queries see the same world.** They can be built
from the same cuts and baselines; a cell reads as a block to one exactly when it
is that block to the other, and as nothing exactly when its section, which both
name alike, is unresolved. -/
theorem block_reads_match_physics (view : PublishedReadView) (baseline : SectionStorageResolver)
    (materials : MaterialClassLookup) :
    ((∃ blocks, BlockReadWorld.fromPublishedViewWithBaseline view baseline = .ok blocks) ↔
      ∃ physics, PhysicsWorld.fromPublishedViewWithBaseline view baseline = .ok physics) ∧
    ∀ blocks physics, BlockReadWorld.fromPublishedViewWithBaseline view baseline = .ok blocks →
      PhysicsWorld.fromPublishedViewWithBaseline view baseline = .ok physics →
      ∀ x y z : Int32, 0 ≤ y.toInt → y.toInt ≤ 255 →
        ∃ result found, blocks.readCell x y.toInt64 z = .ok result ∧
          (PhysicsQuery.new physics materials).lookup ⟨x, y, z⟩ = .ok found ∧
          (∀ block, result.cell.blockId = some block ↔ found = .block block) ∧
          (result.cell.blockId = none ↔ ∃ id, found = .unresolved id) ∧
          ∀ id, found = .unresolved id → id.key = result.sectionId := by
  constructor
  · rw [BlockReadWorld.exists_fromPublishedView_iff, PhysicsWorld.exists_fromPublishedView_iff]
  intro blocks physics hblocks hphysics x y z h0 h255
  obtain ⟨worldY, hy⟩ := exists_worldY h0 h255
  have hread := BlockReadWorld.readCell_eq hblocks (x := x) (z := z) hy
  have hlookup := lookup_at (.new physics materials) hphysics x z hy
  refine ⟨_, _, hread, hlookup, ?_⟩
  cases view.root.resolvedStorage baseline (SectionId.ofCell x worldY z) with
  | none =>
    refine ⟨?_, ?_, ?_⟩
    · intro block
      simp only [Option.map_none, reduceCtorEq]
    · simp only [Option.map_none, CellLookup.unresolved.injEq, exists_eq']
    · intro id hid
      rw [CellLookup.unresolved.inj hid]
  | some storage =>
    refine ⟨?_, ?_, ?_⟩
    · intro block
      simp only [Option.map_some, Option.some.injEq, CellLookup.block.injEq]
    · simp only [Option.map_some, reduceCtorEq, exists_false]
    · intro id hid
      cases hid

theorem block_reads_match_physics_ticket :
    ∃ blocks physics result found,
      BlockReadWorld.fromPublishedViewWithBaseline (originView (some .unchanged))
        (uniformBaseline ⟨256⟩) = .ok blocks ∧
      blocks.readCell (-1) (Int32.toInt64 255) 0 = .ok result ∧
      (PhysicsQuery.new physics solidEverywhere).lookup ⟨-1, 255, 0⟩ = .ok found ∧
      (result.cell.blockId = none ↔ ∃ id, found = .unresolved id) := by
  obtain ⟨blocks, physics, hblocks, hphysics⟩ := exists_ticketWorlds ⟨256⟩
  obtain ⟨result, found, hread, hlookup, -, hnone, -⟩ :=
    (block_reads_match_physics (originView (some .unchanged)) (uniformBaseline ⟨256⟩)
      solidEverywhere).2 blocks physics hblocks hphysics (-1) 255 0 (by decide) (by decide)
  exact ⟨blocks, physics, result, found, hblocks, hread, hlookup, hnone⟩

/-! ## 3. Under a residency guard -/

section Guarded

variable {view : PublishedReadView} {baseline : SectionStorageResolver} {blocks : BlockReadWorld}
  {physics : PhysicsWorld}

/-- The guarded block read is refused when a ready pin covers the section and the
cut does not store it as ready. -/
theorem guarded_read_refused_iff
    (hblocks : BlockReadWorld.fromPublishedViewWithBaseline view baseline = .ok blocks)
    (manager : RegionPinManager) (x z : Int32) {y : Int64} {worldY : WorldY}
    (hy : WorldY.new y = .ok worldY) :
    blocks.readCellWithPresenceGuard x y z manager.presenceGuard =
        .error (.contract PINNED_READ_RETURNED_PENDING) ↔
      manager.coveredByReady (SectionId.ofCell x worldY z).key = true ∧
        BlockReadWorld.reportedPresence view.root (SectionId.ofCell x worldY z) ≠ .ready := by
  simp only [BlockReadWorld.readCellWithPresenceGuard, BlockReadWorld.readCell_eq hblocks hy,
    ok_bind, CellReadResult.validatePresenceGuard, RegionPinManager.presenceGuard_key]
  split
  · rename_i hrefused
    exact iff_of_true rfl hrefused
  · rename_i hadmitted
    exact iff_of_false (fun h => nomatch h) hadmitted

/-- The guarded physical query is refused when a ready pin covers the section and
the cut shows no blocks in it. -/
theorem guarded_lookup_refused_iff
    (hphysics : PhysicsWorld.fromPublishedViewWithBaseline view baseline = .ok physics)
    (manager : RegionPinManager) (materials : MaterialClassLookup) (filter : MaterialMask)
    (x z : Int32) {y : Int32} {worldY : WorldY} (hy : WorldY.new y.toInt64 = .ok worldY) :
    (PhysicsQuery.withPresenceGuard physics materials manager.presenceGuard).blockAt ⟨x, y, z⟩
        filter = .error (.contract PINNED_READ_RETURNED_PENDING) ↔
      manager.coveredByReady (SectionId.ofCell x worldY z).key = true ∧
        observedPresence view.root (SectionId.ofCell x worldY z) ≠ .ready := by
  have hother : PhysicsQueryError.contract PINNED_READ_RETURNED_PENDING ≠ .unknownMaterialClass := by
    decide
  rw [PhysicsQuery.blockAt_eq_error hother, lookup_at _ hphysics x z hy, bind_eq_error,
    or_iff_left (fun ⟨_, _, h⟩ => nomatch h)]
  simp only [PhysicsQuery.validatePresence, PhysicsQuery.withPresenceGuard,
    RegionPinManager.presenceGuard_key]
  split
  · rename_i hrefused
    exact iff_of_true rfl hrefused
  · rename_i hadmitted
    exact iff_of_false (fun h => nomatch h) hadmitted

/-- The two presences differ on tickets, and nowhere else. -/
theorem observedPresence_ne_ready_iff {root : PublishedStateRoot} {id : SectionId} :
    observedPresence root id ≠ .ready ↔
      BlockReadWorld.reportedPresence root id ≠ .ready ∧
        root.directory.entries[id]? ≠ some .unchanged := by
  simp only [observedPresence, BlockReadWorld.reportedPresence]
  cases root.directory.entries[id]? with
  | none => simp
  | some slot => cases slot <;> simp [SectionSlot.presence, Presence.Holds]

/-- **When the guarded paths agree.** A manager refuses a block read and the
physical query of the same cell alike unless a ready pin covers a section the cut
holds as an `Unchanged` ticket: there only the block read is refused. -/
theorem guarded_paths_agree_iff
    (hblocks : BlockReadWorld.fromPublishedViewWithBaseline view baseline = .ok blocks)
    (hphysics : PhysicsWorld.fromPublishedViewWithBaseline view baseline = .ok physics)
    (manager : RegionPinManager) (materials : MaterialClassLookup) (filter : MaterialMask)
    (x y z : Int32) (worldY : WorldY) (hy : y.toInt = worldY.value.toNat) :
    (blocks.readCellWithPresenceGuard x y.toInt64 z manager.presenceGuard =
        .error (.contract PINNED_READ_RETURNED_PENDING) ↔
      (PhysicsQuery.withPresenceGuard physics materials manager.presenceGuard).blockAt ⟨x, y, z⟩
        filter = .error (.contract PINNED_READ_RETURNED_PENDING)) ↔
    ¬ (manager.coveredByReady (SectionId.ofCell x worldY z).key = true ∧
      view.root.directory.entries[SectionId.ofCell x worldY z]? = some .unchanged) := by
  have hworldY : WorldY.new y.toInt64 = .ok worldY :=
    WorldY.new_eq_ok.mpr (y.toInt_toInt64.trans hy)
  rw [guarded_read_refused_iff hblocks manager x z hworldY,
    guarded_lookup_refused_iff hphysics manager materials filter x z hworldY,
    observedPresence_ne_ready_iff]
  constructor
  · rintro hagree ⟨hcovered, hticket⟩
    have hreported :
        BlockReadWorld.reportedPresence view.root (SectionId.ofCell x worldY z) ≠ .ready := by
      rw [BlockReadWorld.reportedPresence, hticket]
      exact Presence.noConfusion
    exact (hagree.mp ⟨hcovered, hreported⟩).2.2 hticket
  · intro hno
    constructor
    · rintro ⟨hcovered, hreported⟩
      exact ⟨hcovered, hreported, fun hticket => hno ⟨hcovered, hticket⟩⟩
    · rintro ⟨hcovered, hreported, -⟩
      exact ⟨hcovered, hreported⟩

end Guarded

/-- A pin is declared over a section that the cut holds as a ticket, and signalled
ready.  The block read of a cell there is refused; the physical query hits the
block the baseline has. -/
theorem pinned_ticket_paths_differ :
    ∃ (declared ready : RegionPinManager) (blocks : BlockReadWorld) (physics : PhysicsWorld),
      (RegionPinManager.withBudgets 1 1).declarePin ["s:0:0:0"] = .ok (1, declared) ∧
      declared.markReady 1 = .ok ready ∧
      BlockReadWorld.fromPublishedViewWithBaseline (originView (some .unchanged))
        (uniformBaseline ⟨256⟩) = .ok blocks ∧
      PhysicsWorld.fromPublishedViewWithBaseline (originView (some .unchanged))
        (uniformBaseline ⟨256⟩) = .ok physics ∧
      blocks.readCellWithPresenceGuard 0 0 0 ready.presenceGuard =
        .error (.contract PINNED_READ_RETURNED_PENDING) ∧
      (PhysicsQuery.withPresenceGuard physics solidEverywhere ready.presenceGuard).blockAt ⟨0, 0, 0⟩
        ⟨1⟩ = .ok (.hit ⟨256⟩) := by
  have hkey : originSection.key = "s:0:0:0" := by decide
  obtain ⟨blocks, physics, hblocks, hphysics⟩ := exists_ticketWorlds ⟨256⟩
  have hy : WorldY.new 0 = .ok ⟨0⟩ := by decide
  refine ⟨_, _, blocks, physics, hkey ▸ RegionPinManager.declarePin_sole originSection,
    RegionPinManager.markReady_sole originSection, hblocks, hphysics, ?_, ?_⟩
  · rw [guarded_read_refused_iff hblocks _ 0 0 hy, ofCell_origin, BlockReadWorld.reportedPresence,
      originView_entry, if_pos rfl]
    exact ⟨RegionPinManager.coveredByReady_sole originSection, Presence.noConfusion⟩
  · have hlookup := lookup_at (.withPresenceGuard physics solidEverywhere
      (RegionPinManager.solePin originSection .ready).presenceGuard) hphysics 0 0 (y := 0) hy
    rw [ofCell_origin] at hlookup
    rw [PhysicsQuery.blockAt, hlookup]
    simp only [PhysicsQuery.validatePresence, PhysicsQuery.withPresenceGuard,
      RegionPinManager.presenceGuard_key, observedPresence, PublishedStateRoot.resolvedStorage,
      originView_entry]
    rfl

/-- Without a pin the ticket is admitted by both. -/
theorem guarded_paths_agree_iff_unpinned :
    ∃ blocks physics,
      BlockReadWorld.fromPublishedViewWithBaseline (originView (some .unchanged))
        (uniformBaseline ⟨256⟩) = .ok blocks ∧
      PhysicsWorld.fromPublishedViewWithBaseline (originView (some .unchanged))
        (uniformBaseline ⟨256⟩) = .ok physics ∧
      (blocks.readCellWithPresenceGuard 0 (Int32.toInt64 0) 0
          (RegionPinManager.withBudgets 1 1).presenceGuard =
          .error (.contract PINNED_READ_RETURNED_PENDING) ↔
        (PhysicsQuery.withPresenceGuard physics solidEverywhere
          (RegionPinManager.withBudgets 1 1).presenceGuard).blockAt ⟨0, 0, 0⟩ ⟨1⟩ =
          .error (.contract PINNED_READ_RETURNED_PENDING)) := by
  obtain ⟨blocks, physics, hblocks, hphysics⟩ := exists_ticketWorlds ⟨256⟩
  refine ⟨blocks, physics, hblocks, hphysics, ?_⟩
  apply (guarded_paths_agree_iff hblocks hphysics (.withBudgets 1 1) solidEverywhere ⟨1⟩ 0 0 0 ⟨0⟩
    (by decide)).mpr
  rintro ⟨hcovered, -⟩
  obtain ⟨pinId, pin, hpin, -⟩ := RegionPinManager.covered_iff.mp hcovered
  exact absurd ((BTreeMap.getElem?_empty pinId).symm.trans hpin) (fun h => nomatch h)

/-! ## 4. Section queries and block reads -/

/-- **Presences of listed sections agree.** For a section the directory lists, a
section query reports the presence every block read of its cells reports.  A
section without a slot is `Unchanged` to the query, nothing having been published
for it, and `Unavailable` to the read, which has no block to give. -/
theorem query_presence_matches_reads {view : PublishedReadView} {baseline : SectionStorageResolver}
    {blocks : BlockReadWorld}
    (hblocks : BlockReadWorld.fromPublishedViewWithBaseline view baseline = .ok blocks)
    (id : SectionId) (x z : Int32) (y : Int64) (worldY : WorldY)
    (hy : y.toInt = worldY.value.toNat) (hcell : SectionId.ofCell x worldY z = id) :
    ∃ item result, access view id.key = .ok item ∧ blocks.readCell x y z = .ok result ∧
      result.sectionId = id.key ∧
      (∀ plan alreadyUsed guard outcome,
        QueryExecutor.walkBound plan view alreadyUsed guard = .ok outcome →
          ∀ reported ∈ outcome.items, reported.sectionId = id.key → reported = item) ∧
      (∀ slot, view.root.directory.entries[id]? = some slot → item.presence = result.presence) ∧
      (view.root.directory.entries[id]? = none →
        item.presence = .unchanged ∧ result.presence = .unavailable) := by
  obtain ⟨schemaId, haccess⟩ := access_key view id
  have hread := BlockReadWorld.readCell_eq hblocks (x := x) (z := z) (WorldY.new_eq_ok.mpr hy)
  rw [hcell] at hread
  refine ⟨_, _, haccess, hread, rfl, ?_, ?_, ?_⟩
  · intro plan alreadyUsed guard outcome hwalk reported hreported hkey
    have hanswer := QueryExecutor.walkBound_items hwalk reported hreported
    rw [hkey, haccess] at hanswer
    exact (Except.ok.inj hanswer).symm
  · intro slot hslot
    simp only [accessPresence, BlockReadWorld.reportedPresence, hslot]
  · intro hslot
    simp only [accessPresence, BlockReadWorld.reportedPresence, hslot, and_self]

theorem query_presence_matches_reads_ticket :
    ∃ blocks item result,
      BlockReadWorld.fromPublishedViewWithBaseline (originView (some .unchanged))
        (uniformBaseline ⟨256⟩) = .ok blocks ∧
      access (originView (some .unchanged)) originSection.key = .ok item ∧
      blocks.readCell 0 0 0 = .ok result ∧ item.presence = result.presence := by
  obtain ⟨blocks, -, hblocks, -⟩ := exists_ticketWorlds ⟨256⟩
  obtain ⟨item, result, haccess, hread, -, -, hlisted, -⟩ :=
    query_presence_matches_reads hblocks originSection 0 0 0 ⟨0⟩ (by decide) ofCell_origin
  refine ⟨blocks, item, result, hblocks, haccess, hread, hlisted .unchanged ?_⟩
  rw [originView_entry, if_pos rfl]

/-- A plan for the section at the origin in a cut without sections. -/
def absentPlan : QueryPlan :=
  ⟨[originSection.key], (originView none).root.stamp, 1, "config", "query", .replicate 32 0⟩

/-- The section has no slot: the query answers `Unchanged`, the read `Unavailable`. -/
theorem absent_presences_differ :
    ∃ blocks outcome result,
      BlockReadWorld.fromPublishedViewWithBaseline (originView none) (uniformBaseline ⟨256⟩) =
        .ok blocks ∧
      QueryExecutor.execute absentPlan (originView none) = .ok outcome ∧
      outcome.items = [⟨"s:0:0:0", .unchanged, none⟩] ∧
      blocks.readCell 0 0 0 = .ok result ∧ result.sectionId = "s:0:0:0" ∧
      result.presence = .unavailable := by
  have hkey : originSection.key = "s:0:0:0" := by decide
  have hmaterializes : (originView none).root.Materializes (uniformBaseline ⟨256⟩) :=
    originView_materializes fun slot hslot => nomatch hslot
  obtain ⟨blocks, hblocks⟩ := BlockReadWorld.exists_fromPublishedView_iff.mpr hmaterializes
  have hread := BlockReadWorld.readCell_eq hblocks (x := 0) (z := 0)
    (show WorldY.new 0 = .ok ⟨0⟩ by decide)
  rw [ofCell_origin] at hread
  have haccess : access (originView none) originSection.key =
      .ok ⟨originSection.key, .unchanged, none⟩ := by
    rw [access, SectionDirectoryRoot.lookup_key, originView_entry, if_pos rfl]
  have hwalk : foldSteps (QueryExecutor.walkSection 1 (originView none) none) (0, [])
      [originSection.key] = .ok (1, [⟨originSection.key, .unchanged, none⟩]) := by
    rw [foldSteps_cons_eq_ok]
    refine ⟨_, ?_, rfl⟩
    simp only [QueryExecutor.walkSection, haccess]
    rfl
  have hexecute : QueryExecutor.execute absentPlan (originView none) =
      .ok (assemble [⟨originSection.key, .unchanged, none⟩] (originView none).root.stamp 1
        (.replicate 32 0)) := by
    simp only [QueryExecutor.execute, QueryExecutor.walk, QueryExecutor.walkBound, absentPlan, hwalk]
    rfl
  refine ⟨blocks, _, _, hblocks, hexecute, ?_, hread, hkey, ?_⟩
  · rw [assemble, hkey]
  · rw [BlockReadWorld.reportedPresence, originView_entry, if_pos rfl]

end LumioVoxel
