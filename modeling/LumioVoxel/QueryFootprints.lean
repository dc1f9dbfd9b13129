import LumioVoxel.BaselineReads
import LumioVoxel.PhysicsSweep
import LumioVoxel.SectionResidency

/-!
# What a physics query touches

A raycast looks at cells the ray passes through, an overlap at the cells of its box, a sweep
at those the moving box comes upon, and none of them at any other.  So what a world does to
its sections matters to a query only where one of these cells shows another block: whatever
was committed elsewhere, acknowledged or unloaded, the answer is the one from before.
-/

namespace LumioVoxel

open DebugText Fallible StepRuns

/-! ## 1. Footprints -/

/-- The ray is in the cell, within the distance and not behind the nearest body. -/
def Ray.Reaches (ray : Ray) (bodies : BodyTable) (maxDistance : ℚ) (cell : CellCoord) : Prop :=
  ∃ t, 0 ≤ t ∧ t ≤ maxDistance ∧ (t : WithTop ℚ) ≤ bodyDistance bodies ray maxDistance ∧
    ray.Holds cell t

/-- The cell is one of those the box is laid over. -/
def OverlapGeometry.Covers {K : Type} (geometry : OverlapGeometry K) (shape : Aabb K)
    (cell : CellCoord) : Prop :=
  ∃ low high, geometry.cellRange shape = .ok (some (low, high)) ∧ InRange low high cell

/-- The moving box touches the cell. -/
def SweepCall.ComesUpon {K : Type} [Field K] [LinearOrder K] [FloorRing K] (call : SweepCall K)
    (cell : CellCoord) : Prop :=
  ∃ low high, call.range = .ok (some (low, high)) ∧ InRange low high cell ∧
    call.cellContact cell ≠ none

namespace PhysicsQuery

variable {query query' : PhysicsQuery} {filter : MaterialMask}

/-- The two find the same in every one of the cells, and tell materials alike. -/
structure Agrees (query query' : PhysicsQuery) (cells : CellCoord → Prop) : Prop where
  lookup : ∀ cell, cells cell → query'.lookup cell = query.lookup cell
  materials : query'.materials = query.materials

theorem Agrees.blockAt {cells : CellCoord → Prop} (h : query.Agrees query' cells)
    {cell : CellCoord} (hcell : cells cell) :
    query'.blockAt cell filter = query.blockAt cell filter := by
  have hclassify : ∀ id, query'.classify filter id = query.classify filter id := by
    intro id
    rw [classify, h.materials, classify]
  simp only [PhysicsQuery.blockAt, h.lookup cell hcell, hclassify]

/-! ## 2. Queries look nowhere else -/

theorem walk_of_agrees {bodies : BodyTable} {ray : Ray} {maxDistance : ℚ}
    (h : query.Agrees query' (ray.Reaches bodies maxDistance)) (cells : Nat) {s : Dda}
    (htracks : ray.Tracks s) (hstart : 0 ≤ s.t) :
    query'.walk ray maxDistance (bodyDistance bodies ray maxDistance) filter cells s =
      query.walk ray maxDistance (bodyDistance bodies ray maxDistance) filter cells s := by
  induction cells generalizing s with
  | zero => rfl
  | succ cells ih =>
    unfold walk
    split
    · rename_i hreach
      simp only [EPSILON, WithTop.coe_zero, add_zero] at hreach
      have hcell : ray.Reaches bodies maxDistance s.cell :=
        ⟨s.t, hstart, hreach.1, hreach.2, htracks.holds⟩
      rw [h.blockAt hcell]
      -- only an empty cell lets the walk go on, and only there the rest matters
      rcases htracks.advance_cases maxDistance with
        ⟨next, hnext, hnextTracks, hle, -⟩ | ⟨hnone, -⟩
      · simp only [hnext, ih hnextTracks (hstart.trans hle)]
      · simp only [hnone]
    · rfl

/-- A raycast depends on the cells its ray reaches. -/
theorem raycast_of_agrees {bodies : BodyTable} {ray : Ray} {maxDistance : ℚ}
    (h : query.Agrees query' (ray.Reaches bodies maxDistance)) :
    query'.raycast bodies ray maxDistance filter = query.raycast bodies ray maxDistance filter := by
  unfold raycast raycastWalk
  rw [walk_of_agrees h MAX_PHYSICS_QUERY_CELLS ray.tracks_start (le_refl 0)]

theorem overlapCells_of_agrees {cells : List CellCoord} (h : query.Agrees query' (· ∈ cells))
    (s : BoundedBuffers.Counter OverlapHit) :
    query'.overlapCells filter cells s = query.overlapCells filter cells s := by
  induction cells generalizing s with
  | nil => rfl
  | cons cell rest ih =>
    have hrest : query.Agrees query' (· ∈ rest) :=
      ⟨fun other hother => h.lookup other (List.mem_cons_of_mem cell hother), h.materials⟩
    rw [overlapCells, overlapCells, h.blockAt List.mem_cons_self]
    simp only [ih hrest]

/-- An overlap depends on the cells its box covers. -/
theorem overlap_of_agrees {K : Type} {geometry : OverlapGeometry K} {bodies : BodyTable K}
    {shape : Aabb K} (h : query.Agrees query' (geometry.Covers shape)) (buffer : List OverlapHit) :
    query'.overlap geometry bodies shape filter buffer =
      query.overlap geometry bodies shape filter buffer := by
  unfold overlap
  cases hrange : geometry.cellRange shape with
  | error err => rfl
  | ok range =>
    cases range with
    | none => rfl
    | some range =>
      have hcells : query.Agrees query' (· ∈ rangeCells range.1 range.2) := by
        refine ⟨fun cell hcell => h.lookup cell ?_, h.materials⟩
        exact ⟨range.1, range.2, hrange, mem_rangeCells.mp hcell⟩
      simp only [overlapCells_of_agrees hcells]

/-- A sweep depends on the cells its box comes upon. -/
theorem sweep_of_agrees {K : Type} [Field K] [LinearOrder K] [FloorRing K] {call : SweepCall K}
    (h : call.query.Agrees query' call.ComesUpon) :
    { call with query := query' : SweepCall K }.sweep = call.sweep := by
  have hrange : { call with query := query' : SweepCall K }.range = call.range := rfl
  unfold SweepCall.sweep
  rw [hrange]
  cases hcells : call.range with
  | error err => rfl
  | ok range =>
    cases range with
    | none => rfl
    | some range =>
      have hstep : ∀ cell ∈ rangeCells range.1 range.2, ∀ s,
          { call with query := query' : SweepCall K }.sweepCell s cell = call.sweepCell s cell := by
        intro cell hcell s
        have hcontact : { call with query := query' : SweepCall K }.cellContact cell =
            call.cellContact cell := rfl
        unfold SweepCall.sweepCell
        rw [hcontact]
        cases hmet : call.cellContact cell with
        | none => rfl
        | some contact =>
          have hupon : call.ComesUpon cell :=
            ⟨range.1, range.2, hcells, mem_rangeCells.mp hcell, hmet ▸ Option.some_ne_none contact⟩
          simp only [h.blockAt hupon]
          rfl
      simp only [ok_bind, foldSteps_congr hstep]
      rfl

end PhysicsQuery

/-! ## 3. Tables of a run -/

section Runs

variable [UnicodeTables]

/-- Ready sections have their blocks. -/
def PublishedStateRoot.Stored (root : PublishedStateRoot) : Prop :=
  ∀ (id : SectionId) (payload : SectionPayload),
    root.directory.entries[id]? = some (.ready payload) → ∃ storage, payload.storage = some storage

omit [UnicodeTables] in
theorem PublishedStateRoot.Materializes.stored {root : PublishedStateRoot}
    {baseline : SectionStorageResolver} (h : root.Materializes baseline) : root.Stored :=
  fun id _ hready => h id _ hready (.inl rfl)

omit [UnicodeTables] in
theorem PublishedStateRoot.readCell_ready {root : PublishedStateRoot} {id : SectionId}
    {payload : SectionPayload} (h : root.directory.entries[id]? = some (.ready payload))
    (offset : CellOffset) :
    root.readCell id offset = payload.storage.map (·.read offset) := by
  rw [readCell, h]
  rfl

namespace WorldSession

variable {s : WorldSession} {roots : PublishedStateRoot → Prop} {baseline : SectionStorageResolver}

/-- A section that keeps its slot keeps its blocks, and a commit writes what it found stored. -/
theorem stored_step (hfree : PublishedStateRoot.CollisionFree roots) (h : Known roots s)
    (hstored : s.root.Stored) (op : WorldOp) : (s.step op).root.Stored := by
  intro id payload hready
  cases effect_step s op with
  | kept hroot _ => exact hstored id payload (hroot ▸ hready)
  | committed token d receipt hcommits =>
    rcases hcommits.slots h id with ⟨-, ⟨old, hold⟩, -⟩ | ⟨-, hkept⟩
    · obtain ⟨storage, hstorage⟩ := hstored id old hold
      have hcell := (hcommits.effect hfree h).cells id (.fromWorld 0 ⟨0⟩ 0)
      rw [PublishedStateRoot.readCell_ready hready, PublishedStateRoot.readCell_ready hold,
        hstorage, Option.map_some] at hcell
      cases hnew : payload.storage with
      | some written => exact ⟨written, rfl⟩
      | none =>
        rw [hnew, Option.map_none] at hcell
        cases hwrite : token.request.lastWrite id (.fromWorld 0 ⟨0⟩ 0) with
        | none =>
          rw [hwrite] at hcell
          cases hcell
        | some block =>
          rw [hwrite] at hcell
          cases hcell
    · exact hstored id payload (hkept ▸ hready)
  | acked evidence coverage _ hacked _ => exact hstored id payload (hacked.directory ▸ hready)
  | unloaded hook named _ hunloaded _ _ =>
    by_cases hname : id = named
    · subst hname
      cases hunloaded.ticket.symm.trans hready
    · exact hstored id payload (hunloaded.others id hname ▸ hready)
  | restored snapshot candidate hrestores _ =>
    exact absurd hready (cold_of_takesRestore ⟨snapshot, candidate, hrestores⟩ id payload)

theorem stored_run (hfree : PublishedStateRoot.CollisionFree roots) {ops : List WorldOp}
    (h : Known roots s) (hroots : ∀ t ∈ visited step s ops, roots t.root)
    (hstored : s.root.Stored) : (run step s ops).root.Stored := by
  induction ops generalizing s with
  | nil => exact hstored
  | cons op rest ih =>
    have hlater : ∀ t ∈ visited step (s.step op) rest, roots t.root :=
      fun t ht => hroots t (List.mem_cons_of_mem s ht)
    exact ih (known_step h (hlater _ (start_mem_visited _ _))) hlater
      (stored_step hfree h hstored op)

/-- Without a restore a slot stays what it is, or stays or stops being resident. -/
theorem slots_run {ops : List WorldOp} (h : Known (fun _ => True) s)
    (hops : Along step (fun s op => ¬ s.TakesRestore op) s ops) (id : SectionId) :
    s.SameSlot (run step s ops) id ∨ s.Resident id ∧
      ((run step s ops).Resident id ∨
        (run step s ops).root.directory.entries[id]? = some .unchanged) := by
  by_cases hresident : s.Resident id
  · by_cases hlast : (run step s ops).Resident id
    · exact .inr ⟨hresident, .inl hlast⟩
    · exact .inr ⟨hresident, .inr (ticket_run h hops hresident hlast)⟩
  · exact .inl (sameSlot_run h hops hresident)

end WorldSession

/-! ## 4. Unedited cells -/

/-- The edits leave the original map's block in the cell. -/
def CellCoord.Unedited (baseline : SectionStorageResolver) (edits : List MutationRequest)
    (cell : CellCoord) : Prop :=
  ∀ worldY, WorldY.new cell.y.toInt64 = .ok worldY →
    PublishedStateRoot.Unedited baseline edits (SectionId.ofCell cell.x worldY cell.z)
      (CellOffset.fromWorld cell.x worldY cell.z)

omit [UnicodeTables] in
/-- What a lookup finds is the block the cut shows. -/
theorem PhysicsQuery.lookup_shown {view : PublishedReadView} {baseline : SectionStorageResolver}
    {query : PhysicsQuery}
    (h : PhysicsWorld.fromPublishedViewWithBaseline view baseline = .ok query.world)
    {cell : CellCoord} {worldY : WorldY} (hy : WorldY.new cell.y.toInt64 = .ok worldY) :
    query.lookup cell = (do
      query.validatePresence (SectionId.ofCell cell.x worldY cell.z)
        (observedPresence view.root (SectionId.ofCell cell.x worldY cell.z)).name
      return match view.root.shownBlock baseline (SectionId.ofCell cell.x worldY cell.z)
          (CellOffset.fromWorld cell.x worldY cell.z) with
        | some block => .block block
        | none => .unresolved (SectionId.ofCell cell.x worldY cell.z)) := by
  rw [lookup_eq h hy, PublishedStateRoot.shownBlock]
  cases view.root.resolvedStorage baseline (SectionId.ofCell cell.x worldY cell.z) with
  | none => rfl
  | some storage => rfl

omit [UnicodeTables] in
/-- Above and below the world the table is not asked. -/
theorem PhysicsQuery.lookup_outside (query : PhysicsQuery) (after : PhysicsWorld)
    {cell : CellCoord} {err : WorldYError} (hy : WorldY.new cell.y.toInt64 = .error err) :
    { query with world := after : PhysicsQuery }.lookup cell = query.lookup cell := by
  simp only [lookup, hy]
  rfl

namespace WorldSession

variable {s : WorldSession} {baseline : SectionStorageResolver} {edits : List MutationRequest}
  {id : SectionId} {ops : List WorldOp}

/-- The guard is told the same of a section as before the run. -/
theorem observed_run (h : Known (fun _ => True) s)
    (hops : Along step (fun s op => ¬ s.TakesRestore op) s ops) (id : SectionId) :
    observedPresence (run step s ops).root id = observedPresence s.root id := by
  unfold observedPresence
  rcases slots_run h hops id with hsame | ⟨⟨payload, hready⟩, ⟨last, hlast⟩ | hticket⟩
  · rw [hsame]
  · rw [hlast, hready]
    rfl
  · rw [hticket, hready]
    rfl

/-- Where the edits of a run come out at the original map's block, the cell shows what it
showed before the run. -/
theorem shown_run (h : Known (fun _ => True) s)
    (hops : Along step (fun s op => ¬ s.TakesRestore op) s ops)
    (hbefore : s.root.Overlays baseline []) (hfirst : s.root.Materializes baseline)
    (hover : (run step s ops).root.Overlays baseline edits)
    (hlast : (run step s ops).root.Materializes baseline) {offset : CellOffset}
    (hunedited : PublishedStateRoot.Unedited baseline edits id offset) :
    (run step s ops).root.shownBlock baseline id offset = s.root.shownBlock baseline id offset := by
  rcases slots_run h hops id with hsame | ⟨⟨payload, hready⟩, hafter⟩
  · rw [PublishedStateRoot.shownBlock, PublishedStateRoot.resolvedStorage, hsame,
      PublishedStateRoot.shownBlock, PublishedStateRoot.resolvedStorage]
  · obtain ⟨storage, hstorage, hshown⟩ := hbefore.shown_ready hfirst hready
    have hstart : s.root.shownBlock baseline id offset = some (storage.read offset) := hshown offset
    rw [hstart]
    rcases hafter with ⟨last, hresident⟩ | hticket
    · obtain ⟨found, hfound, hshown⟩ := hover.shown_ready hlast hresident
      obtain rfl := Option.some.inj (hstorage.symm.trans hfound)
      rw [hshown, ← (PublishedStateRoot.unedited_iff hstorage offset).mp hunedited]
    · rw [PublishedStateRoot.shown_unchanged hticket, hstorage, Option.map_some]

/-- A table can be built after the run if one could be built before. -/
theorem materializes_run (h : Known (fun _ => True) s)
    (hops : Along step (fun s op => ¬ s.TakesRestore op) s ops)
    (hbefore : s.root.Overlays baseline []) (hfirst : s.root.Materializes baseline)
    (hstored : (run step s ops).root.Stored) : (run step s ops).root.Materializes baseline := by
  intro id slot hslot hholds
  rcases slots_run h hops id with hsame | ⟨⟨payload, hready⟩, ⟨last, hresident⟩ | hticket⟩
  · exact hfirst id slot (hsame.symm.trans hslot) hholds
  · obtain rfl := Option.some.inj (hresident.symm.trans hslot)
    exact hstored id last hresident
  · obtain rfl := Option.some.inj (hticket.symm.trans hslot)
    obtain ⟨storage, hstorage, -⟩ := hbefore.shown_ready hfirst hready
    exact ⟨storage, hstorage⟩

end WorldSession

/-! ## 5. Queries over a run -/

/-- The two answer alike whatever is asked about the cells: one of them, or all that a query
touches. -/
structure PhysicsQuery.SameAnswers (query query' : PhysicsQuery) (cells : CellCoord → Prop) :
    Prop where
  cell : ∀ (cell : CellCoord) (filter : MaterialMask), cells cell →
    query'.blockAt cell filter = query.blockAt cell filter
  raycast : ∀ (bodies : BodyTable) (ray : Ray) (maxDistance : ℚ) (filter : MaterialMask),
    (∀ cell, ray.Reaches bodies maxDistance cell → cells cell) →
      query'.raycast bodies ray maxDistance filter = query.raycast bodies ray maxDistance filter
  overlap : ∀ {K : Type} (geometry : OverlapGeometry K) (bodies : BodyTable K) (shape : Aabb K)
    (filter : MaterialMask) (buffer : List OverlapHit),
    (∀ cell, geometry.Covers shape cell → cells cell) →
      query'.overlap geometry bodies shape filter buffer =
        query.overlap geometry bodies shape filter buffer
  sweep : ∀ {K : Type} [Field K] [LinearOrder K] [FloorRing K] (call : SweepCall K),
    call.query = query → (∀ cell, call.ComesUpon cell → cells cell) →
      { call with query := query' : SweepCall K }.sweep = call.sweep

omit [UnicodeTables] in
theorem PhysicsQuery.Agrees.sameAnswers {query query' : PhysicsQuery} {cells : CellCoord → Prop}
    (h : query.Agrees query' cells) : query.SameAnswers query' cells where
  cell _ _ hcell := h.blockAt hcell
  raycast bodies ray maxDistance filter hcells :=
    raycast_of_agrees ⟨fun cell hcell => h.lookup cell (hcells cell hcell), h.materials⟩
  overlap geometry bodies shape filter buffer hcells :=
    overlap_of_agrees ⟨fun cell hcell => h.lookup cell (hcells cell hcell), h.materials⟩ buffer
  sweep := by
    rintro K _ _ _ call rfl hcells
    exact sweep_of_agrees ⟨fun cell hcell => h.lookup cell (hcells cell hcell), h.materials⟩

namespace WorldSession

/-- **Physics away from the edits.** Over an original map that the first root reads like, and
until a restore, a query after any run answers as before it, if the commits of the run come
out at the original map's block in each cell the query touches. -/
theorem unedited_answers_kept (roots : PublishedStateRoot → Prop)
    (hfree : PublishedStateRoot.CollisionFree roots) (world : WorldInstance)
    (baseline : SectionStorageResolver) (hbaseline : world.root.ReadsLike baseline)
    (ops : List WorldOp) (hroots : ∀ s ∈ visited step (.start world) ops, roots s.root)
    (hops : Along step (fun s op => ¬ s.TakesRestore op) (.start world) ops)
    (view view' : PublishedReadView) (hview : view.root = world.root)
    (hview' : view'.root = (run step (.start world) ops).root) (query : PhysicsQuery)
    (hquery : PhysicsWorld.fromPublishedViewWithBaseline view baseline = .ok query.world) :
    ∃ after, PhysicsWorld.fromPublishedViewWithBaseline view' baseline = .ok after ∧
      query.SameAnswers { query with world := after }
        (CellCoord.Unedited baseline ((start world).edits ops)) := by
  have hknown : Known (fun _ => True) (start world) := known_start trivial
  have hfirst : (start world).root.Materializes baseline := by
    have hmaterializes := PhysicsWorld.exists_fromPublishedView_iff.mp ⟨query.world, hquery⟩
    rw [hview] at hmaterializes
    exact hmaterializes
  have hstored := stored_run hfree (known_start (hroots _ (start_mem_visited _ _))) hroots
    hfirst.stored
  have hlast := materializes_run hknown hops hbaseline.overlays hfirst hstored
  have hover := overlays_start hfree hbaseline hroots
  obtain ⟨after, hafter⟩ : ∃ after,
      PhysicsWorld.fromPublishedViewWithBaseline view' baseline = .ok after :=
    PhysicsWorld.exists_fromPublishedView_iff.mpr (hview' ▸ hlast)
  refine ⟨after, hafter, PhysicsQuery.Agrees.sameAnswers ⟨?_, rfl⟩⟩
  intro cell hcell
  cases hy : WorldY.new cell.y.toInt64 with
  | error err => exact query.lookup_outside after hy
  | ok worldY =>
    have hlater : PhysicsWorld.fromPublishedViewWithBaseline view' baseline =
        .ok { query with world := after : PhysicsQuery }.world := hafter
    rw [PhysicsQuery.lookup_shown hlater hy, PhysicsQuery.lookup_shown hquery hy, hview, hview',
      observed_run hknown hops,
      shown_run hknown hops hbaseline.overlays hfirst hover hlast (hcell worldY hy)]
    rfl

/-- The answer about the first cell of the world. -/
theorem lookup_origin {s : WorldSession} {baseline : SectionStorageResolver} {world : PhysicsWorld}
    {block : BlockId} (materials : MaterialClassLookup)
    (hworld : PhysicsWorld.fromPublishedViewWithBaseline s.world.authority.capture.1 baseline =
      .ok world)
    (hshown : s.root.shownBlock baseline originSection originCell = some block) :
    (PhysicsQuery.new world materials).lookup ⟨0, 0, 0⟩ = .ok (.block block) := by
  let query : PhysicsQuery := .new world materials
  let cell : CellCoord := ⟨0, 0, 0⟩
  have hquery : PhysicsWorld.fromPublishedViewWithBaseline s.world.authority.capture.1 baseline =
    .ok query.world := hworld
  have hcell : WorldY.new cell.y.toInt64 = .ok ⟨0⟩ := rfl
  refine (PhysicsQuery.lookup_shown hquery hcell).trans ?_
  rw [ofCell_origin, show s.world.authority.capture.1.root = s.root from rfl,
    show CellOffset.fromWorld 0 ⟨0⟩ 0 = originCell from rfl, hshown]
  rfl

omit [UnicodeTables] in
/-- After a fill of the section at the origin, a cell of its neighbour is answered as before; and
once the section is filled back, acknowledged and unloaded, every cell is. -/
theorem unedited_answers_kept_life : letI := asciiOnly
    ∃ authority cut cap, let s := start (runningWorld authority none)
      let ops := written cut cap ++ settling
      let t := run step s firstFill
      let u := run step s ops
      let baseline := uniformBaseline ⟨0⟩
      s.edits firstFill = [fillRequest "first" originSection ⟨1⟩ 0] ∧
      s.edits ops =
        [fillRequest "first" originSection ⟨1⟩ 0, fillRequest "second" originSection ⟨0⟩ 1] ∧
      u.root.directory.entries[originSection]? = some .unchanged ∧ ∃ before filled after,
        PhysicsWorld.fromPublishedViewWithBaseline s.world.authority.capture.1 baseline =
          .ok before ∧
        PhysicsWorld.fromPublishedViewWithBaseline t.world.authority.capture.1 baseline =
          .ok filled ∧
        PhysicsWorld.fromPublishedViewWithBaseline u.world.authority.capture.1 baseline =
          .ok after ∧
        CellCoord.Unedited baseline (s.edits firstFill) ⟨16, 0, 0⟩ ∧
        ¬ CellCoord.Unedited baseline (s.edits firstFill) ⟨0, 0, 0⟩ ∧
        (∀ cell, CellCoord.Unedited baseline (s.edits ops) cell) ∧
        ∀ materials,
          (PhysicsQuery.new before materials).SameAnswers (.new filled materials)
            (CellCoord.Unedited baseline (s.edits firstFill)) ∧
          (PhysicsQuery.new before materials).SameAnswers (.new after materials)
            (CellCoord.Unedited baseline (s.edits ops)) ∧
          (PhysicsQuery.new before materials).lookup ⟨0, 0, 0⟩ = .ok (.block ⟨0⟩) ∧
          (PhysicsQuery.new filled materials).lookup ⟨0, 0, 0⟩ = .ok (.block ⟨1⟩) ∧
          (PhysicsQuery.new after materials).lookup ⟨0, 0, 0⟩ = .ok (.block ⟨0⟩) := by
  let _ := asciiOnly
  obtain ⟨authority, cut, cap, -, hroot, hlife⟩ := exists_lived
  let s : WorldSession := start (runningWorld authority none)
  let ops := written cut cap ++ settling
  let t := run step s firstFill
  let u := run step s ops
  have hroot' : (runningWorld authority none).root = twoBlockRoot ⟨0⟩ := hroot
  have hreads : (runningWorld authority none).root.ReadsLike (uniformBaseline ⟨0⟩) :=
    hroot' ▸ twoBlockRoot_readsLike ⟨0⟩
  have hshows : ∀ v : WorldSession, v.world.authority.capture.1.root = v.root := fun _ => rfl
  obtain ⟨before, hbefore⟩ : ∃ before, PhysicsWorld.fromPublishedViewWithBaseline
      s.world.authority.capture.1 (uniformBaseline ⟨0⟩) = .ok before :=
    PhysicsWorld.exists_fromPublishedView_iff.mpr
      (hlife.opened.alike.materializes (twoBlockRoot_materializes ⟨0⟩ _))
  have hfirst := fun materials => unedited_answers_kept OfLife collisionFree_ofLife
    (runningWorld authority none) (uniformBaseline ⟨0⟩) hreads firstFill
    (hlife.roots (saving cut cap ++ secondFill ++ (settling ++
      [.release 0, .restore 0 "world" 1 approvedConfig])) rfl)
    (along_no_restore fun _ _ _ _ hin => by simp [firstFill] at hin)
    s.world.authority.capture.1 t.world.authority.capture.1 (hshows s) (hshows t)
    (.new before materials) hbefore
  have hlast := fun materials => unedited_answers_kept OfLife collisionFree_ofLife
    (runningWorld authority none) (uniformBaseline ⟨0⟩) hreads ops
    (hlife.roots [.release 0, .restore 0 "world" 1 approvedConfig] (List.append_assoc ..).symm)
    (along_no_restore fun _ _ _ _ hin => by
      simp [ops, written, firstFill, saving, secondFill, settling] at hin)
    s.world.authority.capture.1 u.world.authority.capture.1 (hshows s) (hshows u)
    (.new before materials) hbefore
  obtain ⟨filled, hfilled, -⟩ := hfirst fun _ => none
  obtain ⟨after, hafter, -⟩ := hlast fun _ => none
  have hy : WorldY.new (0 : Int32).toInt64 = .ok ⟨0⟩ := rfl
  have hneighbour : SectionId.ofCell 16 ⟨0⟩ 0 ≠ originSection := by decide
  have hedits : s.edits firstFill = _ := hlife.edits_firstFill
  have heditsAll : s.edits ops = _ := hlife.edits_written (by simp [settling])
  refine ⟨authority, cut, cap, hedits, heditsAll, hlife.unloads.ticket, before, filled, after,
    hbefore, hfilled, hafter, ?_, ?_, fun cell worldY _ => ?_, fun materials =>
    ⟨?_, ?_, lookup_origin materials hbefore ?_, lookup_origin materials hfilled ?_,
      lookup_origin materials hafter ?_⟩⟩
  · rw [hedits]
    intro worldY hworldY storage block _ hedit
    obtain rfl := Except.ok.inj (hy.symm.trans hworldY)
    rw [lastEdit, List.foldl_cons, List.foldl_nil, lastWrite_fill_other hneighbour] at hedit
    cases hedit
  · rw [hedits]
    intro hunedited
    have hblock := hunedited ⟨0⟩ hy (.uniform ⟨0⟩) ⟨1⟩ rfl (by
      rw [lastEdit, List.foldl_cons, List.foldl_nil, ofCell_origin, fillRequest_fills.writes]
      rfl)
    cases hblock
  · rw [heditsAll]
    exact unedited_refilled _ _
  · obtain ⟨found, hfound, hsame⟩ := hfirst materials
    obtain rfl := Except.ok.inj (hfilled.symm.trans hfound)
    exact hsame
  · obtain ⟨found, hfound, hsame⟩ := hlast materials
    obtain rfl := Except.ok.inj (hafter.symm.trans hfound)
    exact hsame
  · exact PublishedStateRoot.shown_of_readCell (hlife.cells _).1
  · exact PublishedStateRoot.shown_of_readCell (hlife.cells _).2.1
  · exact PublishedStateRoot.shown_unchanged hlife.unloads.ticket _

end WorldSession

end Runs

end LumioVoxel
