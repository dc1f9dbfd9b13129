import LumioVoxel.BoundedBuffers
import LumioVoxel.BulkReads
import LumioVoxel.FirstAppearance
import LumioVoxel.LabelRuns

/-!
# The loops of bulk reads

Every loop of a bulk read looks at the cells of the request one after another.  What each has
collected after any number of cells is said by one function of the cells seen: the segments
grouped by section, the runs of equal sections, the visitor calls and the buffers they fill.
-/

namespace LumioVoxel

open Attempts BoundedBuffers Fallible FirstAppearance LabelRuns

/-! ## 1. What a cell shows -/

namespace BlockReadWorld

/-- The presence, revision and storage of a section; a section the world does not have is
unavailable. -/
def sectionState (world : BlockReadWorld) (id : SectionId) :
    Presence × UInt64 × Option SectionStorage :=
  match world.sections[id]? with
  | some entry => (entry.presence, entry.sectionRevision, entry.storage)
  | none => (.unavailable, 0, none)

/-- What the world shows at a position whose y is in the contract's range. -/
def observe (world : BlockReadWorld) (position : CellPosition) : BufferedReadCell :=
  let worldY : WorldY := ⟨position.2.1.toUInt64.toUInt8⟩
  let id := SectionId.ofCell position.1 worldY position.2.2
  let offset := CellOffset.fromWorld position.1 worldY position.2.2
  let state := world.sectionState id
  ⟨id, state.1, state.2.1, ⟨offset, state.2.2.map (·.read offset)⟩⟩

end BlockReadWorld

/-- The y of the position is in the contract's range. -/
def CellPosition.InRange (position : CellPosition) : Prop :=
  WORLD_Y_MIN ≤ position.2.1.toInt ∧ position.2.1.toInt ≤ WORLD_Y_MAX

namespace BlockReadWorld

/-- The section, presence and revision a cell is shown with. -/
def label (cell : BufferedReadCell) : SectionId × Presence × UInt64 :=
  (cell.sectionId, cell.presence, cell.sectionRevision)

/-- A cell in range is always found. -/
theorem cellAtSection_observe (world : BlockReadWorld) {position : CellPosition}
    (h : CellPosition.InRange position) :
    world.cellAtSection position.1 position.2.1 position.2.2 =
      .ok ((world.observe position).sectionId, (world.observe position).presence,
        (world.observe position).sectionRevision, (world.observe position).cell) := by
  obtain ⟨x, y, z⟩ := position
  have hy : WorldY.new y = .ok ⟨y.toUInt64.toUInt8⟩ := by
    unfold WorldY.new
    exact if_neg (not_or.mpr ⟨Int.not_lt.mpr h.1, Int.not_lt.mpr h.2⟩)
  have hid := SectionId.new_divEuclid16 (x := x) (z := z) (WorldY.mk y.toUInt64.toUInt8).toInt_sectionY
  simp only [cellAtSection, hy, hid, mapError_ok, ok_bind, observe, sectionState]
  cases hentry : world.sections[SectionId.ofCell x ⟨y.toUInt64.toUInt8⟩ z]? with
  | none => rfl
  | some entry =>
    cases hstorage : entry.storage with
    | none => simp only [hstorage, Option.map_none]; rfl
    | some storage =>
      -- storage is only there under a presence that shows blocks
      have hholds : entry.presence.Holds := entry.storage_iff.mp (by rw [hstorage]; rfl)
      simp only [hstorage, Option.map_some, if_pos hholds]
      rfl

theorem readCell_observe (world : BlockReadWorld) {position : CellPosition}
    (h : CellPosition.InRange position) :
    world.readCell position.1 position.2.1 position.2.2 =
      .ok ⟨(world.observe position).sectionId.key, (world.observe position).presence,
        (world.observe position).sectionRevision, (world.observe position).cell⟩ := by
  have hbudget : admitBudget 1 = .ok () := require_of (by decide) _
  rw [readCell, hbudget, ok_bind, world.cellAtSection_observe h]
  rfl

theorem cellAt_observe (world : BlockReadWorld) {position : CellPosition}
    (h : CellPosition.InRange position) :
    world.cellAt position =
      .ok ((world.observe position).sectionId.key, (world.observe position).presence,
        (world.observe position).sectionRevision, (world.observe position).cell) := by
  rw [cellAt, world.cellAtSection_observe h]
  rfl

/-! ## 2. Segments by section -/

/-- The segment of a section, from the cells observed. -/
def segmentOf (world : BlockReadWorld) (observed : List BufferedReadCell) (id : SectionId) :
    ReadSegment :=
  let cells := (observed.filter (·.sectionId = id)).map (·.cell)
  let state := world.sectionState id
  ⟨id.key, state.1, state.2.1, cells,
    state.2.2.map fun storage => cells.map fun cell => storage.read cell.offset⟩

/-- The sections in the order in which they are met. -/
def sectionsOf (observed : List BufferedReadCell) : List SectionId :=
  (observed.map (·.sectionId)).eraseDups

/-- One segment for each section, in the order in which the sections are met. -/
def grouped (world : BlockReadWorld) (observed : List BufferedReadCell) : List ReadSegment :=
  (sectionsOf observed).map (world.segmentOf observed)

/-- The cell is one the world shows. -/
def Shows (world : BlockReadWorld) (cell : BufferedReadCell) : Prop :=
  cell.presence = (world.sectionState cell.sectionId).1 ∧
    cell.sectionRevision = (world.sectionState cell.sectionId).2.1 ∧
    cell.cell.blockId =
      (world.sectionState cell.sectionId).2.2.map (·.read cell.cell.offset)

theorem shows_observe (world : BlockReadWorld) (position : CellPosition) :
    world.Shows (world.observe position) := ⟨rfl, rfl, rfl⟩

theorem segmentOf_concat_same {world : BlockReadWorld} {cell : BufferedReadCell}
    (hcell : world.Shows cell) (observed : List BufferedReadCell) :
    world.segmentOf (observed ++ [cell]) cell.sectionId =
      SegmentBuilder.push (world.segmentOf observed cell.sectionId) cell.cell := by
  have hfilter : (observed ++ [cell]).filter (·.sectionId = cell.sectionId) =
      observed.filter (·.sectionId = cell.sectionId) ++ [cell] := by
    rw [List.filter_append, List.filter_singleton]
    simp
  simp only [segmentOf, SegmentBuilder.push, hfilter, List.map_append, List.map_cons, List.map_nil,
    hcell.2.2, ReadSegment.mk.injEq, true_and]
  cases (world.sectionState cell.sectionId).2.2 <;> rfl

theorem segmentOf_concat_other {world : BlockReadWorld} {cell : BufferedReadCell}
    {id : SectionId} (h : cell.sectionId ≠ id) (observed : List BufferedReadCell) :
    world.segmentOf (observed ++ [cell]) id = world.segmentOf observed id := by
  have hfilter : (observed ++ [cell]).filter (·.sectionId = id) =
      observed.filter (·.sectionId = id) := by
    rw [List.filter_append, List.filter_singleton]
    simp [h]
  simp only [segmentOf, hfilter]

/-- A section not met before begins with an empty segment. -/
theorem segmentOf_new {world : BlockReadWorld} {cell : BufferedReadCell}
    (hcell : world.Shows cell) {observed : List BufferedReadCell}
    (h : cell.sectionId ∉ observed.map (·.sectionId)) :
    world.segmentOf observed cell.sectionId =
      SegmentBuilder.new cell.sectionId.key cell.presence cell.sectionRevision
        cell.cell.blockId.isSome := by
  have hfilter : observed.filter (·.sectionId = cell.sectionId) = [] := by
    rw [List.filter_eq_nil_iff]
    intro c hc heq
    exact h (List.mem_map.mpr ⟨c, hc, of_decide_eq_true heq⟩)
  simp only [segmentOf, SegmentBuilder.new, hfilter, List.map_nil, hcell.1, hcell.2.1, hcell.2.2,
    ReadSegment.mk.injEq, true_and]
  cases (world.sectionState cell.sectionId).2.2 <;> rfl

/-- Setting the image of one item of a list without repetitions. -/
private theorem set_idxOf_map {α β : Type} [DecidableEq α] {items : List α} (hnodup : items.Nodup)
    {a : α} (ha : a ∈ items) (f : α → β) (b : β) :
    (items.map f).set (items.idxOf a) b = items.map fun x => if x = a then b else f x := by
  induction items with
  | nil => exact absurd ha List.not_mem_nil
  | cons x rest ih =>
    obtain ⟨hx, hrest⟩ := List.nodup_cons.mp hnodup
    by_cases hxa : x = a
    · subst hxa
      rw [List.idxOf_cons_self, List.map_cons, List.set_cons_zero, List.map_cons, if_pos rfl]
      congr 1
      refine List.map_congr_left fun y hy => ?_
      rw [if_neg]
      rintro rfl
      exact hx hy
    · have hmem : a ∈ rest := (List.mem_cons.mp ha).resolve_left fun h => hxa h.symm
      rw [List.idxOf_cons_ne _ hxa, List.map_cons, List.set_cons_succ, ih hrest hmem,
        List.map_cons, if_neg hxa]

/-- The table of `read_cells` after some cells. -/
structure Filed (world : BlockReadWorld) (observed : List BufferedReadCell)
    (table : SegmentTable) : Prop where
  segments : table.segments = world.grouped observed
  indexes : ∀ id : SectionId, table.indexes[id.key]? = (sectionsOf observed).idxOf? id

theorem filed_nil (world : BlockReadWorld) : world.Filed [] ⟨[], ∅⟩ where
  segments := rfl
  indexes := fun _ => Std.ExtTreeMap.getElem?_empty

theorem nodup_sectionsOf (observed : List BufferedReadCell) : (sectionsOf observed).Nodup :=
  nodup_eraseDups _

theorem mem_sectionsOf_concat (observed : List BufferedReadCell) (cell : BufferedReadCell) :
    cell.sectionId ∈ sectionsOf (observed ++ [cell]) := by
  rw [sectionsOf, List.mem_eraseDups, List.map_append]
  exact List.mem_append_right _ (List.mem_singleton.mpr rfl)

/-- Looking up a section's segment, or opening one, makes the table list the sections met
with this cell. -/
theorem Filed.indexOf {world : BlockReadWorld} {observed : List BufferedReadCell}
    {table : SegmentTable} (h : world.Filed observed table) {cell : BufferedReadCell}
    (hshows : world.Shows cell) :
    ∃ indexes, table.indexOf cell.sectionId.key cell.presence cell.sectionRevision cell.cell =
        (⟨(sectionsOf (observed ++ [cell])).map (world.segmentOf observed), indexes⟩,
          (sectionsOf (observed ++ [cell])).idxOf cell.sectionId) ∧
      ∀ id : SectionId, indexes[id.key]? = (sectionsOf (observed ++ [cell])).idxOf? id := by
  have hsections : sectionsOf (observed ++ [cell]) =
      ((observed.map (·.sectionId)) ++ [cell.sectionId]).eraseDups := by
    rw [sectionsOf, List.map_append]
    rfl
  unfold SegmentTable.indexOf
  rw [h.indexes]
  by_cases hmem : cell.sectionId ∈ observed.map (·.sectionId)
  · have hsame : sectionsOf (observed ++ [cell]) = sectionsOf observed :=
      hsections.trans (eraseDups_concat_of_mem hmem)
    have hid : cell.sectionId ∈ sectionsOf observed := List.mem_eraseDups.mpr hmem
    rw [hsame, idxOf?_of_mem hid]
    obtain ⟨segments, indexes⟩ := table
    obtain rfl : segments = world.grouped observed := h.segments
    exact ⟨indexes, rfl, h.indexes⟩
  · have hnew : sectionsOf (observed ++ [cell]) = sectionsOf observed ++ [cell.sectionId] :=
      hsections.trans (eraseDups_concat_of_not_mem hmem)
    have hid : cell.sectionId ∉ sectionsOf observed := mt List.mem_eraseDups.mp hmem
    have hlength : table.segments.length = (sectionsOf observed).length := by
      rw [h.segments, grouped, List.length_map]
    rw [List.idxOf?_eq_none_iff.mpr hid, hnew, List.idxOf_append_of_notMem hid,
      List.idxOf_cons_self, Nat.add_zero]
    refine ⟨table.indexes.insert cell.sectionId.key (sectionsOf observed).length, ?_, ?_⟩
    · simp only [hlength, Prod.mk.injEq, and_true, SegmentTable.mk.injEq]
      rw [h.segments, grouped, List.map_append, ← segmentOf_new hshows hmem]
      rfl
    · intro id
      by_cases heq : id = cell.sectionId
      · rw [heq, Std.ExtTreeMap.getElem?_insert_self, idxOf?_concat_self hid]
      · have hkey : cell.sectionId.key ≠ id.key :=
          fun hk => heq (SectionId.key_injective hk).symm
        rw [BTreeMap.getElem?_insert_ne _ hkey, h.indexes, idxOf?_concat_ne heq]

/-- **Filing one cell.** -/
theorem Filed.step {world : BlockReadWorld} {observed : List BufferedReadCell}
    {table : SegmentTable} (h : world.Filed observed table) {position : CellPosition}
    (hrange : CellPosition.InRange position) :
    ∃ next, world.fileCell table position = .value next ∧
      world.Filed (observed ++ [world.observe position]) next := by
  have hshows := world.shows_observe position
  unfold fileCell
  rw [world.cellAt_observe hrange]
  generalize world.observe position = cell at hshows ⊢
  obtain ⟨indexes, hindex, hindexes⟩ := h.indexOf hshows
  have hid := mem_sectionsOf_concat observed cell
  have hsegment : ((sectionsOf (observed ++ [cell])).map (world.segmentOf observed))[
      (sectionsOf (observed ++ [cell])).idxOf cell.sectionId]? =
        some (world.segmentOf observed cell.sectionId) := by
    rw [List.getElem?_map, List.getElem?_idxOf hid]
    rfl
  have hcheck : (world.segmentOf observed cell.sectionId).presence = cell.presence ∧
      (world.segmentOf observed cell.sectionId).sectionRevision = cell.sectionRevision :=
    ⟨hshows.1.symm, hshows.2.1.symm⟩
  simp only [Attempt.call, Attempt.value_bind, hindex, hsegment, Attempt.expect, Attempt.check,
    if_pos hcheck]
  refine ⟨_, rfl, ?_, hindexes⟩
  simp only
  rw [set_idxOf_map (nodup_sectionsOf _) hid, grouped]
  refine List.map_congr_left fun id _ => ?_
  split
  · rename_i heq
    rw [heq, segmentOf_concat_same hshows]
  · rename_i hne
    exact (segmentOf_concat_other (fun heq => hne heq.symm) observed).symm

/-- **Collected reads.** The loop files every cell of a request under its section. -/
theorem readCells_eq (world : BlockReadWorld) {request : ReadRequest} {count : Nat}
    (hrange : ∀ position ∈ request.cells, CellPosition.InRange position)
    (hbudget : count ≤ MAX_CELLS_PER_READ_REQUEST) :
    world.readCells request count =
      .value ⟨world.grouped (request.cells.map world.observe), count⟩ := by
  have hstep : ∀ before position after table, request.cells = before ++ position :: after →
      world.Filed (before.map world.observe) table →
      ∃ next, world.fileCell table position = .value next ∧
        world.Filed ((before ++ [position]).map world.observe) next := by
    intro before position after table hcells h
    have hmem : position ∈ request.cells := hcells ▸ List.mem_append_right _ List.mem_cons_self
    rw [List.map_append]
    exact h.step (hrange position hmem)
  obtain ⟨table, hloop, hfiled⟩ := Attempt.foldSteps_invariant hstep world.filed_nil
  rw [readCells, admitBudget, require_of hbudget, hloop]
  simp only [Attempt.call, Attempt.value_bind, hfiled.segments]
  rfl

/-! ## 3. Runs of cells -/

/-- A run of cells shown with one label, as the visitors and buffers get it. -/
def runSegment (run : Run (SectionId × Presence × UInt64)) : BufferedReadSegment :=
  ⟨run.label.1, run.label.2.1, run.label.2.2, run.first, run.count⟩

/-- The scan of the cells observed. -/
def scanOf (observed : List BufferedReadCell) : Scan (SectionId × Presence × UInt64) :=
  scan (observed.map label)

theorem scanOf_concat (observed : List BufferedReadCell) (cell : BufferedReadCell) :
    scanOf (observed ++ [cell]) = (scanOf observed).step observed.length (label cell) := by
  rw [scanOf, List.map_append, List.map_singleton, scan_concat, List.length_map]
  rfl

theorem tiles_scanOf (observed : List BufferedReadCell) :
    Tiles (scanOf observed).runs (observed.map label) := (tiles_scan _).1

theorem length_runs_le (observed : List BufferedReadCell) :
    (scanOf observed).runs.length ≤ observed.length := by
  have h := (tiles_scanOf observed).length_le
  rwa [List.length_map] at h

/-- What `preflight_cells` keeps after some cells. -/
def preflightOf (observed : List BufferedReadCell) : Preflight where
  segmentCount := (scanOf observed).runs.length
  previous := (scanOf observed).current.map Run.label
  fullyResolved := observed.all (·.cell.blockId.isSome)

/-- **Preflighting one cell.** -/
theorem preflightCell_eq (world : BlockReadWorld) {observed : List BufferedReadCell}
    {position : CellPosition} (hrange : CellPosition.InRange position)
    (hlength : observed.length + 1 < 2 ^ 64) :
    world.preflightCell (preflightOf observed) position =
      .value (preflightOf (observed ++ [world.observe position])) := by
  unfold preflightCell
  rw [world.cellAtSection_observe hrange]
  generalize world.observe position = cell
  have hcurrent : (scanOf (observed ++ [cell])).current.map Run.label = some (label cell) := by
    rw [scanOf_concat, Scan.current_step]
  have hcount := (scanOf observed).length_runs_step observed.length (label cell)
  rw [← scanOf_concat] at hcount
  have hresolved : (observed ++ [cell]).all (·.cell.blockId.isSome) =
      (observed.all (·.cell.blockId.isSome) && cell.cell.blockId.isSome) := by
    rw [List.all_append, List.all_cons, List.all_nil, Bool.and_true]
  have hle := length_runs_le observed
  have hnext : preflightOf (observed ++ [cell]) = ⟨(scanOf (observed ++ [cell])).runs.length,
      some (label cell), observed.all (·.cell.blockId.isSome) && cell.cell.blockId.isSome⟩ := by
    rw [preflightOf, hcurrent, hresolved]
  rw [hnext]
  simp only [Attempt.call, Attempt.value_bind]
  split
  · rename_i hne
    have hother : ¬ (scanOf observed).current.map Run.label = some (label cell) := hne
    have hadd : checkedAddUsize (preflightOf observed).segmentCount 1 =
        some ((scanOf observed).runs.length + 1) := if_pos (Nat.lt_of_le_of_lt
          (Nat.add_le_add_right hle 1) hlength)
    rw [hcount, if_neg hother, hadd]
    rfl
  · rename_i heq
    have hsame : (scanOf observed).current.map Run.label = some (label cell) := not_not.mp heq
    rw [hcount, if_pos hsame, ← hsame]
    rfl

/-- **Preflight.** It counts the runs of the request and finds no refusal. -/
theorem preflightCells_eq (world : BlockReadWorld) {request : ReadRequest} {count : Nat}
    (hrange : ∀ position ∈ request.cells, CellPosition.InRange position)
    (hlength : request.cells.length + 1 < 2 ^ 64) (hbudget : count ≤ MAX_CELLS_PER_READ_REQUEST) :
    world.preflightCells request count =
      .value ⟨count, (scanOf (request.cells.map world.observe)).runs.length,
        (request.cells.map world.observe).all (·.cell.blockId.isSome)⟩ := by
  have hstep : ∀ before position after s, request.cells = before ++ position :: after →
      s = preflightOf (before.map world.observe) →
      ∃ next, world.preflightCell s position = .value next ∧
        next = preflightOf ((before ++ [position]).map world.observe) := by
    rintro before position after _ hcells rfl
    have hmem : position ∈ request.cells := hcells ▸ List.mem_append_right _ List.mem_cons_self
    have hbefore : (before.map world.observe).length + 1 < 2 ^ 64 := by
      rw [hcells, List.length_append, List.length_cons] at hlength
      rw [List.length_map]
      omega
    rw [List.map_append, List.map_singleton]
    exact ⟨_, world.preflightCell_eq (hrange position hmem) hbefore, rfl⟩
  obtain ⟨s, hloop, rfl⟩ := Attempt.foldSteps_invariant hstep rfl
  rw [preflightCells, admitBudget, require_of hbudget]
  simp only [Attempt.call, Attempt.value_bind]
  have hstart : (⟨0, none, true⟩ : Preflight) = preflightOf ([].map world.observe) := rfl
  rw [hstart, hloop]
  rfl

end BlockReadWorld

/-! ## 4. Visitor calls -/

/-- The cell of a call, with its position. -/
def VisitCall.cell? : VisitCall → Option (BufferedReadCell × Nat)
  | .onCell position cell => some (cell, position)
  | .onSegment _ _ => none

/-- The segment of a call, with its index. -/
def VisitCall.segment? : VisitCall → Option (BufferedReadSegment × Nat)
  | .onCell _ _ => none
  | .onSegment index segment => some (segment, index)

namespace BlockReadWorld

/-- What `visit_cells_after_preflight` has done after some cells: every cell is shown, and
every run but the current one. -/
structure Visited (observed : List BufferedReadCell) (s : VisitState) : Prop where
  cells : s.calls.filterMap VisitCall.cell? = observed.zipIdx
  segments : s.calls.filterMap VisitCall.segment? =
    ((scanOf observed).closed.map runSegment).zipIdx
  position : s.position = observed.length
  current : s.current = (scanOf observed).current.map runSegment
  segmentIndex : s.segmentIndex = (scanOf observed).closed.length

theorem visited_nil : Visited [] ⟨[], 0, none, 0⟩ := ⟨rfl, rfl, rfl, rfl, rfl⟩

/-- **Visiting one cell.** -/
theorem Visited.step {world : BlockReadWorld} {observed : List BufferedReadCell}
    {s : VisitState} (h : Visited observed s) {position : CellPosition}
    (hrange : CellPosition.InRange position) :
    ∃ next, world.visitCell s position = .value next ∧
      Visited (observed ++ [world.observe position]) next := by
  unfold visitCell
  rw [world.cellAtSection_observe hrange]
  generalize world.observe position = cell
  obtain ⟨calls, position', current, segmentIndex⟩ := s
  obtain ⟨hcells, hsegments, rfl, rfl, rfl⟩ := h
  simp only at hcells hsegments
  have hscan := scanOf_concat observed cell
  simp only [Except.toOption, Attempt.expect, Attempt.value_bind]
  have hzip : observed.zipIdx ++ [(cell, observed.length)] = (observed ++ [cell]).zipIdx := by
    rw [List.zipIdx_append, Nat.zero_add]
    rfl
  cases hcurrent : (scanOf observed).current with
  | none =>
    have hnext : scanOf (observed ++ [cell]) =
        ⟨(scanOf observed).closed, some ⟨label cell, observed.length, 1⟩⟩ := by
      rw [hscan, Scan.step, hcurrent]
    refine ⟨_, rfl, ?_, ?_, ?_, ?_, ?_⟩
    · rw [List.filterMap_append, hcells]
      exact hzip
    · rw [List.filterMap_append, hsegments, hnext]
      exact List.append_nil _
    · rw [List.length_append, List.length_singleton]
    · rw [hnext]
      rfl
    · rw [hnext]
  | some run =>
    simp only [Option.map_some]
    by_cases hsame : run.label = label cell
    · have hnext : scanOf (observed ++ [cell]) =
          ⟨(scanOf observed).closed, some { run with count := run.count + 1 }⟩ := by
        rw [hscan, Scan.step, hcurrent]
        exact if_pos hsame
      have hfields : (runSegment run).sectionId = cell.sectionId ∧
          (runSegment run).presence = cell.presence ∧
          (runSegment run).sectionRevision = cell.sectionRevision := by
        simp only [runSegment, hsame, label, and_self]
      rw [if_pos hfields]
      refine ⟨_, rfl, ?_, ?_, ?_, ?_, ?_⟩
      · rw [List.filterMap_append, hcells]
        exact hzip
      · rw [List.filterMap_append, hsegments, hnext]
        exact List.append_nil _
      · rw [List.length_append, List.length_singleton]
      · rw [hnext]
        rfl
      · rw [hnext]
    · have hnext : scanOf (observed ++ [cell]) =
          ⟨(scanOf observed).closed ++ [run], some ⟨label cell, observed.length, 1⟩⟩ := by
        rw [hscan, Scan.step, hcurrent]
        exact if_neg hsame
      have hfields : ¬ ((runSegment run).sectionId = cell.sectionId ∧
          (runSegment run).presence = cell.presence ∧
          (runSegment run).sectionRevision = cell.sectionRevision) := by
        rintro ⟨hid, hpresence, hrevision⟩
        exact hsame (Prod.ext hid (Prod.ext hpresence hrevision))
      rw [if_neg hfields]
      refine ⟨_, rfl, ?_, ?_, ?_, ?_, ?_⟩
      · rw [List.filterMap_append, List.filterMap_append, hcells, List.append_assoc]
        exact hzip
      · rw [List.filterMap_append, List.filterMap_append, hsegments, hnext, List.map_append,
          List.zipIdx_append, List.length_map, Nat.zero_add, List.append_assoc]
        rfl
      · rw [List.length_append, List.length_singleton]
      · rw [hnext]
        rfl
      · rw [hnext, List.length_append, List.length_singleton]

/-- **Visits.** After a preflight no step panics; the visitors get every cell and every run of
the request, in order. -/
theorem visitCellsAfterPreflight_eq (world : BlockReadWorld) {request : ReadRequest}
    (hrange : ∀ position ∈ request.cells, CellPosition.InRange position)
    {summary : BufferedBlockReadResult} (hsummary : summary.segmentCount =
      (scanOf (request.cells.map world.observe)).runs.length) :
    ∃ calls, world.visitCellsAfterPreflight request summary = .value calls ∧
      calls.filterMap VisitCall.cell? = (request.cells.map world.observe).zipIdx ∧
      calls.filterMap VisitCall.segment? =
        ((scanOf (request.cells.map world.observe)).runs.map runSegment).zipIdx := by
  have hstep : ∀ before position after s, request.cells = before ++ position :: after →
      Visited (before.map world.observe) s →
      ∃ next, world.visitCell s position = .value next ∧
        Visited ((before ++ [position]).map world.observe) next := by
    intro before position after s hcells h
    have hmem : position ∈ request.cells := hcells ▸ List.mem_append_right _ List.mem_cons_self
    rw [List.map_append]
    exact h.step (hrange position hmem)
  obtain ⟨s, hloop, h⟩ := Attempt.foldSteps_invariant hstep visited_nil
  rw [visitCellsAfterPreflight, hloop]
  generalize request.cells.map world.observe = observed at h hsummary ⊢
  have hruns : (scanOf observed).runs =
      (scanOf observed).closed ++ (scanOf observed).current.toList := rfl
  rw [hruns, List.length_append] at hsummary
  rw [hruns, List.map_append, List.zipIdx_append, List.length_map, Nat.zero_add]
  simp only [Attempt.value_bind, h.current]
  cases hcurrent : (scanOf observed).current with
  | none =>
    rw [hcurrent] at hsummary
    simp only [Option.map_none]
    rw [if_pos (h.segmentIndex.trans hsummary.symm)]
    exact ⟨_, rfl, h.cells, h.segments.trans (List.append_nil _).symm⟩
  | some run =>
    rw [hcurrent] at hsummary
    simp only [Option.map_some]
    rw [if_pos ((congrArg (· + 1) h.segmentIndex).trans hsummary.symm)]
    refine ⟨_, rfl, ?_, ?_⟩
    · rw [List.filterMap_append, h.cells]
      exact List.append_nil _
    · rw [List.filterMap_append, h.segments, h.segmentIndex]
      rfl

end BlockReadWorld

end LumioVoxel
