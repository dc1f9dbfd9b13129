import LumioVoxel.BulkReadLoops

/-!
# The bulk reads agree

A request is a list of cells.  If its bounds are in order, its y range is in the world, its
cells are within the budget and the guard admits what they show, then the collected, the
visited and the buffered read all answer with what the single reads of its cells answer with;
otherwise all of them refuse, with the same error, and leave the caller's visitors and buffers
alone.
-/

namespace LumioVoxel

open Attempts BoundedBuffers Fallible LabelRuns

/-! ## 1. Which requests fit -/

namespace ReadRequest

def Ordered : ReadRequest → Prop
  | .box low high => low.1.toInt ≤ high.1.toInt ∧ low.2.1.toInt ≤ high.2.1.toInt ∧
      low.2.2.toInt ≤ high.2.2.toInt
  | .column _ _ range => range.start.toInt ≤ range.last.toInt

/-- The y range of the request is in the contract's. -/
def InWorld : ReadRequest → Prop
  | .box low high => WORLD_Y_MIN ≤ low.2.1.toInt ∧ high.2.1.toInt ≤ WORLD_Y_MAX
  | .column _ _ range => WORLD_Y_MIN ≤ range.start.toInt ∧ range.last.toInt ≤ WORLD_Y_MAX

/-- The bounds are in order and in range, and the cells within the budget. -/
def Fits (request : ReadRequest) : Prop :=
  request.Ordered ∧ request.InWorld ∧ request.cells.length ≤ MAX_CELLS_PER_READ_REQUEST

theorem length_cells_box (low high : CellPosition) :
    (box low high).cells.length = (high.2.1.toInt - low.2.1.toInt + 1).toNat *
      ((high.2.2.toInt - low.2.2.toInt + 1).toNat * (high.1.toInt - low.1.toInt + 1).toNat) := by
  simp only [cells, List.length_flatMap, List.length_map, length_inclusive, List.map_const',
    List.sum_replicate_nat, length_inclusive64]

theorem length_cells_column (x z : Int32) (range : ColumnYRange) :
    (column x z range).cells.length = (range.last.toInt - range.start.toInt + 1).toNat := by
  simp only [cells, List.length_map, length_inclusive64]

/-- The cells of a request in the world are in range. -/
theorem inRange_of_mem {request : ReadRequest} (h : request.InWorld) :
    ∀ position ∈ request.cells, CellPosition.InRange position := by
  intro position hposition
  cases request with
  | box low high =>
    simp only [cells, List.mem_flatMap, List.mem_map] at hposition
    obtain ⟨y, hy, z, -, x, -, rfl⟩ := hposition
    obtain ⟨hfrom, hto⟩ := mem_inclusive64.mp hy
    exact ⟨Int.le_trans h.1 hfrom, Int.le_trans hto h.2⟩
  | column x z range =>
    simp only [cells, List.mem_map] at hposition
    obtain ⟨y, hy, rfl⟩ := hposition
    obtain ⟨hfrom, hto⟩ := mem_inclusive64.mp hy
    exact ⟨Int.le_trans h.1 hfrom, Int.le_trans hto h.2⟩

end ReadRequest

/-! ## 2. Counting without overflow -/

theorem checkedI64_of_mem {v : Int} (hlow : -2 ^ 63 ≤ v) (hhigh : v < 2 ^ 63) :
    checkedI64 v = some (Int64.ofInt v) ∧ (Int64.ofInt v).toInt = v :=
  ⟨if_pos ⟨hlow, hhigh⟩, Int64.toInt_ofInt_of_le hlow hhigh⟩

/-- The length of an axis whose bounds are in order and not too far apart. -/
theorem inclusiveAxisLen_eq {start last : Int64} (hordered : start.toInt ≤ last.toInt)
    (hnear : last.toInt - start.toInt + 1 < 2 ^ 63) :
    inclusiveAxisLen start last = .ok (last.toInt - start.toInt + 1).toNat := by
  obtain ⟨hdelta, hdeltaInt⟩ := checkedI64_of_mem (v := last.toInt - start.toInt) (by omega)
    (by omega)
  obtain ⟨hlen, hlenInt⟩ := checkedI64_of_mem (v := last.toInt - start.toInt + 1) (by omega) hnear
  have husize : usizeOfI64 (Int64.ofInt (last.toInt - start.toInt + 1)) =
      some (last.toInt - start.toInt + 1).toNat := by
    rw [usizeOfI64, hlenInt]
    exact if_pos (by omega)
  rw [inclusiveAxisLen, hdelta, Option.bind_some, hdeltaInt, hlen, Option.bind_some, husize]
  rfl

/-- The axes of 32-bit coordinates are never too far apart. -/
theorem inclusiveAxisLen_toInt64 {start last : Int32} (hordered : start.toInt ≤ last.toInt) :
    inclusiveAxisLen start.toInt64 last.toInt64 = .ok (last.toInt - start.toInt + 1).toNat := by
  have hlow := start.le_toInt
  have hhigh := last.toInt_lt
  have h : inclusiveAxisLen start.toInt64 last.toInt64 =
      .ok (last.toInt64.toInt - start.toInt64.toInt + 1).toNat := by
    apply inclusiveAxisLen_eq
    · rwa [Int32.toInt_toInt64, Int32.toInt_toInt64]
    · rw [Int32.toInt_toInt64, Int32.toInt_toInt64]
      omega
  rwa [Int32.toInt_toInt64, Int32.toInt_toInt64] at h

/-- `WorldY::new` accepts just the contract's range. -/
theorem WorldY.new_isOk_iff {value : Int64} :
    (∃ y, WorldY.new value = .ok y) ↔ WORLD_Y_MIN ≤ value.toInt ∧ value.toInt ≤ WORLD_Y_MAX := by
  unfold WorldY.new
  split
  · rename_i hout
    refine iff_of_false (fun ⟨_, h⟩ => error_ne_ok h) ?_
    omega
  · rename_i hin
    refine iff_of_true ⟨_, rfl⟩ ?_
    omega

/-- The volume of a box in order and in the world, if it fits a word. -/
private theorem boxCellCount_of_bounds {low high : CellPosition}
    (hordered : (ReadRequest.box low high).Ordered) (hworld : (ReadRequest.box low high).InWorld) :
    boxCellCount low high =
      if (ReadRequest.box low high).cells.length < 2 ^ 64 then
        .ok (ReadRequest.box low high).cells.length
      else .error (.contract READ_BUDGET_EXCEEDED) := by
  obtain ⟨hx, hy, hz⟩ := hordered
  obtain ⟨hlow, hhigh⟩ := hworld
  obtain ⟨first, hfirst⟩ := WorldY.new_isOk_iff.mpr ⟨hlow, Int.le_trans hy hhigh⟩
  obtain ⟨last, hlast⟩ := WorldY.new_isOk_iff.mpr ⟨Int.le_trans hlow hy, hhigh⟩
  have hxlow := (coordinate_mem low.1).1
  have hxhigh := (coordinate_mem high.1).2
  have hzlow := (coordinate_mem low.2.2).1
  have hzhigh := (coordinate_mem high.2.2).2
  simp only [SECTION_COORD_MIN, SECTION_COORD_MAX] at hxlow hxhigh hzlow hzhigh
  simp only [WORLD_Y_MIN, WORLD_Y_MAX] at hlow hhigh
  have hwidth := inclusiveAxisLen_toInt64 hx
  have hdepth := inclusiveAxisLen_toInt64 hz
  have hheight := inclusiveAxisLen_eq hy (by omega)
  rw [boxCellCount, require_of (by omega), hfirst, hlast, hwidth, hheight, hdepth,
    ReadRequest.length_cells_box]
  generalize hw : (high.1.toInt - low.1.toInt + 1).toNat = w
  generalize hh : (high.2.1.toInt - low.2.1.toInt + 1).toNat = h
  generalize (high.2.2.toInt - low.2.2.toInt + 1).toNat = d
  -- an area of the world cannot overflow a word, only the volume can
  have harea : w * h < 2 ^ 64 := by
    have hmul : w * h ≤ 4294967296 * 256 := Nat.mul_le_mul (by omega) (by omega)
    omega
  have hmul : checkedMulUsize w h = some (w * h) := if_pos harea
  have hvolume : h * (d * w) = w * h * d := by rw [← Nat.mul_assoc, Nat.mul_comm, ← Nat.mul_assoc]
  simp only [mapError_ok, ok_bind]
  rw [hmul, Option.bind_some, checkedMulUsize, hvolume]
  by_cases hlt : w * h * d < 2 ^ 64
  · rw [if_pos hlt, if_pos hlt]
    rfl
  · rw [if_neg hlt, if_neg hlt]
    rfl

theorem boxCellCount_eq_ok {low high : CellPosition} {n : Nat} :
    boxCellCount low high = .ok n ↔ (ReadRequest.box low high).Ordered ∧
      (ReadRequest.box low high).InWorld ∧ (ReadRequest.box low high).cells.length = n ∧
      n < 2 ^ 64 := by
  constructor
  · intro h
    have hbounds : (ReadRequest.box low high).Ordered ∧ (ReadRequest.box low high).InWorld := by
      unfold boxCellCount at h
      simp only [bind_eq_ok, require_eq_ok, mapError_eq_ok] at h
      obtain ⟨_, hordered, first, hfirst, last, hlast, -⟩ := h
      exact ⟨by simp only [ReadRequest.Ordered]; omega,
        (WorldY.new_isOk_iff.mp ⟨first, hfirst⟩).1, (WorldY.new_isOk_iff.mp ⟨last, hlast⟩).2⟩
    rw [boxCellCount_of_bounds hbounds.1 hbounds.2] at h
    split at h
    · rename_i hlt
      obtain rfl := Except.ok.inj h
      exact ⟨hbounds.1, hbounds.2, rfl, hlt⟩
    · cases h
  · rintro ⟨hordered, hworld, rfl, hlt⟩
    rw [boxCellCount_of_bounds hordered hworld, if_pos hlt]

/-- A y out of the contract's range is the error the source expects. -/
private theorem expectErr_worldY (value : Int64)
    (h : ¬ (WORLD_Y_MIN ≤ value.toInt ∧ value.toInt ≤ WORLD_Y_MAX)) :
    ∃ err, (expectErr (WorldY.new value) : Attempt QueryError WorldYError) = .value err := by
  cases hnew : WorldY.new value with
  | error err => exact ⟨err, rfl⟩
  | ok y => exact absurd (WorldY.new_isOk_iff.mp ⟨y, hnew⟩) h

/-- A small count survives the conversions. -/
private theorem toNat_toUInt64_ofInt {v : Int} (hlow : 0 ≤ v) (hhigh : v < 2 ^ 63) :
    (Int64.ofInt v).toUInt64.toNat = v.toNat := by
  have hint : (Int64.ofInt v).toInt = v := Int64.toInt_ofInt_of_le (by omega) hhigh
  have hword : (Int64.ofInt v).toUInt64.toNat = (Int64.ofInt v).toBitVec.toNat := rfl
  have hbits : (Int64.ofInt v).toInt = (Int64.ofInt v).toBitVec.toInt := rfl
  rw [hbits, BitVec.toInt_eq_toNat_cond] at hint
  rw [hword]
  split at hint
  · omega
  · omega

/-- The column's length is counted without overflow, or the column is refused. -/
theorem inclusiveLen_cases (x z : Int32) (range : ColumnYRange) :
    (ReadRequest.column x z range).Ordered ∧ (ReadRequest.column x z range).InWorld ∧
      range.inclusiveLen = .value (ReadRequest.column x z range).cells.length ∨
    ¬ ((ReadRequest.column x z range).Ordered ∧ (ReadRequest.column x z range).InWorld) ∧
      ∃ err, range.inclusiveLen = .refused err := by
  rw [ReadRequest.length_cells_column]
  simp only [ReadRequest.Ordered, ReadRequest.InWorld]
  unfold ColumnYRange.inclusiveLen
  split
  · exact Or.inr ⟨by omega, _, rfl⟩
  rename_i hordered
  split
  · rename_i hlow
    obtain ⟨err, herr⟩ := expectErr_worldY range.start (by omega)
    exact Or.inr ⟨by omega, .fromWorldY err, by rw [herr]; rfl⟩
  rename_i hlow
  split
  · rename_i hhigh
    obtain ⟨err, herr⟩ := expectErr_worldY range.last (by omega)
    exact Or.inr ⟨by omega, .fromWorldY err, by rw [herr]; rfl⟩
  rename_i hhigh
  simp only [WORLD_Y_MIN, WORLD_Y_MAX] at hlow hhigh ⊢
  refine Or.inl ⟨by omega, by omega, ?_⟩
  obtain ⟨hdelta, hdeltaInt⟩ := checkedI64_of_mem (v := range.last.toInt - range.start.toInt)
    (by omega) (by omega)
  obtain ⟨hlen, -⟩ := checkedI64_of_mem (v := range.last.toInt - range.start.toInt + 1)
    (by omega) (by omega)
  have hbudget : admitBudget (range.last.toInt - range.start.toInt + 1).toNat = .ok () :=
    require_of (by simp only [MAX_CELLS_PER_READ_REQUEST]; omega) _
  rw [hdelta]
  simp only [Attempt.expect, Attempt.value_bind, hdeltaInt, hlen]
  rw [toNat_toUInt64_ofInt (by omega) (by omega), hbudget]
  rfl

/-- **Counting.** The count of a request is the number of its cells; a request that does not fit
is refused, or counted above the budget. -/
theorem ReadRequest.count_cases (request : ReadRequest) :
    request.Fits ∧ request.count = .value request.cells.length ∨
      ¬ request.Fits ∧ ((∃ err, request.count = .refused err) ∨
        ∃ n, request.count = .value n ∧ MAX_CELLS_PER_READ_REQUEST < n) := by
  by_cases hfits : request.Fits
  · refine Or.inl ⟨hfits, ?_⟩
    obtain ⟨hordered, hworld, hbudget⟩ := hfits
    cases request with
    | box low high =>
      have hcount := boxCellCount_eq_ok.mpr ⟨hordered, hworld, rfl,
        Nat.lt_of_le_of_lt hbudget (by decide)⟩
      rw [count, hcount]
      rfl
    | column x z range =>
      rcases inclusiveLen_cases x z range with ⟨-, -, hcount⟩ | ⟨hnot, -⟩
      · exact hcount
      · exact absurd ⟨hordered, hworld⟩ hnot
  · refine Or.inr ⟨hfits, ?_⟩
    cases request with
    | box low high =>
      rw [count]
      cases hcount : boxCellCount low high with
      | error err => exact Or.inl ⟨err, rfl⟩
      | ok n =>
        obtain ⟨hordered, hworld, rfl, -⟩ := boxCellCount_eq_ok.mp hcount
        exact Or.inr ⟨_, rfl, Nat.not_le.mp fun hbudget => hfits ⟨hordered, hworld, hbudget⟩⟩
    | column x z range =>
      rcases inclusiveLen_cases x z range with ⟨hordered, hworld, hcount⟩ | ⟨-, hrefused⟩
      · exact Or.inr ⟨_, hcount, Nat.not_le.mp fun hbudget => hfits ⟨hordered, hworld, hbudget⟩⟩
      · exact Or.inl hrefused

theorem ReadRequest.count_of_fits {request : ReadRequest} (h : request.Fits) :
    request.count = .value request.cells.length := by
  rcases request.count_cases with ⟨-, hcount⟩ | ⟨hnot, -⟩
  · exact hcount
  · exact absurd h hnot

/-! ## 3. Writing the calls into buffers -/

/-- Calls whose positions and indices are inside the buffers are all written. -/
theorem ReadBuffers.foldSteps_write {calls : List VisitCall} {buffers : ReadBuffers}
    (hcells : ∀ item ∈ calls.filterMap VisitCall.cell?, item.2 < buffers.blockIds.length)
    (hsegments : ∀ item ∈ calls.filterMap VisitCall.segment?,
      item.2 < buffers.segments.length) :
    Attempt.foldSteps ReadBuffers.write buffers calls = .value
      ⟨(calls.filterMap VisitCall.cell?).foldl
          (fun ids item => ids.set item.2 item.1.cell.blockId) buffers.blockIds,
        (calls.filterMap VisitCall.segment?).foldl
          (fun segments item => segments.set item.2 (some item.1)) buffers.segments⟩ := by
  induction calls generalizing buffers with
  | nil => rfl
  | cons call rest ih =>
    cases call with
    | onCell position cell =>
      have hposition : position < buffers.blockIds.length :=
        hcells (cell, position) List.mem_cons_self
      have hwrite : buffers.write (.onCell position cell) = .value
          { buffers with blockIds := buffers.blockIds.set position cell.cell.blockId } :=
        if_pos hposition
      rw [Attempt.foldSteps, hwrite, Attempt.value_bind, ih]
      · rfl
      · intro item hitem
        rw [List.length_set]
        exact hcells item (List.mem_cons_of_mem _ hitem)
      · exact hsegments
    | onSegment index segment =>
      have hindex : index < buffers.segments.length :=
        hsegments (segment, index) List.mem_cons_self
      have hwrite : buffers.write (.onSegment index segment) = .value
          { buffers with segments := buffers.segments.set index (some segment) } :=
        if_pos hindex
      rw [Attempt.foldSteps, hwrite, Attempt.value_bind, ih]
      · rfl
      · exact hcells
      · intro item hitem
        rw [List.length_set]
        exact hsegments item (List.mem_cons_of_mem _ hitem)

/-- Items written at the positions they are numbered with, as the buffer holds them. -/
private theorem foldl_set_map_zipIdx {α β : Type} (f : α → β) (buffer : List β) (items : List α)
    (h : items.length ≤ buffer.length) :
    items.zipIdx.foldl (fun b item => b.set item.2 (f item.1)) buffer =
      items.map f ++ buffer.drop items.length := by
  have hmap := foldl_set_zipIdx buffer (items.map f) (by rwa [List.length_map])
  rw [List.zipIdx_map, List.foldl_map, List.length_map] at hmap
  exact hmap

/-- **Buffered reads.** The cells and the runs, written in order from the front. -/
theorem ReadBuffers.write_calls {calls : List VisitCall} {buffers : ReadBuffers}
    {shown : List BufferedReadCell} {segments : List BufferedReadSegment}
    (hcells : calls.filterMap VisitCall.cell? = shown.zipIdx)
    (hsegments : calls.filterMap VisitCall.segment? = segments.zipIdx)
    (hblockIds : buffers.blockIds.length = shown.length)
    (hroom : segments.length ≤ buffers.segments.length) :
    Attempt.foldSteps ReadBuffers.write buffers calls = .value
      ⟨shown.map (·.cell.blockId),
        segments.map some ++ buffers.segments.drop segments.length⟩ := by
  rw [foldSteps_write]
  · have hids := foldl_set_map_zipIdx (fun cell : BufferedReadCell => cell.cell.blockId)
      buffers.blockIds shown (Nat.le_of_eq hblockIds.symm)
    rw [List.drop_of_length_le (Nat.le_of_eq hblockIds), List.append_nil] at hids
    rw [hcells, hsegments, hids, foldl_set_map_zipIdx some buffers.segments segments hroom]
  · intro item hitem
    rw [hcells] at hitem
    exact hblockIds ▸ List.snd_lt_of_mem_zipIdx hitem
  · intro item hitem
    rw [hsegments] at hitem
    exact Nat.lt_of_lt_of_le (List.snd_lt_of_mem_zipIdx hitem) hroom

/-! ## 4. Guards -/

/-- The guard rejects with identifiers of the contract's table only. -/
def ReportsListed (guard : SectionPresenceGuard) : Prop :=
  ∀ key presence code, guard key presence = .error code → code ∈ VOXEL_WORLD_ERROR_CODES

theorem ReadSegment.validatePresence_eq_value {segment : ReadSegment}
    {guard : SectionPresenceGuard} :
    segment.validatePresence guard = .value () ↔
      guard segment.sectionId segment.presence.name = .ok () := by
  unfold validatePresence
  split
  · rename_i hok
    exact iff_of_true rfl hok
  · rename_i code hcode
    rw [hcode, QueryError.refuse]
    split <;> simp only [reduceCtorEq]

/-- A guard of listed identifiers never panics. -/
theorem ReadSegment.validatePresence_ne_panicked {guard : SectionPresenceGuard}
    (hguard : ReportsListed guard) (segment : ReadSegment) :
    segment.validatePresence guard ≠ .panicked := by
  unfold validatePresence
  split
  · simp only [ne_eq, reduceCtorEq, not_false_eq_true]
  · rename_i code hcode
    rw [QueryError.refuse, if_pos (hguard _ _ code hcode)]
    simp only [ne_eq, reduceCtorEq, not_false_eq_true]

namespace BlockReadWorld

/-- Every section is met in a cell, and shows one presence in all its cells. -/
theorem forall_mem_grouped {world : BlockReadWorld} {observed : List BufferedReadCell}
    (hshows : ∀ cell ∈ observed, world.Shows cell) (P : String → Presence → Prop) :
    (∀ segment ∈ world.grouped observed, P segment.sectionId segment.presence) ↔
      ∀ cell ∈ observed, P cell.sectionId.key cell.presence := by
  constructor
  · intro h cell hcell
    have hid : cell.sectionId ∈ sectionsOf observed :=
      List.mem_eraseDups.mpr (List.mem_map_of_mem hcell)
    rw [(hshows cell hcell).1]
    exact h (world.segmentOf observed cell.sectionId) (List.mem_map_of_mem hid)
  · intro h segment hsegment
    obtain ⟨id, hid, rfl⟩ := List.mem_map.mp hsegment
    obtain ⟨cell, hcell, rfl⟩ := List.mem_map.mp (List.mem_eraseDups.mp hid)
    have hP := h cell hcell
    rwa [(hshows cell hcell).1] at hP

/-- The single reads of the cells pass the guard, if there is one. -/
def Admits (world : BlockReadWorld) (guard : Option SectionPresenceGuard)
    (request : ReadRequest) : Prop :=
  ∀ g ∈ guard, ∀ position ∈ request.cells, ∀ answer,
    world.readCell position.1 position.2.1 position.2.2 = .ok answer →
      answer.validatePresenceGuard g = .ok ()

theorem admits_iff {world : BlockReadWorld} {guard : Option SectionPresenceGuard}
    {request : ReadRequest} (hworld : request.InWorld) :
    world.Admits guard request ↔ ∀ g ∈ guard, ∀ cell ∈ request.cells.map world.observe,
      g cell.sectionId.key cell.presence.name = .ok () := by
  refine forall₂_congr fun g _ => ?_
  rw [List.forall_mem_map]
  refine forall₂_congr fun position hposition => ?_
  have hread := world.readCell_observe (ReadRequest.inRange_of_mem hworld position hposition)
  constructor
  · intro h
    exact mapError_eq_ok.mp (h _ hread)
  · intro h answer hanswer
    obtain rfl := Except.ok.inj (hread.symm.trans hanswer)
    exact mapError_eq_ok.mpr h

/-- The segments pass the guard when the cells do. -/
theorem validatePresenceGuard_cases {world : BlockReadWorld} {guard : SectionPresenceGuard}
    (hguard : ReportsListed guard) {observed : List BufferedReadCell}
    (hshows : ∀ cell ∈ observed, world.Shows cell) (count : Nat) :
    (∀ cell ∈ observed, guard cell.sectionId.key cell.presence.name = .ok ()) ∧
        BlockReadResult.validatePresenceGuard ⟨world.grouped observed, count⟩ guard = .value () ∨
      (¬ ∀ cell ∈ observed, guard cell.sectionId.key cell.presence.name = .ok ()) ∧
        ∃ err, BlockReadResult.validatePresenceGuard ⟨world.grouped observed, count⟩ guard =
          .refused err := by
  have hcells := forall_mem_grouped hshows fun key presence => guard key presence.name = .ok ()
  rw [← hcells]
  simp only [← ReadSegment.validatePresence_eq_value]
  have hpanic : ∀ segment ∈ world.grouped observed,
      segment.validatePresence guard ≠ .panicked :=
    fun segment _ => segment.validatePresence_ne_panicked hguard
  exact Attempt.foldSteps_check_cases
    (f := fun _ (segment : ReadSegment) => segment.validatePresence guard) hpanic

/-! ## 5. Agreement -/

/-- The collected read, under a guard if there is one. -/
def readUnder (world : BlockReadWorld) (guard : Option SectionPresenceGuard)
    (request : ReadRequest) : Attempt QueryError BlockReadResult :=
  match guard with
  | none => world.read request
  | some g => world.readWithPresenceGuard request g

def visitUnder (world : BlockReadWorld) (guard : Option SectionPresenceGuard)
    (request : ReadRequest) : Attempt QueryError BufferedBlockReadResult × List VisitCall :=
  match guard with
  | none => world.visit request
  | some g => world.visitWithPresenceGuard request g

def readIntoUnder (world : BlockReadWorld) (guard : Option SectionPresenceGuard)
    (request : ReadRequest) (buffers : ReadBuffers) :
    Attempt QueryError BufferedBlockReadResult × ReadBuffers :=
  match guard with
  | none => world.readInto request buffers
  | some g => world.readIntoWithPresenceGuard request g buffers

/-- All three reads refuse, with one error; no visitor is called and no buffer written. -/
def RefusedAlike (world : BlockReadWorld) (guard : Option SectionPresenceGuard)
    (request : ReadRequest) : Prop :=
  ∃ err, world.readUnder guard request = .refused err ∧
    world.visitUnder guard request = (.refused err, []) ∧
    ∀ buffers, world.readIntoUnder guard request buffers = (.refused err, buffers)

/-- The single read of the position answers with the cell. -/
def Answers (world : BlockReadWorld) (position : CellPosition) (cell : BufferedReadCell) : Prop :=
  world.readCell position.1 position.2.1 position.2.2 =
    .ok ⟨cell.sectionId.key, cell.presence, cell.sectionRevision, cell.cell⟩

/-- The cells collected into segments: one for each section, in the order in which the sections
are met, with its cells in their order. -/
structure Collects (shown : List BufferedReadCell) (result : BlockReadResult) : Prop where
  cellCount : result.cellCount = shown.length
  sections : result.segments.map (·.sectionId) = (sectionsOf shown).map SectionId.key
  cells : ∀ segment ∈ result.segments, segment.cells =
    (shown.filter (·.sectionId.key = segment.sectionId)).map (·.cell)
  states : ∀ segment ∈ result.segments, ∀ cell ∈ shown,
    cell.sectionId.key = segment.sectionId →
      cell.presence = segment.presence ∧ cell.sectionRevision = segment.sectionRevision
  blockIds : ∀ segment ∈ result.segments, ∀ ids,
    segment.blockIds = some ids ↔ segment.cells.map (·.blockId) = ids.map some

/-- All three reads answer with the cells that the single reads answer with, in the order of the
request; the buffered read refuses buffers of other sizes unwritten. -/
def AnsweredAlike (world : BlockReadWorld) (guard : Option SectionPresenceGuard)
    (request : ReadRequest) : Prop :=
  ∃ (shown : List BufferedReadCell) (runs : List (Run (SectionId × Presence × UInt64))),
    List.Forall₂ world.Answers request.cells shown ∧
    Tiles runs (shown.map label) ∧
    (∃ result, world.readUnder guard request = .value result ∧ Collects shown result) ∧
    (∃ calls, world.visitUnder guard request =
        (.value ⟨shown.length, runs.length, shown.all (·.cell.blockId.isSome)⟩, calls) ∧
      calls.filterMap VisitCall.cell? = shown.zipIdx ∧
      calls.filterMap VisitCall.segment? = (runs.map runSegment).zipIdx) ∧
    ∀ buffers, world.readIntoUnder guard request buffers =
      if buffers.blockIds.length = shown.length ∧ runs.length ≤ buffers.segments.length then
        (.value ⟨shown.length, runs.length, shown.all (·.cell.blockId.isSome)⟩,
          ⟨shown.map (·.cell.blockId),
            (runs.map runSegment).map some ++ buffers.segments.drop runs.length⟩)
      else (.refused .invalidHandle, buffers)

/-- A request that does not fit is refused before any cell is looked at. -/
theorem refused_of_not_fits (world : BlockReadWorld) {request : ReadRequest}
    (h : ¬ request.Fits) : world.RefusedAlike none request := by
  rcases request.count_cases with ⟨hfits, -⟩ | ⟨-, ⟨err, hcount⟩ | ⟨n, hcount, hn⟩⟩
  · exact absurd hfits h
  · refine ⟨err, ?_, ?_, fun buffers => ?_⟩
    · rw [readUnder, read, hcount]
      rfl
    · rw [visitUnder, visit, hcount]
    · rw [readIntoUnder, readInto, hcount]
  · have hbudget : admitBudget n = .error (.contract READ_BUDGET_EXCEEDED) :=
      require_of_not (Nat.not_le.mpr hn) _
    have hpreflight : world.preflightCells request n =
        .refused (.contract READ_BUDGET_EXCEEDED) := by
      rw [preflightCells, hbudget]
      rfl
    refine ⟨.contract READ_BUDGET_EXCEEDED, ?_, ?_, fun buffers => ?_⟩
    · rw [readUnder, read, hcount, Attempt.value_bind, readCells, hbudget]
      rfl
    · simp only [visitUnder, visit, hcount, visitCells, hpreflight]
    · simp only [readIntoUnder, readInto, hcount, readCellsIntoBuffers, hpreflight]

/-- A guard that lets the collected read through changes nothing; otherwise its refusal is that
of all three. -/
theorem refused_of_guard {world : BlockReadWorld} {request : ReadRequest}
    {g : SectionPresenceGuard} {err : QueryError}
    (h : world.readWithPresenceGuard request g = .refused err) :
    world.RefusedAlike (some g) request := by
  refine ⟨err, h, ?_, fun buffers => ?_⟩
  · simp only [visitUnder, visitWithPresenceGuard, h]
  · simp only [readIntoUnder, readIntoWithPresenceGuard, h]

/-- The collected read of a request that fits. -/
theorem read_of_fits (world : BlockReadWorld) {request : ReadRequest} (h : request.Fits) :
    world.read request = .value ⟨world.grouped (request.cells.map world.observe),
      request.cells.length⟩ := by
  rw [read, ReadRequest.count_of_fits h, Attempt.value_bind,
    world.readCells_eq (ReadRequest.inRange_of_mem h.2.1) h.2.2]

theorem shows_observed (world : BlockReadWorld) (positions : List CellPosition) :
    ∀ cell ∈ positions.map world.observe, world.Shows cell := by
  intro cell hcell
  obtain ⟨position, -, rfl⟩ := List.mem_map.mp hcell
  exact world.shows_observe position

/-- The segments collect the cells they are grouped from. -/
theorem collects_grouped {world : BlockReadWorld} {shown : List BufferedReadCell}
    (hshows : ∀ cell ∈ shown, world.Shows cell) :
    Collects shown ⟨world.grouped shown, shown.length⟩ := by
  have hfilter : ∀ id : SectionId, shown.filter (·.sectionId = id) =
      shown.filter (·.sectionId.key = id.key) := by
    intro id
    refine List.filter_congr fun cell _ => ?_
    rw [decide_eq_decide]
    exact ⟨congrArg SectionId.key, fun hkey => SectionId.key_injective hkey⟩
  refine ⟨rfl, ?_, ?_, ?_, ?_⟩
  · rw [grouped, List.map_map]
    rfl
  · intro segment hsegment
    obtain ⟨id, -, rfl⟩ := List.mem_map.mp hsegment
    exact congrArg (List.map (·.cell)) (hfilter id)
  · intro segment hsegment cell hcell hkey
    obtain ⟨id, -, rfl⟩ := List.mem_map.mp hsegment
    obtain rfl : cell.sectionId = id := SectionId.key_injective hkey
    exact ⟨(hshows cell hcell).1, (hshows cell hcell).2.1⟩
  · intro segment hsegment ids
    obtain ⟨id, hid, rfl⟩ := List.mem_map.mp hsegment
    -- the section was met in a cell, so its segment is not empty
    obtain ⟨cell, hcell, hcellId⟩ := List.mem_map.mp (List.mem_eraseDups.mp hid)
    have hmem : cell ∈ shown.filter (·.sectionId = id) :=
      List.mem_filter.mpr ⟨hcell, decide_eq_true hcellId⟩
    have hblock : ∀ c ∈ shown.filter (·.sectionId = id),
        c.cell.blockId = (world.sectionState id).2.2.map (·.read c.cell.offset) := by
      intro c hc
      obtain ⟨hshown, hcId⟩ := List.mem_filter.mp hc
      have hstate := (hshows c hshown).2.2
      rwa [of_decide_eq_true hcId] at hstate
    simp only [segmentOf]
    generalize shown.filter (·.sectionId = id) = cells at hmem hblock ⊢
    cases hstorage : (world.sectionState id).2.2 with
    | none =>
      refine iff_of_false (fun h => by cases h) fun h => ?_
      have hnone : cell.cell.blockId = none := by
        rw [hblock cell hmem, hstorage]
        rfl
      have hin : (none : Option BlockId) ∈ ids.map some := by
        rw [← h, ← hnone]
        exact List.mem_map_of_mem (List.mem_map_of_mem hmem)
      obtain ⟨_, -, hcontra⟩ := List.mem_map.mp hin
      cases hcontra
    | some storage =>
      have hids : (cells.map (·.cell)).map (·.blockId) =
          ((cells.map (·.cell)).map fun c => storage.read c.offset).map some := by
        simp only [List.map_map]
        refine List.map_congr_left fun c hc => ?_
        simp only [Function.comp_apply, hblock c hc, hstorage, Option.map_some]
      rw [Option.map_some, Option.some.injEq, hids,
        (List.map_injective_iff.mpr (Option.some_injective BlockId)).eq_iff]

/-- Without a guard, a request that fits is answered by all three reads. -/
theorem answered_of_fits (world : BlockReadWorld) {request : ReadRequest} (h : request.Fits) :
    world.AnsweredAlike none request := by
  have hrange := ReadRequest.inRange_of_mem h.2.1
  have hcount := ReadRequest.count_of_fits h
  have hpreflight := world.preflightCells_eq hrange
    (Nat.lt_of_le_of_lt (Nat.add_le_add_right h.2.2 1) (by decide)) h.2.2
  have hsummary : (⟨request.cells.length, (scanOf (request.cells.map world.observe)).runs.length,
      (request.cells.map world.observe).all (·.cell.blockId.isSome)⟩ :
        BufferedBlockReadResult).segmentCount =
      (scanOf (request.cells.map world.observe)).runs.length := rfl
  obtain ⟨calls, hvisit, hcells, hsegments⟩ :=
    world.visitCellsAfterPreflight_eq hrange hsummary
  have hlength : (request.cells.map world.observe).length = request.cells.length :=
    List.length_map _
  refine ⟨request.cells.map world.observe, (scanOf (request.cells.map world.observe)).runs,
    ?_, tiles_scanOf _, ⟨_, world.read_of_fits h, ?_⟩, ⟨calls, ?_, hcells, hsegments⟩,
    fun buffers => ?_⟩
  · rw [List.forall₂_map_right_iff, List.forall₂_same]
    exact fun position hposition => world.readCell_observe (hrange position hposition)
  · rw [← hlength]
    exact collects_grouped (world.shows_observed _)
  · simp only [visitUnder, visit, hcount, visitCells, hpreflight, hvisit, hlength]
  · simp only [readIntoUnder, readInto, hcount, readCellsIntoBuffers, hpreflight, hlength]
    by_cases hids : buffers.blockIds.length = request.cells.length
    · rw [if_neg (not_not.mpr hids)]
      by_cases hroom : (scanOf (request.cells.map world.observe)).runs.length ≤
          buffers.segments.length
      · have hwrite := ReadBuffers.write_calls hcells hsegments (hids.trans hlength.symm)
          ((List.length_map _).trans_le hroom)
        rw [List.length_map] at hwrite
        rw [if_neg (Nat.not_lt.mpr hroom), if_pos ⟨hids, hroom⟩, hvisit, Attempt.value_bind,
          hwrite]
      · rw [if_pos (Nat.not_le.mp hroom), if_neg fun hboth => hroom hboth.2]
    · rw [if_pos hids, if_neg fun hboth => hids hboth.1]

/-- **Agreement of the bulk reads.** A request is answered by all three reads, with what the
single reads of its cells answer, exactly when its bounds are in order and in range, its cells
within the budget and its sections admitted by the guard; else all three refuse it.  The guard
has to reject with listed identifiers. -/
theorem block_reads_agree (world : BlockReadWorld) (guard : Option SectionPresenceGuard)
    (request : ReadRequest) (hguard : ∀ g ∈ guard, ReportsListed g) :
    (request.Fits ∧ world.Admits guard request) ∧ world.AnsweredAlike guard request ∨
      ¬ (request.Fits ∧ world.Admits guard request) ∧ world.RefusedAlike guard request := by
  by_cases hfits : request.Fits
  · cases guard with
    | none =>
      refine Or.inl ⟨⟨hfits, ?_⟩, world.answered_of_fits hfits⟩
      exact fun g hg => absurd hg (Option.not_mem_none g)
    | some g =>
      have hread := world.read_of_fits hfits
      have hshows := world.shows_observed request.cells
      have hadmits : world.Admits (some g) request ↔
          ∀ cell ∈ request.cells.map world.observe,
            g cell.sectionId.key cell.presence.name = .ok () := by
        rw [admits_iff hfits.2.1]
        simp only [Option.mem_def, Option.some.injEq, forall_eq']
      rcases validatePresenceGuard_cases (hguard g rfl) hshows request.cells.length with
        ⟨hall, hpass⟩ | ⟨hnot, err, hrefuse⟩
      · have hguarded : world.readWithPresenceGuard request g = world.read request := by
          rw [readWithPresenceGuard, hread, Attempt.value_bind, hpass, Attempt.value_bind]
          rfl
        have hanswered := world.answered_of_fits hfits
        refine Or.inl ⟨⟨hfits, hadmits.mpr hall⟩, ?_⟩
        have hvisit : world.visitUnder (some g) request = world.visitUnder none request := by
          simp only [visitUnder, visitWithPresenceGuard, hguarded, hread]
        have hinto : world.readIntoUnder (some g) request =
            world.readIntoUnder none request := by
          funext buffers
          simp only [readIntoUnder, readIntoWithPresenceGuard, hguarded, hread]
        have hcollect : world.readUnder (some g) request = world.readUnder none request :=
          hguarded
        rwa [AnsweredAlike, hcollect, hvisit, hinto]
      · have hguarded : world.readWithPresenceGuard request g = .refused err := by
          rw [readWithPresenceGuard, hread, Attempt.value_bind, hrefuse, Attempt.refused_bind]
        exact Or.inr ⟨fun h => hnot (hadmits.mp h.2), refused_of_guard hguarded⟩
  · refine Or.inr ⟨fun h => hfits h.1, ?_⟩
    have hrefused := world.refused_of_not_fits hfits
    cases guard with
    | none => exact hrefused
    | some g =>
      obtain ⟨err, hread, -⟩ := hrefused
      apply refused_of_guard
      have hread' : world.read request = .refused err := hread
      rw [readWithPresenceGuard, hread', Attempt.refused_bind]

/-- A box of the one cell at the origin. -/
private theorem fits_origin : (ReadRequest.box (0, 0, 0) (0, 0, 0)).Fits := by
  refine ⟨⟨by decide, by decide, by decide⟩, ⟨by decide, by decide⟩, ?_⟩
  rw [ReadRequest.length_cells_box]
  decide

/-- Two sections side by side, each all of one block. -/
def pairedWorld : BlockReadWorld where
  sections := ((∅ : BTreeMap SectionId BlockReadSection).insert originSection
    ⟨.ready, 3, some (.uniform ⟨7⟩), by decide⟩).insert neighbourSection
      ⟨.unchanged, 5, some (.uniform ⟨9⟩), by decide⟩

/-- Two cells of either section, row by row. -/
def acrossBoth : ReadRequest := .box (15, 0, 0) (16, 0, 1)

def notPending : SectionPresenceGuard := fun _ presence =>
  if presence = "Pending" then .error "pinned_read_returned_pending" else .ok ()

theorem fits_acrossBoth : acrossBoth.Fits := by
  refine ⟨⟨by decide, by decide, by decide⟩, ⟨by decide, by decide⟩, ?_⟩
  rw [acrossBoth, ReadRequest.length_cells_box]
  decide

/-- The collected read has two segments; the visited one comes back to each section. -/
theorem block_reads_agree_acrossBoth :
    pairedWorld.AnsweredAlike (some notPending) acrossBoth ∧
      pairedWorld.readUnder (some notPending) acrossBoth = .value ⟨[
        ⟨originSection.key, .ready, 3, [⟨⟨15, by decide⟩, some ⟨7⟩⟩, ⟨⟨31, by decide⟩, some ⟨7⟩⟩],
          some [⟨7⟩, ⟨7⟩]⟩,
        ⟨neighbourSection.key, .unchanged, 5,
          [⟨⟨0, by decide⟩, some ⟨9⟩⟩, ⟨⟨16, by decide⟩, some ⟨9⟩⟩], some [⟨9⟩, ⟨9⟩]⟩], 4⟩ ∧
      (pairedWorld.visitUnder (some notPending) acrossBoth).1 = .value ⟨4, 4, true⟩ := by
  have hguard : ReportsListed notPending := by
    intro key presence code h
    unfold notPending at h
    split at h
    · obtain rfl := Except.error.inj h
      decide
    · cases h
  have hadmits : pairedWorld.Admits (some notPending) acrossBoth := by
    rw [admits_iff fits_acrossBoth.2.1]
    intro g hg cell hcell
    obtain rfl := Option.some.inj hg
    have hpresent : ∀ cell ∈ acrossBoth.cells.map pairedWorld.observe,
        cell.presence.name ≠ "Pending" := by decide +kernel
    exact if_neg (hpresent cell hcell)
  refine ⟨?_, by decide +kernel, by decide +kernel⟩
  rcases block_reads_agree pairedWorld _ acrossBoth
      (fun g hg => Option.some.inj hg ▸ hguard) with ⟨-, hanswered⟩ | ⟨hnot, -⟩
  · exact hanswered
  · exact absurd ⟨fits_acrossBoth, hadmits⟩ hnot

/-- A guard that rejects with an identifier the contract does not list makes the read panic. -/
theorem guarded_read_panics :
    BlockReadWorld.new.readWithPresenceGuard (.box (0, 0, 0) (0, 0, 0))
      (fun _ _ => .error "not_listed") = .panicked := by
  have hcells : (ReadRequest.box (0, 0, 0) (0, 0, 0)).cells = [(0, 0, 0)] := by decide
  rw [readWithPresenceGuard, read_of_fits _ fits_origin, hcells]
  rfl

end BlockReadWorld

end LumioVoxel
