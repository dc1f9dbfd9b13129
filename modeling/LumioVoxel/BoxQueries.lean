import LumioVoxel.PhysicsContacts

/-!
# What box queries find

Overlaps and sweeps visit the cells of a range of machine coordinates.  An overlap finds the
cells its box reaches into and no others; a sweep looks at the cells of the box that encloses
its start and its end, and no cell the moving box reaches into on the way is missed: until the
sweep's answer every one of them is empty.
-/

namespace LumioVoxel

open Fallible LeastItems BoundedBuffers

/-! ## 1. The cells a box reaches into -/

theorem CellCoord.get_box (cell : CellCoord) (axis : Axis) :
    cell.box.min.get axis = (cell.get axis).toInt ∧
      cell.box.max.get axis = (cell.get axis).toInt + 1 := by
  cases axis
  all_goals
    simp only [box, Aabb.min, Aabb.max, PerAxis.get, CellCoord.get]
    constructor <;> ring

/-- The world has cells at this height. -/
def CellCoord.InWorld (cell : CellCoord) : Prop :=
  0 ≤ cell.y.toInt ∧ cell.y.toInt ≤ WORLD_Y_MAX

theorem toInt_saturateI32 (n : Int) :
    (saturateI32 n).toInt = Max.max (-2 ^ 31) (Min.min n (2 ^ 31 - 1)) := by
  apply Int32.toInt_ofInt_of_le
  · exact le_max_left _ _
  · omega

theorem floorI32_le {q : ℚ} {c : Int32} (h : q < c.toInt + 1) : (floorI32 q).toInt ≤ c.toInt := by
  have hfloor : ⌊q⌋ < c.toInt + 1 := Int.floor_lt.mpr (by push_cast; exact h)
  have hlow := c.le_toInt
  have hsame : (floorI32 q).toInt = (saturateI32 ⌊q⌋).toInt := rfl
  rw [hsame, toInt_saturateI32]
  omega

theorem le_floorI32 {q : ℚ} {c : Int32} (h : (c.toInt : ℚ) ≤ q) : c.toInt ≤ (floorI32 q).toInt := by
  have hfloor : c.toInt ≤ ⌊q⌋ := Int.le_floor.mpr h
  have hhigh := c.toInt_lt
  have hsame : (floorI32 q).toInt = (saturateI32 ⌊q⌋).toInt := rfl
  rw [hsame, toInt_saturateI32]
  omega

namespace Aabb

/-- The box reaches into the cell, its upper faces by the margin. -/
def Enters (shape : Aabb) (margin : ℚ) (cell : CellCoord) : Prop :=
  ∀ axis, shape.min.get axis < (cell.get axis).toInt + 1 ∧
    ((cell.get axis).toInt : ℚ) ≤ shape.max.get axis - margin

variable {shape : Aabb} {margin : ℚ} {cell : CellCoord}

/-- The cells of the range are those the box reaches into, and maybe others. -/
theorem inRange_of_enters (h : shape.Enters margin cell) (hworld : cell.InWorld) :
    InRange (lowCell shape) (highCell margin shape) cell := by
  obtain ⟨hbottom, htop⟩ := hworld
  rintro (_ | _ | _)
  · exact ⟨floorI32_le (h .x).1, le_floorI32 (h .x).2⟩
  · obtain ⟨hlow, hhigh⟩ := h .y
    have hfloor : ⌊shape.min.y⌋ < cell.y.toInt + 1 := Int.floor_lt.mpr (by push_cast; exact hlow)
    have hceil : cell.y.toInt ≤ ⌊shape.max.y - margin⌋ := Int.le_floor.mpr hhigh
    have hrange := cell.y.toInt_lt
    refine ⟨?_, ?_⟩
    · have hsame : ((lowCell shape).get .y).toInt =
          (saturateI32 (Max.max ⌊shape.min.y⌋ 0)).toInt := rfl
      rw [hsame, toInt_saturateI32]
      simp only [CellCoord.get]
      omega
    · have hsame : ((highCell margin shape).get .y).toInt =
          (saturateI32 (Min.min ⌊shape.max.y - margin⌋ WORLD_Y_MAX)).toInt := rfl
      rw [hsame, toInt_saturateI32]
      simp only [CellCoord.get]
      omega
  · exact ⟨floorI32_le (h .z).1, le_floorI32 (h .z).2⟩

/-- A box that reaches into a cell of the world has a range. -/
theorem cellRange_of_enters (hextents : ∀ axis, 0 ≤ shape.halfExtents.get axis)
    (h : shape.Enters margin cell) (hworld : cell.InWorld)
    {range : Option (CellCoord × CellCoord)} (hrange : cellRange margin shape = .ok range) :
    range = some (lowCell shape, highCell margin shape) := by
  have hbounds : ∀ axis, ¬ shape.max.get axis < shape.min.get axis := by
    intro axis
    have hextent := hextents axis
    rw [get_min, get_max]
    linarith
  have hin := inRange_of_enters h hworld
  have hcells : ∀ axis, ¬ (highCell margin shape).get axis < (lowCell shape).get axis := by
    intro axis
    rw [Int32.lt_iff_toInt_lt]
    have hle := (hin axis).1.trans (hin axis).2
    omega
  unfold cellRange at hrange
  rw [if_neg, if_neg] at hrange
  · split at hrange
    · cases hrange
    · exact (Except.ok.inj hrange).symm
  · rintro (hx | hy | hz)
    · exact hcells .x hx
    · exact hcells .y hy
    · exact hcells .z hz
  · rintro (hx | hy | hz)
    · exact hbounds .x hx
    · exact hbounds .y hy
    · exact hbounds .z hz

/-- Some cell with machine coordinates may lie in the box. -/
def ReachesGrid (shape : Aabb) (margin : ℚ) : Prop :=
  ∀ axis, axis ≠ .y → shape.min.get axis < 2 ^ 31 ∧ -2 ^ 31 ≤ shape.max.get axis - margin

theorem lt_of_floorI32_le {q : ℚ} {c : Int32} (hq : q < 2 ^ 31)
    (h : (floorI32 q).toInt ≤ c.toInt) : q < c.toInt + 1 := by
  have hfloor : ⌊q⌋ < 2 ^ 31 := Int.floor_lt.mpr (by push_cast; exact hq)
  have hsame : (floorI32 q).toInt = (saturateI32 ⌊q⌋).toInt := rfl
  rw [hsame, toInt_saturateI32] at h
  have hle : ⌊q⌋ < c.toInt + 1 := by omega
  exact_mod_cast Int.floor_lt.mp hle

theorem le_of_le_floorI32 {q : ℚ} {c : Int32} (hq : -2 ^ 31 ≤ q)
    (h : c.toInt ≤ (floorI32 q).toInt) : (c.toInt : ℚ) ≤ q := by
  have hfloor : -2 ^ 31 ≤ ⌊q⌋ := Int.le_floor.mpr (by push_cast; exact hq)
  have hsame : (floorI32 q).toInt = (saturateI32 ⌊q⌋).toInt := rfl
  rw [hsame, toInt_saturateI32] at h
  exact Int.le_floor.mp (by omega)

/-- The cells of a range that did not saturate are all in the box. -/
theorem enters_of_inRange (hgrid : shape.ReachesGrid margin)
    (h : InRange (lowCell shape) (highCell margin shape) cell) :
    shape.Enters margin cell ∧ cell.InWorld := by
  have hlow : ((lowCell shape).get .y).toInt = (saturateI32 (Max.max ⌊shape.min.y⌋ 0)).toInt := rfl
  have hhigh : ((highCell margin shape).get .y).toInt =
      (saturateI32 (Min.min ⌊shape.max.y - margin⌋ WORLD_Y_MAX)).toInt := rfl
  obtain ⟨hfrom, hto⟩ := h .y
  rw [hlow, toInt_saturateI32] at hfrom
  rw [hhigh, toInt_saturateI32] at hto
  simp only [CellCoord.get, WORLD_Y_MAX] at hfrom hto
  refine ⟨?_, ?_, ?_⟩
  · rintro (_ | _ | _)
    · obtain ⟨hmin, hmax⟩ := hgrid .x (by decide)
      exact ⟨lt_of_floorI32_le hmin (h .x).1, le_of_le_floorI32 hmax (h .x).2⟩
    · have hmin : ⌊shape.min.y⌋ < cell.y.toInt + 1 := by omega
      have hmax : cell.y.toInt ≤ ⌊shape.max.y - margin⌋ := by omega
      exact ⟨by exact_mod_cast Int.floor_lt.mp hmin, Int.le_floor.mp hmax⟩
    · obtain ⟨hmin, hmax⟩ := hgrid .z (by decide)
      exact ⟨lt_of_floorI32_le hmin (h .z).1, le_of_le_floorI32 hmax (h .z).2⟩
  · omega
  · rw [WORLD_Y_MAX]
    omega

end Aabb

/-- Outside the world there is nothing. -/
theorem PhysicsQuery.blockAt_outside {query : PhysicsQuery} {filter : MaterialMask}
    {cell : CellCoord} (h : ¬ cell.InWorld) : query.blockAt cell filter = .ok .empty := by
  have houtside : cell.y.toInt < 0 ∨ WORLD_Y_MAX < cell.y.toInt := by
    rw [CellCoord.InWorld] at h
    omega
  simp only [blockAt, lookup, if_pos houtside]
  rfl

/-! ## 2. What an overlap lists -/

namespace CellCoord

/-- In the canonical y/z/x order. -/
def Before (a b : CellCoord) : Prop :=
  a.y.toInt < b.y.toInt ∨ a.y.toInt = b.y.toInt ∧
    (a.z.toInt < b.z.toInt ∨ a.z.toInt = b.z.toInt ∧ a.x.toInt < b.x.toInt)

theorem Before.not_before {a b : CellCoord} (h : a.Before b) : ¬ b.Before a := by
  unfold Before at h ⊢
  omega

end CellCoord

theorem pairwise_inclusive (low high : Int32) :
    (inclusive low high).Pairwise (·.toInt < ·.toInt) := by
  have hlow := low.le_toInt
  have hhigh := high.toInt_lt
  refine List.pairwise_map.mpr (List.Pairwise.imp_of_mem ?_ List.pairwise_lt_range)
  intro m n hm hn hlt
  rw [List.mem_range] at hm hn
  rw [Int32.toInt_ofInt_of_le (by omega) (by omega), Int32.toInt_ofInt_of_le (by omega) (by omega)]
  omega

theorem pairwise_rangeCells (low high : CellCoord) :
    (rangeCells low high).Pairwise CellCoord.Before := by
  refine List.pairwise_flatMap.mpr ⟨fun y _ => ?_, ?_⟩
  · refine List.pairwise_flatMap.mpr ⟨fun z _ => ?_, ?_⟩
    · refine List.pairwise_map.mpr ((pairwise_inclusive _ _).imp ?_)
      intro x x' hlt
      exact .inr ⟨rfl, .inr ⟨rfl, hlt⟩⟩
    · refine (pairwise_inclusive _ _).imp ?_
      intro z z' hlt a ha b hb
      obtain ⟨x, -, rfl⟩ := List.mem_map.mp ha
      obtain ⟨x', -, rfl⟩ := List.mem_map.mp hb
      exact .inr ⟨rfl, .inl hlt⟩
  · refine (pairwise_inclusive _ _).imp ?_
    intro y y' hlt a ha b hb
    obtain ⟨z, -, hz⟩ := List.mem_flatMap.mp ha
    obtain ⟨z', -, hz'⟩ := List.mem_flatMap.mp hb
    obtain ⟨x, -, rfl⟩ := List.mem_map.mp hz
    obtain ⟨x', -, rfl⟩ := List.mem_map.mp hz'
    exact .inl hlt

section Overlaps

variable {query : PhysicsQuery} {filter : MaterialMask}

def cellFind (query : PhysicsQuery) (filter : MaterialMask) (cell : CellCoord) :
    Option OverlapHit :=
  match query.blockAt cell filter with
  | .ok (.hit id) => some ⟨cell, some id, .block⟩
  | _ => none

/-- The cell can be read, and is in the way or empty. -/
def Settled (query : PhysicsQuery) (filter : MaterialMask) (cell : CellCoord) : Prop :=
  query.blockAt cell filter = .ok .empty ∨ ∃ id, query.blockAt cell filter = .ok (.hit id)

theorem cellFind_eq_some {cell : CellCoord} {entry : OverlapHit} :
    cellFind query filter cell = some entry ↔
      ∃ id, query.blockAt cell filter = .ok (.hit id) ∧ entry = ⟨cell, some id, .block⟩ := by
  unfold cellFind
  cases query.blockAt cell filter with
  | error err => simp
  | ok visit => cases visit <;> simp [eq_comm]

/-- What is found up to a section in doubt is what is found before it. -/
theorem cellFinds_cases (cells : List CellCoord) {found : List OverlapHit}
    {stop : Option SectionId} (h : cellFinds query filter cells = (found, .ok stop)) :
    ∃ looked rest, cells = looked ++ rest ∧ (∀ cell ∈ looked, Settled query filter cell) ∧
      found = looked.filterMap (cellFind query filter) ∧
      (stop = none → rest = []) ∧
      ∀ id, stop = some id → ∃ cell more, rest = cell :: more ∧
        query.blockAt cell filter = .ok (.unresolved id) := by
  induction cells generalizing found with
  | nil =>
    obtain ⟨rfl, hstop⟩ := Prod.mk.inj h
    obtain rfl := Except.ok.inj hstop
    refine ⟨[], [], rfl, ?_, rfl, fun _ => rfl, ?_⟩
    · intro cell hcell
      cases hcell
    · intro id hid
      cases hid
  | cons cell cells ih =>
    unfold cellFinds at h
    cases hvisit : query.blockAt cell filter with
    | error err =>
      simp only [hvisit] at h
      cases (Prod.mk.inj h).2
    | ok visit =>
      simp only [hvisit] at h
      cases visit with
      | unresolved id =>
        obtain ⟨rfl, hstop⟩ := Prod.mk.inj h
        obtain rfl := Except.ok.inj hstop
        refine ⟨[], cell :: cells, rfl, ?_, rfl, ?_, ?_⟩
        · intro other hother
          cases hother
        · intro hnone
          cases hnone
        · intro id' hid
          obtain rfl := Option.some.inj hid
          exact ⟨cell, cells, rfl, hvisit⟩
      | empty =>
        obtain ⟨looked, rest, rfl, hsettled, rfl, hdone, hstopped⟩ := ih h
        refine ⟨cell :: looked, rest, rfl, ?_, ?_, hdone, hstopped⟩
        · exact List.forall_mem_cons.mpr ⟨.inl hvisit, hsettled⟩
        · have hnone : cellFind query filter cell = none := by simp only [cellFind, hvisit]
          rw [List.filterMap_cons_none hnone]
      | hit id =>
        obtain ⟨rfl, hstop⟩ := Prod.mk.inj h
        obtain ⟨looked, rest, rfl, hsettled, hfound, hdone, hstopped⟩ :=
          ih (Prod.ext rfl hstop)
        refine ⟨cell :: looked, rest, rfl, ?_, ?_, hdone, hstopped⟩
        · exact List.forall_mem_cons.mpr ⟨.inr ⟨id, hvisit⟩, hsettled⟩
        · have hsome : cellFind query filter cell = some ⟨cell, some id, .block⟩ := by
            simp only [cellFind, hvisit]
          rw [List.filterMap_cons_some hsome]
          exact congrArg (List.cons _) hfound

/-- The entries of blocks are the cells in the box, as far as it was looked through, that
hold a block the filter lets through. -/
structure ListsCells (epsilon : ℚ) (query : PhysicsQuery) (shape : Aabb) (filter : MaterialMask)
    (looked : CellCoord → Prop) (entries : List OverlapHit) : Prop where
  listed : ∀ cell id, ⟨cell, some id, .block⟩ ∈ entries ↔
    looked cell ∧ shape.Enters epsilon cell ∧ query.blockAt cell filter = .ok (.hit id)
  settled : ∀ cell, looked cell → shape.Enters epsilon cell → Settled query filter cell
  ordered : (entries.filter (·.target = .block)).Pairwise (·.cell.Before ·.cell)

/-- What an overlap says of the cells. -/
def TellsCells (epsilon : ℚ) (query : PhysicsQuery) (shape : Aabb) (filter : MaterialMask)
    (entries : List OverlapHit) : QueryResolution Unit → Prop
  | .unresolved id => ∃ cell, shape.Enters epsilon cell ∧
      query.blockAt cell filter = .ok (.unresolved id) ∧
      ListsCells epsilon query shape filter (·.Before cell) entries
  | _ => ListsCells epsilon query shape filter (fun _ => True) entries

variable {epsilon : ℚ} {shape : Aabb}

theorem listsCells_of_looked {looked rest : List CellCoord}
    (hcells : rangeCells (lowCell shape) (highCell epsilon shape) = looked ++ rest)
    (hsettled : ∀ cell ∈ looked, Settled query filter cell) {p : CellCoord → Prop}
    (hlooked : ∀ cell, shape.Enters epsilon cell → cell.InWorld → (p cell ↔ cell ∈ looked))
    (hin : ∀ cell ∈ looked, shape.Enters epsilon cell ∧ cell.InWorld)
    {bodies : List OverlapHit} (hbodies : ∀ entry ∈ bodies, entry.target ≠ .block) :
    ListsCells epsilon query shape filter p
      (looked.filterMap (cellFind query filter) ++ bodies) := by
  have hworld : ∀ {cell id}, query.blockAt cell filter = .ok (.hit id) → cell.InWorld := by
    intro cell id hvisit
    by_contra hout
    rw [PhysicsQuery.blockAt_outside hout] at hvisit
    cases hvisit
  constructor
  · intro cell id
    rw [List.mem_append, List.mem_filterMap]
    constructor
    · rintro (⟨cell', hcell, hfind⟩ | hbody)
      · obtain ⟨id', hvisit, heq⟩ := cellFind_eq_some.mp hfind
        obtain ⟨rfl, hid, -⟩ := OverlapHit.mk.inj heq
        obtain rfl := Option.some.inj hid
        obtain ⟨henters, hinside⟩ := hin cell hcell
        exact ⟨(hlooked cell henters hinside).mpr hcell, henters, hvisit⟩
      · exact absurd rfl (hbodies _ hbody)
    · rintro ⟨hp, henters, hvisit⟩
      have hcell := (hlooked cell henters (hworld hvisit)).mp hp
      exact .inl ⟨cell, hcell, cellFind_eq_some.mpr ⟨id, hvisit, rfl⟩⟩
  · intro cell hp henters
    by_cases hinside : cell.InWorld
    · exact hsettled cell ((hlooked cell henters hinside).mp hp)
    · exact .inl (PhysicsQuery.blockAt_outside hinside)
  · have hsorted : looked.Pairwise CellCoord.Before := by
      have hall := pairwise_rangeCells (lowCell shape) (highCell epsilon shape)
      rw [hcells] at hall
      exact (List.pairwise_append.mp hall).1
    have hblocks : (looked.filterMap (cellFind query filter) ++ bodies).filter
        (·.target = .block) = looked.filterMap (cellFind query filter) := by
      rw [List.filter_append, List.filter_eq_self.mpr, List.filter_eq_nil_iff.mpr, List.append_nil]
      · intro entry hentry
        rw [decide_eq_true_iff]
        exact hbodies entry hentry
      · intro entry hentry
        obtain ⟨cell, -, hfind⟩ := List.mem_filterMap.mp hentry
        obtain ⟨id, -, rfl⟩ := cellFind_eq_some.mp hfind
        rfl
    rw [hblocks]
    refine List.Pairwise.filterMap _ ?_ hsorted
    intro cell cell' hbefore entry hentry entry' hentry'
    obtain ⟨id, -, rfl⟩ := cellFind_eq_some.mp hentry
    obtain ⟨id', -, rfl⟩ := cellFind_eq_some.mp hentry'
    exact hbefore

theorem eq_of_cellRange {range : CellCoord × CellCoord}
    (h : cellRange epsilon shape = .ok (some range)) :
    range = (lowCell shape, highCell epsilon shape) := by
  unfold cellRange at h
  split at h
  · cases h
  · split at h
    · cases h
    · split at h
      · cases h
      · exact (Option.some.inj (Except.ok.inj h)).symm

theorem target_of_bodyFind {geometry : OverlapGeometry ℚ} {item : BodyId × Body}
    {entry : OverlapHit} (h : bodyFind geometry shape item = some entry) :
    entry.target ≠ .block := by
  unfold bodyFind at h
  split at h
  · obtain rfl := Option.some.inj h
    intro htarget
    cases htarget
  · cases h

theorem survey_tells_cells (hextents : ∀ axis, 0 ≤ shape.halfExtents.get axis)
    (hgrid : shape.ReachesGrid epsilon) {bodies : BodyTable} {resolution : QueryResolution Unit}
    (hends : (survey (exactGeometry epsilon) query bodies shape filter).ends = .ok resolution) :
    TellsCells epsilon query shape filter
      (survey (exactGeometry epsilon) query bodies shape filter).found resolution := by
  cases hrange : cellRange epsilon shape with
  | error err =>
    have hgeometry : (exactGeometry epsilon).cellRange shape = .error err := hrange
    simp only [survey, hgeometry] at hends
    cases hends
  | ok range =>
    have hgeometry : (exactGeometry epsilon).cellRange shape = .ok range := hrange
    cases range with
    | none =>
      simp only [survey, hgeometry] at hends ⊢
      obtain rfl := Except.ok.inj hends
      -- A box without a range reaches into no cell of the world.
      refine listsCells_of_looked (List.nil_append _).symm ?_ ?_ ?_ ?_
      · intro cell hcell
        cases hcell
      · intro cell henters hworld
        have hsome := Aabb.cellRange_of_enters hextents henters hworld hrange
        cases hsome
      · intro cell hcell
        cases hcell
      · intro entry hentry
        cases hentry
    | some range =>
      obtain rfl := eq_of_cellRange hrange
      have hin : ∀ cell, shape.Enters epsilon cell → cell.InWorld →
          cell ∈ rangeCells (lowCell shape) (highCell epsilon shape) := by
        intro cell henters hworld
        exact mem_rangeCells.mpr (Aabb.inRange_of_enters henters hworld)
      have hout : ∀ cell ∈ rangeCells (lowCell shape) (highCell epsilon shape),
          shape.Enters epsilon cell ∧ cell.InWorld := by
        intro cell hcell
        exact Aabb.enters_of_inRange hgrid (mem_rangeCells.mp hcell)
      have hsorted := pairwise_rangeCells (lowCell shape) (highCell epsilon shape)
      unfold survey at hends ⊢
      simp only [hgeometry] at hends ⊢
      generalize hfinds : cellFinds query filter
        (rangeCells (lowCell shape) (highCell epsilon shape)) = finds at hends ⊢
      obtain ⟨found, stop⟩ := finds
      cases stop with
      | error err => cases hends
      | ok stop =>
        obtain ⟨looked, rest, hcells, hsettled, rfl, hdone, hstopped⟩ := cellFinds_cases _ hfinds
        simp only [hcells] at hin hout hsorted
        have hlooked : ∀ cell ∈ looked, shape.Enters epsilon cell ∧ cell.InWorld := by
          intro cell hcell
          exact hout cell (List.mem_append_left rest hcell)
        cases stop with
        | none =>
          obtain rfl := hdone rfl
          have hlists : ListsCells epsilon query shape filter (fun _ => True)
              (looked.filterMap (cellFind query filter) ++
                bodies.toList.filterMap (bodyFind (exactGeometry epsilon) shape)) := by
            refine listsCells_of_looked hcells hsettled ?_ hlooked ?_
            · intro cell henters hworld
              have hmem := hin cell henters hworld
              rw [List.append_nil] at hmem
              exact iff_of_true trivial hmem
            · intro entry hentry
              obtain ⟨item, -, hfind⟩ := List.mem_filterMap.mp hentry
              exact target_of_bodyFind hfind
          obtain rfl := Except.ok.inj hends
          by_cases hnothing : (looked.filterMap (cellFind query filter) ++
              bodies.toList.filterMap (bodyFind (exactGeometry epsilon) shape)).length = 0
          · rw [if_pos hnothing]
            exact hlists
          · rw [if_neg hnothing]
            exact hlists
        | some id =>
          obtain rfl := Except.ok.inj hends
          obtain ⟨stopped, more, rfl, hdoubt⟩ := hstopped id rfl
          obtain ⟨-, hafter, hbetween⟩ := List.pairwise_append.mp hsorted
          have henters := (hout stopped (List.mem_append_right _ List.mem_cons_self)).1
          refine ⟨stopped, henters, hdoubt, ?_⟩
          rw [← List.append_nil (looked.filterMap (cellFind query filter))]
          refine listsCells_of_looked hcells hsettled ?_ hlooked ?_
          · intro cell henters hworld
            constructor
            · intro hbefore
              rcases List.mem_append.mp (hin cell henters hworld) with hcell | hcell
              · exact hcell
              · rcases List.mem_cons.mp hcell with rfl | hcell
                · exact absurd hbefore hbefore.not_before
                · exact absurd ((List.pairwise_cons.mp hafter).1 cell hcell) hbefore.not_before
            · intro hcell
              exact hbetween cell hcell stopped List.mem_cons_self
          · intro entry hentry
            cases hentry

/-- **Overlaps list the cells of the box.** With room for all it counts, an overlap lists
each cell the box reaches into that holds a matching block once, in the canonical order, up to
the first section in doubt; all other cells of the box are empty. -/
theorem overlap_lists_cells (hextents : ∀ axis, 0 ≤ shape.halfExtents.get axis)
    (hgrid : shape.ReachesGrid epsilon) {bodies : BodyTable} {buffer written : List OverlapHit}
    {result : OverlapResult}
    (h : query.overlap (exactGeometry epsilon) bodies shape filter buffer = (.ok result, written))
    (hfits : result.actualCount ≤ buffer.length) :
    TellsCells epsilon query shape filter (written.take result.writtenCount)
      result.resolution := by
  rw [overlap_eq] at h
  obtain ⟨hresult, rfl⟩ := Prod.mk.inj h
  obtain ⟨resolution, hends, rfl⟩ := map_eq_ok.mp hresult
  rw [OverlapResult.of, Counter.take_written hfits]
  exact survey_tells_cells hextents hgrid hends

end Overlaps

/-- The blocks in the corner of a section of stone, and the body there. -/
def cornerEntries : List OverlapHit :=
  [⟨⟨0, 0, 0⟩, some ⟨256⟩, .block⟩, ⟨⟨1, 0, 0⟩, some ⟨256⟩, .block⟩, ⟨⟨1, 1, 1⟩, none, .body 7⟩]

theorem overlap_lists_cells_corner :
    stoneQuery.overlap (exactGeometry (1 / 1000000)) cornerBodies cornerBox ⟨1⟩
        (List.replicate 3 ⟨⟨0, 0, 0⟩, none, .block⟩) = (.ok ⟨.hit (), 3, 3, false⟩, cornerEntries) ∧
      ListsCells (1 / 1000000) stoneQuery cornerBox ⟨1⟩ (fun _ => True) cornerEntries := by
  have hrun : stoneQuery.overlap (exactGeometry (1 / 1000000)) cornerBodies cornerBox ⟨1⟩
      (List.replicate 3 ⟨⟨0, 0, 0⟩, none, .block⟩) =
        (.ok ⟨.hit (), 3, 3, false⟩, cornerEntries) := by decide +kernel
  refine ⟨hrun, overlap_lists_cells ?_ ?_ hrun (by decide)⟩
  · rintro (_ | _ | _) <;> decide +kernel
  · rintro (_ | _ | _) hy
    · decide +kernel
    · exact absurd rfl hy
    · decide +kernel

/-! ## 3. The cells on the way -/

namespace Aabb

/-- The least box that encloses both. -/
def hull (start stop : Aabb) : Aabb where
  center :=
    ⟨(Min.min start.min.x stop.min.x + Max.max start.max.x stop.max.x) * (1 / 2),
      (Min.min start.min.y stop.min.y + Max.max start.max.y stop.max.y) * (1 / 2),
      (Min.min start.min.z stop.min.z + Max.max start.max.z stop.max.z) * (1 / 2)⟩
  halfExtents :=
    ⟨(Max.max start.max.x stop.max.x - Min.min start.min.x stop.min.x) * (1 / 2),
      (Max.max start.max.y stop.max.y - Min.min start.min.y stop.min.y) * (1 / 2),
      (Max.max start.max.z stop.max.z - Min.min start.min.z stop.min.z) * (1 / 2)⟩

theorem get_hull (start stop : Aabb) (axis : Axis) :
    (start.hull stop).min.get axis = Min.min (start.min.get axis) (stop.min.get axis) ∧
      (start.hull stop).max.get axis = Max.max (start.max.get axis) (stop.max.get axis) := by
  cases axis
  all_goals
    simp only [hull, Aabb.min, Aabb.max, PerAxis.get]
    constructor <;> ring

variable {shape : Aabb} {displacement : Vec3} {epsilon t : ℚ} {cell : CellCoord}

theorem get_movedBy (shape : Aabb) (displacement : Vec3) (t : ℚ) (axis : Axis) :
    (shape.movedBy displacement t).min.get axis =
        shape.min.get axis + t * displacement.get axis ∧
      (shape.movedBy displacement t).max.get axis =
        shape.max.get axis + t * displacement.get axis := by
  have hcenter := shape.get_center_movedBy displacement t axis
  have hextents : (shape.movedBy displacement t).halfExtents = shape.halfExtents := rfl
  simp only [get_min, get_max, hcenter, hextents]
  constructor <;> ring

theorem extents_hull (hextents : ∀ axis, 0 ≤ shape.halfExtents.get axis) (stop : Aabb)
    (axis : Axis) : 0 ≤ (shape.hull stop).halfExtents.get axis := by
  obtain ⟨hmin, hmax⟩ := get_hull shape stop axis
  have hlow : (shape.hull stop).min.get axis ≤ shape.min.get axis := hmin ▸ min_le_left _ _
  have hhigh : shape.max.get axis ≤ (shape.hull stop).max.get axis := hmax ▸ le_max_left _ _
  have hextent := hextents axis
  rw [get_min, get_min] at hlow
  rw [get_max, get_max] at hhigh
  linarith

/-- On its way the box stays between where it starts and where it ends. -/
theorem Enters.hull (hpos : 0 ≤ t) (hle : t ≤ 1)
    (h : (shape.movedBy displacement t).Enters epsilon cell) :
    (shape.hull (shape.movedBy displacement 1)).Enters epsilon cell := by
  intro axis
  obtain ⟨hmin, hmax⟩ := get_hull shape (shape.movedBy displacement 1) axis
  obtain ⟨hlow, hhigh⟩ := h axis
  obtain ⟨hmoved, hmoved'⟩ := get_movedBy shape displacement t axis
  obtain ⟨hend, hend'⟩ := get_movedBy shape displacement 1 axis
  rw [hmoved] at hlow
  rw [hmoved'] at hhigh
  rw [hmin, hmax, hend, hend', one_mul]
  rcases le_total 0 (displacement.get axis) with hforward | hbackward
  · have hnonneg := mul_nonneg hpos hforward
    have hless := mul_le_of_le_one_left hforward hle
    refine ⟨?_, ?_⟩
    · exact lt_of_le_of_lt ((min_le_left _ _).trans (le_add_of_nonneg_right hnonneg)) hlow
    · have hmax := le_max_right (shape.max.get axis) (shape.max.get axis + displacement.get axis)
      linarith
  · have hnonpos := mul_nonpos_of_nonneg_of_nonpos hpos hbackward
    have hmore : displacement.get axis ≤ t * displacement.get axis := by
      have hrest := mul_nonpos_of_nonneg_of_nonpos (sub_nonneg.mpr hle) hbackward
      linarith
    refine ⟨?_, ?_⟩
    · have hmin := min_le_right (shape.min.get axis) (shape.min.get axis + displacement.get axis)
      linarith
    · have hmax := le_max_left (shape.max.get axis) (shape.max.get axis + displacement.get axis)
      linarith

/-- A box that reaches into a cell meets it. -/
theorem Enters.touches (hepsilon : 0 ≤ epsilon)
    (hextents : ∀ axis, 0 ≤ shape.halfExtents.get axis)
    (h : (shape.movedBy displacement t).Enters epsilon cell) :
    shape.Touches displacement cell.box t := by
  refine meets_iff.mpr fun axis => ?_
  obtain ⟨hlow, hhigh⟩ := h axis
  obtain ⟨hmin, hmax⟩ := cell.get_box axis
  have hhalf : cell.box.halfExtents.get axis = 1 / 2 := by cases axis <;> rfl
  refine ⟨hextents axis, by rw [hhalf]; norm_num, ?_, ?_⟩
  · rw [hmax]
    exact hlow.le
  · rw [hmin]
    linarith

end Aabb

/-- The box moves along an axis by more than the tolerance or not at all. -/
def MovesApart (epsilon : ℚ) (displacement : Vec3) : Prop :=
  ∀ axis, displacement.get axis = 0 ∨ epsilon < |displacement.get axis|

/-- A box that does not creep is seen where it touches, and nowhere else. -/
theorem MovesApart.seen_iff {epsilon t : ℚ} {shape body : Aabb} {displacement : Vec3}
    (hepsilon : 0 ≤ epsilon) (hmoves : MovesApart epsilon displacement)
    (hshape : ∀ axis, 0 ≤ shape.halfExtents.get axis)
    (hbody : ∀ axis, 0 ≤ body.halfExtents.get axis) :
    Seen epsilon shape.center displacement (body.widened shape) t ↔
      shape.Touches displacement body t := by
  rw [Aabb.touches_iff_seen hshape hbody]
  refine forall_congr' fun axis => ?_
  have hslow : |displacement.get axis| ≤ epsilon ↔ |displacement.get axis| ≤ 0 := by
    rcases hmoves axis with hzero | hfast
    · rw [hzero, abs_zero]
      exact iff_of_true hepsilon le_rfl
    · refine iff_of_false (not_le.mpr hfast) (not_le.mpr ?_)
      exact hepsilon.trans_lt hfast
  simp only [AxisSeen, hslow]

theorem CellCoord.extents_box (cell : CellCoord) (axis : Axis) :
    cell.box.halfExtents.get axis = 1 / 2 := by
  cases axis <;> rfl

/-! ## 4. The way of a sweep -/

namespace SweepCall

variable {epsilon : ℚ} {query : PhysicsQuery} {bodies : BodyTable} {shape : Aabb}
  {displacement : Vec3} {filter : MaterialMask}

/-- The contact of a cell is where the moving box first touches it. -/
theorem isLeast_of_cellContact (hepsilon : 0 ≤ epsilon)
    (hextents : ∀ axis, 0 ≤ shape.halfExtents.get axis)
    (hmoves : MovesApart epsilon displacement) {cell : CellCoord} {contact : ℚ × Vec3}
    (h : (exactCall epsilon query bodies shape displacement filter).cellContact cell =
      some contact) :
    IsLeast {t | 0 ≤ t ∧ shape.Touches displacement cell.box t} contact.1 ∧
      contact.1 ≤ 1 + epsilon := by
  have hbox : ∀ axis, 0 ≤ cell.box.halfExtents.get axis := by
    intro axis
    rw [cell.extents_box]
    norm_num
  rw [cellContact_eq, Option.filter_eq_some_iff] at h
  obtain ⟨hcontact, hreach⟩ := h
  have hleast := isLeast_of_rayAabbWithin hepsilon hcontact
  simp only [hmoves.seen_iff hepsilon hextents hbox] at hleast
  exact ⟨hleast, of_decide_eq_true hreach⟩

variable (query bodies filter) in
/-- A cell touched on the way has a contact, no later than it is touched. -/
theorem cellContact_of_touches (hepsilon : 0 ≤ epsilon)
    (hextents : ∀ axis, 0 ≤ shape.halfExtents.get axis)
    (hmoves : MovesApart epsilon displacement) {cell : CellCoord} {t : ℚ} (hpos : 0 ≤ t)
    (hle : t ≤ 1) (h : shape.Touches displacement cell.box t) :
    ∃ contact, (exactCall epsilon query bodies shape displacement filter).cellContact cell =
      some contact ∧ contact.1 ≤ t := by
  have hbox : ∀ axis, 0 ≤ cell.box.halfExtents.get axis := by
    intro axis
    rw [cell.extents_box]
    norm_num
  have hseen := (hmoves.seen_iff hepsilon hextents hbox).mpr h
  obtain ⟨contact, hcontact, hbefore⟩ := exists_contact_of_seen hepsilon hpos hseen
  refine ⟨contact, ?_, hbefore⟩
  rw [cellContact_eq, Option.filter_eq_some_iff]
  refine ⟨hcontact, decide_eq_true ?_⟩
  linarith

/-- Before these moments every cell the moving box reaches into is empty. -/
def ClearWhile (call : SweepCall ℚ) (before : ℚ → Prop) : Prop :=
  ∀ cell t, 0 ≤ t → t ≤ 1 → before t →
    (call.shape.movedBy call.displacement t).Enters call.epsilon cell →
      call.query.blockAt cell call.filter = .ok .empty

/-- The cell holds this, and the box comes upon it there. -/
structure FirstMeets (call : SweepCall ℚ) (cell : CellCoord) (visit : CellVisit) (contact : ℚ) :
    Prop where
  visit : call.query.blockAt cell call.filter = .ok visit
  first : IsLeast {t | 0 ≤ t ∧ call.shape.Touches call.displacement cell.box t} contact
  reach : contact ≤ 1 + call.epsilon

/-- What an answer says of the way. -/
def TellsWay (call : SweepCall ℚ) : QueryResolution SweepHit → Prop
  | .miss => call.ClearWhile fun _ => True
  | .unresolved id => ∃ cell contact, call.FirstMeets cell (.unresolved id) contact ∧
      call.ClearWhile (· < contact)
  | .hit hit => call.ClearWhile (· < hit.fraction) ∧ (hit.target = .block →
      ∃ id contact, call.FirstMeets hit.cell (.hit id) contact ∧ hit.blockId = some id ∧
        hit.fraction = min contact 1)

/-- A cell of the world the moving box reaches into is one the sweep looks at. -/
theorem inRange_of_way (hextents : ∀ axis, 0 ≤ shape.halfExtents.get axis) {cell : CellCoord}
    {t : ℚ} (hpos : 0 ≤ t) (hle : t ≤ 1)
    (henters : (shape.movedBy displacement t).Enters epsilon cell) (hworld : cell.InWorld)
    {range : Option (CellCoord × CellCoord)}
    (hrange : (exactCall epsilon query bodies shape displacement filter).range = .ok range) :
    ∃ low high, range = some (low, high) ∧ InRange low high cell := by
  have hend : (exactCall epsilon query bodies shape displacement filter).range =
      cellRange epsilon (shape.hull (shape.movedBy displacement 1)) := by
    have hstop : shape.movedBy displacement 1 =
        ⟨Vec3.add shape.center displacement, shape.halfExtents⟩ := by
      simp only [Aabb.movedBy, Vec3.scale, mul_one]
    rw [hstop]
    rfl
  have hhull := henters.hull hpos hle
  rw [hend] at hrange
  refine ⟨_, _, Aabb.cellRange_of_enters (Aabb.extents_hull hextents _) hhull hworld hrange, ?_⟩
  exact Aabb.inRange_of_enters hhull hworld

/-- The way is clear as long as it is before every candidate. -/
theorem clearWhile_of_candidates (hepsilon : 0 ≤ epsilon)
    (hextents : ∀ axis, 0 ≤ shape.halfExtents.get axis)
    (hmoves : MovesApart epsilon displacement) {low high : CellCoord}
    (hrange : (exactCall epsilon query bodies shape displacement filter).range =
      .ok (some (low, high)))
    (hread : (exactCall epsilon query bodies shape displacement filter).Readable low high)
    {before : ℚ → Prop}
    (hhits : ∀ t, before t → ∀ fraction hit, (exactCall epsilon query bodies shape displacement
      filter).Matching low high fraction hit → t < fraction)
    (hdoubts : ∀ t, before t → ∀ fraction id, (exactCall epsilon query bodies shape displacement
      filter).Doubtful low high fraction id → t < fraction) :
    (exactCall epsilon query bodies shape displacement filter).ClearWhile before := by
  intro cell t hpos hle hbefore henters
  by_cases hworld : cell.InWorld
  · obtain ⟨low', high', hsame, hin⟩ :=
      inRange_of_way hextents hpos hle henters hworld hrange
    obtain ⟨rfl, rfl⟩ := Prod.mk.inj (Option.some.inj hsame)
    obtain ⟨contact, hcontact, hearly⟩ :=
      cellContact_of_touches query bodies filter hepsilon hextents hmoves hpos hle
        (henters.touches hepsilon hextents)
    obtain ⟨visit, hvisit⟩ := hread cell hin (Option.isSome_of_eq_some hcontact)
    cases visit with
    | empty => exact hvisit
    | hit id =>
      have hlater := hhits t hbefore _ _ (.block hin hcontact hvisit)
      exact absurd hearly (not_le.mpr hlater)
    | unresolved id =>
      have hlater := hdoubts t hbefore _ _ (.cell hin hcontact hvisit)
      exact absurd hearly (not_le.mpr hlater)
  · exact PhysicsQuery.blockAt_outside hworld

/-- A hit is reported no later than it is. -/
theorem Matching.fraction_le (hepsilon : 0 ≤ epsilon)
    (hextents : ∀ axis, 0 ≤ shape.halfExtents.get axis)
    (hmoves : MovesApart epsilon displacement) {low high : CellCoord} {fraction : ℚ}
    {hit : SweepHit}
    (h : (exactCall epsilon query bodies shape displacement filter).Matching low high fraction
      hit) : hit.fraction ≤ fraction := by
  rw [h.fraction_eq]
  apply clampUnit_le
  cases h with
  | block hcell hcontact hvisit =>
    exact (isLeast_of_cellContact hepsilon hextents hmoves hcontact).1.1.1
  | body hbody hcontact => exact clampUnit_nonneg _

/-- What a settled sweep answers is nearer than any section in doubt. -/
theorem Priority.before_doubt {call : SweepCall ℚ} {low high : CellCoord}
    {resolution : QueryResolution SweepHit} (h : call.Priority low high resolution)
    (hsettled : ∀ id, resolution ≠ .unresolved id) {fraction : ℚ} {id : SectionId}
    (hdoubt : call.Doubtful low high fraction id) :
    ∃ nearest hit, resolution = .hit hit ∧ call.Matching low high nearest hit ∧
      nearest < fraction := by
  have hnearer : ∃ other hit, call.Matching low high other hit ∧ other < fraction := by
    by_contra hnone
    have hunresolved := h.unresolved.mpr ⟨fraction, id, hdoubt, fun other hit hmatching =>
      not_lt.mp fun hlt => hnone ⟨other, hit, hmatching, hlt⟩⟩
    obtain ⟨id', hid⟩ := hunresolved
    exact hsettled id' hid
  obtain ⟨other, hit, hmatching, hlt⟩ := hnearer
  obtain ⟨nearest, hit', heq, hmatching', hleast⟩ := h.hits hsettled ⟨other, hit, hmatching⟩
  exact ⟨nearest, hit', heq, hmatching', (hleast other hit hmatching).trans_lt hlt⟩

theorem FirstMeets.of_contact (hepsilon : 0 ≤ epsilon)
    (hextents : ∀ axis, 0 ≤ shape.halfExtents.get axis)
    (hmoves : MovesApart epsilon displacement) {cell : CellCoord} {visit : CellVisit}
    {contact : ℚ × Vec3}
    (hcontact : (exactCall epsilon query bodies shape displacement filter).cellContact cell =
      some contact) (hvisit : query.blockAt cell filter = .ok visit) :
    (exactCall epsilon query bodies shape displacement filter).FirstMeets cell visit
      contact.1 := by
  obtain ⟨hleast, hreach⟩ := isLeast_of_cellContact hepsilon hextents hmoves hcontact
  exact ⟨hvisit, hleast, hreach⟩

/-- **Nothing is passed through.** Whatever a sweep answers, the moving box has reached into
empty cells only until then; and the block or the section it answers with is at a cell the
box touches then and not before. -/
theorem sweep_tells_way (hepsilon : 0 ≤ epsilon)
    (hextents : ∀ axis, 0 ≤ shape.halfExtents.get axis)
    (hmoves : MovesApart epsilon displacement) {resolution : QueryResolution SweepHit}
    (h : (exactCall epsilon query bodies shape displacement filter).sweep = .ok resolution) :
    (exactCall epsilon query bodies shape displacement filter).TellsWay resolution := by
  rcases sweep_eq_ok.mp h with ⟨hrange, rfl⟩ | ⟨low, high, hrange, hread, hresolve⟩
  · intro cell t hpos hle _ henters
    apply PhysicsQuery.blockAt_outside
    intro hworld
    obtain ⟨low, high, hsome, -⟩ := inRange_of_way hextents hpos hle henters hworld hrange
    cases hsome
  · have hpriority : (exactCall epsilon query bodies shape displacement filter).Priority low high
        resolution := hresolve ▸ priority_resolve low high
    cases resolution with
    | miss =>
      have hsettled : ∀ id, (QueryResolution.miss : QueryResolution SweepHit) ≠ .unresolved id := by
        intro id hid
        cases hid
      apply clearWhile_of_candidates hepsilon hextents hmoves hrange hread
      · intro t _ fraction hit hmatching
        obtain ⟨_, _, hhit, -⟩ := hpriority.hits hsettled ⟨fraction, hit, hmatching⟩
        cases hhit
      · intro t _ fraction id hdoubt
        obtain ⟨_, _, hhit, -⟩ := hpriority.before_doubt hsettled hdoubt
        cases hhit
    | unresolved id =>
      obtain ⟨_, _, hdoubt, hfirst⟩ := hpriority.unresolved.mp ⟨id, rfl⟩
      obtain ⟨fraction, hnamed, hleast⟩ := hpriority.names id rfl
      have hbefore : ∀ other id', (exactCall epsilon query bodies shape displacement
          filter).Doubtful low high other id' → fraction ≤ other := by
        intro other id' hother
        rcases hleast other id' hother with hlt | ⟨heq, -⟩
        · exact hlt.le
        · exact heq.le
      have hclear : (exactCall epsilon query bodies shape displacement filter).ClearWhile
          (· < fraction) := by
        apply clearWhile_of_candidates hepsilon hextents hmoves hrange hread
        · intro t hearly other hit hmatching
          exact hearly.trans_le ((hbefore _ _ hdoubt).trans (hfirst other hit hmatching))
        · intro t hearly other id' hother
          exact hearly.trans_le (hbefore other id' hother)
      cases hnamed with
      | cell hcell hcontact hvisit =>
        exact ⟨_, _, .of_contact hepsilon hextents hmoves hcontact hvisit, hclear⟩
    | hit hit =>
      have hsettled : ∀ id, QueryResolution.hit hit ≠ .unresolved id := by
        intro id hid
        cases hid
      obtain ⟨fraction, hbest, -⟩ := resolve_eq_hit.mp hresolve.symm
      obtain ⟨hmatching, hleast⟩ := leastHit_eq_some hbest
      have hfraction := hmatching.fraction_le hepsilon hextents hmoves
      refine ⟨?_, ?_⟩
      · apply clearWhile_of_candidates hepsilon hextents hmoves hrange hread
        · intro t hearly other hit' hother
          exact hearly.trans_le (hfraction.trans (hleast other hit' hother))
        · intro t hearly other id hdoubt
          obtain ⟨nearest, hit', -, hnearest, hlt⟩ := hpriority.before_doubt hsettled hdoubt
          have hlater := (hfraction.trans (hleast nearest hit' hnearest)).trans_lt hlt
          exact lt_trans hearly hlater
      · intro htarget
        cases hmatching with
        | block hcell hcontact hvisit =>
          have hupon := FirstMeets.of_contact hepsilon hextents hmoves hcontact hvisit
          refine ⟨_, _, hupon, rfl, ?_⟩
          exact max_eq_right (le_min hupon.first.1.1 zero_le_one)
        | body hbody hcontact => cases htarget

end SweepCall

theorem eastCoord_mem : SECTION_COORD_MIN ≤ 1 ∧ 1 ≤ SECTION_COORD_MAX := by decide

/-- A box of one block flies through a section of air into a section of stone. -/
def wallCall : SweepCall ℚ :=
  exactCall (1 / 1000000)
    (.new ((PhysicsWorld.new.insertReady originSection (.uniform ⟨0⟩)).insertReady
      { originSection with x := 1, x_mem := eastCoord_mem } (.uniform ⟨256⟩)) fun _ => some .solid)
    ∅ ⟨⟨2, 2, 2⟩, ⟨1 / 2, 1 / 2, 1 / 2⟩⟩ ⟨20, 0, 0⟩ ⟨1⟩

theorem SweepCall.sweep_tells_way_wall :
    wallCall.sweep =
        .ok (.hit (wallCall.blockHit ⟨16, 1, 1⟩ ⟨256⟩ (27 / 40, ⟨-1, 0, 0⟩))) ∧
      wallCall.TellsWay (.hit (wallCall.blockHit ⟨16, 1, 1⟩ ⟨256⟩ (27 / 40, ⟨-1, 0, 0⟩))) := by
  have hsweep : wallCall.sweep =
      .ok (.hit (wallCall.blockHit ⟨16, 1, 1⟩ ⟨256⟩ (27 / 40, ⟨-1, 0, 0⟩))) := by decide +kernel
  refine ⟨hsweep, SweepCall.sweep_tells_way (by norm_num) ?_ ?_ hsweep⟩
  · rintro (_ | _ | _) <;> decide +kernel
  · rintro (_ | _ | _)
    · right
      decide +kernel
    · exact .inl rfl
    · exact .inl rfl

end LumioVoxel
