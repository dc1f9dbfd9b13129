import LumioVoxel.LeastItems
import LumioVoxel.PhysicsOverlap

/-!
# Sweeps

A box moves along a displacement, and the sweep asks what it comes upon first.  Blocks,
bodies and sections that cannot be read are candidates alike, each at the fraction of the
displacement its contact function gives; one pass keeps the nearest hit and the nearest
section in doubt, and the two are weighed against each other at its end.
-/

namespace LumioVoxel

open Fallible LeastItems

/-! ## 1. The call -/

/-- What a sweep asks about contacts: the fraction of the displacement, and the normal. -/
structure Contacts (K : Type) where
  /-- Between the moving box and a cell. -/
  sweepAabb : Aabb K → Vec3 K → CellCoord → Option (K × Vec3 K)
  /-- Between a moving point and a box. -/
  rayAabb : Vec3 K → Vec3 K → Aabb K → Option (K × Vec3 K)

structure SweepHit (K : Type := ℚ) where
  cell : CellCoord
  blockId : Option BlockId
  point : Vec3 K
  normal : Vec3 K
  fraction : K
  target : HitTarget
  deriving DecidableEq

/-- A call of `sweep`, with the contact functions and the tolerance it computes with. -/
structure SweepCall (K : Type) where
  contacts : Contacts K
  epsilon : K
  query : PhysicsQuery
  bodies : BodyTable K
  shape : Aabb K
  displacement : Vec3 K
  filter : MaterialMask

/-- The nearest hit and the nearest section in doubt, with their fractions. -/
structure Sweeping (K : Type) where
  best : Option (K × SweepHit K)
  unresolved : Option (K × SectionId)

section Model

variable {K : Type} [Field K] [LinearOrder K] [FloorRing K]

/-- The cells of the box that encloses both. -/
def sweptCellRange (epsilon : K) (start stop : Aabb K) :
    Except PhysicsQueryError (Option (CellCoord × CellCoord)) :=
  cellRange epsilon
    { center :=
        ⟨(min start.min.x stop.min.x + max start.max.x stop.max.x) * (1 / 2),
          (min start.min.y stop.min.y + max start.max.y stop.max.y) * (1 / 2),
          (min start.min.z stop.min.z + max start.max.z stop.max.z) * (1 / 2)⟩
      halfExtents :=
        ⟨(max start.max.x stop.max.x - min start.min.x stop.min.x) * (1 / 2),
          (max start.max.y stop.max.y - min start.min.y stop.min.y) * (1 / 2),
          (max start.max.z stop.max.z - min start.min.z stop.min.z) * (1 / 2)⟩ }

def clampUnit (fraction : K) : K := max 0 (min fraction 1)

def compareFractions : K × SweepHit K → K × SweepHit K → Ordering := compareOn Prod.fst

/-- By fraction, then by section. -/
def compareDoubts : K × SectionId → K × SectionId → Ordering :=
  compareLex (compareOn Prod.fst) (compareOn Prod.snd)

/-- The body's box, wider by the half-extents of another. -/
def Aabb.widened (body shape : Aabb K) : Aabb K :=
  ⟨body.center, Vec3.add body.halfExtents shape.halfExtents⟩

namespace SweepCall

variable (call : SweepCall K)

def range : Except PhysicsQueryError (Option (CellCoord × CellCoord)) :=
  sweptCellRange call.epsilon call.shape
    ⟨Vec3.add call.shape.center call.displacement, call.shape.halfExtents⟩

def pointAt (fraction : K) : Vec3 K :=
  Vec3.add call.shape.center (Vec3.scale call.displacement fraction)

def blockHit (cell : CellCoord) (id : BlockId) (contact : K × Vec3 K) : SweepHit K :=
  ⟨cell, some id, call.pointAt contact.1, contact.2, clampUnit contact.1, .block⟩

def bodyHit (id : BodyId) (body : Body K) (contact : K × Vec3 K) : SweepHit K :=
  ⟨centerCell body.shape, none, call.pointAt (clampUnit contact.1), contact.2,
    clampUnit contact.1, .body id⟩

def cellContact (cell : CellCoord) : Option (K × Vec3 K) :=
  call.contacts.sweepAabb call.shape call.displacement cell

def bodyContact (body : Body K) : Option (K × Vec3 K) :=
  call.contacts.rayAabb call.shape.center call.displacement (body.shape.widened call.shape)

/-- One round of the loops over the cells. -/
def sweepCell (s : Sweeping K) (cell : CellCoord) : Except PhysicsQueryError (Sweeping K) :=
  match call.cellContact cell with
  | none => .ok s
  | some contact =>
    match call.query.blockAt cell call.filter with
    | .error err => .error err
    | .ok (.unresolved id) =>
      .ok { s with unresolved := keepLeast compareDoubts s.unresolved (contact.1, id) }
    | .ok (.hit id) =>
      .ok { s with
        best := keepLeast compareFractions s.best (contact.1, call.blockHit cell id contact) }
    | .ok .empty => .ok s

/-- One round of the loop over the bodies. -/
def sweepBody (best : Option (K × SweepHit K)) (item : BodyId × Body K) :
    Option (K × SweepHit K) :=
  match call.bodyContact item.2 with
  | none => best
  | some contact =>
    keepLeast compareFractions best
      (clampUnit contact.1, call.bodyHit item.1 item.2 contact)

end SweepCall

/-- The end of the pass: a section in doubt comes before a hit that is no nearer. -/
def Sweeping.resolve (s : Sweeping K) : QueryResolution (SweepHit K) :=
  match s.unresolved, s.best with
  | some (fraction, id), some (bestFraction, hit) =>
    if bestFraction < fraction then .hit hit else .unresolved id
  | some (_, id), none => .unresolved id
  | none, some (_, hit) => .hit hit
  | none, none => .miss

/-- The sweep of a box through cells and bodies. -/
def SweepCall.sweep (call : SweepCall K) :
    Except PhysicsQueryError (QueryResolution (SweepHit K)) := do
  match ← call.range with
  | none => return .miss
  | some (low, high) =>
    let s ← foldSteps call.sweepCell ⟨none, none⟩ (rangeCells low high)
    return Sweeping.resolve { s with best := call.bodies.toList.foldl call.sweepBody s.best }

end Model

/-! ## 2. The contact functions -/

def sweepAabb (epsilon : ℚ) (shape : Aabb) (displacement : Vec3) (cell : CellCoord) :
    Option (ℚ × Vec3) :=
  (rayAabbWithin epsilon shape.center displacement
    { center := ⟨cell.x.toInt + 1 / 2, cell.y.toInt + 1 / 2, cell.z.toInt + 1 / 2⟩
      halfExtents := ⟨1 / 2 + shape.halfExtents.x, 1 / 2 + shape.halfExtents.y,
        1 / 2 + shape.halfExtents.z⟩ }).filter fun contact => decide (contact.1 ≤ 1 + epsilon)

def exactContacts (epsilon : ℚ) : Contacts ℚ := ⟨sweepAabb epsilon, rayAabbWithin epsilon⟩

/-- A sweep in exact arithmetic. -/
def exactCall (epsilon : ℚ) (query : PhysicsQuery) (bodies : BodyTable) (shape : Aabb)
    (displacement : Vec3) (filter : MaterialMask) : SweepCall ℚ :=
  ⟨exactContacts epsilon, epsilon, query, bodies, shape, displacement, filter⟩

/-! ## 3. Candidates -/

section Candidates

variable {K : Type} [Field K] [LinearOrder K] [FloorRing K]

instance : Std.TransCmp (compareFractions (K := K)) :=
  inferInstanceAs (Std.TransCmp (compareOn Prod.fst))

instance : Std.TransCmp (compareDoubts (K := K)) :=
  inferInstanceAs (Std.TransCmp (compareLex (compareOn Prod.fst) (compareOn Prod.snd)))

namespace SweepCall

variable (call : SweepCall K)

/-- A cell or a body the filter lets through, with its fraction and its hit. -/
inductive Matching (low high : CellCoord) : K → SweepHit K → Prop
  | block {cell : CellCoord} {contact : K × Vec3 K} {id : BlockId} (hcell : InRange low high cell)
      (hcontact : call.cellContact cell = some contact)
      (hvisit : call.query.blockAt cell call.filter = .ok (.hit id)) :
      Matching low high contact.1 (call.blockHit cell id contact)
  | body {id : BodyId} {body : Body K} {contact : K × Vec3 K}
      (hbody : call.bodies[id]? = some body) (hcontact : call.bodyContact body = some contact) :
      Matching low high (clampUnit contact.1) (call.bodyHit id body contact)

/-- A cell whose section cannot be read. -/
inductive Doubtful (low high : CellCoord) : K → SectionId → Prop
  | cell {cell : CellCoord} {contact : K × Vec3 K} {id : SectionId}
      (hcell : InRange low high cell) (hcontact : call.cellContact cell = some contact)
      (hvisit : call.query.blockAt cell call.filter = .ok (.unresolved id)) :
      Doubtful low high contact.1 id

/-- Every cell the box comes upon can be looked up. -/
def Readable (low high : CellCoord) : Prop :=
  ∀ cell, InRange low high cell → (call.cellContact cell).isSome →
    ∃ visit, call.query.blockAt cell call.filter = .ok visit

def cellHit (cell : CellCoord) : Option (K × SweepHit K) :=
  match call.cellContact cell, call.query.blockAt cell call.filter with
  | some contact, .ok (.hit id) => some (contact.1, call.blockHit cell id contact)
  | _, _ => none

def cellDoubt (cell : CellCoord) : Option (K × SectionId) :=
  match call.cellContact cell, call.query.blockAt cell call.filter with
  | some contact, .ok (.unresolved id) => some (contact.1, id)
  | _, _ => none

def bodyCandidate (item : BodyId × Body K) : Option (K × SweepHit K) :=
  (call.bodyContact item.2).map fun contact =>
    (clampUnit contact.1, call.bodyHit item.1 item.2 contact)

def hits (low high : CellCoord) : List (K × SweepHit K) :=
  (rangeCells low high).filterMap call.cellHit ++ call.bodies.toList.filterMap call.bodyCandidate

def doubts (low high : CellCoord) : List (K × SectionId) :=
  (rangeCells low high).filterMap call.cellDoubt

variable {call} {low high : CellCoord}

omit [FloorRing K] in
theorem cellHit_eq_some {cell : CellCoord} {found : K × SweepHit K} :
    call.cellHit cell = some found ↔ ∃ contact id, call.cellContact cell = some contact ∧
      call.query.blockAt cell call.filter = .ok (.hit id) ∧
        found = (contact.1, call.blockHit cell id contact) := by
  unfold cellHit
  cases call.cellContact cell with
  | none => simp
  | some contact =>
    cases call.query.blockAt cell call.filter with
    | error err => simp
    | ok visit => cases visit <;> simp [eq_comm]

omit [Field K] [LinearOrder K] [FloorRing K] in
theorem cellDoubt_eq_some {cell : CellCoord} {found : K × SectionId} :
    call.cellDoubt cell = some found ↔ ∃ contact id, call.cellContact cell = some contact ∧
      call.query.blockAt cell call.filter = .ok (.unresolved id) ∧ found = (contact.1, id) := by
  unfold cellDoubt
  cases call.cellContact cell with
  | none => simp
  | some contact =>
    cases call.query.blockAt cell call.filter with
    | error err => simp
    | ok visit => cases visit <;> simp [eq_comm]

theorem mem_hits {found : K × SweepHit K} :
    found ∈ call.hits low high ↔ call.Matching low high found.1 found.2 := by
  simp only [hits, List.mem_append, List.mem_filterMap, cellHit_eq_some, bodyCandidate,
    Option.map_eq_some_iff, mem_rangeCells, Prod.exists, BTreeMap.mem_toList]
  constructor
  · rintro (⟨cell, hcell, contact, normal, id, hcontact, hvisit, rfl⟩ |
      ⟨id, body, hbody, fraction, normal, hcontact, rfl⟩)
    · exact .block hcell hcontact hvisit
    · exact .body hbody hcontact
  · intro h
    obtain ⟨fraction, hit⟩ := found
    cases h with
    | block hcell hcontact hvisit => exact .inl ⟨_, hcell, _, _, _, hcontact, hvisit, rfl⟩
    | body hbody hcontact => exact .inr ⟨_, _, hbody, _, _, hcontact, rfl⟩

theorem Matching.mem_hits {fraction : K} {hit : SweepHit K}
    (h : call.Matching low high fraction hit) : (fraction, hit) ∈ call.hits low high :=
  SweepCall.mem_hits.mpr h

omit [Field K] [LinearOrder K] [FloorRing K] in
theorem mem_doubts {found : K × SectionId} :
    found ∈ call.doubts low high ↔ call.Doubtful low high found.1 found.2 := by
  simp only [doubts, List.mem_filterMap, cellDoubt_eq_some, mem_rangeCells]
  constructor
  · rintro ⟨cell, hcell, contact, id, hcontact, hvisit, rfl⟩
    exact .cell hcell hcontact hvisit
  · intro h
    obtain ⟨fraction, id⟩ := found
    cases h with
    | cell hcell hcontact hvisit => exact ⟨_, hcell, _, _, hcontact, hvisit, rfl⟩

/-! ## 4. The pass -/

omit [FloorRing K] in
/-- **The loops over the cells.** They go through when every cell come upon can be looked
up, and keep the least of each kind. -/
theorem sweepCells_eq_ok {cells : List CellCoord} {s s' : Sweeping K} :
    foldSteps call.sweepCell s cells = .ok s' ↔
      (∀ cell ∈ cells, (call.cellContact cell).isSome →
          ∃ visit, call.query.blockAt cell call.filter = .ok visit) ∧
        s' = ⟨(cells.filterMap call.cellHit).foldl (keepLeast compareFractions) s.best,
          (cells.filterMap call.cellDoubt).foldl (keepLeast compareDoubts) s.unresolved⟩ := by
  induction cells generalizing s with
  | nil =>
    simp only [foldSteps, List.not_mem_nil, false_imp_iff, implies_true, true_and,
      List.filterMap_nil, List.foldl_nil, Except.ok.injEq]
    exact eq_comm
  | cons cell rest ih =>
    rw [foldSteps_cons_eq_ok]
    simp only [List.forall_mem_cons, sweepCell, ih]
    cases hcontact : call.cellContact cell with
    | none =>
      have hhit : call.cellHit cell = none := by simp only [cellHit, hcontact]
      have hdoubt : call.cellDoubt cell = none := by simp only [cellDoubt, hcontact]
      simp [List.filterMap_cons_none hhit, List.filterMap_cons_none hdoubt]
    | some contact =>
      cases hvisit : call.query.blockAt cell call.filter with
      | error err => simp
      | ok visit =>
        cases visit with
        | unresolved id =>
          have hhit : call.cellHit cell = none := by simp only [cellHit, hcontact, hvisit]
          have hdoubt : call.cellDoubt cell = some (contact.1, id) := by
            simp only [cellDoubt, hcontact, hvisit]
          simp [List.filterMap_cons_none hhit, List.filterMap_cons_some hdoubt]
        | hit id =>
          have hhit : call.cellHit cell = some (contact.1, call.blockHit cell id contact) := by
            simp only [cellHit, hcontact, hvisit]
          have hdoubt : call.cellDoubt cell = none := by simp only [cellDoubt, hcontact, hvisit]
          simp [List.filterMap_cons_some hhit, List.filterMap_cons_none hdoubt]
        | empty =>
          have hhit : call.cellHit cell = none := by simp only [cellHit, hcontact, hvisit]
          have hdoubt : call.cellDoubt cell = none := by simp only [cellDoubt, hcontact, hvisit]
          simp [List.filterMap_cons_none hhit, List.filterMap_cons_none hdoubt]

theorem sweepBodies_eq (items : List (BodyId × Body K)) (best : Option (K × SweepHit K)) :
    items.foldl call.sweepBody best =
      (items.filterMap call.bodyCandidate).foldl (keepLeast compareFractions) best := by
  induction items generalizing best with
  | nil => rfl
  | cons item rest ih =>
    rw [List.foldl_cons, ih, sweepBody]
    cases hcontact : call.bodyContact item.2 with
    | none =>
      have hnone : call.bodyCandidate item = none := by
        rw [bodyCandidate, hcontact, Option.map_none]
      rw [List.filterMap_cons_none hnone]
    | some contact =>
      have hsome : call.bodyCandidate item =
          some (clampUnit contact.1, call.bodyHit item.1 item.2 contact) := by
        rw [bodyCandidate, hcontact, Option.map_some]
      rw [List.filterMap_cons_some hsome, List.foldl_cons]

/-- **What a sweep answers** is weighed between the least hit and the least doubt. -/
theorem sweep_eq_ok {resolution : QueryResolution (SweepHit K)} :
    call.sweep = .ok resolution ↔
      call.range = .ok none ∧ resolution = .miss ∨
        ∃ low high, call.range = .ok (some (low, high)) ∧ call.Readable low high ∧
          resolution = Sweeping.resolve ⟨minBy compareFractions (call.hits low high),
            minBy compareDoubts (call.doubts low high)⟩ := by
  have hbest : ∀ low high, call.bodies.toList.foldl call.sweepBody
      (minBy compareFractions ((rangeCells low high).filterMap call.cellHit)) =
        minBy compareFractions (call.hits low high) := by
    intro low high
    rw [sweepBodies_eq, ← foldl_keepLeast, ← List.foldl_append, foldl_keepLeast, hits]
  have hreadable : ∀ low high, (∀ cell ∈ rangeCells low high, (call.cellContact cell).isSome →
      ∃ visit, call.query.blockAt cell call.filter = .ok visit) ↔ call.Readable low high := by
    intro low high
    simp only [mem_rangeCells, Readable]
  unfold sweep
  rw [bind_eq_ok]
  constructor
  · rintro ⟨range, hrange, hrest⟩
    cases range with
    | none => exact .inl ⟨hrange, (pure_eq_ok.mp hrest).symm⟩
    | some range =>
      obtain ⟨s, hcells, hresolve⟩ := bind_eq_ok.mp hrest
      obtain ⟨hread, rfl⟩ := sweepCells_eq_ok.mp hcells
      obtain rfl := pure_eq_ok.mp hresolve
      refine .inr ⟨range.1, range.2, hrange, (hreadable _ _).mp hread, ?_⟩
      simp only [foldl_keepLeast, hbest, doubts]
  · rintro (⟨hrange, rfl⟩ | ⟨low, high, hrange, hread, rfl⟩)
    · exact ⟨none, hrange, rfl⟩
    · refine ⟨some (low, high), hrange, bind_eq_ok.mpr ⟨_,
        sweepCells_eq_ok.mpr ⟨(hreadable _ _).mpr hread, rfl⟩, ?_⟩⟩
      simp only [foldl_keepLeast, hbest, doubts]
      rfl

/-! ## 5. Priority -/

omit [Field K] [FloorRing K] in
theorem isLE_compareFractions {a b : K × SweepHit K} :
    (compareFractions a b).isLE ↔ a.1 ≤ b.1 :=
  Ordering.isLE_iff_ne_gt.trans compare_le_iff_le

omit [Field K] [FloorRing K] in
theorem isLE_compareDoubts {a b : K × SectionId} :
    (compareDoubts a b).isLE ↔ a.1 < b.1 ∨ a.1 = b.1 ∧ (compare a.2 b.2).isLE := by
  simp only [compareDoubts, compareLex, compareOn, Ordering.isLE_then_iff_or, compare_lt_iff_lt,
    compare_eq_iff_eq]

variable (call) in
/-- How a sweep weighs its candidates. -/
structure Priority (low high : CellCoord) (resolution : QueryResolution (SweepHit K)) : Prop where
  unresolved : (∃ id, resolution = .unresolved id) ↔ ∃ fraction id,
    call.Doubtful low high fraction id ∧
      ∀ other hit, call.Matching low high other hit → fraction ≤ other
  names : ∀ id, resolution = .unresolved id → ∃ fraction, call.Doubtful low high fraction id ∧
    ∀ other id', call.Doubtful low high other id' →
      fraction < other ∨ fraction = other ∧ (compare id id').isLE
  hits : (∀ id, resolution ≠ .unresolved id) → (∃ fraction hit, call.Matching low high fraction hit) →
    ∃ fraction hit, resolution = .hit hit ∧ call.Matching low high fraction hit ∧
      ∀ other hit', call.Matching low high other hit' → fraction ≤ other
  misses : (∀ id, resolution ≠ .unresolved id) →
    (∀ fraction hit, ¬ call.Matching low high fraction hit) → resolution = .miss

/-- The least hit is matching, and no other matching candidate is nearer. -/
theorem leastHit_eq_some {found : K × SweepHit K}
    (h : minBy compareFractions (call.hits low high) = some found) :
    call.Matching low high found.1 found.2 ∧
      ∀ other hit, call.Matching low high other hit → found.1 ≤ other := by
  obtain ⟨hmem, hleast⟩ := minBy_eq_some h
  refine ⟨mem_hits.mp hmem, ?_⟩
  intro other hit hmatching
  exact isLE_compareFractions.mp (hleast _ hmatching.mem_hits)

theorem leastHit_eq_none (h : minBy compareFractions (call.hits low high) = none) (fraction : K)
    (hit : SweepHit K) : ¬ call.Matching low high fraction hit := by
  intro hmatching
  have hmem := hmatching.mem_hits
  rw [minBy_eq_none.mp h] at hmem
  exact absurd hmem List.not_mem_nil

omit [Field K] [FloorRing K] in
theorem leastDoubt_eq_some {found : K × SectionId}
    (h : minBy compareDoubts (call.doubts low high) = some found) :
    call.Doubtful low high found.1 found.2 ∧ ∀ other id, call.Doubtful low high other id →
      found.1 < other ∨ found.1 = other ∧ (compare found.2 id).isLE := by
  obtain ⟨hmem, hleast⟩ := minBy_eq_some h
  refine ⟨mem_doubts.mp hmem, ?_⟩
  intro other id hdoubt
  have hother : (other, id) ∈ call.doubts low high := mem_doubts.mpr hdoubt
  exact isLE_compareDoubts.mp (hleast _ hother)

omit [Field K] [FloorRing K] in
theorem leastDoubt_eq_none (h : minBy compareDoubts (call.doubts low high) = none) (fraction : K)
    (id : SectionId) : ¬ call.Doubtful low high fraction id := by
  intro hdoubt
  have hmem : (fraction, id) ∈ call.doubts low high := mem_doubts.mpr hdoubt
  rw [minBy_eq_none.mp h] at hmem
  exact absurd hmem List.not_mem_nil

private theorem priority_unresolved {fraction : K} {id : SectionId}
    (hdoubt : call.Doubtful low high fraction id)
    (hleast : ∀ other id', call.Doubtful low high other id' →
      fraction < other ∨ fraction = other ∧ (compare id id').isLE)
    (hhits : ∀ other hit, call.Matching low high other hit → fraction ≤ other) :
    call.Priority low high (.unresolved id) := by
  constructor
  · exact iff_of_true ⟨id, rfl⟩ ⟨fraction, id, hdoubt, hhits⟩
  · intro id' hid
    obtain rfl := QueryResolution.unresolved.inj hid
    exact ⟨fraction, hdoubt, hleast⟩
  · intro hother
    exact absurd rfl (hother id)
  · intro hother
    exact absurd rfl (hother id)

private theorem priority_hit {fraction : K} {hit : SweepHit K}
    (hmatching : call.Matching low high fraction hit)
    (hnearest : ∀ other hit', call.Matching low high other hit' → fraction ≤ other)
    (hdoubts : ∀ other id, call.Doubtful low high other id → fraction < other) :
    call.Priority low high (.hit hit) := by
  constructor
  · constructor
    · rintro ⟨id, hid⟩
      cases hid
    · rintro ⟨other, id, hdoubt, hbefore⟩
      exact absurd (hbefore fraction hit hmatching) (not_le.mpr (hdoubts other id hdoubt))
  · intro id hid
    cases hid
  · intro _ _
    exact ⟨fraction, hit, rfl, hmatching, hnearest⟩
  · intro _ hempty
    exact absurd hmatching (hempty fraction hit)

private theorem priority_miss (hhits : ∀ fraction hit, ¬ call.Matching low high fraction hit)
    (hdoubts : ∀ fraction id, ¬ call.Doubtful low high fraction id) :
    call.Priority low high .miss := by
  constructor
  · constructor
    · rintro ⟨id, hid⟩
      cases hid
    · rintro ⟨fraction, id, hdoubt, -⟩
      exact absurd hdoubt (hdoubts fraction id)
  · intro id hid
    cases hid
  · rintro - ⟨fraction, hit, hmatching⟩
    exact absurd hmatching (hhits fraction hit)
  · intro _ _
    rfl

/-- The end of the pass weighs the least of each kind. -/
theorem priority_resolve (low high : CellCoord) :
    call.Priority low high (Sweeping.resolve ⟨minBy compareFractions (call.hits low high),
      minBy compareDoubts (call.doubts low high)⟩) := by
  cases hhit : minBy compareFractions (call.hits low high) with
  | none =>
    have hnone := leastHit_eq_none hhit
    cases hdoubt : minBy compareDoubts (call.doubts low high) with
    | none => exact priority_miss hnone (leastDoubt_eq_none hdoubt)
    | some doubt =>
      obtain ⟨hmem, hleast⟩ := leastDoubt_eq_some hdoubt
      apply priority_unresolved hmem hleast
      intro other hit hmatching
      exact absurd hmatching (hnone other hit)
  | some best =>
    obtain ⟨hmatching, hnearest⟩ := leastHit_eq_some hhit
    cases hdoubt : minBy compareDoubts (call.doubts low high) with
    | none =>
      apply priority_hit hmatching hnearest
      intro other id hfound
      exact absurd hfound (leastDoubt_eq_none hdoubt other id)
    | some doubt =>
      obtain ⟨hmem, hleast⟩ := leastDoubt_eq_some hdoubt
      simp only [Sweeping.resolve]
      split
      · rename_i hnear
        apply priority_hit hmatching hnearest
        intro other id hfound
        rcases hleast other id hfound with hlt | ⟨heq, -⟩
        · exact hnear.trans hlt
        · exact hnear.trans_eq heq
      · rename_i hfar
        apply priority_unresolved hmem hleast
        intro other hit hother
        exact (not_lt.mp hfar).trans (hnearest other hit hother)

/-- **Sweeps answer with the first in the way.** A section in doubt answers when no matching
candidate is nearer, and otherwise the nearest of those does. -/
theorem sweep_priority {low high : CellCoord} {resolution : QueryResolution (SweepHit K)}
    (hrange : call.range = .ok (some (low, high))) (h : call.sweep = .ok resolution) :
    call.Priority low high resolution := by
  rcases sweep_eq_ok.mp h with ⟨hnone, -⟩ | ⟨low', high', hsome, -, rfl⟩
  · rw [hrange] at hnone
    cases hnone
  · obtain ⟨rfl, rfl⟩ := Prod.mk.inj (Option.some.inj (Except.ok.inj (hrange.symm.trans hsome)))
    exact priority_resolve low high

end SweepCall

end Candidates

/-- A small box moves through stone, past a body. -/
def stoneCall : SweepCall ℚ :=
  exactCall 0 stoneQuery cornerBodies cornerBox ⟨1, 0, 0⟩ ⟨1⟩

theorem SweepCall.sweep_priority_stone :
    stoneCall.range = .ok (some (⟨0, 0, 0⟩, ⟨2, 0, 0⟩)) ∧
      stoneCall.sweep = .ok (.hit (stoneCall.blockHit ⟨0, 0, 0⟩ ⟨256⟩ (0, ⟨0, 0, 0⟩))) ∧
        stoneCall.Priority ⟨0, 0, 0⟩ ⟨2, 0, 0⟩
          (.hit (stoneCall.blockHit ⟨0, 0, 0⟩ ⟨256⟩ (0, ⟨0, 0, 0⟩))) := by
  have hrange : stoneCall.range = .ok (some (⟨0, 0, 0⟩, ⟨2, 0, 0⟩)) := by decide +kernel
  have hsweep : stoneCall.sweep =
      .ok (.hit (stoneCall.blockHit ⟨0, 0, 0⟩ ⟨256⟩ (0, ⟨0, 0, 0⟩))) := by decide +kernel
  exact ⟨hrange, hsweep, SweepCall.sweep_priority hrange hsweep⟩

end LumioVoxel
