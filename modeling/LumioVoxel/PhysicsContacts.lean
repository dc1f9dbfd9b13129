import LumioVoxel.PhysicsSweep

/-!
# Contacts

Boxes as sets of points, and what overlaps and sweeps in exact arithmetic say of the
bodies whose boxes they share a point with.
-/

namespace LumioVoxel

open Fallible LeastItems BoundedBuffers

/-! ## 1. Boxes that meet -/

namespace Aabb

/-- The point is in the box, its faces included. -/
def Holds (shape : Aabb) (point : Vec3) : Prop :=
  ∀ axis, shape.min.get axis ≤ point.get axis ∧ point.get axis ≤ shape.max.get axis

/-- The boxes share a point. -/
def Meets (left right : Aabb) : Prop := ∃ point, left.Holds point ∧ right.Holds point

def movedBy (shape : Aabb) (displacement : Vec3) (t : ℚ) : Aabb :=
  ⟨Vec3.add shape.center (Vec3.scale displacement t), shape.halfExtents⟩

theorem get_min (shape : Aabb) (axis : Axis) :
    shape.min.get axis = shape.center.get axis - shape.halfExtents.get axis := by
  cases axis <;> rfl

theorem get_max (shape : Aabb) (axis : Axis) :
    shape.max.get axis = shape.center.get axis + shape.halfExtents.get axis := by
  cases axis <;> rfl

theorem get_center_movedBy (shape : Aabb) (displacement : Vec3) (t : ℚ) (axis : Axis) :
    (shape.movedBy displacement t).center.get axis =
      shape.center.get axis + t * displacement.get axis := by
  rw [mul_comm]
  cases axis <;> rfl

theorem get_widened (body shape : Aabb) (axis : Axis) :
    (body.widened shape).center.get axis = body.center.get axis ∧
      (body.widened shape).halfExtents.get axis =
        body.halfExtents.get axis + shape.halfExtents.get axis := by
  cases axis <;> exact ⟨rfl, rfl⟩

/-- Boxes meet when their intervals do, on every axis. -/
theorem meets_iff {left right : Aabb} : left.Meets right ↔ ∀ axis,
    0 ≤ left.halfExtents.get axis ∧ 0 ≤ right.halfExtents.get axis ∧
      left.min.get axis ≤ right.max.get axis ∧ right.min.get axis ≤ left.max.get axis := by
  constructor
  · rintro ⟨point, hleft, hright⟩ axis
    obtain ⟨hl, hl'⟩ := hleft axis
    obtain ⟨hr, hr'⟩ := hright axis
    have hleftmin := left.get_min axis
    have hleftmax := left.get_max axis
    have hrightmin := right.get_min axis
    have hrightmax := right.get_max axis
    refine ⟨?_, ?_, hl.trans hr', hr.trans hl'⟩
    · linarith
    · linarith
  · intro h
    refine ⟨PerAxis.ofAxes fun axis => Max.max (left.min.get axis) (right.min.get axis), ?_, ?_⟩
    · intro axis
      obtain ⟨hextent, -, -, hcross⟩ := h axis
      rw [PerAxis.get_ofAxes]
      refine ⟨le_max_left _ _, max_le ?_ hcross⟩
      rw [get_min, get_max]
      linarith
    · intro axis
      obtain ⟨-, hextent, hcross, -⟩ := h axis
      rw [PerAxis.get_ofAxes]
      refine ⟨le_max_right _ _, max_le hcross ?_⟩
      rw [get_min, get_max]
      linarith

/-- Boxes that meet are no farther apart than their half-extents. -/
theorem meets_iff_distance {left right : Aabb} : left.Meets right ↔ ∀ axis,
    0 ≤ left.halfExtents.get axis ∧ 0 ≤ right.halfExtents.get axis ∧
      (right.widened left).min.get axis ≤ left.center.get axis ∧
        left.center.get axis ≤ (right.widened left).max.get axis := by
  rw [meets_iff]
  apply forall_congr'
  intro axis
  obtain ⟨hcenter, hextents⟩ := get_widened right left axis
  simp only [get_min, get_max, hcenter, hextents]
  constructor
  · rintro ⟨hl, hr, h, h'⟩
    exact ⟨hl, hr, by linarith, by linarith⟩
  · rintro ⟨hl, hr, h, h'⟩
    exact ⟨hl, hr, by linarith, by linarith⟩

theorem Meets.intersects {left right : Aabb} (h : left.Meets right) :
    aabbIntersects left right = true := by
  have haxes := meets_iff.mp h
  exact decide_eq_true ⟨(haxes .x).2.2.1, (haxes .x).2.2.2, (haxes .y).2.2.1, (haxes .y).2.2.2,
    (haxes .z).2.2.1, (haxes .z).2.2.2⟩

/-- The moving box shares a point with the other. -/
def Touches (shape : Aabb) (displacement : Vec3) (body : Aabb) (t : ℚ) : Prop :=
  (shape.movedBy displacement t).Meets body

theorem touches_iff {shape body : Aabb} {displacement : Vec3} {t : ℚ} :
    shape.Touches displacement body t ↔ ∀ axis,
      0 ≤ shape.halfExtents.get axis ∧ 0 ≤ body.halfExtents.get axis ∧
        (body.widened shape).min.get axis ≤
            shape.center.get axis + t * displacement.get axis ∧
          shape.center.get axis + t * displacement.get axis ≤
            (body.widened shape).max.get axis := by
  simp only [Touches, meets_iff_distance, get_center_movedBy]
  exact Iff.rfl

theorem Touches.seen {shape body : Aabb} {displacement : Vec3} {t : ℚ}
    (h : shape.Touches displacement body t) :
    Seen 0 shape.center displacement (body.widened shape) t := by
  intro axis
  obtain ⟨-, -, hbetween⟩ := touches_iff.mp h axis
  unfold AxisSeen
  split
  · rename_i hslow
    rw [abs_nonpos_iff.mp hslow, mul_zero, add_zero] at hbetween
    exact hbetween
  · exact .inl hbetween

/-- Without a tolerance the slab test sees what touches. -/
theorem touches_iff_seen {shape body : Aabb} {displacement : Vec3} {t : ℚ}
    (hshape : ∀ axis, 0 ≤ shape.halfExtents.get axis)
    (hbody : ∀ axis, 0 ≤ body.halfExtents.get axis) :
    shape.Touches displacement body t ↔
      Seen 0 shape.center displacement (body.widened shape) t := by
  refine ⟨Touches.seen, ?_⟩
  intro h
  rw [touches_iff]
  intro axis
  refine ⟨hshape axis, hbody axis, ?_⟩
  have hseen := h axis
  have hbounds : (body.widened shape).min.get axis ≤ (body.widened shape).max.get axis := by
    rw [get_min, get_max, (get_widened body shape axis).2]
    have hshape' := hshape axis
    have hbody' := hbody axis
    linarith
  unfold AxisSeen at hseen
  split at hseen
  · rename_i hslow
    rw [abs_nonpos_iff.mp hslow, mul_zero, add_zero]
    exact hseen
  · rcases hseen with hin | ⟨hhigh, hlow⟩
    · exact hin
    · exact ⟨hbounds.trans hhigh, hlow.trans hbounds⟩

end Aabb

/-- The unit cube of a cell. -/
def CellCoord.box (cell : CellCoord) : Aabb where
  center := ⟨cell.x.toInt + 1 / 2, cell.y.toInt + 1 / 2, cell.z.toInt + 1 / 2⟩
  halfExtents := ⟨1 / 2, 1 / 2, 1 / 2⟩

/-! ## 2. Fractions -/

theorem clampUnit_nonneg (fraction : ℚ) : 0 ≤ clampUnit fraction := le_max_left _ _

theorem clampUnit_le_one (fraction : ℚ) : clampUnit fraction ≤ 1 :=
  max_le zero_le_one (min_le_right _ _)

theorem clampUnit_le {fraction : ℚ} (h : 0 ≤ fraction) : clampUnit fraction ≤ fraction :=
  max_le h (min_le_left _ _)

theorem clampUnit_mono {a b : ℚ} (h : a ≤ b) : clampUnit a ≤ clampUnit b :=
  max_le_max_left 0 (min_le_min_right 1 h)

theorem clampUnit_of_mem {fraction : ℚ} (h : 0 ≤ fraction) (h' : fraction ≤ 1) :
    clampUnit fraction = fraction := by
  rw [clampUnit, min_eq_left h', max_eq_right h]

theorem clampUnit_le_iff {fraction t : ℚ} (hpos : 0 ≤ t) (hle : t ≤ 1) :
    clampUnit fraction ≤ t ↔ fraction ≤ t ∨ t = 1 := by
  rw [clampUnit, max_le_iff, min_le_iff, and_iff_right hpos]
  exact or_congr_right ⟨fun h => le_antisymm hle h, fun h => h.ge⟩

namespace SweepCall

/-- A hit is reported at its fraction, brought into the unit interval. -/
theorem Matching.fraction_eq {call : SweepCall ℚ} {low high : CellCoord} {fraction : ℚ}
    {hit : SweepHit} (h : call.Matching low high fraction hit) :
    hit.fraction = clampUnit fraction := by
  cases h with
  | block hcell hcontact hvisit => rfl
  | body hbody hcontact =>
    exact (clampUnit_of_mem (clampUnit_nonneg _) (clampUnit_le_one _)).symm

variable {epsilon : ℚ} {query : PhysicsQuery} {bodies : BodyTable} {shape : Aabb}
  {displacement : Vec3} {filter : MaterialMask}

theorem cellContact_eq (cell : CellCoord) :
    (exactCall epsilon query bodies shape displacement filter).cellContact cell =
      (rayAabbWithin epsilon shape.center displacement (cell.box.widened shape)).filter
        fun contact => decide (contact.1 ≤ 1 + epsilon) := rfl

/-- The contact of a body is where the slab test first sees it. -/
theorem isLeast_of_bodyContact (hepsilon : 0 ≤ epsilon) {body : Body} {contact : ℚ × Vec3}
    (h : (exactCall epsilon query bodies shape displacement filter).bodyContact body =
      some contact) :
    IsLeast {t | 0 ≤ t ∧ Seen epsilon shape.center displacement (body.shape.widened shape) t}
      contact.1 :=
  isLeast_of_rayAabbWithin hepsilon h

/-- As the slab test sees it, the moving box is at something at this moment: at a cell of the
range with a block of the asked material, or at a body. -/
def MeetsSomething (call : SweepCall ℚ) (low high : CellCoord) (t : ℚ) : Prop :=
  (∃ cell id, InRange low high cell ∧ call.query.blockAt cell call.filter = .ok (.hit id) ∧
    t ≤ 1 + call.epsilon ∧
      Seen call.epsilon call.shape.center call.displacement (cell.box.widened call.shape) t) ∨
  ∃ (id : BodyId) (body : Body), call.bodies[id]? = some body ∧
    Seen call.epsilon call.shape.center call.displacement (body.shape.widened call.shape) t

/-- The candidates are what the moving box meets; those after the end of the displacement
are reported at the end. -/
theorem matching_iff_meets (hepsilon : 0 ≤ epsilon) {t : ℚ} (hpos : 0 ≤ t) (hle : t ≤ 1)
    (low high : CellCoord) :
    (∃ fraction hit, (exactCall epsilon query bodies shape displacement filter).Matching low high
        fraction hit ∧ hit.fraction ≤ t) ↔
      ∃ u, 0 ≤ u ∧ (u ≤ t ∨ t = 1) ∧
        (exactCall epsilon query bodies shape displacement filter).MeetsSomething low high u := by
  constructor
  · rintro ⟨fraction, hit, hmatching, hfraction⟩
    cases hmatching with
    | @block cell contact id hcell hcontact hvisit =>
      rw [cellContact_eq, Option.filter_eq_some_iff] at hcontact
      obtain ⟨hpos', hseen⟩ := (isLeast_of_rayAabbWithin hepsilon hcontact.1).1
      refine ⟨contact.1, hpos', (clampUnit_le_iff hpos hle).mp hfraction, .inl ?_⟩
      exact ⟨cell, id, hcell, hvisit, of_decide_eq_true hcontact.2, hseen⟩
    | @body id body contact hbody hcontact =>
      obtain ⟨hpos', hseen⟩ := (isLeast_of_bodyContact hepsilon hcontact).1
      refine ⟨contact.1, hpos', (clampUnit_le_iff hpos hle).mp hfraction, .inr ?_⟩
      exact ⟨id, body, hbody, hseen⟩
  · rintro ⟨u, hpos', hu, hmeets⟩
    have hclamped : ∀ contact : ℚ, contact ≤ u → clampUnit contact ≤ t := fun contact h =>
      (clampUnit_mono h).trans ((clampUnit_le_iff hpos hle).mpr hu)
    rcases hmeets with ⟨cell, id, hcell, hvisit, hreach, hseen⟩ | ⟨id, body, hbody, hseen⟩
    · obtain ⟨contact, hcontact, hbefore⟩ := exists_contact_of_seen hepsilon hpos' hseen
      have hfound : (exactCall epsilon query bodies shape displacement filter).cellContact cell =
          some contact := by
        rw [cellContact_eq, Option.filter_eq_some_iff]
        exact ⟨hcontact, decide_eq_true (hbefore.trans hreach)⟩
      exact ⟨_, _, .block hcell hfound hvisit, hclamped _ hbefore⟩
    · obtain ⟨contact, hcontact, hbefore⟩ := exists_contact_of_seen hepsilon hpos' hseen
      exact ⟨_, _, .body hbody hcontact, hclamped _ hbefore⟩

end SweepCall

/-! ## 3. No body is lost -/

/-- An overlap that is not unresolved has counted every body whose box meets the query's: a
buffer that takes all it counted has an entry of that body. -/
def CountsBodies (epsilon : ℚ) (query : PhysicsQuery) (bodies : BodyTable) (shape : Aabb)
    (filter : MaterialMask) : Prop :=
  ∀ buffer result,
    (query.overlap (exactGeometry epsilon) bodies shape filter buffer).1 = .ok result →
    (∀ id, result.resolution ≠ .unresolved id) → result.actualCount ≤ buffer.length →
    ∀ (id : BodyId) (body : Body), bodies[id]? = some body → shape.Meets body.shape →
      ∃ entry ∈ (query.overlap (exactGeometry epsilon) bodies shape filter buffer).2.take
        result.writtenCount, entry.target = .body id

/-- The sweep reports a hit no later than the moving box touches any body. -/
def ReachesBodies (bodies : BodyTable) (shape : Aabb) (displacement : Vec3)
    (resolution : QueryResolution SweepHit) : Prop :=
  ∀ (id : BodyId) (body : Body) (t : ℚ), bodies[id]? = some body → 0 ≤ t → t ≤ 1 →
    shape.Touches displacement body.shape t → ∃ hit, resolution = .hit hit ∧ hit.fraction ≤ t

/-- For every body it touches, the sweep has cells to visit, and it meets the body or something
else no later. -/
def SeesBodies (call : SweepCall ℚ) : Prop :=
  ∀ (id : BodyId) (body : Body) (t : ℚ), call.bodies[id]? = some body → 0 ≤ t → t ≤ 1 →
    call.shape.Touches call.displacement body.shape t →
    ∃ low high, call.range = .ok (some (low, high)) ∧
      ∃ u, 0 ≤ u ∧ (u ≤ t ∨ t = 1) ∧ call.MeetsSomething low high u

variable {epsilon : ℚ} {query : PhysicsQuery} {bodies : BodyTable} {shape : Aabb}
  {displacement : Vec3} {filter : MaterialMask}

theorem survey_body {low high : CellCoord} {resolution : QueryResolution Unit}
    (hrange : cellRange epsilon shape = .ok (some (low, high)))
    (hends : (survey (exactGeometry epsilon) query bodies shape filter).ends = .ok resolution)
    (hsettled : ∀ id, resolution ≠ .unresolved id) {id : BodyId} {body : Body}
    (hbody : bodies[id]? = some body) (hmeets : shape.Meets body.shape) :
    ∃ entry ∈ (survey (exactGeometry epsilon) query bodies shape filter).found,
      entry.target = .body id := by
  have hgeometry : (exactGeometry epsilon).cellRange shape = .ok (some (low, high)) := hrange
  unfold survey at hends ⊢
  simp only [hgeometry] at hends ⊢
  generalize cellFinds query filter (rangeCells low high) = finds at hends ⊢
  obtain ⟨found, stop⟩ := finds
  cases stop with
  | error err => cases hends
  | ok stop =>
    cases stop with
    | some stopped =>
      obtain rfl := Except.ok.inj hends
      exact absurd rfl (hsettled stopped)
    | none =>
      refine ⟨⟨centerCell body.shape, none, .body id⟩, List.mem_append_right _ ?_, rfl⟩
      refine List.mem_filterMap.mpr ⟨(id, body), BTreeMap.mem_toList.mpr hbody, ?_⟩
      exact if_pos hmeets.intersects

theorem countsBodies_iff : CountsBodies epsilon query bodies shape filter ↔
    (cellRange epsilon shape = .ok none →
      ∀ (id : BodyId) (body : Body), bodies[id]? = some body → ¬ shape.Meets body.shape) := by
  constructor
  · intro h hempty id body hbody hmeets
    have hrun : query.overlap (exactGeometry epsilon) bodies shape filter [] =
        (.ok ⟨.miss, 0, 0, false⟩, []) := by
      have hgeometry : (exactGeometry epsilon).cellRange shape = .ok none := hempty
      simp only [PhysicsQuery.overlap, hgeometry]
    have hmiss : ∀ stopped, (QueryResolution.miss : QueryResolution Unit) ≠ .unresolved stopped := by
      intro stopped hstopped
      cases hstopped
    obtain ⟨entry, hentry, -⟩ := h [] ⟨.miss, 0, 0, false⟩ (congrArg Prod.fst hrun) hmiss
      (le_refl 0) id body hbody hmeets
    rw [hrun] at hentry
    exact absurd hentry List.not_mem_nil
  · intro h buffer result hresult hsettled hfits id body hbody hmeets
    rw [overlap_eq] at hresult ⊢
    obtain ⟨resolution, hends, rfl⟩ := map_eq_ok.mp hresult
    rw [OverlapResult.of, Counter.take_written hfits]
    cases hrange : cellRange epsilon shape with
    | error err =>
      have hgeometry : (exactGeometry epsilon).cellRange shape = .error err := hrange
      simp only [survey, hgeometry] at hends
      cases hends
    | ok range =>
      cases range with
      | none => exact absurd hmeets (h hrange id body hbody)
      | some range => exact survey_body hrange hends hsettled hbody hmeets

theorem reachesBodies_iff (hepsilon : 0 ≤ epsilon) {resolution : QueryResolution SweepHit}
    (h : (exactCall epsilon query bodies shape displacement filter).sweep = .ok resolution)
    (hsettled : ∀ id, resolution ≠ .unresolved id) :
    ReachesBodies bodies shape displacement resolution ↔
      SeesBodies (exactCall epsilon query bodies shape displacement filter) := by
  constructor
  · intro hreaches id body t hbody hpos hle htouches
    obtain ⟨hit, rfl, hfraction⟩ := hreaches id body t hbody hpos hle htouches
    rcases SweepCall.sweep_eq_ok.mp h with ⟨-, hmiss⟩ | ⟨low, high, hrange, -⟩
    · cases hmiss
    · have hpriority := SweepCall.sweep_priority hrange h
      refine ⟨low, high, hrange, (SweepCall.matching_iff_meets hepsilon hpos hle low high).mp ?_⟩
      by_cases hsome : ∃ fraction hit', (exactCall epsilon query bodies shape displacement
          filter).Matching low high fraction hit'
      · obtain ⟨fraction, hit', heq, hmatching, -⟩ := hpriority.hits hsettled hsome
        obtain rfl := QueryResolution.hit.inj heq
        exact ⟨fraction, hit, hmatching, hfraction⟩
      · have hmiss := hpriority.misses hsettled fun fraction hit' h' => hsome ⟨fraction, hit', h'⟩
        cases hmiss
  · intro hsees id body t hbody hpos hle htouches
    obtain ⟨low, high, hrange, hmeets⟩ := hsees id body t hbody hpos hle htouches
    obtain ⟨fraction, hit, hmatching, hfraction⟩ :=
      (SweepCall.matching_iff_meets hepsilon hpos hle low high).mpr hmeets
    obtain ⟨least, hit', heq, hleast, hnearest⟩ :=
      (SweepCall.sweep_priority hrange h).hits hsettled ⟨fraction, hit, hmatching⟩
    refine ⟨hit', heq, ?_⟩
    rw [hleast.fraction_eq]
    rw [hmatching.fraction_eq] at hfraction
    exact (clampUnit_mono (hnearest fraction hit hmatching)).trans hfraction

/-- **Bodies are lost where there are no cells.** An overlap counts the bodies it meets
unless the query has no cell of the grid; a sweep reports a hit no later than it touches a
body unless it has no cell, or moves so little along an axis that it does not see the body
and sees nothing else in time. -/
theorem bodies_kept_iff (hepsilon : 0 ≤ epsilon) (query : PhysicsQuery) (bodies : BodyTable)
    (shape : Aabb) (displacement : Vec3) (filter : MaterialMask) :
    (CountsBodies epsilon query bodies shape filter ↔
        (cellRange epsilon shape = .ok none →
          ∀ (id : BodyId) (body : Body), bodies[id]? = some body → ¬ shape.Meets body.shape)) ∧
      ∀ resolution, (exactCall epsilon query bodies shape displacement filter).sweep =
          .ok resolution → (∀ id, resolution ≠ .unresolved id) →
        (ReachesBodies bodies shape displacement resolution ↔
          SeesBodies (exactCall epsilon query bodies shape displacement filter)) :=
  ⟨countsBodies_iff, fun _ h hsettled => reachesBodies_iff hepsilon h hsettled⟩

/-- A body inside the query's box, both above the world. -/
def skyBodies : BodyTable := (∅ : BodyTable).insert 7 ⟨⟨⟨0, 300, 0⟩, ⟨1, 1, 1⟩⟩⟩

def skyBox : Aabb := ⟨⟨0, 300, 0⟩, ⟨1, 1, 1⟩⟩

def emptyQuery : PhysicsQuery := .new .new fun _ => none

theorem skyBox_touches : skyBox.Touches ⟨1, 0, 0⟩ ⟨⟨0, 300, 0⟩, ⟨1, 1, 1⟩⟩ 0 := by
  rw [Aabb.touches_iff]
  rintro (_ | _ | _) <;> decide +kernel

theorem bodies_lost_above :
    (emptyQuery.overlap (exactGeometry (1 / 1000000)) skyBodies skyBox ⟨1⟩ []).1 =
        .ok ⟨.miss, 0, 0, false⟩ ∧
      ¬ CountsBodies (1 / 1000000) emptyQuery skyBodies skyBox ⟨1⟩ ∧
      (exactCall (1 / 1000000) emptyQuery skyBodies skyBox ⟨1, 0, 0⟩ ⟨1⟩).sweep = .ok .miss ∧
      ¬ ReachesBodies skyBodies skyBox ⟨1, 0, 0⟩ .miss := by
  have hbody : skyBodies[(7 : BodyId)]? = some ⟨⟨⟨0, 300, 0⟩, ⟨1, 1, 1⟩⟩⟩ := by decide +kernel
  have hmeets : skyBox.Meets ⟨⟨0, 300, 0⟩, ⟨1, 1, 1⟩⟩ := by
    rw [Aabb.meets_iff]
    rintro (_ | _ | _) <;> decide +kernel
  refine ⟨by decide +kernel, ?_, by decide +kernel, ?_⟩
  · rw [countsBodies_iff]
    intro h
    exact h (by decide +kernel) 7 _ hbody hmeets
  · intro h
    obtain ⟨hit, hhit, -⟩ := h 7 _ 0 hbody (le_refl 0) zero_le_one skyBox_touches
    cases hhit

theorem bodies_kept_iff_stone :
    (CountsBodies 0 stoneQuery cornerBodies cornerBox ⟨1⟩ ↔
        (cellRange 0 cornerBox = .ok none → ∀ (id : BodyId) (body : Body),
          cornerBodies[id]? = some body → ¬ cornerBox.Meets body.shape)) ∧
      stoneCall.sweep = .ok (.hit (stoneCall.blockHit ⟨0, 0, 0⟩ ⟨256⟩ (0, ⟨0, 0, 0⟩))) ∧
      (ReachesBodies cornerBodies cornerBox ⟨1, 0, 0⟩
          (.hit (stoneCall.blockHit ⟨0, 0, 0⟩ ⟨256⟩ (0, ⟨0, 0, 0⟩))) ↔ SeesBodies stoneCall) := by
  have hkept := bodies_kept_iff (le_refl 0) stoneQuery cornerBodies cornerBox ⟨1, 0, 0⟩ ⟨1⟩
  have hsweep : stoneCall.sweep =
      .ok (.hit (stoneCall.blockHit ⟨0, 0, 0⟩ ⟨256⟩ (0, ⟨0, 0, 0⟩))) := by decide +kernel
  refine ⟨hkept.1, hsweep, hkept.2 _ hsweep ?_⟩
  intro id hid
  cases hid

/-! ## 4. Body hits are contacts -/

namespace SweepCall

/-- The body is what the sweep answers with: whatever else it comes upon is farther, or a
body as near with a higher number. -/
structure Foremost (call : SweepCall ℚ) (low high : CellCoord) (id : BodyId) (body : Body)
    (contact : ℚ × Vec3) : Prop where
  range : call.range = .ok (some (low, high))
  readable : call.Readable low high
  registered : call.bodies[id]? = some body
  contacts : call.bodyContact body = some contact
  doubts : ∀ other stopped, call.Doubtful low high other stopped → clampUnit contact.1 < other
  blocks : ∀ cell found block, InRange low high cell → call.cellContact cell = some found →
    call.query.blockAt cell call.filter = .ok (.hit block) → clampUnit contact.1 < found.1
  bodies : ∀ (other : BodyId) (body' : Body) (found : ℚ × Vec3),
    call.bodies[other]? = some body' → call.bodyContact body' = some found →
      clampUnit contact.1 < clampUnit found.1 ∨
        clampUnit contact.1 = clampUnit found.1 ∧ id ≤ other

/-- Blocks come before bodies, and a body before those with higher numbers. -/
def HitBefore (a b : ℚ × SweepHit) : Prop :=
  a.2.target = .block ∨
    ∃ id id', a.2.target = .body id ∧ b.2.target = .body id' ∧ id < id'

variable {call : SweepCall ℚ} {low high : CellCoord}

theorem pairwise_hits (low high : CellCoord) : (call.hits low high).Pairwise HitBefore := by
  have hblock : ∀ found ∈ (rangeCells low high).filterMap call.cellHit,
      found.2.target = .block := by
    intro found hfound
    obtain ⟨cell, -, hcell⟩ := List.mem_filterMap.mp hfound
    obtain ⟨contact, id, -, -, rfl⟩ := cellHit_eq_some.mp hcell
    rfl
  refine List.pairwise_append.mpr ⟨?_, ?_, fun a ha b _ => .inl (hblock a ha)⟩
  · exact List.Pairwise.imp_of_mem (fun ha _ _ => .inl (hblock _ ha))
      (List.pairwise_of_forall fun _ _ => trivial)
  · refine List.Pairwise.filterMap _ ?_ Std.ExtTreeMap.ordered_keys_toList
    intro item item' hlt found hfound found' hfound'
    obtain ⟨contact, -, rfl⟩ := Option.map_eq_some_iff.mp hfound
    obtain ⟨contact', -, rfl⟩ := Option.map_eq_some_iff.mp hfound'
    exact .inr ⟨item.1, item'.1, rfl, rfl, Std.compare_eq_lt.mp hlt⟩

theorem resolve_eq_hit {s : Sweeping ℚ} {hit : SweepHit} :
    s.resolve = .hit hit ↔ ∃ fraction, s.best = some (fraction, hit) ∧
      ∀ other id, s.unresolved = some (other, id) → fraction < other := by
  obtain ⟨best, unresolved⟩ := s
  constructor
  · intro h
    cases best with
    | none => cases unresolved <;> cases h
    | some best =>
      cases unresolved with
      | none =>
        obtain rfl := QueryResolution.hit.inj h
        refine ⟨best.1, rfl, ?_⟩
        intro other id hother
        cases hother
      | some doubt =>
        simp only [Sweeping.resolve] at h
        split at h
        · rename_i hnear
          obtain rfl := QueryResolution.hit.inj h
          refine ⟨best.1, rfl, ?_⟩
          intro other id hother
          obtain rfl := Option.some.inj hother
          exact hnear
        · cases h
  · rintro ⟨fraction, hbest, hnear⟩
    simp only at hbest hnear
    subst hbest
    cases unresolved with
    | none => rfl
    | some doubt => exact if_pos (hnear doubt.1 doubt.2 rfl)

theorem foremost_of_sweep {id : BodyId} {hit : SweepHit} (hsweep : call.sweep = .ok (.hit hit))
    (htarget : hit.target = .body id) :
    ∃ low high body contact, call.Foremost low high id body contact ∧
      hit = call.bodyHit id body contact := by
  rcases sweep_eq_ok.mp hsweep with ⟨-, hmiss⟩ | ⟨low, high, hrange, hread, hresolve⟩
  · cases hmiss
  · obtain ⟨fraction, hbest, hdoubts⟩ := resolve_eq_hit.mp hresolve.symm
    obtain ⟨hmatching, hnearest⟩ := leastHit_eq_some hbest
    cases hmatching with
    | block hcell hcontact hvisit => cases htarget
    | @body id' body contact hbody hcontact =>
      obtain rfl := HitTarget.body.inj htarget
      refine ⟨low, high, body, contact, ⟨hrange, hread, hbody, hcontact, ?_, ?_, ?_⟩, rfl⟩
      · intro other stopped hdoubt
        cases hleast : minBy compareDoubts (call.doubts low high) with
        | none => exact absurd hdoubt (leastDoubt_eq_none hleast other stopped)
        | some least =>
          have hnear := hdoubts least.1 least.2 hleast
          rcases (leastDoubt_eq_some hleast).2 other stopped hdoubt with hlt | ⟨heq, -⟩
          · exact hnear.trans hlt
          · exact hnear.trans_le heq.le
      · intro cell found block hcell hfound hvisit
        have hmatching := Matching.block hcell hfound hvisit
        rcases minBy_pairwise (pairwise_hits low high) hbest hmatching.mem_hits with
          hlt | heq | hbefore
        · exact compare_lt_iff_lt.mp hlt
        · have htargets := congrArg (fun found => found.2.target) heq
          cases htargets
        · rcases hbefore with hblock | ⟨_, _, -, hblock, -⟩
          · cases hblock
          · cases hblock
      · intro other body' found hbody' hfound
        have hmatching : call.Matching low high _ _ := .body hbody' hfound
        rcases minBy_pairwise (pairwise_hits low high) hbest hmatching.mem_hits with
          hlt | heq | hbefore
        · exact .inl (compare_lt_iff_lt.mp hlt)
        · obtain rfl := HitTarget.body.inj (congrArg (fun found => found.2.target) heq)
          exact .inr ⟨(congrArg Prod.fst heq).symm, UInt64.le_refl _⟩
        · rcases hbefore with hblock | ⟨_, _, hfirst, hsecond, hlt⟩
          · cases hblock
          · obtain rfl := HitTarget.body.inj hfirst
            obtain rfl := HitTarget.body.inj hsecond
            rcases (hnearest _ _ hmatching).lt_or_eq with hnear | heq
            · exact .inl hnear
            · exact .inr ⟨heq, UInt64.le_of_lt hlt⟩

theorem sweep_of_foremost {id : BodyId} {body : Body} {contact : ℚ × Vec3}
    (h : call.Foremost low high id body contact) :
    call.sweep = .ok (.hit (call.bodyHit id body contact)) := by
  have hmatching : call.Matching low high _ _ := .body h.registered h.contacts
  refine sweep_eq_ok.mpr (.inr ⟨low, high, h.range, h.readable, ?_⟩)
  refine (resolve_eq_hit.mpr ⟨clampUnit contact.1, ?_, ?_⟩).symm
  · cases hbest : minBy compareFractions (call.hits low high) with
    | none => exact absurd hmatching (leastHit_eq_none hbest _ _)
    | some best =>
      obtain ⟨fraction, hit⟩ := best
      obtain ⟨hleast, hnearest⟩ := leastHit_eq_some hbest
      have hle := hnearest _ _ hmatching
      cases hleast with
      | block hcell hfound hvisit =>
        exact absurd (h.blocks _ _ _ hcell hfound hvisit) (not_lt.mpr hle)
      | @body other body' found hbody' hfound =>
        rcases h.bodies other body' found hbody' hfound with hlt | ⟨heq, hid⟩
        · exact absurd hlt (not_lt.mpr hle)
        · rcases minBy_pairwise (pairwise_hits low high) hbest hmatching.mem_hits with
            hlt | hsame | hbefore
          · exact absurd (compare_lt_iff_lt.mp hlt) (not_lt.mpr heq.le)
          · exact congrArg some hsame.symm
          · rcases hbefore with hblock | ⟨_, _, hfirst, hsecond, hlt⟩
            · cases hblock
            · obtain rfl := HitTarget.body.inj hfirst
              obtain rfl := HitTarget.body.inj hsecond
              exact absurd hlt (UInt64.not_lt.mpr hid)
  · intro other stopped hdoubt
    exact h.doubts other stopped (leastDoubt_eq_some hdoubt).1

/-- **Body hits are contacts within reach.** Every body a sweep reports is touched, at the
reported fraction first, just when every body that is foremost is reached by the end of the
displacement, and has a box, as the moving one does. -/
theorem body_hits_touch_iff (query : PhysicsQuery) (bodies : BodyTable) (shape : Aabb)
    (displacement : Vec3) (filter : MaterialMask) :
    (∀ hit id, (exactCall 0 query bodies shape displacement filter).sweep = .ok (.hit hit) →
        hit.target = .body id → ∃ body : Body, bodies[id]? = some body ∧
          IsLeast {t | 0 ≤ t ∧ t ≤ 1 ∧ shape.Touches displacement body.shape t} hit.fraction) ↔
      ∀ low high id body contact, (exactCall 0 query bodies shape displacement filter).Foremost
          low high id body contact →
        contact.1 ≤ 1 ∧ ∀ axis, 0 ≤ shape.halfExtents.get axis ∧
          0 ≤ body.shape.halfExtents.get axis := by
  constructor
  · intro h low high id body contact hforemost
    obtain ⟨body', hbody', ⟨hpos, hle, htouches⟩, -⟩ :=
      h _ id (sweep_of_foremost hforemost) rfl
    obtain rfl := Option.some.inj (hbody'.symm.trans hforemost.registered)
    have hleast := isLeast_of_bodyContact (le_refl 0) hforemost.contacts
    refine ⟨?_, fun axis => ?_⟩
    · exact (hleast.2 ⟨hpos, htouches.seen⟩).trans (clampUnit_le_one _)
    · obtain ⟨hshape, hbody, -⟩ := Aabb.touches_iff.mp htouches axis
      exact ⟨hshape, hbody⟩
  · intro h hit id hsweep htarget
    obtain ⟨low, high, body, contact, hforemost, rfl⟩ := foremost_of_sweep hsweep htarget
    obtain ⟨hreach, hextents⟩ := h low high id body contact hforemost
    have hleast := isLeast_of_bodyContact (le_refl 0) hforemost.contacts
    have hfraction : clampUnit contact.1 = contact.1 := clampUnit_of_mem hleast.1.1 hreach
    have htouches : ∀ t, shape.Touches displacement body.shape t ↔
        Seen 0 shape.center displacement (body.shape.widened shape) t := by
      intro t
      exact Aabb.touches_iff_seen (fun axis => (hextents axis).1) fun axis => (hextents axis).2
    refine ⟨body, hforemost.registered, ?_⟩
    rw [bodyHit, hfraction]
    refine ⟨⟨hleast.1.1, hreach, (htouches _).mpr hleast.1.2⟩, ?_⟩
    rintro t ⟨hpos, -, ht⟩
    exact hleast.2 ⟨hpos, (htouches t).mp ht⟩

end SweepCall

/-- One section of air. -/
def airQuery : PhysicsQuery :=
  .new (PhysicsWorld.new.insertReady originSection (.uniform ⟨0⟩))
    fun _ => some .solid

/-- A body nine blocks from the box, which moves by one. -/
def farBody : Body := ⟨⟨⟨11, 2, 2⟩, ⟨1 / 2, 1 / 2, 1 / 2⟩⟩⟩

def farBox : Aabb := ⟨⟨2, 2, 2⟩, ⟨1 / 2, 1 / 2, 1 / 2⟩⟩

def farCall : SweepCall ℚ :=
  exactCall 0 airQuery ((∅ : BodyTable).insert 7 farBody) farBox ⟨1, 0, 0⟩ ⟨1⟩

theorem far_body_hit :
    farCall.sweep = .ok (.hit (farCall.bodyHit 7 farBody (8, ⟨-1, 0, 0⟩))) ∧
      farCall.bodies[(7 : BodyId)]? = some farBody ∧
      ¬ ∃ t, 0 ≤ t ∧ t ≤ 1 ∧ farBox.Touches ⟨1, 0, 0⟩ farBody.shape t := by
  refine ⟨by decide +kernel, by decide +kernel, ?_⟩
  rintro ⟨t, -, hle, htouches⟩
  have hnear : (11 - (1 / 2 + 1 / 2) : ℚ) ≤ 2 + t * 1 := (Aabb.touches_iff.mp htouches .x).2.2.1
  linarith

end LumioVoxel
