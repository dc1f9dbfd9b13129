import LumioVoxel.GridWalks
import LumioVoxel.PhysicsLookup
import Mathlib.Data.Rat.Floor
import Mathlib.Order.Bounds.Basic

/-!
# Rays, cells and boxes

The geometry of a raycast in exact arithmetic: rationals stand for the source's
`f32`, `⊤` for its infinity, and the tolerance is zero because nothing is rounded.
A ray meets a box over an interval of parameters, and the slab test finds the first
of them.
-/

namespace LumioVoxel

open GridWalks

/-! ## 1. Axes and vectors -/

inductive Axis where
  | x
  | y
  | z
  deriving DecidableEq, Repr

/-- One value for each axis. -/
structure PerAxis (α : Type) where
  x : α
  y : α
  z : α
  deriving DecidableEq, Repr

namespace PerAxis

variable {α : Type}

def get (v : PerAxis α) : Axis → α
  | .x => v.x
  | .y => v.y
  | .z => v.z

def set (v : PerAxis α) (axis : Axis) (a : α) : PerAxis α :=
  match axis with
  | .x => { v with x := a }
  | .y => { v with y := a }
  | .z => { v with z := a }

def ofAxes (f : Axis → α) : PerAxis α := ⟨f .x, f .y, f .z⟩

@[simp] theorem get_ofAxes (f : Axis → α) (axis : Axis) : (ofAxes f).get axis = f axis := by
  cases axis <;> rfl

@[simp] theorem get_set_self (v : PerAxis α) (axis : Axis) (a : α) :
    (v.set axis a).get axis = a := by
  cases axis <;> rfl

theorem get_set_ne (v : PerAxis α) {axis other : Axis} (h : other ≠ axis) (a : α) :
    (v.set axis a).get other = v.get other := by
  cases axis <;> cases other <;> first | rfl | exact absurd rfl h

end PerAxis

abbrev Vec3 (K : Type := ℚ) : Type := PerAxis K

namespace Vec3

variable {K : Type}

def add [Add K] (v w : Vec3 K) : Vec3 K := ⟨v.x + w.x, v.y + w.y, v.z + w.z⟩

def scale [Mul K] (v : Vec3 K) (scalar : K) : Vec3 K :=
  ⟨v.x * scalar, v.y * scalar, v.z * scalar⟩

/-- A vector along one axis. -/
def along (axis : Axis) (length : ℚ) : Vec3 := PerAxis.set ⟨0, 0, 0⟩ axis length

end Vec3

namespace CellCoord

def get (cell : CellCoord) : Axis → Int32
  | .x => cell.x
  | .y => cell.y
  | .z => cell.z

def set (cell : CellCoord) (axis : Axis) (coordinate : Int32) : CellCoord :=
  match axis with
  | .x => { cell with x := coordinate }
  | .y => { cell with y := coordinate }
  | .z => { cell with z := coordinate }

@[simp] theorem get_set_self (cell : CellCoord) (axis : Axis) (coordinate : Int32) :
    (cell.set axis coordinate).get axis = coordinate := by
  cases axis <;> rfl

theorem get_set_ne (cell : CellCoord) {axis other : Axis} (h : other ≠ axis)
    (coordinate : Int32) : (cell.set axis coordinate).get other = cell.get other := by
  cases axis <;> cases other <;> first | rfl | exact absurd rfl h

theorem ext_get {cell cell' : CellCoord} (h : ∀ axis, cell.get axis = cell'.get axis) :
    cell = cell' := by
  have hx : cell.x = cell'.x := h .x
  have hy : cell.y = cell'.y := h .y
  have hz : cell.z = cell'.z := h .z
  cases cell
  cases cell'
  simp only at hx hy hz
  rw [hx, hy, hz]

end CellCoord

/-! ## 2. Machine coordinates -/

/-- The tolerance, in exact arithmetic. -/
def EPSILON : ℚ := 0

def signum (q : ℚ) : ℚ := if q < 0 then -1 else 1

/-- `floor() as i32`, which saturates. -/
def floorI32 {K : Type} [Ring K] [LinearOrder K] [FloorRing K] (value : K) : Int32 :=
  Int32.ofInt (max (-2 ^ 31) (min ⌊value⌋ (2 ^ 31 - 1)))

/-- `checked_add` on `i32`. -/
def checkedAdd (a b : Int32) : Option Int32 :=
  if -2 ^ 31 ≤ a.toInt + b.toInt ∧ a.toInt + b.toInt < 2 ^ 31 then
    some (Int32.ofInt (a.toInt + b.toInt))
  else none

/-- `saturating_sub(1)` on `i32`. -/
def saturatingPred (a : Int32) : Int32 := Int32.ofInt (max (a.toInt - 1) (-2 ^ 31))

theorem toInt_floorI32 {value : ℚ} (h : -2 ^ 31 ≤ ⌊value⌋ ∧ ⌊value⌋ < 2 ^ 31) :
    (floorI32 value).toInt = ⌊value⌋ := by
  rw [floorI32, min_eq_left (by omega), max_eq_right h.1, Int32.toInt_ofInt_of_le h.1 h.2]

theorem checkedAdd_eq_some {a b c : Int32} :
    checkedAdd a b = some c ↔ c.toInt = a.toInt + b.toInt := by
  unfold checkedAdd
  constructor
  · intro h
    split at h
    · rename_i hrange
      obtain rfl := Option.some.inj h
      exact Int32.toInt_ofInt_of_le hrange.1 hrange.2
    · cases h
  · intro h
    have hlow := c.le_toInt
    have hhigh := c.toInt_lt
    rw [if_pos (by omega), ← h, Int32.ofInt_toInt]

theorem checkedAdd_eq_none {a b : Int32} :
    checkedAdd a b = none ↔ a.toInt + b.toInt < -2 ^ 31 ∨ 2 ^ 31 ≤ a.toInt + b.toInt := by
  unfold checkedAdd
  split
  · simp only [reduceCtorEq, false_iff]
    omega
  · simp only [true_iff]
    omega

theorem toInt_saturatingPred (a : Int32) :
    (saturatingPred a).toInt = max (a.toInt - 1) (-2 ^ 31) := by
  have hhigh := a.toInt_lt
  exact Int32.toInt_ofInt_of_le (le_max_right _ _) (by omega)

/-! ## 3. Rays -/

/-- A ray with a unit direction, which normalizing leaves as it is, from a cell that has
machine coordinates. -/
structure Ray where
  origin : Vec3
  direction : Vec3
  unit : direction.x * direction.x + (direction.y * direction.y + direction.z * direction.z) = 1
  inRange : ∀ axis, -2 ^ 31 ≤ ⌊origin.get axis⌋ ∧ ⌊origin.get axis⌋ < 2 ^ 31

namespace Ray

def point (ray : Ray) (t : ℚ) : Vec3 := Vec3.add ray.origin (Vec3.scale ray.direction t)

theorem get_point (ray : Ray) (t : ℚ) (axis : Axis) :
    (ray.point t).get axis = ray.origin.get axis + t * ray.direction.get axis := by
  cases axis
  · exact congrArg (ray.origin.x + ·) (mul_comm _ _)
  · exact congrArg (ray.origin.y + ·) (mul_comm _ _)
  · exact congrArg (ray.origin.z + ·) (mul_comm _ _)

/-- The cell, its faces included, holds the point of the ray. -/
def Holds (ray : Ray) (cell : CellCoord) (t : ℚ) : Prop :=
  ∀ axis, ((cell.get axis).toInt : ℚ) ≤ (ray.point t).get axis ∧
    (ray.point t).get axis ≤ (cell.get axis).toInt + 1

/-- The point of the ray is in the interior of the cell. -/
def Meets (ray : Ray) (cell : CellCoord) (t : ℚ) : Prop :=
  ∀ axis, ((cell.get axis).toInt : ℚ) < (ray.point t).get axis ∧
    (ray.point t).get axis < (cell.get axis).toInt + 1

theorem holds_iff {ray : Ray} {cell : CellCoord} {t : ℚ} : ray.Holds cell t ↔
    ∀ axis, GridWalks.Holds (ray.origin.get axis) (ray.direction.get axis)
      (cell.get axis).toInt t := by
  simp only [Holds, GridWalks.Holds, get_point]

theorem meets_iff {ray : Ray} {cell : CellCoord} {t : ℚ} : ray.Meets cell t ↔
    ∀ axis, GridWalks.Meets (ray.origin.get axis) (ray.direction.get axis)
      (cell.get axis).toInt t := by
  simp only [Meets, GridWalks.Meets, get_point]

/-- Where the interior of one cell is met, no other cell holds the point. -/
theorem Holds.eq_of_meets {ray : Ray} {cell other : CellCoord} {t : ℚ} (h : ray.Holds cell t)
    (h' : ray.Meets other t) : other = cell := by
  apply CellCoord.ext_get
  intro axis
  exact Int32.toInt_inj.mp ((holds_iff.mp h axis).eq_of_meets (meets_iff.mp h' axis))

end Ray

/-- At a grid line a ray that descends begins in the cell below. -/
def initialCell (origin direction : ℚ) : Int32 :=
  if direction < -EPSILON ∧ |origin - (floorI32 origin).toInt| ≤ EPSILON then
    saturatingPred (floorI32 origin)
  else floorI32 origin

theorem holds_initialCell {origin : ℚ} (h : -2 ^ 31 ≤ ⌊origin⌋ ∧ ⌊origin⌋ < 2 ^ 31)
    (direction : ℚ) : GridWalks.Holds origin direction (initialCell origin direction).toInt 0 := by
  unfold initialCell
  simp only [EPSILON, toInt_floorI32 h, abs_nonpos_iff, sub_eq_zero]
  split
  · rename_i hline
    rw [toInt_saturatingPred, toInt_floorI32 h]
    rcases max_choice (⌊origin⌋ - 1) (-2 ^ 31) with hmax | hmax
    · rw [hmax]
      exact holds_floor_pred hline.2
    · have hfloor : ⌊origin⌋ = -2 ^ 31 ∨ ⌊origin⌋ - 1 = -2 ^ 31 := by omega
      rcases hfloor with hfloor | hfloor
      · rw [hmax, ← hfloor]
        exact holds_floor
      · rw [hmax, ← hfloor]
        exact holds_floor_pred hline.2
  · rw [toInt_floorI32 h]
    exact holds_floor

/-- The step of a coordinate, the parameter at which the cell is left, and the parameter
a whole cell takes. -/
def ddaAxis (origin direction : ℚ) (cell : Int32) : Int32 × WithTop ℚ × WithTop ℚ :=
  if EPSILON < direction then
    (1, (((cell.toInt + 1 - origin) / direction : ℚ) : WithTop ℚ), ((1 / direction : ℚ) : WithTop ℚ))
  else if direction < -EPSILON then
    (-1, (((origin - cell.toInt) / -direction : ℚ) : WithTop ℚ), ((1 / -direction : ℚ) : WithTop ℚ))
  else
    (0, ⊤, ⊤)

theorem ddaAxis_exit (origin direction : ℚ) (cell : Int32) :
    (ddaAxis origin direction cell).2.1 = exit origin direction cell.toInt := by
  simp only [ddaAxis, exit, EPSILON, neg_zero]
  split
  · rfl
  · split
    · rfl
    · rfl

/-! ## 4. Boxes -/

/-- Center and half-extents. -/
structure Aabb (K : Type := ℚ) where
  center : Vec3 K
  halfExtents : Vec3 K
  deriving DecidableEq, Repr

namespace Aabb

variable {K : Type}

def min [Sub K] (shape : Aabb K) : Vec3 K :=
  ⟨shape.center.x - shape.halfExtents.x, shape.center.y - shape.halfExtents.y,
    shape.center.z - shape.halfExtents.z⟩

def max [Add K] (shape : Aabb K) : Vec3 K :=
  ⟨shape.center.x + shape.halfExtents.x, shape.center.y + shape.halfExtents.y,
    shape.center.z + shape.halfExtents.z⟩

end Aabb

/-- On one axis the point is between the bounds.  On an axis along which it moves they
count in either order, which is how the slab test takes half-extents below zero. -/
def AxisCrossed (origin direction low high t : ℚ) : Prop :=
  if direction = 0 then low ≤ origin ∧ origin ≤ high
  else low ≤ origin + t * direction ∧ origin + t * direction ≤ high ∨
    high ≤ origin + t * direction ∧ origin + t * direction ≤ low

/-- The same as the slab test sees it: an axis along which the point moves by no more
than the tolerance is one on which it stands still. -/
def AxisSeen (epsilon origin direction low high t : ℚ) : Prop :=
  if |direction| ≤ epsilon then low ≤ origin ∧ origin ≤ high
  else low ≤ origin + t * direction ∧ origin + t * direction ≤ high ∨
    high ≤ origin + t * direction ∧ origin + t * direction ≤ low

theorem axisSeen_zero {origin direction low high t : ℚ} :
    AxisSeen 0 origin direction low high t ↔ AxisCrossed origin direction low high t := by
  simp only [AxisSeen, AxisCrossed, abs_nonpos_iff]

/-- The slab test sees the moving point in the box. -/
def Seen (epsilon : ℚ) (origin direction : Vec3) (shape : Aabb) (t : ℚ) : Prop :=
  ∀ axis, AxisSeen epsilon (origin.get axis) (direction.get axis) (shape.min.get axis)
    (shape.max.get axis) t

/-- The point of the ray is in the box. -/
def Ray.Crosses (ray : Ray) (shape : Aabb) (t : ℚ) : Prop :=
  ∀ axis, AxisCrossed (ray.origin.get axis) (ray.direction.get axis) (shape.min.get axis)
    (shape.max.get axis) t

/-! ## 5. The slab test -/

/-- The parameters not yet excluded, and the face through which the ray came in. -/
structure Slab where
  entry : ℚ
  exit : WithTop ℚ
  normal : Vec3

namespace Slab

def Within (slab : Slab) (t : ℚ) : Prop := slab.entry ≤ t ∧ (t : WithTop ℚ) ≤ slab.exit

def narrow (slab : Slab) (near far : ℚ) (nearNormal : Vec3) : Slab where
  entry := if slab.entry < near then near else slab.entry
  normal := if slab.entry < near then nearNormal else slab.normal
  exit := min slab.exit far

/-- Nothing is left when the entry is past the exit. -/
def checked (slab : Slab) : Option Slab := if slab.exit < slab.entry then none else some slab

/-- One round of the loop over the axes. -/
def clip (epsilon : ℚ) (slab : Slab) (origin direction low high : ℚ) (axis : Axis) :
    Option Slab :=
  if |direction| ≤ epsilon then
    if origin < low ∨ high < origin then none else some slab
  else if (high - origin) * (1 / direction) < (low - origin) * (1 / direction) then
    (slab.narrow ((high - origin) * (1 / direction)) ((low - origin) * (1 / direction))
      (Vec3.along axis (signum direction))).checked
  else
    (slab.narrow ((low - origin) * (1 / direction)) ((high - origin) * (1 / direction))
      (Vec3.along axis (-signum direction))).checked

theorem within_narrow {slab : Slab} {near far t : ℚ} {nearNormal : Vec3} :
    (slab.narrow near far nearNormal).Within t ↔ slab.Within t ∧ near ≤ t ∧ t ≤ far := by
  have hentry : (if slab.entry < near then near else slab.entry) ≤ t ↔
      slab.entry ≤ t ∧ near ≤ t := by
    split
    · rename_i hlt
      exact ⟨fun h => ⟨hlt.le.trans h, h⟩, And.right⟩
    · rename_i hge
      exact ⟨fun h => ⟨h, (not_lt.mp hge).trans h⟩, And.left⟩
  simp only [Within, narrow, hentry, le_min_iff, WithTop.coe_le_coe]
  tauto

/-- What is left is an interval that is not empty and begins no earlier. -/
theorem checked_narrow {slab : Slab} {near far : ℚ} {nearNormal : Vec3}
    (hentry : 0 ≤ slab.entry) :
    (∃ next, (slab.narrow near far nearNormal).checked = some next ∧ 0 ≤ next.entry ∧
        next.Within next.entry ∧ ∀ t, next.Within t ↔ slab.Within t ∧ near ≤ t ∧ t ≤ far) ∨
      (slab.narrow near far nearNormal).checked = none ∧
        ∀ t, ¬ (slab.Within t ∧ near ≤ t ∧ t ≤ far) := by
  unfold checked
  split
  · rename_i hempty
    refine .inr ⟨rfl, fun t ht => ?_⟩
    obtain ⟨hfrom, hto⟩ := within_narrow.mpr ht
    exact absurd ((WithTop.coe_le_coe.mpr hfrom).trans hto) (not_le.mpr hempty)
  · rename_i hsome
    refine .inl ⟨_, rfl, ?_, ⟨le_refl _, not_lt.mp hsome⟩, fun t => within_narrow⟩
    simp only [narrow]
    split
    · rename_i hlt
      exact hentry.trans hlt.le
    · exact hentry

/-- **One axis.** The parameters left are those at which the point is between the bounds
on this axis too. -/
theorem clip_cases {epsilon : ℚ} (hepsilon : 0 ≤ epsilon) {slab : Slab} (hentry : 0 ≤ slab.entry)
    (hwithin : slab.Within slab.entry) (origin direction low high : ℚ) (axis : Axis) :
    (∃ next, slab.clip epsilon origin direction low high axis = some next ∧ 0 ≤ next.entry ∧
        next.Within next.entry ∧
        ∀ t, next.Within t ↔ slab.Within t ∧ AxisSeen epsilon origin direction low high t) ∨
      slab.clip epsilon origin direction low high axis = none ∧
        ∀ t, ¬ (slab.Within t ∧ AxisSeen epsilon origin direction low high t) := by
  unfold clip
  by_cases hslow : |direction| ≤ epsilon
  · simp only [AxisSeen, if_pos hslow]
    split
    · rename_i hout
      refine .inr ⟨rfl, fun t ht => ?_⟩
      rcases hout with hlow | hhigh
      · exact absurd ht.2.1 (not_le.mpr hlow)
      · exact absurd ht.2.2 (not_le.mpr hhigh)
    · rename_i hin
      rw [not_or, not_lt, not_lt] at hin
      exact .inl ⟨slab, rfl, hentry, hwithin, fun t => (and_iff_left hin).symm⟩
  · have hzero : direction ≠ 0 := by
      rintro rfl
      exact hslow (abs_zero.trans_le hepsilon)
    simp only [AxisSeen, if_neg hslow, between_iff hzero]
    split
    · rename_i hswap
      have hone : ∀ t, ((low - origin) * (1 / direction) ≤ t ∧ t ≤ (high - origin) * (1 / direction) ∨
          (high - origin) * (1 / direction) ≤ t ∧ t ≤ (low - origin) * (1 / direction)) ↔
            (high - origin) * (1 / direction) ≤ t ∧ t ≤ (low - origin) * (1 / direction) :=
        fun t => or_iff_right fun h => absurd (h.1.trans h.2) (not_le.mpr hswap)
      simp only [hone]
      exact checked_narrow hentry
    · rename_i hkeep
      have hone : ∀ t, ((low - origin) * (1 / direction) ≤ t ∧ t ≤ (high - origin) * (1 / direction) ∨
          (high - origin) * (1 / direction) ≤ t ∧ t ≤ (low - origin) * (1 / direction)) ↔
            (low - origin) * (1 / direction) ≤ t ∧ t ≤ (high - origin) * (1 / direction) := by
        intro t
        refine or_iff_left_of_imp fun h => ?_
        have heq := le_antisymm (not_lt.mp hkeep) (h.1.trans h.2)
        exact ⟨heq ▸ h.1, heq ▸ h.2⟩
      simp only [hone]
      exact checked_narrow hentry

end Slab

/-- The parameter at which the moving point enters the box, and the face it enters
through. -/
def rayAabbWithin (epsilon : ℚ) (origin direction : Vec3) (shape : Aabb) :
    Option (ℚ × Vec3) := do
  let slab ← Slab.clip epsilon ⟨0, ⊤, ⟨0, 0, 0⟩⟩ origin.x direction.x shape.min.x shape.max.x .x
  let slab ← slab.clip epsilon origin.y direction.y shape.min.y shape.max.y .y
  let slab ← slab.clip epsilon origin.z direction.z shape.min.z shape.max.z .z
  if slab.exit < 0 then none else some (max slab.entry 0, slab.normal)

def rayAabb (origin direction : Vec3) (shape : Aabb) : Option (ℚ × Vec3) :=
  rayAabbWithin EPSILON origin direction shape

/-- **The slab test.** It finds the first parameter at which it sees the point in the box,
and nothing only when there is none. -/
theorem rayAabbWithin_cases {epsilon : ℚ} (hepsilon : 0 ≤ epsilon) (origin direction : Vec3)
    (shape : Aabb) :
    (∃ t normal, rayAabbWithin epsilon origin direction shape = some (t, normal) ∧
        IsLeast {t | 0 ≤ t ∧ Seen epsilon origin direction shape t} t) ∨
      rayAabbWithin epsilon origin direction shape = none ∧
        ∀ t, 0 ≤ t → ¬ Seen epsilon origin direction shape t := by
  have haxes : ∀ t, Seen epsilon origin direction shape t ↔
      AxisSeen epsilon origin.x direction.x shape.min.x shape.max.x t ∧
        AxisSeen epsilon origin.y direction.y shape.min.y shape.max.y t ∧
          AxisSeen epsilon origin.z direction.z shape.min.z shape.max.z t := by
    intro t
    refine ⟨fun h => ⟨h .x, h .y, h .z⟩, ?_⟩
    rintro ⟨hx, hy, hz⟩ (_ | _ | _)
    · exact hx
    · exact hy
    · exact hz
  have hstart : ∀ t, (⟨0, ⊤, ⟨0, 0, 0⟩⟩ : Slab).Within t ↔ 0 ≤ t := fun t => and_iff_left le_top
  unfold rayAabbWithin
  rcases Slab.clip_cases hepsilon (le_refl _) ((hstart 0).mpr (le_refl 0)) origin.x direction.x
    shape.min.x shape.max.x .x with ⟨slabx, hclipx, hentryx, hinx, hx⟩ | ⟨hclipx, hx⟩
  · rcases Slab.clip_cases hepsilon hentryx hinx origin.y direction.y shape.min.y shape.max.y .y
      with ⟨slaby, hclipy, hentryy, hiny, hy⟩ | ⟨hclipy, hy⟩
    · rcases Slab.clip_cases hepsilon hentryy hiny origin.z direction.z shape.min.z shape.max.z .z
        with ⟨slabz, hclipz, hentryz, hinz, hz⟩ | ⟨hclipz, hz⟩
      · have hall : ∀ t, slabz.Within t ↔ 0 ≤ t ∧ Seen epsilon origin direction shape t := by
          intro t
          rw [hz, hy, hx, hstart, haxes]
          tauto
        have hexit : ¬ slabz.exit < 0 := by
          have hzero : ((0 : ℚ) : WithTop ℚ) ≤ slabz.entry := WithTop.coe_le_coe.mpr hentryz
          exact not_lt.mpr (hzero.trans hinz.2)
        refine .inl ⟨slabz.entry, slabz.normal, ?_, (hall _).mp hinz, ?_⟩
        · simp only [hclipx, hclipy, hclipz, Option.bind_eq_bind, Option.bind_some, if_neg hexit,
            max_eq_left hentryz]
        · intro t ht
          exact ((hall t).mpr ht).1
      · refine .inr ⟨?_, fun t hpos hseen => ?_⟩
        · simp only [hclipx, hclipy, hclipz, Option.bind_eq_bind, Option.bind_some,
            Option.bind_none]
        · obtain ⟨hcx, hcy, hcz⟩ := (haxes t).mp hseen
          exact hz t ⟨(hy t).mpr ⟨(hx t).mpr ⟨(hstart t).mpr hpos, hcx⟩, hcy⟩, hcz⟩
    · refine .inr ⟨?_, fun t hpos hseen => ?_⟩
      · simp only [hclipx, hclipy, Option.bind_eq_bind, Option.bind_some, Option.bind_none]
      · obtain ⟨hcx, hcy, -⟩ := (haxes t).mp hseen
        exact hy t ⟨(hx t).mpr ⟨(hstart t).mpr hpos, hcx⟩, hcy⟩
  · refine .inr ⟨?_, fun t hpos hseen => ?_⟩
    · simp only [hclipx, Option.bind_eq_bind, Option.bind_none]
    · exact hx t ⟨(hstart t).mpr hpos, ((haxes t).mp hseen).1⟩

section Contacts

variable {epsilon : ℚ} {origin direction : Vec3} {shape : Aabb}

/-- A contact is where the slab test first sees the point in the box. -/
theorem isLeast_of_rayAabbWithin (hepsilon : 0 ≤ epsilon) {contact : ℚ × Vec3}
    (h : rayAabbWithin epsilon origin direction shape = some contact) :
    IsLeast {t | 0 ≤ t ∧ Seen epsilon origin direction shape t} contact.1 := by
  rcases rayAabbWithin_cases hepsilon origin direction shape with
    ⟨t, normal, hsome, hleast⟩ | ⟨hnone, -⟩
  · obtain rfl := Option.some.inj (hsome.symm.trans h)
    exact hleast
  · cases hnone.symm.trans h

/-- What is seen has a contact, no later. -/
theorem exists_contact_of_seen (hepsilon : 0 ≤ epsilon) {t : ℚ} (hpos : 0 ≤ t)
    (hseen : Seen epsilon origin direction shape t) :
    ∃ contact, rayAabbWithin epsilon origin direction shape = some contact ∧ contact.1 ≤ t := by
  rcases rayAabbWithin_cases hepsilon origin direction shape with
    ⟨u, normal, hsome, hleast⟩ | ⟨-, hnever⟩
  · exact ⟨_, hsome, hleast.2 ⟨hpos, hseen⟩⟩
  · exact absurd hseen (hnever t hpos)

end Contacts

theorem rayAabb_cases (ray : Ray) (shape : Aabb) :
    (∃ t normal, rayAabb ray.origin ray.direction shape = some (t, normal) ∧
        IsLeast {t | 0 ≤ t ∧ ray.Crosses shape t} t) ∨
      rayAabb ray.origin ray.direction shape = none ∧ ∀ t, 0 ≤ t → ¬ ray.Crosses shape t := by
  have hcrosses : ∀ t, Seen EPSILON ray.origin ray.direction shape t ↔ ray.Crosses shape t := by
    intro t
    exact forall_congr' fun axis => axisSeen_zero
  have hcases := rayAabbWithin_cases (le_refl EPSILON) ray.origin ray.direction shape
  simp only [hcrosses] at hcases
  exact hcases

end LumioVoxel
