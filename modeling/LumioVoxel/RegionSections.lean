import LumioVoxel.BulkReadAgreement
import LumioVoxel.RegionPins
import Mathlib.Data.Set.Card
import Mathlib.Order.Interval.Finset.Nat
import Mathlib.Data.Int.Interval

/-!
# The sections of a region

A block region is expanded into the keys of the sections it touches, for a pin to declare.
The expansion is refused before it starts if the region is empty, leaves the world's height
or touches more sections than the budget allows; the count is taken from the corners alone,
on machine integers.
-/

namespace LumioVoxel

open Attempts Fallible

/-! ## 1. Expanding a region -/

/-- A region of blocks, both ends included on every axis. -/
structure BlockRegion where
  minX : Int32
  maxX : Int32
  minY : Int64
  maxY : Int64
  minZ : Int32
  maxZ : Int32
  deriving DecidableEq, Repr

/-- The coordinates of the sections at the corners of a region. -/
structure SectionBounds where
  minX : Int32
  maxX : Int32
  minY : UInt8
  maxY : UInt8
  minZ : Int32
  maxZ : Int32
  deriving DecidableEq, Repr

/-- `low..=high` on bytes. -/
def inclusive8 (low high : UInt8) : List UInt8 :=
  (List.range (high.toNat + 1 - low.toNat)).map fun n => UInt8.ofNat (low.toNat + n)

/-- The subtraction and the addition are unchecked in the source and panic where they
overflow. -/
def inclusiveSpan (low high : Int32) : Attempt RegionPinError Nat := do
  let delta ← Attempt.expect (checkedI64 (high.toInt64.toInt - low.toInt64.toInt))
  let span ← Attempt.expect (checkedI64 (delta.toInt + 1))
  return (usizeOfI64 span).getD (2 ^ 64 - 1)

/-- The corners' sections, if the region has blocks and stays within the world's height. -/
def sectionBounds (region : BlockRegion) : Except RegionPinError SectionBounds := do
  require (¬ (region.maxX.toInt < region.minX.toInt ∨ region.maxY.toInt < region.minY.toInt ∨
    region.maxZ.toInt < region.minZ.toInt)) .invalidHandle
  let minY ← (WorldY.new region.minY).mapError fun _ => RegionPinError.worldYOutOfRange
  let maxY ← (WorldY.new region.maxY).mapError fun _ => RegionPinError.worldYOutOfRange
  return ⟨divEuclid16 region.minX, divEuclid16 region.maxX, minY.sectionY, maxY.sectionY,
    divEuclid16 region.minZ, divEuclid16 region.maxZ⟩

namespace SectionBounds

/-- How many sections lie between the corners. -/
def count (bounds : SectionBounds) : Attempt RegionPinError Nat := do
  let spanX ← inclusiveSpan bounds.minX bounds.maxX
  let spanY ← inclusiveSpan bounds.minY.toUInt32.toInt32 bounds.maxY.toUInt32.toInt32
  let spanZ ← inclusiveSpan bounds.minZ bounds.maxZ
  Attempt.call (someOr ((checkedMulUsize spanX spanY).bind fun count =>
    checkedMulUsize count spanZ) .budgetExceeded)

/-- The key of one section, whose construction is unwrapped in the source. -/
def insertKey (x : Int32) (y : UInt8) (sections : SectionKeySet) (z : Int32) :
    Attempt RegionPinError SectionKeySet := do
  let id ← Attempt.expect (SectionId.new x y.toUInt64.toInt64 z).toOption
  return sections.insert id.key

/-- The three nested loops over the sections between the corners. -/
def collect (bounds : SectionBounds) : Attempt RegionPinError SectionKeySet :=
  Attempt.foldSteps (fun sections x =>
    Attempt.foldSteps (fun sections y =>
      Attempt.foldSteps (insertKey x y) sections (inclusive bounds.minZ bounds.maxZ))
      sections (inclusive8 bounds.minY bounds.maxY))
    ∅ (inclusive bounds.minX bounds.maxX)

end SectionBounds

def sectionKeysForRegion (region : BlockRegion) (budget : PinBudget) :
    Attempt RegionPinError (List String) := do
  let bounds ← Attempt.call (sectionBounds region)
  let count ← bounds.count
  Attempt.check (count ≤ min budget.callerSections budget.hostSections) .budgetExceeded
  let sections ← bounds.collect
  return sections.toList

/-! ## 2. The sections between two corners -/

theorem mem_inclusive8 {low high a : UInt8} :
    a ∈ inclusive8 low high ↔ low.toNat ≤ a.toNat ∧ a.toNat ≤ high.toNat := by
  have hhigh := high.toNat_lt
  have hbyte : ∀ n, n < 256 → (UInt8.ofNat n).toNat = n := fun n hn => UInt8.toNat_ofNat_of_lt' hn
  simp only [inclusive8, List.mem_map, List.mem_range]
  constructor
  · rintro ⟨n, hn, rfl⟩
    rw [hbyte _ (by omega)]
    omega
  · rintro ⟨hfrom, hto⟩
    refine ⟨a.toNat - low.toNat, by omega, ?_⟩
    rw [← UInt8.toNat_inj, hbyte _ (by omega)]
    omega

theorem inclusiveSpan_eq {low high : Int32} (h : low.toInt ≤ high.toInt) :
    inclusiveSpan low high = .value (high.toInt - low.toInt + 1).toNat := by
  have hlow := low.le_toInt
  have hhigh := high.toInt_lt
  obtain ⟨hdelta, hdeltaInt⟩ := checkedI64_of_mem (v := high.toInt - low.toInt) (by omega)
    (by omega)
  obtain ⟨hspan, hspanInt⟩ := checkedI64_of_mem (v := high.toInt - low.toInt + 1) (by omega)
    (by omega)
  have husize : usizeOfI64 (Int64.ofInt (high.toInt - low.toInt + 1)) =
      some (high.toInt - low.toInt + 1).toNat := by
    rw [usizeOfI64, hspanInt]
    exact if_pos (by omega)
  simp only [inclusiveSpan, Int32.toInt_toInt64, hdelta, hdeltaInt, hspan, Attempt.expect,
    Attempt.value_bind, husize, Option.getD_some]
  rfl

theorem toInt_layer (y : UInt8) : y.toUInt32.toInt32.toInt = y.toNat := by
  have hlt := y.toNat_lt
  have hint : y.toUInt32.toInt32.toInt = y.toUInt32.toBitVec.toInt := rfl
  rw [hint, BitVec.toInt_eq_toNat_cond, UInt32.toNat_toBitVec, UInt8.toNat_toUInt32]
  omega

namespace SectionBounds

/-- Corners in order, in layers of the world. -/
structure Ordered (bounds : SectionBounds) : Prop where
  x : bounds.minX.toInt ≤ bounds.maxX.toInt
  y : bounds.minY.toNat ≤ bounds.maxY.toNat
  z : bounds.minZ.toInt ≤ bounds.maxZ.toInt
  layer : bounds.maxY.toNat ≤ SECTION_Y_MAX

/-- The section lies between the corners. -/
structure Holds (bounds : SectionBounds) (id : SectionId) : Prop where
  x : bounds.minX.toInt ≤ id.x ∧ id.x ≤ bounds.maxX.toInt
  y : bounds.minY.toNat ≤ id.y ∧ id.y ≤ bounds.maxY.toNat
  z : bounds.minZ.toInt ≤ id.z ∧ id.z ≤ bounds.maxZ.toInt

/-- The sections between the corners, by their coordinates. -/
theorem ncard_holds {bounds : SectionBounds} (h : bounds.Ordered) :
    {id | bounds.Holds id}.ncard = (bounds.maxX.toInt - bounds.minX.toInt + 1).toNat *
      (bounds.maxY.toNat - bounds.minY.toNat + 1) *
      (bounds.maxZ.toInt - bounds.minZ.toInt + 1).toNat := by
  let coordinates (id : SectionId) : (ℤ × ℕ) × ℤ := ((id.x, id.y), id.z)
  let box : Finset ((ℤ × ℕ) × ℤ) :=
    (Finset.Icc bounds.minX.toInt bounds.maxX.toInt ×ˢ
      Finset.Icc bounds.minY.toNat bounds.maxY.toNat) ×ˢ
      Finset.Icc bounds.minZ.toInt bounds.maxZ.toInt
  have hinjective : Function.Injective coordinates := by
    intro a b hab
    simp only [coordinates, Prod.mk.injEq] at hab
    exact SectionId.ext hab.1.1 hab.1.2 hab.2
  have himage : coordinates '' {id | bounds.Holds id} = ↑box := by
    ext ⟨⟨x, y⟩, z⟩
    simp only [Set.mem_image, Set.mem_ofPred_eq, coordinates, Prod.mk.injEq, box, Finset.mem_coe,
      Finset.mem_product, Finset.mem_Icc]
    constructor
    · rintro ⟨id, hid, ⟨rfl, rfl⟩, rfl⟩
      exact ⟨⟨hid.x, hid.y⟩, hid.z⟩
    · rintro ⟨⟨hx, hy⟩, hz⟩
      have hminX := coordinate_mem bounds.minX
      have hmaxX := coordinate_mem bounds.maxX
      have hminZ := coordinate_mem bounds.minZ
      have hmaxZ := coordinate_mem bounds.maxZ
      exact ⟨⟨x, y, z, ⟨by omega, by omega⟩, hy.2.trans h.layer, ⟨by omega, by omega⟩⟩,
        ⟨hx, hy, hz⟩, ⟨rfl, rfl⟩, rfl⟩
  have hspan : ∀ low high : ℤ, (high + 1 - low).toNat = (high - low + 1).toNat := by
    intro low high
    omega
  have hlayers : bounds.maxY.toNat + 1 - bounds.minY.toNat =
      bounds.maxY.toNat - bounds.minY.toNat + 1 := by
    have := h.y
    omega
  rw [← Set.ncard_image_of_injective _ hinjective, himage, Set.ncard_coe_finset,
    Finset.card_product, Finset.card_product, Int.card_Icc, Int.card_Icc, Nat.card_Icc, hspan,
    hspan, hlayers]

/-- **Counting.** No span and no product overflows: the count is the number of sections. -/
theorem count_eq {bounds : SectionBounds} (h : bounds.Ordered)
    (hnarrow : (bounds.maxX.toInt - bounds.minX.toInt + 1).toNat ≤ 2 ^ 28 ∧
      (bounds.maxZ.toInt - bounds.minZ.toInt + 1).toNat ≤ 2 ^ 28) :
    bounds.count = .value {id | bounds.Holds id}.ncard := by
  have hy : (bounds.maxY.toUInt32.toInt32.toInt - bounds.minY.toUInt32.toInt32.toInt + 1).toNat =
      bounds.maxY.toNat - bounds.minY.toNat + 1 := by
    have := h.y
    rw [toInt_layer, toInt_layer]
    omega
  have hordered : bounds.minY.toUInt32.toInt32.toInt ≤ bounds.maxY.toUInt32.toInt32.toInt := by
    rw [toInt_layer, toInt_layer]
    exact Int.ofNat_le.mpr h.y
  have hlayer := h.layer
  simp only [SECTION_Y_MAX] at hlayer
  rw [count, inclusiveSpan_eq h.x, inclusiveSpan_eq hordered, inclusiveSpan_eq h.z, ncard_holds h,
    hy]
  generalize (bounds.maxX.toInt - bounds.minX.toInt + 1).toNat = spanX at *
  generalize (bounds.maxZ.toInt - bounds.minZ.toInt + 1).toNat = spanZ at *
  have hspanY : bounds.maxY.toNat - bounds.minY.toNat + 1 ≤ 16 := by omega
  generalize bounds.maxY.toNat - bounds.minY.toNat + 1 = spanY at *
  have hplane : spanX * spanY ≤ 2 ^ 28 * 16 := Nat.mul_le_mul hnarrow.1 hspanY
  have hbox : spanX * spanY * spanZ ≤ 2 ^ 28 * 16 * 2 ^ 28 := Nat.mul_le_mul hplane hnarrow.2
  have hfirst : checkedMulUsize spanX spanY = some (spanX * spanY) := if_pos (by omega)
  have hsecond : checkedMulUsize (spanX * spanY) spanZ = some (spanX * spanY * spanZ) :=
    if_pos (by omega)
  simp only [Attempt.value_bind, hfirst, Option.bind_some, hsecond, someOr, Attempt.call]

/-- One step of the innermost loop: the construction is never refused on a layer of the world. -/
theorem insertKey_eq {x z : Int32} {y : UInt8} (hy : y.toNat ≤ SECTION_Y_MAX)
    (sections : SectionKeySet) :
    ∃ sections', insertKey x y sections z = .value sections' ∧ ∀ key, key ∈ sections' ↔
      key ∈ sections ∨ key = (SectionId.mk x.toInt y.toNat z.toInt (coordinate_mem x) hy
        (coordinate_mem z)).key := by
  have hlayer : y.toUInt64.toInt64.toInt = y.toNat := by
    have hlt := y.toNat_lt
    have hint : y.toUInt64.toInt64.toInt = y.toUInt64.toBitVec.toInt := rfl
    rw [hint, BitVec.toInt_eq_toNat_cond, UInt64.toNat_toBitVec, UInt8.toNat_toUInt64]
    omega
  rw [insertKey, SectionId.new_of_layer hy hlayer]
  refine ⟨_, rfl, ?_⟩
  intro key
  rw [Std.ExtTreeSet.mem_insert, Std.compare_eq_iff_eq, or_comm, eq_comm]

/-- **Collecting.** No construction panics, and the keys are those of the sections between the
corners. -/
theorem collect_eq {bounds : SectionBounds} (h : bounds.Ordered) :
    ∃ sections, bounds.collect = .value sections ∧
      ∀ key, key ∈ sections ↔ ∃ id, bounds.Holds id ∧ key = id.key := by
  let At (key : String) (x : ℤ) (y : ℕ) (z : ℤ) : Prop :=
    ∃ id : SectionId, (id.x = x ∧ id.y = y ∧ id.z = z) ∧ key = id.key
  have hlayer : ∀ y ∈ inclusive8 bounds.minY bounds.maxY, y.toNat ≤ SECTION_Y_MAX :=
    fun y hy => (mem_inclusive8.mp hy).2.trans h.layer
  have hcell : ∀ x y, y.toNat ≤ SECTION_Y_MAX → ∀ z sections, ∃ sections',
      insertKey x y sections z = .value sections' ∧
        ∀ key, key ∈ sections' ↔ key ∈ sections ∨ At key x.toInt y.toNat z.toInt := by
    intro x y hy z sections
    obtain ⟨sections', hinsert, hmem⟩ := insertKey_eq (x := x) (z := z) hy sections
    refine ⟨sections', hinsert, ?_⟩
    intro key
    rw [hmem]
    apply or_congr_right
    constructor
    · intro hkey
      exact ⟨_, ⟨rfl, rfl, rfl⟩, hkey⟩
    · rintro ⟨id, ⟨hx, hy, hz⟩, rfl⟩
      exact congrArg SectionId.key (SectionId.ext hx hy hz)
  obtain ⟨sections, hsections, hmem⟩ := Attempt.foldSteps_adds
    (S := fun (sections : SectionKeySet) key => key ∈ sections)
    (fun x (_ : x ∈ inclusive bounds.minX bounds.maxX) => Attempt.foldSteps_adds
      fun y hy => Attempt.foldSteps_adds
        fun z (_ : z ∈ inclusive bounds.minZ bounds.maxZ) => hcell x y (hlayer y hy) z) ∅
  refine ⟨sections, hsections, ?_⟩
  intro key
  rw [hmem, or_iff_right Std.ExtTreeSet.not_mem_empty]
  constructor
  · rintro ⟨x, hx, y, hy, z, hz, id, ⟨hidX, hidY, hidZ⟩, rfl⟩
    refine ⟨id, ⟨?_, ?_, ?_⟩, rfl⟩
    · rw [hidX]
      exact mem_inclusive.mp hx
    · rw [hidY]
      exact mem_inclusive8.mp hy
    · rw [hidZ]
      exact mem_inclusive.mp hz
  · rintro ⟨id, hid, rfl⟩
    have hx : (Int32.ofInt id.x).toInt = id.x :=
      Int32.toInt_ofInt_of_le id.x_mem.1 (Int.lt_of_le_of_lt id.x_mem.2 (by decide))
    have hz : (Int32.ofInt id.z).toInt = id.z :=
      Int32.toInt_ofInt_of_le id.z_mem.1 (Int.lt_of_le_of_lt id.z_mem.2 (by decide))
    have hy : (UInt8.ofNat id.y).toNat = id.y :=
      UInt8.toNat_ofNat_of_lt' (Nat.lt_of_le_of_lt id.y_le (by decide))
    refine ⟨Int32.ofInt id.x, mem_inclusive.mpr ?_, UInt8.ofNat id.y, mem_inclusive8.mpr ?_,
      Int32.ofInt id.z, mem_inclusive.mpr ?_, id, ⟨hx.symm, hy.symm, hz.symm⟩, rfl⟩
    · rw [hx]
      exact hid.x
    · rw [hy]
      exact hid.y
    · rw [hz]
      exact hid.z

end SectionBounds

/-! ## 3. The sections of a region -/

/-- The block at these coordinates is one of the region's. -/
def BlockRegion.Contains (region : BlockRegion) (x : Int32) (y : WorldY) (z : Int32) : Prop :=
  (region.minX.toInt ≤ x.toInt ∧ x.toInt ≤ region.maxX.toInt) ∧
    (region.minY.toInt ≤ y.value.toNat ∧ y.value.toNat ≤ region.maxY.toInt) ∧
    region.minZ.toInt ≤ z.toInt ∧ z.toInt ≤ region.maxZ.toInt

/-- The sections that contain at least one block of the region. -/
def BlockRegion.sections (region : BlockRegion) : Set SectionId :=
  {id | ∃ x y z, region.Contains x y z ∧ SectionId.ofCell x y z = id}

/-- The region has at least one block on every axis. -/
structure BlockRegion.NonEmpty (region : BlockRegion) : Prop where
  x : region.minX.toInt ≤ region.maxX.toInt
  y : region.minY.toInt ≤ region.maxY.toInt
  z : region.minZ.toInt ≤ region.maxZ.toInt

/-- None of the region's layers is outside the world. -/
structure BlockRegion.InHeight (region : BlockRegion) : Prop where
  bottom : 0 ≤ region.minY.toInt
  top : region.maxY.toInt ≤ 255

theorem sectionBounds_eq_ok {region : BlockRegion} {bounds : SectionBounds} :
    sectionBounds region = .ok bounds ↔ region.NonEmpty ∧ ∃ minY maxY : WorldY,
      (region.minY.toInt = minY.value.toNat ∧ region.maxY.toInt = maxY.value.toNat) ∧
      bounds = ⟨divEuclid16 region.minX, divEuclid16 region.maxX, minY.sectionY, maxY.sectionY,
        divEuclid16 region.minZ, divEuclid16 region.maxZ⟩ := by
  simp only [sectionBounds, bind_eq_ok, require_eq_ok, mapError_eq_ok, WorldY.new_eq_ok, pure_eq_ok,
    exists_and_left, exists_const]
  constructor
  · rintro ⟨hordered, minY, hminY, maxY, hmaxY, rfl⟩
    refine ⟨⟨?_, ?_, ?_⟩, minY, maxY, ⟨hminY, hmaxY⟩, rfl⟩
    all_goals omega
  · rintro ⟨hregion, minY, maxY, ⟨hminY, hmaxY⟩, rfl⟩
    have := hregion.x
    have := hregion.y
    have := hregion.z
    exact ⟨by omega, minY, hminY, maxY, hmaxY, rfl⟩

/-- The corners are refused for an empty region first, then for its height. -/
theorem sectionBounds_cases (region : BlockRegion) :
    (¬ region.NonEmpty ∧ sectionBounds region = .error .invalidHandle) ∨
    (region.NonEmpty ∧ ¬ region.InHeight ∧ sectionBounds region = .error .worldYOutOfRange) ∨
    region.NonEmpty ∧ region.InHeight ∧ ∃ bounds, sectionBounds region = .ok bounds := by
  by_cases hempty : region.maxX.toInt < region.minX.toInt ∨
      region.maxY.toInt < region.minY.toInt ∨ region.maxZ.toInt < region.minZ.toInt
  · refine .inl ⟨?_, ?_⟩
    · rintro ⟨hx, hy, hz⟩
      omega
    · rw [sectionBounds, require_of_not (not_not.mpr hempty)]
      rfl
  have hregion : region.NonEmpty := by
    constructor
    all_goals omega
  refine .inr ?_
  cases hminY : WorldY.new region.minY with
  | error err =>
    refine .inl ⟨hregion, ?_, ?_⟩
    · rintro ⟨hbottom, htop⟩
      obtain ⟨y, hy⟩ := WorldY.exists_new hbottom (hregion.y.trans htop)
      cases hminY.symm.trans hy
    · rw [sectionBounds, require_of hempty, hminY]
      rfl
  | ok minY =>
    have hlow := WorldY.new_eq_ok.mp hminY
    cases hmaxY : WorldY.new region.maxY with
    | error err =>
      refine .inl ⟨hregion, ?_, ?_⟩
      · rintro ⟨hbottom, htop⟩
        obtain ⟨y, hy⟩ := WorldY.exists_new (hbottom.trans hregion.y) htop
        cases hmaxY.symm.trans hy
      · rw [sectionBounds, require_of hempty, hminY, hmaxY]
        rfl
    | ok maxY =>
      have hhigh := WorldY.new_eq_ok.mp hmaxY
      have hlt := maxY.value.toNat_lt
      refine .inr ⟨hregion, ⟨by omega, by omega⟩, _, sectionBounds_eq_ok.mpr
        ⟨hregion, minY, maxY, ⟨hlow, hhigh⟩, rfl⟩⟩

/-- The sections of the corners bound an axis: some number in the range lies in each section
between them. -/
private theorem between_iff {low high n : ℤ} (h : low ≤ high) :
    (low / 16 ≤ n ∧ n ≤ high / 16) ↔ ∃ v, (low ≤ v ∧ v ≤ high) ∧ v / 16 = n := by
  constructor
  · rintro ⟨hfrom, hto⟩
    refine ⟨max low (16 * n), ?_, ?_⟩
    · omega
    · omega
  · rintro ⟨v, hv, rfl⟩
    omega

/-- The sections between the corners' sections are those with a block of the region. -/
theorem holds_iff {region : BlockRegion} {bounds : SectionBounds}
    (h : sectionBounds region = .ok bounds) (id : SectionId) :
    bounds.Holds id ↔ id ∈ region.sections := by
  obtain ⟨hregion, minY, maxY, ⟨hminY, hmaxY⟩, rfl⟩ := sectionBounds_eq_ok.mp h
  have hholds : (SectionBounds.Holds ⟨divEuclid16 region.minX, divEuclid16 region.maxX,
      minY.sectionY, maxY.sectionY, divEuclid16 region.minZ, divEuclid16 region.maxZ⟩ id) ↔
      (region.minX.toInt / 16 ≤ id.x ∧ id.x ≤ region.maxX.toInt / 16) ∧
        (region.minY.toInt / 16 ≤ id.y ∧ id.y ≤ region.maxY.toInt / 16) ∧
        region.minZ.toInt / 16 ≤ id.z ∧ id.z ≤ region.maxZ.toInt / 16 := by
    have hlow : region.minY.toInt / 16 = (minY.sectionY.toNat : ℤ) := by
      rw [hminY, WorldY.toNat_sectionY]
      rfl
    have hhigh : region.maxY.toInt / 16 = (maxY.sectionY.toNat : ℤ) := by
      rw [hmaxY, WorldY.toNat_sectionY]
      rfl
    rw [hlow, hhigh, Int.ofNat_le, Int.ofNat_le, ← toInt_divEuclid16, ← toInt_divEuclid16,
      ← toInt_divEuclid16, ← toInt_divEuclid16]
    constructor
    · intro hid
      exact ⟨hid.x, hid.y, hid.z⟩
    · rintro ⟨hx, hy, hz⟩
      exact ⟨hx, hy, hz⟩
  rw [hholds, between_iff hregion.x, between_iff hregion.y, between_iff hregion.z]
  constructor
  · rintro ⟨⟨x, hx, hidX⟩, ⟨y, hy, hidY⟩, z, hz, hidZ⟩
    have hboundsX := region.minX.le_toInt
    have hboundsX' := region.maxX.toInt_lt
    have hboundsZ := region.minZ.le_toInt
    have hboundsZ' := region.maxZ.toInt_lt
    have hwordX : (Int32.ofInt x).toInt = x := Int32.toInt_ofInt_of_le (by omega) (by omega)
    have hwordZ : (Int32.ofInt z).toInt = z := Int32.toInt_ofInt_of_le (by omega) (by omega)
    have hlimit := maxY.value.toNat_lt
    have hbyte : (UInt8.ofNat y.toNat).toNat = y.toNat :=
      UInt8.toNat_ofNat_of_lt' (show y.toNat < 256 by omega)
    refine ⟨Int32.ofInt x, ⟨UInt8.ofNat y.toNat⟩, Int32.ofInt z, ⟨?_, ?_, ?_⟩, ?_⟩
    · rw [hwordX]
      exact hx
    · rw [hbyte]
      omega
    · rw [hwordZ]
      exact hz
    · apply SectionId.ext
      · show (Int32.ofInt x).toInt / 16 = id.x
        rw [hwordX, hidX]
      · show (UInt8.ofNat y.toNat).toNat / 16 = id.y
        rw [hbyte]
        omega
      · show (Int32.ofInt z).toInt / 16 = id.z
        rw [hwordZ, hidZ]
  · rintro ⟨x, y, z, ⟨hx, hy, hz⟩, rfl⟩
    refine ⟨⟨x.toInt, hx, rfl⟩, ⟨y.value.toNat, hy, ?_⟩, z.toInt, hz, rfl⟩
    rfl

/-! ## 4. The expansion -/

theorem ordered_of_sectionBounds {region : BlockRegion} {bounds : SectionBounds}
    (h : sectionBounds region = .ok bounds) : bounds.Ordered := by
  obtain ⟨hregion, minY, maxY, ⟨hminY, hmaxY⟩, rfl⟩ := sectionBounds_eq_ok.mp h
  have hlow := minY.value.toNat_lt
  have hhigh := maxY.value.toNat_lt
  have hx := hregion.x
  have hy := hregion.y
  have hz := hregion.z
  refine ⟨?_, ?_, ?_, ?_⟩
  · simp only [toInt_divEuclid16]
    omega
  · simp only [WorldY.toNat_sectionY]
    omega
  · simp only [toInt_divEuclid16]
    omega
  · simp only [WorldY.toNat_sectionY, SECTION_Y_MAX]
    omega

theorem count_of_sectionBounds {region : BlockRegion} {bounds : SectionBounds}
    (h : sectionBounds region = .ok bounds) :
    bounds.count = .value region.sections.ncard := by
  have hsections : {id | bounds.Holds id} = region.sections := Set.ext (holds_iff h)
  have hordered := ordered_of_sectionBounds h
  rw [← hsections]
  obtain ⟨-, minY, maxY, -, rfl⟩ := sectionBounds_eq_ok.mp h
  apply SectionBounds.count_eq hordered
  -- a sixteenth of the 32-bit range
  have hspan : ∀ low high : Int32,
      ((divEuclid16 high).toInt - (divEuclid16 low).toInt + 1).toNat ≤ 2 ^ 28 := by
    intro low high
    have hlow := low.le_toInt
    have hhigh := high.toInt_lt
    rw [toInt_divEuclid16, toInt_divEuclid16]
    omega
  exact ⟨hspan _ _, hspan _ _⟩

/-- What the expansion of a region comes to: refused, for one of three reasons, or the keys of its
sections. -/
theorem sectionKeysForRegion_cases (region : BlockRegion) (budget : PinBudget) :
    (¬ region.NonEmpty ∧ sectionKeysForRegion region budget = .refused .invalidHandle) ∨
    (region.NonEmpty ∧ ¬ region.InHeight ∧
      sectionKeysForRegion region budget = .refused .worldYOutOfRange) ∨
    (region.NonEmpty ∧ region.InHeight ∧
      min budget.callerSections budget.hostSections < region.sections.ncard ∧
      sectionKeysForRegion region budget = .refused .budgetExceeded) ∨
    region.NonEmpty ∧ region.InHeight ∧
      region.sections.ncard ≤ min budget.callerSections budget.hostSections ∧
      ∃ keys, sectionKeysForRegion region budget = .value keys ∧ keys.Nodup ∧
        ∀ key, key ∈ keys ↔ ∃ id ∈ region.sections, key = id.key := by
  rcases sectionBounds_cases region with ⟨hempty, hbounds⟩ | ⟨hregion, hheight, hbounds⟩ |
    ⟨hregion, hheight, bounds, hbounds⟩
  · refine .inl ⟨hempty, ?_⟩
    rw [sectionKeysForRegion, hbounds]
    rfl
  · refine .inr (.inl ⟨hregion, hheight, ?_⟩)
    rw [sectionKeysForRegion, hbounds]
    rfl
  have hcount := count_of_sectionBounds hbounds
  by_cases hbudget : region.sections.ncard ≤ min budget.callerSections budget.hostSections
  · obtain ⟨sections, hcollect, hmem⟩ :=
      SectionBounds.collect_eq (ordered_of_sectionBounds hbounds)
    refine .inr (.inr (.inr ⟨hregion, hheight, hbudget, sections.toList, ?_,
      sections.nodup_toList, ?_⟩))
    · rw [sectionKeysForRegion, hbounds, Attempt.call, Attempt.value_bind, hcount,
        Attempt.value_bind, Attempt.check, if_pos hbudget, Attempt.value_bind, hcollect]
      rfl
    · intro key
      rw [Std.ExtTreeSet.mem_toList, hmem]
      apply exists_congr
      intro id
      rw [holds_iff hbounds]
  · refine .inr (.inr (.inl ⟨hregion, hheight, Nat.lt_of_not_le hbudget, ?_⟩))
    rw [sectionKeysForRegion, hbounds, Attempt.call, Attempt.value_bind, hcount,
      Attempt.value_bind, Attempt.check, if_neg hbudget]
    rfl

/-- **Region to sections.** A region is expanded if it has blocks, stays within the world's height
and touches no more sections than the smaller budget; its expansion is the keys of those sections,
each once.  Nothing panics, and the count taken from the corners is the number of sections. -/
theorem section_keys_for_region (region : BlockRegion) (budget : PinBudget) :
    sectionKeysForRegion region budget ≠ .panicked ∧
    ((∃ keys, sectionKeysForRegion region budget = .value keys) ↔
      region.NonEmpty ∧ region.InHeight ∧
        region.sections.ncard ≤ min budget.callerSections budget.hostSections) ∧
    (∀ keys, sectionKeysForRegion region budget = .value keys → keys.Nodup ∧
      ∀ key, key ∈ keys ↔ ∃ id ∈ region.sections, key = id.key) ∧
    ∀ bounds, sectionBounds region = .ok bounds →
      bounds.count = .value region.sections.ncard := by
  have hspec : (¬ (region.NonEmpty ∧ region.InHeight ∧
        region.sections.ncard ≤ min budget.callerSections budget.hostSections) ∧
        ∃ err, sectionKeysForRegion region budget = .refused err) ∨
      (region.NonEmpty ∧ region.InHeight ∧
        region.sections.ncard ≤ min budget.callerSections budget.hostSections) ∧
        ∃ keys, sectionKeysForRegion region budget = .value keys ∧ keys.Nodup ∧
          ∀ key, key ∈ keys ↔ ∃ id ∈ region.sections, key = id.key := by
    rcases sectionKeysForRegion_cases region budget with ⟨hnot, hresult⟩ | ⟨-, hnot, hresult⟩ |
      ⟨-, -, hover, hresult⟩ | ⟨hregion, hheight, hbudget, hexpanded⟩
    · exact .inl ⟨fun h => hnot h.1, _, hresult⟩
    · exact .inl ⟨fun h => hnot h.2.1, _, hresult⟩
    · exact .inl ⟨fun h => Nat.not_lt_of_le h.2.2 hover, _, hresult⟩
    · exact .inr ⟨⟨hregion, hheight, hbudget⟩, hexpanded⟩
  rcases hspec with ⟨hnot, err, hresult⟩ | ⟨hadmitted, keys, hresult, hnodup, hmem⟩
  · have hvalue : ∀ keys, sectionKeysForRegion region budget ≠ .value keys := by
      intro keys hkeys
      cases hresult.symm.trans hkeys
    refine ⟨?_, iff_of_false ?_ hnot, fun keys hkeys => absurd hkeys (hvalue keys),
      fun bounds => count_of_sectionBounds⟩
    · intro hpanicked
      cases hresult.symm.trans hpanicked
    · rintro ⟨keys, hkeys⟩
      exact hvalue keys hkeys
  · refine ⟨?_, iff_of_true ⟨keys, hresult⟩ hadmitted, ?_, fun bounds => count_of_sectionBounds⟩
    · intro hpanicked
      cases hresult.symm.trans hpanicked
    · intro keys' hkeys'
      obtain rfl := Attempt.value.inj (hresult.symm.trans hkeys')
      exact ⟨hnodup, hmem⟩

end LumioVoxel
