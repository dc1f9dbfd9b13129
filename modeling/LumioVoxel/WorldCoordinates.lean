import LumioVoxel.SectionStorage

/-!
# World coordinates

A cell is named by 32-bit `x` and `z` and a `y` between 0 and 255.  The section
that holds it is found by flooring division by 16, its offset in the section
from the low four bits of each coordinate.  Both are computed on machine words;
the lemmas say which integers the words stand for.
-/

namespace LumioVoxel

/-! ## 1. The vertical coordinate -/

/-- A world `y` inside the contract's range. -/
structure WorldY where
  value : UInt8
  deriving DecidableEq, Repr

inductive WorldYError where
  | outOfRange
  deriving DecidableEq, Repr

def WorldYError.errorId : WorldYError → String
  | .outOfRange => WORLD_Y_OUT_OF_RANGE

/-- The low byte of a number that fits in one. -/
private theorem toNat_lowByte {value : Int64} (h0 : 0 ≤ value.toInt) (h255 : value.toInt ≤ 255) :
    (value.toUInt64.toUInt8.toNat : Int) = value.toInt := by
  have hword : value.toUInt64.toNat = value.toBitVec.toNat := rfl
  have hint : value.toInt = value.toBitVec.toInt := rfl
  rw [hint, BitVec.toInt_eq_toNat_cond] at h0 h255
  rw [UInt64.toNat_toUInt8, hword, hint, BitVec.toInt_eq_toNat_cond]
  omega

namespace WorldY

def new (value : Int64) : Except WorldYError WorldY :=
  if value.toInt < WORLD_Y_MIN ∨ WORLD_Y_MAX < value.toInt then .error .outOfRange
  else .ok ⟨value.toUInt64.toUInt8⟩

/-- The layer of the section that holds the cell. -/
def sectionY (y : WorldY) : UInt8 := y.value >>> 4

/-- The layer of the cell inside its section. -/
def cellY (y : WorldY) : UInt8 := y.value &&& 15

theorem toNat_sectionY (y : WorldY) : y.sectionY.toNat = y.value.toNat / 16 := by
  simp only [sectionY, UInt8.toNat_shiftRight, UInt8.reduceToNat, Nat.reduceMod,
    Nat.shiftRight_eq_div_pow, Nat.reducePow]

theorem toNat_cellY (y : WorldY) : y.cellY.toNat = y.value.toNat % 16 := by
  simp only [cellY, UInt8.toNat_and, UInt8.reduceToNat]
  exact Nat.and_two_pow_sub_one_eq_mod y.value.toNat 4

/-- The layer as the 64-bit integer section construction takes. -/
theorem toInt_sectionY (y : WorldY) :
    y.sectionY.toUInt64.toInt64.toInt = y.value.toNat / 16 := by
  have hlt := y.sectionY.toNat_lt
  have hlayer := y.toNat_sectionY
  have hint : y.sectionY.toUInt64.toInt64.toInt = y.sectionY.toUInt64.toBitVec.toInt := rfl
  rw [hint, BitVec.toInt_eq_toNat_cond, UInt64.toNat_toBitVec, UInt8.toNat_toUInt64]
  omega

/-- Construction succeeds on exactly 0 to 255 and keeps the number. -/
theorem new_eq_ok {value : Int64} {y : WorldY} :
    new value = .ok y ↔ value.toInt = y.value.toNat := by
  have hlt := y.value.toNat_lt
  unfold new
  split
  · rename_i hrange
    simp only [WORLD_Y_MIN, WORLD_Y_MAX] at hrange
    simp only [reduceCtorEq, false_iff]
    omega
  · rename_i hrange
    simp only [WORLD_Y_MIN, WORLD_Y_MAX] at hrange
    have hbyte : (value.toUInt64.toUInt8.toNat : Int) = value.toInt :=
      toNat_lowByte (by omega) (by omega)
    constructor
    · intro h
      obtain rfl := Except.ok.inj h
      exact hbyte.symm
    · intro h
      cases y
      rw [Except.ok.injEq, WorldY.mk.injEq, ← UInt8.toNat_inj]
      exact Int.ofNat.inj (hbyte.trans h)

theorem exists_new {value : Int64} (h0 : 0 ≤ value.toInt) (h255 : value.toInt ≤ 255) :
    ∃ y, new value = .ok y := by
  refine ⟨⟨UInt8.ofNat value.toInt.toNat⟩, new_eq_ok.mpr ?_⟩
  rw [UInt8.toNat_ofNat_of_lt' (show value.toInt.toNat < 256 by omega)]
  omega

end WorldY

/-! ## 2. The section of a cell -/

/-- `div_euclid(16)` on a 32-bit integer. -/
def divEuclid16 (v : Int32) : Int32 := Int32.ofInt (v.toInt / 16)

theorem toInt_divEuclid16 (v : Int32) : (divEuclid16 v).toInt = v.toInt / 16 := by
  have hlow := v.le_toInt
  have hhigh := v.toInt_lt
  apply Int32.toInt_ofInt_of_le
  · omega
  · omega

theorem coordinate_mem (v : Int32) : SECTION_COORD_MIN ≤ v.toInt ∧ v.toInt ≤ SECTION_COORD_MAX := by
  have hlow := v.le_toInt
  have hhigh := v.toInt_lt
  simp only [SECTION_COORD_MIN, SECTION_COORD_MAX]
  omega

namespace SectionId

/-- A section by its coordinates; the layer has to be one of the sixteen. -/
def new (x : Int32) (y : Int64) (z : Int32) : Except KeyError SectionId :=
  match hy : checkSectionY y.toInt .section with
  | .error err => .error err
  | .ok layer =>
    .ok ⟨x.toInt, layer, z.toInt, coordinate_mem x, (checkSectionY_le hy).1, coordinate_mem z⟩

theorem new_of_layer {x z : Int32} {y : Int64} {layer : Nat} (hlayer : layer ≤ SECTION_Y_MAX)
    (hy : y.toInt = layer) :
    new x y z = .ok ⟨x.toInt, layer, z.toInt, coordinate_mem x, hlayer, coordinate_mem z⟩ := by
  unfold new
  split
  · rename_i err herr
    rw [hy, checkSectionY_natCast hlayer] at herr
    cases herr
  · rename_i found hfound
    rw [hy, checkSectionY_natCast hlayer] at hfound
    obtain rfl := Except.ok.inj hfound
    rfl

/-- The section that holds a cell. -/
def ofCell (x : Int32) (y : WorldY) (z : Int32) : SectionId where
  x := x.toInt / 16
  y := y.value.toNat / 16
  z := z.toInt / 16
  x_mem := by
    have := coordinate_mem x
    simp only [SECTION_COORD_MIN, SECTION_COORD_MAX] at *
    omega
  y_le := by
    have := y.value.toNat_lt
    simp only [SECTION_Y_MAX]
    omega
  z_mem := by
    have := coordinate_mem z
    simp only [SECTION_COORD_MIN, SECTION_COORD_MAX] at *
    omega

/-- Dividing the coordinates gives the cell's section, however the layer was
computed. -/
theorem new_divEuclid16 {x z : Int32} {y : WorldY} {layer : Int64}
    (hlayer : layer.toInt = y.value.toNat / 16) :
    new (divEuclid16 x) layer (divEuclid16 z) = .ok (ofCell x y z) := by
  rw [new_of_layer (ofCell x y z).y_le (hlayer.trans rfl), Except.ok.injEq]
  ext
  · exact toInt_divEuclid16 x
  · rfl
  · exact toInt_divEuclid16 z

end SectionId

/-! ## 3. The offset of a cell -/

/-- The low four bits of a coordinate. -/
def lowNibble (v : Int32) : UInt16 := (v &&& 15).toUInt32.toUInt16

theorem toNat_lowNibble (v : Int32) : ((lowNibble v).toNat : Int) = v.toInt % 16 := by
  have hmask : (v &&& 15).toUInt32.toNat = v.toBitVec.toNat % 16 := by
    change (v.toBitVec &&& 15#32).toNat = _
    rw [BitVec.toNat_and]
    exact Nat.and_two_pow_sub_one_eq_mod _ 4
  have hint : v.toInt = v.toBitVec.toInt := rfl
  rw [lowNibble, UInt32.toNat_toUInt16, hmask, hint, BitVec.toInt_eq_toNat_cond]
  split
  · omega
  · omega

theorem lowNibble_le (v : Int32) : (lowNibble v).toNat ≤ 15 := by
  have := toNat_lowNibble v
  omega

namespace CellOffset

/-- The raw offset word of a cell. -/
def rawFromWorld (x : Int32) (y : WorldY) (z : Int32) : UInt16 :=
  y.cellY.toUInt16 * CELL_OFFSET_Y_STRIDE + lowNibble z * CELL_OFFSET_Z_STRIDE +
    lowNibble x * CELL_OFFSET_X_STRIDE

theorem toNat_rawFromWorld (x : Int32) (y : WorldY) (z : Int32) :
    (rawFromWorld x y z).toNat =
      y.value.toNat % 16 * 256 + (lowNibble z).toNat * 16 + (lowNibble x).toNat := by
  have hx := lowNibble_le x
  have hz := lowNibble_le z
  have hy : y.value.toNat % 16 < 16 := Nat.mod_lt _ (by decide)
  simp only [rawFromWorld, UInt16.toNat_add, UInt16.toNat_mul, UInt8.toNat_toUInt16,
    WorldY.toNat_cellY, CELL_OFFSET_Y_STRIDE, CELL_OFFSET_Z_STRIDE, CELL_OFFSET_X_STRIDE,
    UInt16.reduceToNat]
  omega

/-- The offset of a cell in its section, in y/z/x order. -/
def fromWorld (x : Int32) (y : WorldY) (z : Int32) : CellOffset where
  raw := rawFromWorld x y z
  le_max := by
    have hx := lowNibble_le x
    have hz := lowNibble_le z
    have hy : y.value.toNat % 16 < 16 := Nat.mod_lt _ (by decide)
    rw [toNat_rawFromWorld]
    simp only [CELL_OFFSET_MAX]
    omega

end CellOffset

/-! ## 4. Ranges -/

/-- `low..=high`. -/
def inclusive (low high : Int32) : List Int32 :=
  (List.range (high.toInt - low.toInt + 1).toNat).map fun n : Nat => Int32.ofInt (low.toInt + n)

theorem mem_inclusive {low high a : Int32} :
    a ∈ inclusive low high ↔ low.toInt ≤ a.toInt ∧ a.toInt ≤ high.toInt := by
  have hlow := low.le_toInt
  have hhigh := high.toInt_lt
  simp only [inclusive, List.mem_map, List.mem_range]
  constructor
  · rintro ⟨n, hn, rfl⟩
    rw [Int32.toInt_ofInt_of_le (by omega) (by omega)]
    omega
  · rintro ⟨hfrom, hto⟩
    refine ⟨(a.toInt - low.toInt).toNat, by omega, ?_⟩
    rw [← Int32.toInt_inj, Int32.toInt_ofInt_of_le (by omega) (by omega)]
    omega

theorem length_inclusive (low high : Int32) :
    (inclusive low high).length = (high.toInt - low.toInt + 1).toNat := by
  rw [inclusive, List.length_map, List.length_range]

/-- `low..=high` on 64-bit integers. -/
def inclusive64 (low high : Int64) : List Int64 :=
  (List.range (high.toInt - low.toInt + 1).toNat).map fun n : Nat => Int64.ofInt (low.toInt + n)

theorem mem_inclusive64 {low high a : Int64} :
    a ∈ inclusive64 low high ↔ low.toInt ≤ a.toInt ∧ a.toInt ≤ high.toInt := by
  have hlow := low.le_toInt
  have hhigh := high.toInt_lt
  simp only [inclusive64, List.mem_map, List.mem_range]
  constructor
  · rintro ⟨n, hn, rfl⟩
    rw [Int64.toInt_ofInt_of_le (by omega) (by omega)]
    omega
  · rintro ⟨hfrom, hto⟩
    refine ⟨(a.toInt - low.toInt).toNat, by omega, ?_⟩
    rw [← Int64.toInt_inj, Int64.toInt_ofInt_of_le (by omega) (by omega)]
    omega

theorem length_inclusive64 (low high : Int64) :
    (inclusive64 low high).length = (high.toInt - low.toInt + 1).toNat := by
  rw [inclusive64, List.length_map, List.length_range]

/-! ## 5. Reading at a coordinate -/

/-- The block a storage holds at a world coordinate. -/
def SectionStorage.readWorld (s : SectionStorage) (x : Int32) (y : WorldY) (z : Int32) : BlockId :=
  s.read (CellOffset.fromWorld x y z)

end LumioVoxel
