import LumioVoxel.BlockReads
import LumioVoxel.PhysicsLookup

/-!
# Cell addresses

A cell is addressed by the section that holds it and its offset there.  Floor division and bit
masks take a cell apart without loss, for negative coordinates as well, and every section the
32-bit coordinates reach is used in full.  Block reads and physics queries compute the address
each in its own way, and it is the same.
-/

namespace LumioVoxel

open Fallible

/-! ## 1. Taking a cell apart -/

namespace CellOffset

def y (o : CellOffset) : UInt8 := ((o.raw >>> 8) &&& 15).toUInt8
def z (o : CellOffset) : UInt8 := ((o.raw >>> 4) &&& 15).toUInt8
def x (o : CellOffset) : UInt8 := (o.raw &&& 15).toUInt8

/-- The low four bits, as a byte. -/
private theorem toNat_and_15 (n : UInt16) : (n &&& 15).toUInt8.toNat = n.toNat % 16 := by
  have hand : (n &&& 15).toNat = n.toNat % 16 := by
    rw [UInt16.toNat_and]
    exact Nat.and_two_pow_sub_one_eq_mod n.toNat 4
  rw [UInt16.toNat_toUInt8, hand]
  omega

theorem toNat_y (o : CellOffset) : o.y.toNat = o.index / 256 := by
  have hle := o.le_max
  simp only [CELL_OFFSET_MAX] at hle
  rw [y, toNat_and_15, UInt16.toNat_shiftRight, index, Nat.shiftRight_eq_div_pow]
  change o.raw.toNat / 256 % 16 = o.raw.toNat / 256
  omega

theorem toNat_z (o : CellOffset) : o.z.toNat = o.index / 16 % 16 := by
  rw [z, toNat_and_15, UInt16.toNat_shiftRight, index, Nat.shiftRight_eq_div_pow]
  rfl

theorem toNat_x (o : CellOffset) : o.x.toNat = o.index % 16 := by
  rw [x, toNat_and_15, index]

theorem index_fromWorld (x : Int32) (y : WorldY) (z : Int32) :
    ((fromWorld x y z).index : Int) =
      y.value.toNat % 16 * 256 + z.toInt % 16 * 16 + x.toInt % 16 := by
  have hraw := toNat_rawFromWorld x y z
  have hx := toNat_lowNibble x
  have hz := toNat_lowNibble z
  rw [index, fromWorld, hraw]
  omega

end CellOffset

/-- The section and the offset of a cell, as block reads compute them. -/
def cellAddress (x : Int32) (y : WorldY) (z : Int32) : Except KeyError (SectionId × CellOffset) := do
  let id ← SectionId.new (divEuclid16 x) y.sectionY.toUInt64.toInt64 (divEuclid16 z)
  return (id, CellOffset.fromWorld x y z)

theorem cellAddress_eq (x : Int32) (y : WorldY) (z : Int32) :
    cellAddress x y z = .ok (SectionId.ofCell x y z, CellOffset.fromWorld x y z) := by
  rw [cellAddress, SectionId.new_divEuclid16 y.toInt_sectionY]
  rfl

/-- The coordinates of a cell from its address, computed without overflow. -/
structure Inverts (address : SectionId × CellOffset) (x : Int32) (y : WorldY) (z : Int32) :
    Prop where
  x_origin : SECTION_COORD_MIN ≤ 16 * address.1.x ∧ 16 * address.1.x ≤ SECTION_COORD_MAX
  z_origin : SECTION_COORD_MIN ≤ 16 * address.1.z ∧ 16 * address.1.z ≤ SECTION_COORD_MAX
  x_eq : x.toInt = 16 * address.1.x + address.2.x.toNat
  y_eq : y.value.toNat = 16 * address.1.y + address.2.y.toNat
  z_eq : z.toInt = 16 * address.1.z + address.2.z.toNat

theorem inverts_ofCell (x : Int32) (y : WorldY) (z : Int32) :
    Inverts (SectionId.ofCell x y z, CellOffset.fromWorld x y z) x y z := by
  have hx := coordinate_mem x
  have hz := coordinate_mem z
  have hindex := CellOffset.index_fromWorld x y z
  simp only [SECTION_COORD_MIN, SECTION_COORD_MAX] at hx hz
  constructor <;>
    simp only [SectionId.ofCell, CellOffset.toNat_x, CellOffset.toNat_y, CellOffset.toNat_z,
      SECTION_COORD_MIN, SECTION_COORD_MAX] <;> omega

/-- An address belongs to one cell. -/
theorem Inverts.unique {address : SectionId × CellOffset} {x x' : Int32} {y y' : WorldY}
    {z z' : Int32} (h : Inverts address x y z) (h' : Inverts address x' y' z') :
    x = x' ∧ y = y' ∧ z = z' := by
  refine ⟨Int32.toInt_inj.mp (h.x_eq.trans h'.x_eq.symm), ?_,
    Int32.toInt_inj.mp (h.z_eq.trans h'.z_eq.symm)⟩
  cases y
  cases y'
  rw [WorldY.mk.injEq]
  exact UInt8.toNat_inj.mp (h.y_eq.trans h'.y_eq.symm)

/-- The sections the 32-bit coordinates reach. -/
def SectionId.Reachable (id : SectionId) : Prop :=
  (SECTION_COORD_MIN / 16 ≤ id.x ∧ id.x ≤ SECTION_COORD_MAX / 16) ∧
    (SECTION_COORD_MIN / 16 ≤ id.z ∧ id.z ≤ SECTION_COORD_MAX / 16)

/-- A 32-bit word for an integer of its range. -/
private theorem exists_int32 {v : Int} (hlow : SECTION_COORD_MIN ≤ v) (hhigh : v ≤ SECTION_COORD_MAX) :
    ∃ word : Int32, word.toInt = v := by
  simp only [SECTION_COORD_MIN, SECTION_COORD_MAX] at hlow hhigh
  exact ⟨Int32.ofInt v, Int32.toInt_ofInt_of_le hlow (by omega)⟩

/-- Every cell of a reachable section has its place there. -/
theorem exists_cell {id : SectionId} (h : id.Reachable) (offset : CellOffset) :
    ∃ x y z, cellAddress x y z = .ok (id, offset) := by
  obtain ⟨⟨hxlow, hxhigh⟩, hzlow, hzhigh⟩ := h
  have hy := id.y_le
  have hle := offset.index_lt
  simp only [SECTION_COORD_MIN, SECTION_COORD_MAX] at hxlow hxhigh hzlow hzhigh
  simp only [SECTION_Y_MAX, SECTION_CELLS] at hy hle
  obtain ⟨x, hx⟩ := exists_int32 (v := 16 * id.x + (offset.index % 16 : Nat))
    (by simp only [SECTION_COORD_MIN]; omega) (by simp only [SECTION_COORD_MAX]; omega)
  obtain ⟨z, hz⟩ := exists_int32 (v := 16 * id.z + (offset.index / 16 % 16 : Nat))
    (by simp only [SECTION_COORD_MIN]; omega) (by simp only [SECTION_COORD_MAX]; omega)
  have hvalue : (UInt8.ofNat (16 * id.y + offset.index / 256)).toNat =
      16 * id.y + offset.index / 256 := UInt8.toNat_ofNat_of_lt' (by simp only [UInt8.size]; omega)
  refine ⟨x, ⟨UInt8.ofNat (16 * id.y + offset.index / 256)⟩, z, ?_⟩
  rw [cellAddress_eq, Except.ok.injEq, Prod.mk.injEq]
  constructor
  · apply SectionId.ext
    · simp only [SectionId.ofCell, hx]
      omega
    · simp only [SectionId.ofCell, hvalue]
      omega
    · simp only [SectionId.ofCell, hz]
      omega
  · apply CellOffset.index_injective
    have hindex := CellOffset.index_fromWorld x ⟨UInt8.ofNat (16 * id.y + offset.index / 256)⟩ z
    simp only [hx, hz, hvalue] at hindex
    omega

/-! ## 2. Reading at an address -/

/-- What a block read finds at an address. -/
def BlockReadWorld.readAt (world : BlockReadWorld) (address : SectionId × CellOffset) :
    Except QueryError (SectionId × Presence × UInt64 × ReadCell) :=
  match world.sections[address.1]? with
  | some entry =>
    match entry.storage with
    | some storage =>
      if entry.presence.Holds then
        .ok (address.1, entry.presence, entry.sectionRevision,
          ⟨address.2, some (storage.read address.2)⟩)
      else
        .error .invalidHandle
    | none => .ok (address.1, entry.presence, entry.sectionRevision, ⟨address.2, none⟩)
  | none => .ok (address.1, .unavailable, 0, ⟨address.2, none⟩)

/-- What a physics query finds at an address. -/
def PhysicsQuery.lookupAt (query : PhysicsQuery) (address : SectionId × CellOffset) :
    Except PhysicsQueryError CellLookup :=
  match query.world.sections[address.1]? with
  | none => do
    query.validatePresence address.1 "Unavailable"
    return .unresolved address.1
  | some (.ready storage) => do
    query.validatePresence address.1 "Ready"
    return .block (storage.read address.2)
  | some .pending => do
    query.validatePresence address.1 "Pending"
    return .unresolved address.1
  | some .unavailable => do
    query.validatePresence address.1 "Unavailable"
    return .unresolved address.1

def PhysicsQuery.visitAt (query : PhysicsQuery) (address : SectionId × CellOffset)
    (filter : MaterialMask) : Except PhysicsQueryError CellVisit := do
  match ← query.lookupAt address with
  | .outside => return .empty
  | .unresolved id => return .unresolved id
  | .block id => query.classify filter id

theorem BlockReadWorld.cellAtSection_eq (world : BlockReadWorld) {x : Int32} {value : Int64}
    {y : WorldY} {z : Int32} (hy : WorldY.new value = .ok y) :
    world.cellAtSection x value z =
      world.readAt (SectionId.ofCell x y z, CellOffset.fromWorld x y z) := by
  have hid := SectionId.new_divEuclid16 (x := x) (z := z) y.toInt_sectionY
  simp only [cellAtSection, readAt, hy, hid, mapError_ok, ok_bind]
  cases world.sections[SectionId.ofCell x y z]? with
  | none => rfl
  | some entry =>
    simp only
    cases entry.storage with
    | none => rfl
    | some storage => rfl

theorem PhysicsQuery.lookup_eq_lookupAt (query : PhysicsQuery) {cell : CellCoord} {y : WorldY}
    (hy : WorldY.new cell.y.toInt64 = .ok y) :
    query.lookup cell = query.lookupAt
      (SectionId.ofCell cell.x y cell.z, CellOffset.fromWorld cell.x y cell.z) := by
  obtain ⟨hinside, hid⟩ := CellCoord.section_of_worldY hy
  simp only [lookup, lookupAt, if_neg hinside, hy, hid, mapError_ok, ok_bind,
    SectionStorage.readWorld]
  cases query.world.sections[SectionId.ofCell cell.x y cell.z]? with
  | none => rfl
  | some state => cases state <;> rfl

/-- **Cell addresses.** Every cell has one address, which gives the cell back without overflow;
different cells have different addresses; the addresses are all the offsets of the sections
that the 32-bit coordinates reach; and a block read and a physics query of a cell look at its
address and at nothing else of it. -/
theorem cell_addresses :
    (∀ x y z, ∃ address, cellAddress x y z = .ok address ∧ Inverts address x y z) ∧
    (∀ x y z x' y' z', cellAddress x y z = cellAddress x' y' z' → x = x' ∧ y = y' ∧ z = z') ∧
    (∀ id offset, (∃ x y z, cellAddress x y z = .ok (id, offset)) ↔ id.Reachable) ∧
    ∀ (cell : CellCoord) (y : WorldY) (address : SectionId × CellOffset),
      WorldY.new cell.y.toInt64 = .ok y → cellAddress cell.x y cell.z = .ok address →
      (∀ world : BlockReadWorld,
        world.cellAtSection cell.x cell.y.toInt64 cell.z = world.readAt address) ∧
      ∀ (query : PhysicsQuery) (filter : MaterialMask),
        query.blockAt cell filter = query.visitAt address filter := by
  refine ⟨?_, ?_, ?_, ?_⟩
  · intro x y z
    exact ⟨_, cellAddress_eq x y z, inverts_ofCell x y z⟩
  · intro x y z x' y' z' h
    rw [cellAddress_eq, cellAddress_eq, Except.ok.injEq] at h
    have h' := inverts_ofCell x' y' z'
    rw [← h] at h'
    exact (inverts_ofCell x y z).unique h'
  · intro id offset
    constructor
    · rintro ⟨x, y, z, h⟩
      rw [cellAddress_eq, Except.ok.injEq, Prod.mk.injEq] at h
      obtain ⟨rfl, -⟩ := h
      have hx := coordinate_mem x
      have hz := coordinate_mem z
      exact ⟨⟨Int.ediv_le_ediv (by decide) hx.1, Int.ediv_le_ediv (by decide) hx.2⟩,
        Int.ediv_le_ediv (by decide) hz.1, Int.ediv_le_ediv (by decide) hz.2⟩
    · intro h
      exact exists_cell h offset
  · intro cell y address hy haddress
    rw [cellAddress_eq, Except.ok.injEq] at haddress
    obtain rfl := haddress
    refine ⟨fun world => world.cellAtSection_eq hy, fun query filter => ?_⟩
    rewrite [PhysicsQuery.blockAt, PhysicsQuery.visitAt, query.lookup_eq_lookupAt hy]
    rfl

end LumioVoxel
