import LumioVoxel.BitFields
import LumioVoxel.BlockCatalogs
import Mathlib.Data.List.Pairwise

/-!
# State layouts

The low eight bits of a block id are its state, and a block definition says how they are
divided: named fields, one after another from bit zero.  A layout is built from a list of
names and widths, and refuses the first entry that does not fit.  Over any run of writes
a state then behaves as a record of its fields.
-/

namespace LumioVoxel

open Fallible BitFields

/-! ## 1. The two segments of a block id -/

abbrev BLOCK_STATE_BITS : UInt8 := 8

/-- The 8-bit state segment carried by a block id. -/
structure BlockState where
  raw : UInt8
  deriving DecidableEq, Repr

theorem BlockState.ext_toNat {a b : BlockState} (h : a.raw.toNat = b.raw.toNat) : a = b := by
  cases a
  cases b
  simpa [UInt8.toNat_inj] using h

namespace BlockId

def fromParts (blockType : BlockType) (blockState : BlockState) : BlockId :=
  ⟨(blockType.raw <<< 8) ||| blockState.raw.toUInt32⟩

def blockState (id : BlockId) : BlockState := ⟨(id.raw &&& 255).toUInt8⟩

theorem toNat_fromParts (blockType : BlockType) (blockState : BlockState) :
    (fromParts blockType blockState).raw.toNat =
      2 ^ 8 * blockType.raw.toNat + blockState.raw.toNat := by
  have htype : blockType.raw.toNat ≤ BLOCK_TYPE_MAX := blockType.le_max
  have hfit : blockType.raw.toNat * 2 ^ 8 % 2 ^ 32 = 2 ^ 8 * blockType.raw.toNat := by
    rw [Nat.mod_eq_of_lt (by simp only [BLOCK_TYPE_MAX] at htype; omega), Nat.mul_comm]
  simp only [fromParts, UInt32.toNat_or, UInt32.toNat_shiftLeft, UInt32.reduceToNat,
    Nat.reduceMod, Nat.shiftLeft_eq, UInt8.toNat_toUInt32]
  rw [hfit]
  exact (Nat.two_pow_add_eq_or_of_lt blockState.raw.toNat_lt _).symm

theorem toNat_blockType (id : BlockId) : id.blockType.raw.toNat = id.raw.toNat / 2 ^ 8 := by
  simp only [blockType, UInt32.toNat_shiftRight, UInt32.reduceToNat, Nat.reduceMod,
    Nat.shiftRight_eq_div_pow]

theorem toNat_blockState (id : BlockId) : id.blockState.raw.toNat = id.raw.toNat % 2 ^ 8 := by
  simp only [blockState, UInt32.toNat_toUInt8, UInt32.toNat_and, UInt32.reduceToNat]
  rw [Nat.and_two_pow_sub_one_eq_mod _ 8, Nat.mod_mod]

@[simp] theorem blockType_fromParts (blockType : BlockType) (blockState : BlockState) :
    (fromParts blockType blockState).blockType = blockType := by
  apply BlockType.ext_toNat
  have hstate := blockState.raw.toNat_lt
  rw [toNat_blockType, toNat_fromParts]
  omega

@[simp] theorem blockState_fromParts (blockType : BlockType) (blockState : BlockState) :
    (fromParts blockType blockState).blockState = blockState := by
  apply BlockState.ext_toNat
  have hstate := blockState.raw.toNat_lt
  rw [toNat_blockState, toNat_fromParts]
  omega

/-- An id is no more than its two segments. -/
@[simp] theorem fromParts_self (id : BlockId) : fromParts id.blockType id.blockState = id := by
  have hraw : (fromParts id.blockType id.blockState).raw = id.raw := by
    rw [← UInt32.toNat_inj, toNat_fromParts, toNat_blockType, toNat_blockState]
    exact Nat.div_add_mod _ _
  cases id
  exact congrArg BlockId.mk hraw

end BlockId

namespace Catalogs

/-! ## 2. Layouts -/

structure StateFieldSpec where
  name : String
  width : UInt8
  deriving DecidableEq, Repr

inductive StateLayoutError where
  | emptyName
  | duplicateName
  | zeroWidth
  | widthOverflow
  deriving DecidableEq, Repr

inductive StateAccessError where
  | unknownField
  | valueOutOfRange
  deriving DecidableEq, Repr

/-- The bits of the state that are the field's. -/
def StateField.span (field : StateField) : Span := ⟨field.offset.toNat, field.width.toNat⟩

def StateField.valueMask (field : StateField) : UInt16 := (1 <<< field.width.toUInt16) - 1

namespace StateLayout

/-- One turn of the loop of `new`: the fields so far, and the next free bit. -/
def addField (soFar : List StateField × UInt8) (spec : StateFieldSpec) :
    Except StateLayoutError (List StateField × UInt8) := do
  require (spec.name ≠ "") .emptyName
  require (spec.width ≠ 0) .zeroWidth
  require (∀ field ∈ soFar.1, field.name ≠ spec.name) .duplicateName
  -- `checked_add` on `u8`
  require (soFar.2.toNat + spec.width.toNat < 2 ^ 8) .widthOverflow
  require (¬ soFar.2 + spec.width > BLOCK_STATE_BITS) .widthOverflow
  return (soFar.1 ++ [{ name := spec.name, offset := soFar.2, width := spec.width }],
    soFar.2 + spec.width)

def new (specs : List StateFieldSpec) : Except StateLayoutError StateLayout :=
  (foldSteps addField ([], 0) specs).map fun soFar => ⟨soFar.1⟩

def field (layout : StateLayout) (name : String) : Option StateField :=
  layout.fields.find? fun field => field.name = name

def read (layout : StateLayout) (state : BlockState) (name : String) :
    Except StateAccessError UInt8 := do
  let field ← someOr (layout.field name) .unknownField
  return ((state.raw.toUInt16 >>> field.offset.toUInt16) &&& field.valueMask).toUInt8

def write (layout : StateLayout) (state : BlockState) (name : String) (value : UInt8) :
    Except StateAccessError BlockState := do
  let field ← someOr (layout.field name) .unknownField
  require (¬ value.toUInt16 > field.valueMask) .valueOutOfRange
  return ⟨((state.raw.toUInt16 &&& ~~~(field.valueMask <<< field.offset.toUInt16)) |||
    (value.toUInt16 <<< field.offset.toUInt16)).toUInt8⟩

/-! ## 3. Which layouts there are -/

/-- The fields of the specs, one after another from bit `offset` on. -/
def place : Nat → List StateFieldSpec → List StateField
  | _, [] => []
  | offset, spec :: rest =>
    { name := spec.name, offset := UInt8.ofNat offset, width := spec.width } ::
      place (offset + spec.width.toNat) rest

def bitCount (specs : List StateFieldSpec) : Nat := (specs.map fun spec => spec.width.toNat).sum

theorem bitCount_concat (specs : List StateFieldSpec) (spec : StateFieldSpec) :
    bitCount (specs ++ [spec]) = bitCount specs + spec.width.toNat := by
  simp [bitCount]

theorem place_concat (offset : Nat) (specs : List StateFieldSpec) (spec : StateFieldSpec) :
    place offset (specs ++ [spec]) = place offset specs ++
      [{ name := spec.name, offset := UInt8.ofNat (offset + bitCount specs),
         width := spec.width }] := by
  induction specs generalizing offset with
  | nil => rfl
  | cons first rest ih =>
    rw [List.cons_append, place, ih, place, List.cons_append]
    simp only [bitCount, List.map_cons, List.sum_cons, Nat.add_assoc]

theorem map_name_place (offset : Nat) (specs : List StateFieldSpec) :
    (place offset specs).map StateField.name = specs.map StateFieldSpec.name := by
  induction specs generalizing offset with
  | nil => rfl
  | cons spec rest ih => rw [place, List.map_cons, List.map_cons, ih]

structure WellFormed (specs : List StateFieldSpec) : Prop where
  named : ∀ spec ∈ specs, spec.name ≠ ""
  wide : ∀ spec ∈ specs, spec.width ≠ 0
  distinct : (specs.map StateFieldSpec.name).Nodup
  fits : bitCount specs ≤ 8

/-- What is wrong with an entry after the entries before it; the first check it fails. -/
inductive Faults (before : List StateFieldSpec) (spec : StateFieldSpec) : StateLayoutError → Prop
  | emptyName : spec.name = "" → Faults before spec .emptyName
  | zeroWidth : spec.name ≠ "" → spec.width = 0 → Faults before spec .zeroWidth
  | duplicateName : spec.name ≠ "" → spec.width ≠ 0 →
      spec.name ∈ before.map StateFieldSpec.name → Faults before spec .duplicateName
  | widthOverflow : spec.name ≠ "" → spec.width ≠ 0 →
      spec.name ∉ before.map StateFieldSpec.name → 8 < bitCount before + spec.width.toNat →
      Faults before spec .widthOverflow

theorem wellFormed_nil : WellFormed [] where
  named := fun _ h => absurd h List.not_mem_nil
  wide := fun _ h => absurd h List.not_mem_nil
  distinct := List.nodup_nil
  fits := Nat.zero_le _

theorem wellFormed_concat {before : List StateFieldSpec} {spec : StateFieldSpec} :
    WellFormed (before ++ [spec]) ↔ WellFormed before ∧ spec.name ≠ "" ∧ spec.width ≠ 0 ∧
      spec.name ∉ before.map StateFieldSpec.name ∧ bitCount before + spec.width.toNat ≤ 8 := by
  constructor
  · intro h
    have hdistinct := h.distinct
    rw [List.map_append, List.map_singleton, ← List.concat_eq_append, List.nodup_concat]
      at hdistinct
    have hfits := h.fits
    rw [bitCount_concat] at hfits
    have hlast : spec ∈ before ++ [spec] := List.mem_append_right _ List.mem_cons_self
    exact ⟨⟨fun earlier he => h.named earlier (List.mem_append_left _ he),
        fun earlier he => h.wide earlier (List.mem_append_left _ he), hdistinct.2,
        Nat.le_trans (Nat.le_add_right _ _) hfits⟩,
      h.named spec hlast, h.wide spec hlast, hdistinct.1, hfits⟩
  · rintro ⟨h, hname, hwidth, hnew, hfits⟩
    constructor
    · intro earlier he
      rcases List.mem_append.mp he with he | he
      · exact h.named earlier he
      · rwa [List.mem_singleton.mp he]
    · intro earlier he
      rcases List.mem_append.mp he with he | he
      · exact h.wide earlier he
      · rwa [List.mem_singleton.mp he]
    · rw [List.map_append, List.map_singleton, ← List.concat_eq_append, List.nodup_concat]
      exact ⟨hnew, h.distinct⟩
    · rwa [bitCount_concat]

/-- An entry is fine after well-formed ones, or it is at fault. -/
theorem wellFormed_or_faults {before : List StateFieldSpec} (h : WellFormed before)
    (spec : StateFieldSpec) : WellFormed (before ++ [spec]) ∨ ∃ err, Faults before spec err := by
  by_cases hname : spec.name = ""
  · exact Or.inr ⟨_, .emptyName hname⟩
  by_cases hwidth : spec.width = 0
  · exact Or.inr ⟨_, .zeroWidth hname hwidth⟩
  by_cases hnew : spec.name ∈ before.map StateFieldSpec.name
  · exact Or.inr ⟨_, .duplicateName hname hwidth hnew⟩
  by_cases hfits : bitCount before + spec.width.toNat ≤ 8
  · exact Or.inl (wellFormed_concat.mpr ⟨h, hname, hwidth, hnew, hfits⟩)
  · exact Or.inr ⟨_, .widthOverflow hname hwidth hnew (Nat.not_le.mp hfits)⟩

/-- The loop's accumulator after these entries. -/
def placed (before : List StateFieldSpec) : List StateField × UInt8 :=
  (place 0 before, UInt8.ofNat (bitCount before))

theorem toNat_placed {before : List StateFieldSpec} (h : WellFormed before) :
    (placed before).2.toNat = bitCount before :=
  UInt8.toNat_ofNat_of_lt' (Nat.lt_of_le_of_lt h.fits (by decide))

theorem names_placed {before : List StateFieldSpec} {name : String} :
    (∀ field ∈ (placed before).1, field.name ≠ name) ↔
      name ∉ before.map StateFieldSpec.name := by
  rw [← map_name_place 0 before, List.mem_map]
  constructor
  · rintro h ⟨field, hf, hname⟩
    exact h field hf hname
  · intro h field hf hname
    exact h ⟨field, hf, hname⟩

theorem addField_ok {before : List StateFieldSpec} {spec : StateFieldSpec}
    (h : WellFormed (before ++ [spec])) :
    addField (placed before) spec = .ok (placed (before ++ [spec])) := by
  obtain ⟨hbefore, hname, hwidth, hnew, hfits⟩ := wellFormed_concat.mp h
  have hoffset := toNat_placed hbefore
  have hsum : ((placed before).2 + spec.width).toNat = bitCount before + spec.width.toNat := by
    rw [UInt8.toNat_add, hoffset, Nat.mod_eq_of_lt (by omega)]
  have hlast : (placed before).2 + spec.width = UInt8.ofNat (bitCount (before ++ [spec])) := by
    rw [← UInt8.toNat_inj, hsum, bitCount_concat, UInt8.toNat_ofNat_of_lt' (Nat.lt_of_le_of_lt hfits (by decide))]
  have hbits : ¬ (placed before).2 + spec.width > BLOCK_STATE_BITS := by
    rw [gt_iff_lt, UInt8.lt_iff_toNat_lt, hsum]
    exact Nat.not_lt.mpr hfits
  rw [addField, require_of hname, ok_bind, require_of hwidth, ok_bind,
    require_of (names_placed.mpr hnew), ok_bind, require_of (by omega), ok_bind,
    require_of hbits, ok_bind, hlast, placed, placed, place_concat, Nat.zero_add]
  rfl

theorem addField_error {before : List StateFieldSpec} (h : WellFormed before)
    {spec : StateFieldSpec} {err : StateLayoutError} (hfault : Faults before spec err) :
    addField (placed before) spec = .error err := by
  have hoffset := toNat_placed h
  rw [addField]
  cases hfault with
  | emptyName hname => rw [require_of_not (not_not.mpr hname)]; rfl
  | zeroWidth hname hwidth =>
    rw [require_of hname, ok_bind, require_of_not (not_not.mpr hwidth)]
    rfl
  | duplicateName hname hwidth hused =>
    rw [require_of hname, ok_bind, require_of hwidth, ok_bind,
      require_of_not fun hnew => names_placed.mp hnew hused]
    rfl
  | widthOverflow hname hwidth hnew hover =>
    rw [require_of hname, ok_bind, require_of hwidth, ok_bind,
      require_of (names_placed.mpr hnew), ok_bind]
    by_cases hbyte : (placed before).2.toNat + spec.width.toNat < 2 ^ 8
    · have hbits : (placed before).2 + spec.width > BLOCK_STATE_BITS := by
        rw [gt_iff_lt, UInt8.lt_iff_toNat_lt, UInt8.toNat_add, Nat.mod_eq_of_lt hbyte, hoffset]
        exact hover
      rw [require_of hbyte, ok_bind, require_of_not (not_not.mpr hbits)]
      rfl
    · rw [require_of_not hbyte]
      rfl

/-- The loop over well-formed entries places them. -/
theorem foldSteps_placed {specs : List StateFieldSpec} (h : WellFormed specs) :
    foldSteps addField ([], 0) specs = .ok (placed specs) := by
  induction specs using List.reverseRecOn with
  | nil => rfl
  | append_singleton before spec ih =>
    rw [foldSteps_append, ih (wellFormed_concat.mp h).1, ok_bind, foldSteps, addField_ok h]
    rfl

theorem foldSteps_faults {before : List StateFieldSpec} (h : WellFormed before)
    {spec : StateFieldSpec} {err : StateLayoutError} (hfault : Faults before spec err)
    (after : List StateFieldSpec) :
    foldSteps addField ([], 0) (before ++ spec :: after) = .error err := by
  rw [foldSteps_append, foldSteps_placed h, ok_bind, foldSteps, addField_error h hfault]

/-- The entries are well formed, or one of them is the first at fault. -/
theorem wellFormed_or_first (specs : List StateFieldSpec) :
    WellFormed specs ∨ ∃ before spec after err, specs = before ++ spec :: after ∧
      WellFormed before ∧ Faults before spec err := by
  induction specs using List.reverseRecOn with
  | nil => exact Or.inl wellFormed_nil
  | append_singleton before spec ih =>
    rcases ih with h | ⟨before', spec', after, err, rfl, h, hfault⟩
    · rcases wellFormed_or_faults h spec with hall | ⟨err, hfault⟩
      · exact Or.inl hall
      · exact Or.inr ⟨before, spec, [], err, rfl, h, hfault⟩
    · exact Or.inr ⟨before', spec', after ++ [spec], err, by simp, h, hfault⟩

theorem new_of_wellFormed {specs : List StateFieldSpec} (h : WellFormed specs) :
    new specs = .ok ⟨place 0 specs⟩ := by
  rw [new, foldSteps_placed h]
  rfl

theorem new_of_faults {before : List StateFieldSpec} (h : WellFormed before)
    {spec : StateFieldSpec} {err : StateLayoutError} (hfault : Faults before spec err)
    (after : List StateFieldSpec) : new (before ++ spec :: after) = .error err := by
  rw [new, foldSteps_faults h hfault]
  rfl

/-- `new` accepts the well-formed lists and lays their fields side by side from bit zero;
any other list it refuses with what is wrong with its first entry at fault. -/
theorem new_decides (specs : List StateFieldSpec) :
    (∀ layout, new specs = .ok layout ↔ WellFormed specs ∧ layout = ⟨place 0 specs⟩) ∧
    ∀ err, new specs = .error err ↔ ∃ before spec after, specs = before ++ spec :: after ∧
      WellFormed before ∧ Faults before spec err := by
  constructor
  · intro layout
    constructor
    · intro hnew
      rcases wellFormed_or_first specs with h | ⟨before, spec, after, err, rfl, h, hfault⟩
      · rw [new_of_wellFormed h] at hnew
        exact ⟨h, (Except.ok.inj hnew).symm⟩
      · rw [new_of_faults h hfault] at hnew
        cases hnew
    · rintro ⟨h, rfl⟩
      exact new_of_wellFormed h
  · intro err
    constructor
    · intro hnew
      rcases wellFormed_or_first specs with h | ⟨before, spec, after, err', rfl, h, hfault⟩
      · rw [new_of_wellFormed h] at hnew
        cases hnew
      · rw [new_of_faults h hfault] at hnew
        exact ⟨before, spec, after, rfl, h, Except.error.inj hnew ▸ hfault⟩
    · rintro ⟨before, spec, after, rfl, h, hfault⟩
      exact new_of_faults h hfault after

/-! ## 4. Fields of a state -/

theorem forall_fits_place {specs : List StateFieldSpec} {offset : Nat}
    (h : offset + bitCount specs ≤ 8) : ∀ field ∈ place offset specs,
      offset ≤ field.offset.toNat ∧
        field.offset.toNat + field.width.toNat ≤ offset + bitCount specs := by
  induction specs generalizing offset with
  | nil => exact fun _ hf => absurd hf List.not_mem_nil
  | cons spec rest ih =>
    have hcount : bitCount (spec :: rest) = spec.width.toNat + bitCount rest := rfl
    rw [hcount] at h
    intro field hf
    rcases List.mem_cons.mp hf with rfl | hf
    · change offset ≤ (UInt8.ofNat offset).toNat ∧
        (UInt8.ofNat offset).toNat + spec.width.toNat ≤ offset + bitCount (spec :: rest)
      rw [UInt8.toNat_ofNat_of_lt' (Nat.lt_of_le_of_lt (by omega : offset ≤ 8) (by decide)), hcount]
      omega
    · have hrest := ih (by omega) field hf
      omega

/-- No two fields share a bit. -/
theorem pairwise_apart_place {specs : List StateFieldSpec} {offset : Nat}
    (h : offset + bitCount specs ≤ 8) :
    (place offset specs).Pairwise fun a b => a.span.Apart b.span := by
  induction specs generalizing offset with
  | nil => exact List.Pairwise.nil
  | cons spec rest ih =>
    have hcount : bitCount (spec :: rest) = spec.width.toNat + bitCount rest := rfl
    rw [hcount] at h
    refine List.pairwise_cons.mpr ⟨?_, ih (by omega)⟩
    intro field hf
    have hrest := forall_fits_place (by omega) field hf
    apply Span.apart_of_le
    change (UInt8.ofNat offset).toNat + spec.width.toNat ≤ field.offset.toNat
    rw [UInt8.toNat_ofNat_of_lt' (Nat.lt_of_le_of_lt (by omega : offset ≤ 8) (by decide))]
    exact hrest.1

/-- The fields lie inside the state, and apart. -/
structure Tiles (layout : StateLayout) : Prop where
  fits : ∀ field ∈ layout.fields, field.offset.toNat + field.width.toNat ≤ 8
  apart : layout.fields.Pairwise fun a b => a.span.Apart b.span

theorem tiles_of_new {specs : List StateFieldSpec} {layout : StateLayout}
    (h : new specs = .ok layout) : layout.Tiles := by
  rcases wellFormed_or_first specs with hspecs | ⟨before, spec, after, err, rfl, hbefore, hfault⟩
  · rw [new_of_wellFormed hspecs] at h
    cases h
    have hfits : 0 + bitCount specs ≤ 8 := (Nat.zero_add _).trans_le hspecs.fits
    constructor
    · intro field hf
      have hfield := forall_fits_place hfits field hf
      omega
    · exact pairwise_apart_place hfits
  · rw [new_of_faults hbefore hfault] at h
    cases h

theorem mem_of_field {layout : StateLayout} {name : String} {field : StateField}
    (h : layout.field name = some field) : field ∈ layout.fields ∧ field.name = name :=
  ⟨List.mem_of_find?_eq_some h, by simpa using List.find?_some h⟩

theorem Tiles.apart_of_ne {layout : StateLayout} (h : layout.Tiles) {a b : StateField}
    (ha : a ∈ layout.fields) (hb : b ∈ layout.fields) (hne : a ≠ b) : a.span.Apart b.span := by
  have : Std.Symm fun a b : StateField => a.span.Apart b.span := ⟨fun _ _ => Span.Apart.symm⟩
  exact h.apart.forall ha hb hne

theorem toNat_valueMask {field : StateField} (h : field.width.toNat ≤ 8) :
    field.valueMask.toNat = 2 ^ field.width.toNat - 1 := by
  have hpow : 2 ^ field.width.toNat ≤ 2 ^ 8 := Nat.pow_le_pow_right (by decide) h
  have hamount : field.width.toNat % 16 = field.width.toNat := Nat.mod_eq_of_lt (by omega)
  have hword : 2 ^ field.width.toNat % 2 ^ 16 = 2 ^ field.width.toNat :=
    Nat.mod_eq_of_lt (by omega)
  have hone : ((1 : UInt16) <<< field.width.toUInt16).toNat = 2 ^ field.width.toNat := by
    rw [UInt16.toNat_shiftLeft, UInt8.toNat_toUInt16, hamount, Nat.shiftLeft_eq, UInt16.toNat_one,
      Nat.one_mul, hword]
  have hpos := Nat.two_pow_pos field.width.toNat
  rw [StateField.valueMask, UInt16.toNat_sub_of_le, hone, UInt16.toNat_one]
  rw [UInt16.le_iff_toNat_le, hone]
  exact hpos

theorem read_of_field {layout : StateLayout} {name : String} {field : StateField}
    (hfield : layout.field name = some field)
    (hfits : field.offset.toNat + field.width.toNat ≤ 8) (state : BlockState) :
    layout.read state name = .ok (UInt8.ofNat (field.span.get state.raw.toNat)) := by
  have hamount : field.offset.toNat % 16 = field.offset.toNat := Nat.mod_eq_of_lt (by omega)
  rw [read, hfield, someOr, ok_bind]
  apply congrArg Except.ok
  rw [← UInt8.toNat_inj, UInt16.toNat_toUInt8, UInt16.toNat_and, UInt16.toNat_shiftRight,
    toNat_valueMask (by omega), UInt8.toNat_toUInt16, UInt8.toNat_toUInt16, hamount,
    Nat.and_two_pow_sub_one_eq_mod, UInt8.toNat_ofNat']
  rfl

theorem toBitVec_shiftLeft {n : UInt8} (hn : n.toNat < 16) (x : UInt16) :
    (x <<< n.toUInt16).toBitVec = x.toBitVec <<< n.toNat := by
  rw [UInt16.toBitVec_shiftLeft, BitVec.shiftLeft_eq', BitVec.toNat_umod]
  change x.toBitVec <<< (n.toUInt16.toNat % 16) = _
  rw [UInt8.toNat_toUInt16, Nat.mod_eq_of_lt hn]

/-- The word `write` computes has the value in the field's bits and the state elsewhere. -/
theorem puts_word {field : StateField} (hfits : field.offset.toNat + field.width.toNat ≤ 8)
    (state : BlockState) {value : UInt8} (hvalue : value.toNat < 2 ^ field.width.toNat) :
    field.span.Puts state.raw.toNat value.toNat
      ((state.raw.toUInt16 &&& ~~~(field.valueMask <<< field.offset.toUInt16)) |||
        (value.toUInt16 <<< field.offset.toUInt16)).toNat := by
  have hmask : field.valueMask.toBitVec = BitVec.ofNat 16 (2 ^ field.width.toNat - 1) := by
    rw [← toNat_valueMask (by omega)]
    exact (BitVec.ofNat_toNat 16 field.valueMask.toBitVec).symm
  have hsmall : value.toUInt16.toBitVec.toNat < 2 ^ field.span.width := by
    change value.toUInt16.toNat < 2 ^ field.width.toNat
    rwa [UInt8.toNat_toUInt16]
  have hword : field.span.offset + field.span.width ≤ 16 := by
    change field.offset.toNat + field.width.toNat ≤ 16
    omega
  have hputs := Span.puts_masked field.span hword state.raw.toUInt16.toBitVec _ hsmall
  rw [← UInt16.toNat_toBitVec, UInt16.toBitVec_or, UInt16.toBitVec_and, UInt16.toBitVec_not,
    toBitVec_shiftLeft (by omega), toBitVec_shiftLeft (by omega), hmask]
  rw [UInt16.toNat_toBitVec, UInt16.toNat_toBitVec, UInt8.toNat_toUInt16, UInt8.toNat_toUInt16]
    at hputs
  exact hputs

theorem write_of_field {layout : StateLayout} {name : String} {field : StateField}
    (hfield : layout.field name = some field)
    (hfits : field.offset.toNat + field.width.toNat ≤ 8) (state : BlockState) {value : UInt8}
    (hvalue : value.toNat < 2 ^ field.width.toNat) :
    ∃ state', layout.write state name value = .ok state' ∧
      field.span.Puts state.raw.toNat value.toNat state'.raw.toNat := by
  have hcheck : ¬ value.toUInt16 > field.valueMask := by
    rw [gt_iff_lt, UInt16.lt_iff_toNat_lt, UInt8.toNat_toUInt16, toNat_valueMask (by omega)]
    omega
  have hputs := puts_word hfits state hvalue
  rw [write, hfield, someOr, ok_bind, require_of hcheck, ok_bind]
  refine ⟨_, rfl, ?_⟩
  -- the word is still one byte, so the conversion back to `u8` drops nothing
  have hbyte := hputs.lt_two_pow state.raw.toNat_lt hfits
  rw [UInt16.toNat_toUInt8, Nat.mod_eq_of_lt hbyte]
  exact hputs

theorem write_of_large {layout : StateLayout} {name : String} {field : StateField}
    (hfield : layout.field name = some field)
    (hfits : field.offset.toNat + field.width.toNat ≤ 8) (state : BlockState) {value : UInt8}
    (hvalue : 2 ^ field.width.toNat ≤ value.toNat) :
    layout.write state name value = .error .valueOutOfRange := by
  have hmask : field.valueMask.toNat = 2 ^ field.width.toNat - 1 := toNat_valueMask (by omega)
  have hcheck : value.toUInt16 > field.valueMask := by
    have hpos := Nat.two_pow_pos field.width.toNat
    rw [gt_iff_lt, UInt16.lt_iff_toNat_lt, UInt8.toNat_toUInt16, hmask]
    omega
  rw [write, hfield, someOr, ok_bind, require_of_not (not_not.mpr hcheck)]
  rfl

theorem write_of_unknown {layout : StateLayout} {name : String} (hfield : layout.field name = none)
    (state : BlockState) (value : UInt8) :
    layout.write state name value = .error .unknownField := by
  rw [write, hfield]
  rfl

theorem read_of_unknown {layout : StateLayout} {name : String} (hfield : layout.field name = none)
    (state : BlockState) : layout.read state name = .error .unknownField := by
  rw [read, hfield]
  rfl

/-! ## 5. Runs of writes -/

/-- A write of this value under this name goes through. -/
def Takes (layout : StateLayout) (name : String) (value : UInt8) : Prop :=
  ∃ field ∈ layout.field name, value.toNat < 2 ^ field.width.toNat

instance (layout : StateLayout) (name : String) (value : UInt8) :
    Decidable (layout.Takes name value) :=
  inferInstanceAs (Decidable (∃ field ∈ layout.field name, value.toNat < 2 ^ field.width.toNat))

/-- The state after a write; a refused one hands no state back. -/
def afterWrite (layout : StateLayout) (state : BlockState) (name : String) (value : UInt8) :
    BlockState :=
  (layout.write state name value).toOption.getD state

def afterWrites (layout : StateLayout) (state : BlockState) (writes : List (String × UInt8)) :
    BlockState :=
  writes.foldl (fun state put => layout.afterWrite state put.1 put.2) state

theorem afterWrite_of_takes {layout : StateLayout} (h : layout.Tiles) {name : String}
    {value : UInt8} (htakes : layout.Takes name value) (state : BlockState) :
    ∃ field, layout.field name = some field ∧ value.toNat < 2 ^ field.width.toNat ∧
      field.span.Puts state.raw.toNat value.toNat
        (layout.afterWrite state name value).raw.toNat := by
  obtain ⟨field, hfield, hvalue⟩ := htakes
  obtain ⟨state', hwrite, hputs⟩ :=
    write_of_field hfield (h.fits field (mem_of_field hfield).1) state hvalue
  refine ⟨field, hfield, hvalue, ?_⟩
  rw [afterWrite, hwrite]
  exact hputs

theorem afterWrite_of_not_takes {layout : StateLayout} (h : layout.Tiles) {name : String}
    {value : UInt8} (htakes : ¬ layout.Takes name value) (state : BlockState) :
    layout.afterWrite state name value = state := by
  rw [afterWrite]
  cases hfield : layout.field name with
  | none =>
    rw [write_of_unknown hfield]
    rfl
  | some field =>
    have hvalue : 2 ^ field.width.toNat ≤ value.toNat :=
      Nat.not_lt.mp fun hlt => htakes ⟨field, hfield, hlt⟩
    rw [write_of_large hfield (h.fits field (mem_of_field hfield).1) state hvalue]
    rfl

theorem read_afterWrite_self {layout : StateLayout} (h : layout.Tiles) {name : String}
    {value : UInt8} (htakes : layout.Takes name value) (state : BlockState) :
    layout.read (layout.afterWrite state name value) name = .ok value := by
  obtain ⟨field, hfield, hvalue, hputs⟩ := afterWrite_of_takes h htakes state
  rw [read_of_field hfield (h.fits field (mem_of_field hfield).1), hputs.get_self hvalue,
    UInt8.ofNat_toNat]

theorem read_afterWrite_other {layout : StateLayout} (h : layout.Tiles) {name other : String}
    {value : UInt8} (htakes : layout.Takes name value) (hne : name ≠ other)
    (state : BlockState) :
    layout.read (layout.afterWrite state name value) other = layout.read state other := by
  obtain ⟨field, hfield, -, hputs⟩ := afterWrite_of_takes h htakes state
  cases hother : layout.field other with
  | none => rw [read_of_unknown hother, read_of_unknown hother]
  | some field' =>
    obtain ⟨hmem, rfl⟩ := mem_of_field hfield
    obtain ⟨hmem', rfl⟩ := mem_of_field hother
    have hapart := h.apart_of_ne hmem hmem' fun heq => hne (congrArg StateField.name heq)
    rw [read_of_field hother (h.fits field' hmem'), read_of_field hother (h.fits field' hmem'),
      hputs.get_apart hapart]

/-- A bit that is no field's is never touched. -/
theorem testBit_afterWrite {layout : StateLayout} (h : layout.Tiles) {i : Nat}
    (hfree : ∀ field ∈ layout.fields, ¬ field.span.Covers i) (state : BlockState)
    (name : String) (value : UInt8) :
    (layout.afterWrite state name value).raw.toNat.testBit i = state.raw.toNat.testBit i := by
  by_cases htakes : layout.Takes name value
  · obtain ⟨field, hfield, -, hputs⟩ := afterWrite_of_takes h htakes state
    rw [hputs i, if_neg (hfree field (mem_of_field hfield).1)]
  · rw [afterWrite_of_not_takes h htakes]

theorem testBit_afterWrites {layout : StateLayout} (h : layout.Tiles) {i : Nat}
    (hfree : ∀ field ∈ layout.fields, ¬ field.span.Covers i) (state : BlockState)
    (writes : List (String × UInt8)) :
    (layout.afterWrites state writes).raw.toNat.testBit i = state.raw.toNat.testBit i := by
  induction writes generalizing state with
  | nil => rfl
  | cons put writes ih =>
    change (layout.afterWrites (layout.afterWrite state put.1 put.2) writes).raw.toNat.testBit i = _
    rw [ih, testBit_afterWrite h hfree]

theorem read_afterWrites {layout : StateLayout} (h : layout.Tiles) (state : BlockState)
    (writes : List (String × UInt8)) (name : String) :
    (layout.read (layout.afterWrites state writes) name).toOption =
      (lastPut layout.Takes writes name).or (layout.read state name).toOption := by
  apply show_puts layout.Takes (fun state name => (layout.read state name).toOption)
    layout.afterWrite
  · intro state name value htakes
    rw [read_afterWrite_self h htakes]
    rfl
  · intro state name value other htakes hne
    rw [read_afterWrite_other h htakes hne]
  · intro state name value htakes
    exact afterWrite_of_not_takes h htakes state

/-- Under a layout `new` built, a state is a record of its fields: after any run of writes,
refused ones among them, a name reads as the last value it took, or as it did at the start,
and no bit outside the fields has changed. -/
theorem record_after_writes {specs : List StateFieldSpec} {layout : StateLayout}
    (hnew : new specs = .ok layout) (state : BlockState) (writes : List (String × UInt8)) :
    (∀ name, (layout.read (layout.afterWrites state writes) name).toOption =
      (lastPut layout.Takes writes name).or (layout.read state name).toOption) ∧
    ∀ i, (∀ field ∈ layout.fields, ¬ field.span.Covers i) →
      (layout.afterWrites state writes).raw.toNat.testBit i = state.raw.toNat.testBit i :=
  ⟨read_afterWrites (tiles_of_new hnew) state writes,
    fun _ hfree => testBit_afterWrites (tiles_of_new hnew) hfree state writes⟩

theorem record_after_writes_door :
    (∀ name, (read ⟨place 0 [⟨"facing", 2⟩, ⟨"open", 1⟩]⟩
        (afterWrites ⟨place 0 [⟨"facing", 2⟩, ⟨"open", 1⟩]⟩ ⟨0xA5⟩
          [("facing", 3), ("open", 0), ("facing", 4)]) name).toOption =
      (lastPut (Takes ⟨place 0 [⟨"facing", 2⟩, ⟨"open", 1⟩]⟩)
        [("facing", 3), ("open", 0), ("facing", 4)] name).or
        (read ⟨place 0 [⟨"facing", 2⟩, ⟨"open", 1⟩]⟩ ⟨0xA5⟩ name).toOption) ∧
    afterWrites ⟨place 0 [⟨"facing", 2⟩, ⟨"open", 1⟩]⟩ ⟨0xA5⟩
      [("facing", 3), ("open", 0), ("facing", 4)] = ⟨0xA3⟩ := by
  have hnew : new [⟨"facing", 2⟩, ⟨"open", 1⟩] =
      .ok ⟨place 0 [⟨"facing", 2⟩, ⟨"open", 1⟩]⟩ := by decide
  exact ⟨(record_after_writes hnew ⟨0xA5⟩ [("facing", 3), ("open", 0), ("facing", 4)]).1, by decide⟩

end StateLayout

end Catalogs

end LumioVoxel
