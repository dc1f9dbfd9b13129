import LumioVoxel.Attempts
import LumioVoxel.FallibleSteps
import LumioVoxel.SectionStorage
import LumioVoxel.StepRuns
import Mathlib.Data.List.ReduceOption
import Mathlib.Data.Nat.Bitwise

/-!
# Block catalogs

Official block types are listed in one dense catalog from 256 on, the types of a room in
a second one of their own under the scope bit.  A block id is resolved by its type: one of
four sentinels, a row of the one catalog or of the other, or not registered.
-/

namespace LumioVoxel

open Fallible StepRuns

/-! ## 1. Block types and their scope -/

namespace BlockType

def new (raw : UInt32) : Option BlockType :=
  if h : raw.toNat ≤ BLOCK_TYPE_MAX then some ⟨raw, h⟩ else none

theorem new_eq_some {raw : UInt32} {blockType : BlockType} :
    new raw = some blockType ↔ blockType.raw = raw := by
  unfold new
  split
  · rw [Option.some.injEq]
    constructor
    · rintro rfl
      rfl
    · rintro rfl
      rfl
  · rename_i hgt
    simp only [reduceCtorEq, false_iff]
    rintro rfl
    exact hgt blockType.le_max

theorem new_eq_none {raw : UInt32} : new raw = none ↔ BLOCK_TYPE_MAX < raw.toNat := by
  unfold new
  split
  · rename_i hle
    simp only [reduceCtorEq, false_iff]
    exact Nat.not_lt.mpr hle
  · rename_i hgt
    exact iff_of_true rfl (Nat.not_le.mp hgt)

theorem ext_toNat {a b : BlockType} (h : a.raw.toNat = b.raw.toNat) : a = b := by
  cases a
  cases b
  simpa [UInt32.toNat_inj] using h

end BlockType

inductive BlockScope where
  | global
  | roomLocal
  deriving DecidableEq, Repr

def BlockType.scope (blockType : BlockType) : BlockScope :=
  if blockType.raw &&& BLOCK_TYPE_SCOPE_MASK = 0 then .global else .roomLocal

def BlockType.roomLocalIndex (blockType : BlockType) : Option UInt32 :=
  if blockType.raw &&& BLOCK_TYPE_SCOPE_MASK ≠ 0 then
    some (blockType.raw &&& ~~~BLOCK_TYPE_SCOPE_MASK)
  else none

/-- The scope bit alone. -/
theorem toNat_and_scopeMask (raw : UInt32) :
    (raw &&& BLOCK_TYPE_SCOPE_MASK).toNat = (raw.toNat.testBit 23).toNat * 2 ^ 23 := by
  have hmask : BLOCK_TYPE_SCOPE_MASK.toNat = 2 ^ 23 := by decide
  rw [UInt32.toNat_and, hmask, Nat.and_two_pow]

theorem scopeMask_eq_zero (raw : UInt32) :
    raw &&& BLOCK_TYPE_SCOPE_MASK = 0 ↔ raw.toNat.testBit 23 = false := by
  rw [← UInt32.toNat_inj, toNat_and_scopeMask]
  cases raw.toNat.testBit 23 <;> simp

/-- The scope bit of a 24-bit number. -/
theorem testBit_scope {n : Nat} (h : n ≤ BLOCK_TYPE_MAX) : n.testBit 23 = false ↔ n < 2 ^ 23 := by
  simp only [BLOCK_TYPE_MAX] at h
  rw [Nat.testBit_eq_decide_div_mod_eq]
  simp only [decide_eq_false_iff_not]
  omega

/-- Below the scope bit every bit of a 24-bit number passes the complement of the mask. -/
theorem toNat_and_not_scopeMask {raw : UInt32} (h : raw.toNat ≤ BLOCK_TYPE_MAX) :
    (raw &&& ~~~BLOCK_TYPE_SCOPE_MASK).toNat = raw.toNat % 2 ^ 23 := by
  have hmask : (~~~BLOCK_TYPE_SCOPE_MASK).toNat = 4286578687 := by decide
  rw [UInt32.toNat_and, hmask]
  apply Nat.eq_of_testBit_eq
  intro i
  rw [Nat.testBit_and, Nat.testBit_mod_two_pow]
  by_cases hi : i < 24
  · have hbit : ∀ i < 24, Nat.testBit 4286578687 i = decide (i < 23) := by decide
    rw [hbit i hi, Bool.and_comm]
  · have hlarge : raw.toNat < 2 ^ i := by
      simp only [BLOCK_TYPE_MAX] at h
      have hpow : 2 ^ 24 ≤ 2 ^ i := Nat.pow_le_pow_right (by decide) (Nat.not_lt.mp hi)
      omega
    rw [Nat.testBit_eq_false_of_lt hlarge, Bool.false_and, Bool.and_false]

theorem BlockType.scope_eq_global {blockType : BlockType} :
    blockType.scope = .global ↔ blockType.raw.toNat < 2 ^ 23 := by
  rw [← testBit_scope blockType.le_max, ← scopeMask_eq_zero, scope]
  split
  · rename_i h
    exact iff_of_true rfl h
  · rename_i h
    exact iff_of_false BlockScope.noConfusion h

theorem BlockType.roomLocalIndex_eq {blockType : BlockType} :
    (2 ^ 23 ≤ blockType.raw.toNat ∧
      ∃ index : UInt32, blockType.roomLocalIndex = some index ∧
        index.toNat = blockType.raw.toNat - 2 ^ 23) ∨
    (blockType.raw.toNat < 2 ^ 23 ∧ blockType.roomLocalIndex = none) := by
  have hbit := testBit_scope blockType.le_max
  rw [← scopeMask_eq_zero] at hbit
  unfold roomLocalIndex
  by_cases hlt : blockType.raw.toNat < 2 ^ 23
  · exact Or.inr ⟨hlt, if_neg (not_not.mpr (hbit.mpr hlt))⟩
  · refine Or.inl ⟨Nat.not_lt.mp hlt, _, if_pos (mt hbit.mp hlt), ?_⟩
    have hle := blockType.le_max
    rw [toNat_and_not_scopeMask hle]
    simp only [BLOCK_TYPE_MAX] at hle
    omega

/-- `BlockType::new(BLOCK_TYPE_SCOPE_MASK | index as u32)`. -/
def roomLocalType (index : Nat) : Option BlockType :=
  BlockType.new (BLOCK_TYPE_SCOPE_MASK ||| UInt32.ofNat index)

/-- The scope bit over an index: the index loses whatever does not fit below the bit. -/
theorem toNat_roomLocalType {index : Nat} (h : index < 2 ^ 24) {blockType : BlockType}
    (htype : roomLocalType index = some blockType) :
    blockType.raw.toNat = 2 ^ 23 + index % 2 ^ 23 := by
  rw [BlockType.new_eq_some.mp htype, UInt32.toNat_or]
  have hmask : BLOCK_TYPE_SCOPE_MASK.toNat = 2 ^ 23 := by decide
  have hindex : (UInt32.ofNat index).toNat = index := UInt32.toNat_ofNat_of_lt' (Nat.lt_trans h (by decide))
  have hlow : index % 2 ^ 23 < 2 ^ 23 := Nat.mod_lt _ (by decide)
  have hone := Nat.two_pow_add_eq_or_of_lt hlow 1
  rw [hmask, hindex]
  rw [Nat.mul_one] at hone
  rcases Nat.lt_or_ge index (2 ^ 23) with hlt | hge
  · rw [Nat.mod_eq_of_lt hlt] at hone ⊢
    exact hone.symm
  · -- the bit is set already
    have hsplit : index = 2 ^ 23 + index % 2 ^ 23 := by omega
    calc 2 ^ 23 ||| index = 2 ^ 23 ||| (2 ^ 23 ||| index % 2 ^ 23) := by rw [← hone, ← hsplit]
      _ = 2 ^ 23 ||| index % 2 ^ 23 := by rw [← Nat.or_assoc, Nat.or_self]
      _ = 2 ^ 23 + index % 2 ^ 23 := hone.symm

/-- A room-local type is never below the scope bit. -/
theorem le_toNat_roomLocalType {index : Nat} {blockType : BlockType}
    (htype : roomLocalType index = some blockType) : 2 ^ 23 ≤ blockType.raw.toNat := by
  rw [BlockType.new_eq_some.mp htype, UInt32.toNat_or]
  exact Nat.left_le_or

theorem roomLocalType_ne_none {index : Nat} (h : index < 2 ^ 24) : roomLocalType index ≠ none := by
  intro hnone
  have hover := BlockType.new_eq_none.mp hnone
  have hor : BLOCK_TYPE_SCOPE_MASK.toNat ||| index < 2 ^ 24 :=
    Nat.or_lt_two_pow (by decide) h
  have hindex : (UInt32.ofNat index).toNat = index := UInt32.toNat_ofNat_of_lt' (Nat.lt_trans h (by decide))
  rw [UInt32.toNat_or, hindex] at hover
  simp only [BLOCK_TYPE_MAX] at hover
  omega

namespace Catalogs

/-! ## 2. Rows -/

/-- `char::is_whitespace`. -/
def isWhitespace (c : Char) : Bool :=
  let code := c.toNat
  (9 ≤ code && code ≤ 13) || code = 0x20 || code = 0x85 || code = 0xA0 || code = 0x1680 ||
    (0x2000 ≤ code && code ≤ 0x200A) || code = 0x2028 || code = 0x2029 || code = 0x202F ||
    code = 0x205F || code = 0x3000

/-- `text.trim().is_empty()`. -/
def Blank (text : String) : Prop := ∀ c ∈ text.toList, isWhitespace c = true

instance (text : String) : Decidable (Blank text) :=
  decidable_of_iff (text.toList.all isWhitespace = true) List.all_eq_true

inductive MaterialClass where
  | solid
  | liquid
  deriving DecidableEq, Repr

namespace MaterialClass

def parse (raw : String) : Except String MaterialClass :=
  if raw = "Solid" then .ok .solid
  else if raw = "Liquid" then .ok .liquid
  else .error UNKNOWN_MATERIAL_CLASS

def name : MaterialClass → String
  | .solid => "Solid"
  | .liquid => "Liquid"

theorem parse_name (materialClass : MaterialClass) : parse materialClass.name = .ok materialClass := by
  cases materialClass <;> decide

theorem not_blank_name (materialClass : MaterialClass) : ¬ Blank materialClass.name := by
  cases materialClass <;> decide

end MaterialClass

inductive BehaviorTemplate where
  | fullCube
  | liquid
  deriving DecidableEq, Repr

namespace BehaviorTemplate

def parse (raw : String) : Except String BehaviorTemplate :=
  if raw = "FullCube" then .ok .fullCube
  else if raw = "Liquid" then .ok .liquid
  else .error UNKNOWN_BEHAVIOR_TEMPLATE

def name : BehaviorTemplate → String
  | .fullCube => "FullCube"
  | .liquid => "Liquid"

theorem parse_name (template : BehaviorTemplate) : parse template.name = .ok template := by
  cases template <;> decide

theorem not_blank_name (template : BehaviorTemplate) : ¬ Blank template.name := by
  cases template <;> decide

end BehaviorTemplate

structure StateField where
  name : String
  offset : UInt8
  width : UInt8
  deriving DecidableEq, Repr

structure StateLayout where
  fields : List StateField
  deriving DecidableEq, Repr

structure BlockDefinition where
  blockType : BlockType
  name : String
  materialClass : MaterialClass
  behaviorTemplate : BehaviorTemplate
  assetRef : String
  stateLayout : StateLayout
  deriving DecidableEq

structure BlockCatalogRowInput where
  blockType : Option UInt32
  name : Option String
  materialClass : Option String
  behaviorTemplate : Option String
  assetRef : Option String
  stateLayout : Option StateLayout
  deriving DecidableEq

/-- `field.filter(|v| !v.trim().is_empty())`, or the row is incomplete. -/
def presentText (field : Option String) : Except String String :=
  someOr (field.filter fun text => ¬ Blank text) BLOCK_CATALOG_ROW_INCOMPLETE

def BlockCatalogRowInput.intoDefinition (row : BlockCatalogRowInput) :
    Except String BlockDefinition := do
  let blockType ← someOr row.blockType BLOCK_CATALOG_ROW_INCOMPLETE
  let name ← presentText row.name
  let materialName ← presentText row.materialClass
  let templateName ← presentText row.behaviorTemplate
  let assetRef ← presentText row.assetRef
  let stateLayout ← someOr row.stateLayout BLOCK_CATALOG_ROW_INCOMPLETE
  let blockType ← someOr (BlockType.new blockType) BLOCK_CATALOG_NOT_DENSE
  let materialClass ← MaterialClass.parse materialName
  let behaviorTemplate ← BehaviorTemplate.parse templateName
  return { blockType, name, materialClass, behaviorTemplate, assetRef, stateLayout }

/-! ## 3. The official catalog -/

structure OfficialCatalog where
  rows : List (Option BlockDefinition)
  retiredNames : List String
  deriving DecidableEq

namespace OfficialCatalog

/-- The catalog `load` starts from: no row yet at any reserved type. -/
def unloaded (retiredNames : List String) : OfficialCatalog :=
  ⟨List.replicate FIRST_OFFICIAL_BLOCK_TYPE none, retiredNames⟩

/-- The checks of `register`, in order. -/
def checkRow (catalog : OfficialCatalog) (row : BlockCatalogRowInput) :
    Except String BlockDefinition := do
  let definition ← row.intoDefinition
  require (¬ definition.blockType.raw ≤ SYSTEM_RESERVED_TYPE_MAX) SYSTEM_RESERVED_TYPE_MISUSE
  require (definition.blockType.scope = .global) BLOCK_TYPE_SCOPE_VIOLATION
  require (definition.blockType.raw = UInt32.ofNat catalog.rows.length) BLOCK_CATALOG_NOT_DENSE
  require (definition.name ∉ catalog.retiredNames ∧
    ∀ registered ∈ catalog.rows.reduceOption, registered.name ≠ definition.name)
    BLOCK_CATALOG_NAME_REUSED
  return definition

def register (catalog : OfficialCatalog) (row : BlockCatalogRowInput) :
    Except String BlockType × OfficialCatalog :=
  match catalog.checkRow row with
  | .error err => (.error err, catalog)
  | .ok definition =>
    (.ok definition.blockType, { catalog with rows := catalog.rows ++ [some definition] })

def load (rows : List BlockCatalogRowInput) (retiredNames : List String) :
    Except String OfficialCatalog :=
  foldSteps (fun catalog row =>
    match catalog.register row with
    | (.error err, _) => .error err
    | (.ok _, catalog) => .ok catalog) (unloaded retiredNames) rows

def get (catalog : OfficialCatalog) (blockType : BlockType) :
    Except String (Option BlockDefinition) :=
  if blockType.scope ≠ .global then .error BLOCK_TYPE_SCOPE_VIOLATION
  else .ok (catalog.rows[blockType.raw.toNat]?.join)

theorem checkRow_eq_ok {catalog : OfficialCatalog} {row : BlockCatalogRowInput}
    {definition : BlockDefinition} : catalog.checkRow row = .ok definition ↔
      row.intoDefinition = .ok definition ∧
        ¬ definition.blockType.raw ≤ SYSTEM_RESERVED_TYPE_MAX ∧
        definition.blockType.scope = .global ∧
        definition.blockType.raw = UInt32.ofNat catalog.rows.length ∧
        definition.name ∉ catalog.retiredNames ∧
        ∀ registered ∈ catalog.rows.reduceOption, registered.name ≠ definition.name := by
  unfold checkRow
  simp only [bind_eq_ok, require_eq_ok, pure_eq_ok]
  constructor
  · rintro ⟨d, hd, _, hreserved, _, hscope, _, hdense, _, hname, rfl⟩
    exact ⟨hd, hreserved, hscope, hdense, hname⟩
  · rintro ⟨hd, hreserved, hscope, hdense, hname⟩
    exact ⟨definition, hd, (), hreserved, (), hscope, (), hdense, (), hname, rfl⟩

/-- What a call to `register` does: it appends the row, or it changes nothing. -/
theorem register_cases (catalog : OfficialCatalog) (row : BlockCatalogRowInput) :
    (∃ definition, catalog.checkRow row = .ok definition ∧ catalog.register row =
      (.ok definition.blockType, { catalog with rows := catalog.rows ++ [some definition] })) ∨
    (∃ err, catalog.checkRow row = .error err ∧ catalog.register row = (.error err, catalog)) := by
  unfold register
  cases h : catalog.checkRow row with
  | ok definition => exact Or.inl ⟨definition, rfl, rfl⟩
  | error err => exact Or.inr ⟨err, rfl, rfl⟩

/-! ## 4. What a catalog holds -/

/-- The catalog holds just these rows, in this order: no row below the first official type,
then a row for each type from there on. -/
structure Holds (catalog : OfficialCatalog) (definitions : List BlockDefinition) : Prop where
  rows : catalog.rows = List.replicate FIRST_OFFICIAL_BLOCK_TYPE none ++ definitions.map some
  dense : ∀ i definition, definitions[i]? = some definition →
    definition.blockType.raw.toNat = FIRST_OFFICIAL_BLOCK_TYPE + i
  scopes : ∀ definition ∈ definitions, definition.blockType.scope = .global
  names : definitions.Pairwise fun a b => a.name ≠ b.name
  unretired : ∀ definition ∈ definitions, definition.name ∉ catalog.retiredNames

theorem holds_unloaded (retiredNames : List String) : (unloaded retiredNames).Holds [] where
  rows := (List.append_nil _).symm
  dense := fun _ _ h => nomatch h
  scopes := fun _ h => absurd h List.not_mem_nil
  names := List.Pairwise.nil
  unretired := fun _ h => absurd h List.not_mem_nil

theorem Holds.length {catalog : OfficialCatalog} {definitions : List BlockDefinition}
    (h : catalog.Holds definitions) :
    catalog.rows.length = FIRST_OFFICIAL_BLOCK_TYPE + definitions.length := by
  rw [h.rows, List.length_append, List.length_replicate, List.length_map]

theorem Holds.reduceOption {catalog : OfficialCatalog} {definitions : List BlockDefinition}
    (h : catalog.Holds definitions) : catalog.rows.reduceOption = definitions := by
  rw [h.rows, List.reduceOption_append, List.reduceOption_replicate_none, List.nil_append,
    List.reduceOption, List.filterMap_map]
  exact List.filterMap_some

/-- The rows end below the scope bit. -/
theorem Holds.length_le {catalog : OfficialCatalog} {definitions : List BlockDefinition}
    (h : catalog.Holds definitions) : catalog.rows.length ≤ 2 ^ 23 := by
  rw [h.length]
  rcases Nat.eq_zero_or_pos definitions.length with hzero | hpos
  · rw [hzero]
    decide
  · have hget := List.getElem?_eq_getElem (Nat.sub_lt hpos Nat.one_pos)
    have hlast := h.dense _ _ hget
    have hglobal := BlockType.scope_eq_global.mp (h.scopes _ (List.mem_of_getElem? hget))
    omega

/-- The row a call to `register` accepts. -/
def accepted (catalog : OfficialCatalog) (row : BlockCatalogRowInput) : Option BlockDefinition :=
  (catalog.checkRow row).toOption

def step (catalog : OfficialCatalog) (row : BlockCatalogRowInput) : OfficialCatalog :=
  (catalog.register row).2

private theorem Holds.push {catalog : OfficialCatalog} {definitions : List BlockDefinition}
    (h : catalog.Holds definitions) {row : BlockCatalogRowInput} {definition : BlockDefinition}
    (hrow : catalog.checkRow row = .ok definition) :
    Holds { catalog with rows := catalog.rows ++ [some definition] }
      (definitions ++ [definition]) := by
  obtain ⟨-, -, hscope, hraw, hretired, hused⟩ := checkRow_eq_ok.mp hrow
  have hle := h.length_le
  constructor
  · rw [h.rows, List.map_append, List.append_assoc]
    rfl
  · intro i d hd
    rcases Nat.lt_trichotomy i definitions.length with hlt | rfl | hgt
    · rw [List.getElem?_append_left hlt] at hd
      exact h.dense i d hd
    · rw [List.getElem?_concat_length] at hd
      obtain rfl := Option.some.inj hd
      rw [hraw, UInt32.toNat_ofNat_of_lt' (Nat.lt_of_le_of_lt hle (by decide)), h.length]
    · rw [List.getElem?_eq_none (by rw [List.length_append, List.length_singleton]; omega)] at hd
      cases hd
  · intro d hd
    rcases List.mem_append.mp hd with hd | hd
    · exact h.scopes d hd
    · exact List.mem_singleton.mp hd ▸ hscope
  · refine List.pairwise_append.mpr ⟨h.names, List.pairwise_singleton _ _, ?_⟩
    intro a ha b hb
    rw [List.mem_singleton.mp hb]
    exact hused a (h.reduceOption.symm ▸ ha)
  · intro d hd
    rcases List.mem_append.mp hd with hd | hd
    · exact h.unretired d hd
    · exact List.mem_singleton.mp hd ▸ hretired

/-- One call adds the row it accepts, if any. -/
theorem Holds.step {catalog : OfficialCatalog} {definitions : List BlockDefinition}
    (h : catalog.Holds definitions) (row : BlockCatalogRowInput) :
    (catalog.step row).Holds (definitions ++ (catalog.accepted row).toList) := by
  unfold OfficialCatalog.step accepted
  rcases catalog.register_cases row with ⟨definition, hcheck, hcall⟩ | ⟨err, hcheck, hcall⟩
  · rw [hcheck, hcall]
    exact h.push hcheck
  · rw [hcheck, hcall]
    exact (List.append_nil definitions).symm ▸ h

/-- **Dense registration.** After any calls the catalog holds its earlier rows and then
the accepted ones, in the order of the calls. -/
theorem Holds.run {catalog : OfficialCatalog} {definitions : List BlockDefinition}
    (h : catalog.Holds definitions) (inputs : List BlockCatalogRowInput) :
    (StepRuns.run OfficialCatalog.step catalog inputs).Holds
      (definitions ++ trace OfficialCatalog.step accepted catalog inputs) := by
  induction inputs generalizing catalog definitions with
  | nil =>
    rw [trace, List.append_nil]
    exact h
  | cons row rest ih =>
    rw [trace, ← List.append_assoc]
    exact ih (h.step row)

theorem step_retiredNames (catalog : OfficialCatalog) (row : BlockCatalogRowInput) :
    (catalog.step row).retiredNames = catalog.retiredNames := by
  unfold step
  rcases catalog.register_cases row with ⟨definition, -, hcall⟩ | ⟨err, -, hcall⟩ <;> rw [hcall]

theorem step_of_error {catalog : OfficialCatalog} {row : BlockCatalogRowInput} {err : String}
    (h : (catalog.register row).1 = .error err) : catalog.step row = catalog := by
  unfold step
  rcases catalog.register_cases row with ⟨definition, -, hcall⟩ | ⟨err, -, hcall⟩
  · rw [hcall] at h
    cases h
  · rw [hcall]

/-- A load that goes through is a run of calls. -/
theorem load_eq_ok {rows : List BlockCatalogRowInput} {retiredNames : List String}
    {catalog : OfficialCatalog} (h : load rows retiredNames = .ok catalog) :
    StepRuns.run OfficialCatalog.step (unloaded retiredNames) rows = catalog := by
  unfold load at h
  generalize unloaded retiredNames = start at h ⊢
  induction rows generalizing start with
  | nil => exact Except.ok.inj h
  | cons row rest ih =>
    obtain ⟨next, hstep, hrest⟩ := foldSteps_cons_eq_ok.mp h
    rcases start.register_cases row with ⟨definition, -, hcall⟩ | ⟨err, -, hcall⟩
    · rw [hcall] at hstep
      obtain rfl := Except.ok.inj hstep
      rw [run_cons, OfficialCatalog.step, hcall]
      exact ih _ hrest
    · rw [hcall] at hstep
      cases hstep

end OfficialCatalog

end Catalogs

end LumioVoxel
