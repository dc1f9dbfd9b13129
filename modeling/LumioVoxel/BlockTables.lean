import LumioVoxel.RoomCatalogs

/-!
# Block tables

A block id is resolved by its type: one of the four sentinels, or a row of one of the two
catalogs.  Each catalog is looked up by position, so what the tables return is the row
registered under the type only as long as positions and types stay aligned; the official
catalog keeps them aligned because it refuses every row that is not the next one.
-/

namespace LumioVoxel

open Fallible StepRuns

namespace Catalogs

inductive BuiltinBlockType where
  | air
  | errorBlock
  | entityOccupancyPlaceholder
  | structurePlaceholder
  deriving DecidableEq, Repr

namespace BuiltinBlockType

def fromBlockType (blockType : BlockType) : Option BuiltinBlockType :=
  if blockType.raw = BLOCK_TYPE_AIR then some .air
  else if blockType.raw = BLOCK_TYPE_ERROR then some .errorBlock
  else if blockType.raw = BLOCK_TYPE_ECS_OCCUPANCY then some .entityOccupancyPlaceholder
  else if blockType.raw = BLOCK_TYPE_STRUCTURE_PLACEHOLDER then some .structurePlaceholder
  else none

/-- The raw number of `block_type`. -/
def raw : BuiltinBlockType → UInt32
  | .air => BLOCK_TYPE_AIR
  | .errorBlock => BLOCK_TYPE_ERROR
  | .entityOccupancyPlaceholder => BLOCK_TYPE_ECS_OCCUPANCY
  | .structurePlaceholder => BLOCK_TYPE_STRUCTURE_PLACEHOLDER

theorem fromBlockType_eq_some {blockType : BlockType} {builtin : BuiltinBlockType} :
    fromBlockType blockType = some builtin ↔ blockType.raw = builtin.raw := by
  unfold fromBlockType
  generalize blockType.raw = n
  constructor
  · intro h
    split at h
    · cases h
      assumption
    split at h
    · cases h
      assumption
    split at h
    · cases h
      assumption
    split at h
    · cases h
      assumption
    · cases h
  · rintro rfl
    cases builtin <;> decide

end BuiltinBlockType

/-- A typed sentinel or a registered row. -/
inductive BlockResolution where
  | builtin (value : BuiltinBlockType)
  | ordinary (row : BlockDefinition)
  deriving DecidableEq

structure BlockTables where
  official : OfficialCatalog
  roomLocal : RoomLocalCatalog

namespace BlockTables

def resolve (tables : BlockTables) (blockId : BlockId) : Except String BlockResolution :=
  let blockType := blockId.blockType
  match BuiltinBlockType.fromBlockType blockType with
  | some builtin => .ok (.builtin builtin)
  | none =>
    match blockType.scope with
    | .global =>
      if blockType.raw ≤ SYSTEM_RESERVED_TYPE_MAX then .error UNREGISTERED_BLOCK_TYPE
      else do
        let row ← tables.official.get blockType
        let row ← someOr row UNREGISTERED_BLOCK_TYPE
        return .ordinary row
    | .roomLocal => do
      let row ← tables.roomLocal.get blockType
      return .ordinary row

/-- What the tables should answer for a type: the sentinel, else the row registered under it. -/
def registered (definitions : List BlockDefinition) (blockType : BlockType) :
    Except String BlockResolution :=
  match BuiltinBlockType.fromBlockType blockType with
  | some builtin => .ok (.builtin builtin)
  | none =>
    match definitions.find? (·.blockType = blockType) with
    | some row => .ok (.ordinary row)
    | none => .error UNREGISTERED_BLOCK_TYPE

/-! ## 1. Lookup by position -/

/-- The first item that fits is at a position before which none fits. -/
theorem find?_eq_getElem? {α : Type} {p : α → Bool} {items : List α} {n : Nat}
    (hbefore : ∀ i a, i < n → items[i]? = some a → p a = false)
    (hat : ∀ a, items[n]? = some a → p a = true) : items.find? p = items[n]? := by
  cases hn : items[n]? with
  | some a =>
    obtain ⟨hlt, rfl⟩ := List.getElem?_eq_some_iff.mp hn
    refine List.find?_eq_some_iff_getElem.mpr ⟨hat _ hn, n, hlt, rfl, fun j hj => ?_⟩
    rw [hbefore j _ hj (List.getElem?_eq_getElem (Nat.lt_trans hj hlt))]
    rfl
  | none =>
    refine List.find?_eq_none.mpr fun a ha => ?_
    obtain ⟨i, hi⟩ := List.getElem?_of_mem ha
    have hlt := (List.getElem?_eq_some_iff.mp hi).1
    rw [hbefore i a (Nat.lt_of_lt_of_le hlt (List.getElem?_eq_none_iff.mp hn)) hi]
    exact Bool.false_ne_true

theorem find?_definitions {catalog : OfficialCatalog} {definitions : List BlockDefinition}
    (h : catalog.Holds definitions) (blockType : BlockType) :
    definitions.find? (·.blockType = blockType) =
      if FIRST_OFFICIAL_BLOCK_TYPE ≤ blockType.raw.toNat then
        definitions[blockType.raw.toNat - FIRST_OFFICIAL_BLOCK_TYPE]?
      else none := by
  split
  · rename_i hle
    refine find?_eq_getElem? (fun i row hi hrow => ?_) fun row hrow => ?_
    · have htype := h.dense i row hrow
      rw [decide_eq_false_iff_not]
      rintro rfl
      omega
    · have htype := h.dense _ row hrow
      rw [Nat.add_sub_cancel' hle] at htype
      rw [decide_eq_true_eq]
      exact BlockType.ext_toNat htype
  · rename_i hlt
    refine List.find?_eq_none.mpr fun row hrow => ?_
    obtain ⟨i, hi⟩ := List.getElem?_of_mem hrow
    have htype := h.dense i row hi
    rw [decide_eq_true_eq]
    rintro rfl
    omega

theorem find?_rows (catalog : RoomLocalCatalog) (blockType : BlockType) :
    catalog.rows.find? (·.blockType = blockType) =
      if 2 ^ 23 ≤ blockType.raw.toNat then catalog.rows[blockType.raw.toNat - 2 ^ 23]?
      else none := by
  have hmax := blockType.le_max
  simp only [BLOCK_TYPE_MAX] at hmax
  split
  · rename_i hle
    have htype : ∀ i row, i < 2 ^ 23 → catalog.rows[i]? = some row →
        row.blockType.raw.toNat = 2 ^ 23 + i := by
      intro i row hi hrow
      rw [RoomLocalCatalog.toNat_blockType hrow (by omega), Nat.mod_eq_of_lt hi]
    refine find?_eq_getElem? (fun i row hi hrow => ?_) fun row hrow => ?_
    · have := htype i row (by omega) hrow
      rw [decide_eq_false_iff_not]
      rintro rfl
      omega
    · have := htype _ row (by omega) hrow
      rw [Nat.add_sub_cancel' hle] at this
      rw [decide_eq_true_eq]
      exact BlockType.ext_toNat this
  · rename_i hlt
    refine List.find?_eq_none.mpr fun row hrow => ?_
    obtain ⟨i, hi⟩ := List.getElem?_of_mem hrow
    have hge := le_toNat_roomLocalType (catalog.placed i row hi)
    rw [decide_eq_true_eq]
    rintro rfl
    exact hlt hge

/-! ## 2. What the tables answer -/

/-- **Resolution.** The tables answer with the sentinel, with the row registered under the
type, or that there is none. -/
theorem resolve_eq {tables : BlockTables} {definitions : List BlockDefinition}
    (h : tables.official.Holds definitions) (blockId : BlockId) :
    tables.resolve blockId =
      registered (definitions ++ tables.roomLocal.rows) blockId.blockType := by
  unfold resolve registered
  generalize blockId.blockType = blockType
  rw [List.find?_append, find?_definitions h, find?_rows]
  simp only
  cases BuiltinBlockType.fromBlockType blockType with
  | some builtin => rfl
  | none =>
    cases hscope : blockType.scope with
    | global =>
      have hlt := BlockType.scope_eq_global.mp hscope
      rw [if_neg (Nat.not_le.mpr hlt), Option.or_none]
      have hreserved : blockType.raw ≤ SYSTEM_RESERVED_TYPE_MAX ↔
          blockType.raw.toNat ≤ 255 := UInt32.le_iff_toNat_le
      by_cases hlow : blockType.raw.toNat ≤ 255
      · simp only [if_pos (hreserved.mpr hlow)]
        rw [if_neg (by simp only [FIRST_OFFICIAL_BLOCK_TYPE]; omega)]
      · simp only [if_neg (mt hreserved.mp hlow)]
        rw [if_pos (by simp only [FIRST_OFFICIAL_BLOCK_TYPE]; omega)]
        have hget : tables.official.get blockType =
            .ok definitions[blockType.raw.toNat - FIRST_OFFICIAL_BLOCK_TYPE]? := by
          unfold OfficialCatalog.get
          rw [if_neg (not_not.mpr hscope), h.rows, List.getElem?_append_right
            (by rw [List.length_replicate]; simp only [FIRST_OFFICIAL_BLOCK_TYPE]; omega),
            List.length_replicate, List.getElem?_map]
          cases definitions[blockType.raw.toNat - FIRST_OFFICIAL_BLOCK_TYPE]? <;> rfl
        rw [hget]
        cases definitions[blockType.raw.toNat - FIRST_OFFICIAL_BLOCK_TYPE]? <;> rfl
    | roomLocal =>
      have hge : 2 ^ 23 ≤ blockType.raw.toNat := by
        by_contra hlt
        rw [BlockType.scope_eq_global.mpr (Nat.not_le.mp hlt)] at hscope
        cases hscope
      have hofficial : (if FIRST_OFFICIAL_BLOCK_TYPE ≤ blockType.raw.toNat then
          definitions[blockType.raw.toNat - FIRST_OFFICIAL_BLOCK_TYPE]? else none) = none := by
        rw [← find?_definitions h]
        refine List.find?_eq_none.mpr fun row hrow => ?_
        have hglobal := BlockType.scope_eq_global.mp (h.scopes row hrow)
        rw [decide_eq_true_eq]
        rintro rfl
        omega
      rw [hofficial, Option.none_or, if_pos hge]
      unfold RoomLocalCatalog.get
      rcases blockType.roomLocalIndex_eq with ⟨-, index, hindex, htoNat⟩ | ⟨hlt, -⟩
      · rw [hindex]
        simp only [someOr, ok_bind, htoNat]
        cases tables.roomLocal.rows[blockType.raw.toNat - 2 ^ 23]? <;> rfl
      · omega

/-- **Official catalogs.** After a load and any further calls, accepted or rejected, the
catalog holds just the accepted rows, densely from the first official type on, below the scope
bit, under names that are distinct and not retired; a rejected row changes nothing; and with
any room-local catalog beside it a block id resolves to the sentinel, to the row registered
under its type, or to the unregistered error. -/
theorem official_catalog_run {rows : List BlockCatalogRowInput} {retiredNames : List String}
    {catalog : OfficialCatalog} (hload : OfficialCatalog.load rows retiredNames = .ok catalog)
    (inputs : List BlockCatalogRowInput) :
    let final := run OfficialCatalog.step catalog inputs
    let definitions := trace OfficialCatalog.step OfficialCatalog.accepted
      (OfficialCatalog.unloaded retiredNames) (rows ++ inputs)
    final.Holds definitions ∧ final.retiredNames = retiredNames ∧
      Along OfficialCatalog.step (fun s row => ∀ err, (s.register row).1 = .error err →
        (s.register row).2 = s) catalog inputs ∧
      ∀ (roomLocal : RoomLocalCatalog) (blockId : BlockId),
        (BlockTables.mk final roomLocal).resolve blockId =
          registered (definitions ++ roomLocal.rows) blockId.blockType := by
  intro final definitions
  have hrun : run OfficialCatalog.step (OfficialCatalog.unloaded retiredNames) (rows ++ inputs) =
      final := by
    rw [run_append, OfficialCatalog.load_eq_ok hload]
  have hholds : final.Holds definitions := by
    have h := (OfficialCatalog.holds_unloaded retiredNames).run (rows ++ inputs)
    rwa [hrun, List.nil_append] at h
  refine ⟨hholds, ?_, ?_, fun roomLocal blockId => resolve_eq hholds blockId⟩
  · have hkeep : ∀ (s : OfficialCatalog) row, s.retiredNames = retiredNames →
        (s.step row).retiredNames = retiredNames :=
      fun s row hs => (s.step_retiredNames row).trans hs
    rw [← hrun]
    exact run_invariant hkeep rfl _
  · exact along_of_forall (fun s row err h => OfficialCatalog.step_of_error h) catalog inputs

/-- The first official row, as it is given to `load` and as the catalog holds it. -/
def stoneInput : BlockCatalogRowInput where
  blockType := some 256
  name := some "stone"
  materialClass := some "Solid"
  behaviorTemplate := some "FullCube"
  assetRef := some "stone.png"
  stateLayout := some ⟨[]⟩

def stone : BlockDefinition where
  blockType := ⟨256, by decide⟩
  name := "stone"
  materialClass := .solid
  behaviorTemplate := .fullCube
  assetRef := "stone.png"
  stateLayout := ⟨[]⟩

def stoneCatalog : OfficialCatalog :=
  ⟨List.replicate FIRST_OFFICIAL_BLOCK_TYPE none ++ [some stone], ["dirt"]⟩

private theorem load_stoneInput : OfficialCatalog.load [stoneInput] ["dirt"] = .ok stoneCatalog := by
  have hdefinition : stoneInput.intoDefinition = .ok stone := by decide
  have hcheck : (OfficialCatalog.unloaded ["dirt"]).checkRow stoneInput = .ok stone := by
    refine OfficialCatalog.checkRow_eq_ok.mpr
      ⟨hdefinition, by decide, by decide, ?_, by decide, ?_⟩
    · rw [(OfficialCatalog.holds_unloaded ["dirt"]).length]
      rfl
    · rw [(OfficialCatalog.holds_unloaded ["dirt"]).reduceOption]
      exact fun _ h => absurd h List.not_mem_nil
  unfold OfficialCatalog.load
  simp only [foldSteps, OfficialCatalog.register, hcheck]
  rfl

theorem official_catalog_run_stone :
    let definitions := trace OfficialCatalog.step OfficialCatalog.accepted
      (OfficialCatalog.unloaded ["dirt"]) [stoneInput, stoneInput]
    let final := run OfficialCatalog.step stoneCatalog [stoneInput]
    final.Holds definitions ∧ final.retiredNames = ["dirt"] ∧
      Along OfficialCatalog.step (fun s row => ∀ err, (s.register row).1 = .error err →
        (s.register row).2 = s) stoneCatalog [stoneInput] ∧
      ∀ (roomLocal : RoomLocalCatalog) (blockId : BlockId),
        (BlockTables.mk final roomLocal).resolve blockId =
          registered (definitions ++ roomLocal.rows) blockId.blockType :=
  official_catalog_run load_stoneInput [stoneInput]

end BlockTables

end Catalogs

end LumioVoxel
