import Mathlib.Algebra.Group.Nat.Defs
import Mathlib.Data.List.Basic

/-!
# Contract terms

The limits and stable error identifiers of `lumio.voxel-world.v1` that the
modelled code reads, and the checked successor every revision counter advances
by.
-/

namespace LumioVoxel

/-! ## 1. Identity and limits -/

def SECTION_KEY_PREFIX : String := "s"
def CHUNK_KEY_PREFIX : String := "c"
abbrev SECTION_KEY_ARITY : Nat := 3
abbrev CHUNK_KEY_ARITY : Nat := 2
abbrev SECTION_COORD_MIN : Int := -2147483648
abbrev SECTION_COORD_MAX : Int := 2147483647
abbrev SECTION_CELLS : Nat := 4096
abbrev SECTION_Y_MIN : Nat := 0
abbrev SECTION_Y_MAX : Nat := 15
abbrev PALETTE_MAX_ENTRIES : Nat := 256
abbrev MAX_ENTRIES_PER_WRITE_BATCH : Nat := 65536
abbrev BLOCK_TYPE_MAX : Nat := 16777215
abbrev BLOCK_TYPE_SCOPE_MASK : UInt32 := 8388608
abbrev SYSTEM_RESERVED_TYPE_MAX : UInt32 := 255
abbrev FIRST_OFFICIAL_BLOCK_TYPE : Nat := 256
abbrev BLOCK_TYPE_AIR : UInt32 := 0
abbrev BLOCK_TYPE_ERROR : UInt32 := 1
abbrev BLOCK_TYPE_ECS_OCCUPANCY : UInt32 := 2
abbrev BLOCK_TYPE_STRUCTURE_PLACEHOLDER : UInt32 := 3
abbrev MAX_CELLS_PER_READ_REQUEST : Nat := 262144
abbrev CELL_OFFSET_MAX : Nat := 4095
abbrev CELL_OFFSET_Y_STRIDE : UInt16 := 256
abbrev CELL_OFFSET_Z_STRIDE : UInt16 := 16
abbrev CELL_OFFSET_X_STRIDE : UInt16 := 1
abbrev WORLD_Y_MIN : Int := 0
abbrev WORLD_Y_MAX : Int := 255

/-! ## 2. Error identifiers -/

def UNKNOWN_SECTION_KEY : String := "unknown_section_key"
def UNKNOWN_CHUNK_KEY : String := "unknown_chunk_key"
def SECTION_Y_OUT_OF_RANGE : String := "section_y_out_of_range"
def COORDINATE_OUT_OF_BOUNDS : String := "coordinate_out_of_bounds"
def SECTION_UNAVAILABLE : String := "section_unavailable"
def STALE_SECTION_REVISION : String := "stale_section_revision"
def PALETTE_OVERFLOW : String := "palette_overflow"
def SECTION_ENCODING_MISMATCH : String := "section_encoding_mismatch"
def SECTION_DIGEST_MISMATCH : String := "section_digest_mismatch"
def DEAD_PALETTE_ENTRY_IN_PAYLOAD : String := "dead_palette_entry_in_payload"
def DELTA_BASE_REVISION_MISMATCH : String := "delta_base_revision_mismatch"
def DELTA_USED_FOR_FIRST_DELIVERY : String := "delta_used_for_first_delivery"
def BASE_REVISION_ON_FULL_ENCODING : String := "base_revision_on_full_encoding"
def DIRTY_SECTION_NOT_DURABLE : String := "dirty_section_not_durable"
def WORLD_Y_OUT_OF_RANGE : String := "world_y_out_of_range"
def CELL_OFFSET_OUT_OF_RANGE : String := "cell_offset_out_of_range"
def RESIDENCY_PIN_EXCEEDS_BUDGET : String := "residency_pin_exceeds_budget"
def PIN_REGION_NOT_READY : String := "pin_region_not_ready"
def PINNED_READ_RETURNED_PENDING : String := "pinned_read_returned_pending"
def PINNED_SECTION_EVICTED : String := "pinned_section_evicted"
def CELL_READ_MISSING_PRESENCE : String := "cell_read_missing_presence"
def READ_RESULT_MISSING_REVISION : String := "read_result_missing_revision"
def READ_BUDGET_EXCEEDED : String := "read_budget_exceeded"
def UNKNOWN_MATERIAL_CLASS : String := "unknown_material_class"
def UNKNOWN_BEHAVIOR_TEMPLATE : String := "unknown_behavior_template"
def BLOCK_TYPE_SCOPE_VIOLATION : String := "block_type_scope_violation"
def SYSTEM_RESERVED_TYPE_MISUSE : String := "system_reserved_type_misuse"
def ROOM_LOCAL_TYPE_WITHOUT_MAPPING : String := "room_local_type_without_mapping"
def PLAYER_TYPE_DECLARES_BEHAVIOR : String := "player_type_declares_behavior"
def BLOCK_CATALOG_NOT_DENSE : String := "block_catalog_not_dense"
def BLOCK_CATALOG_NAME_REUSED : String := "block_catalog_name_reused"
def BLOCK_CATALOG_ROW_INCOMPLETE : String := "block_catalog_row_incomplete"
def UNREGISTERED_BLOCK_TYPE : String := "unregistered_block_type"
def WRITE_BATCH_TOO_LARGE : String := "write_batch_too_large"
def UNSTRUCTURED_MUTATION_ENTRY : String := "unstructured_mutation_entry"

/-! ## 3. Guarded arithmetic -/

/-- `saturating_add(1)` on a `usize` count. -/
def saturatingSucc (n : Nat) : Nat := min (n + 1) (2 ^ 64 - 1)

theorem saturatingSucc_of_lt {n : Nat} (h : n + 1 < 2 ^ 64) : saturatingSucc n = n + 1 :=
  Nat.min_eq_left (by omega)

/-- `checked_add(1)` on a 64-bit counter. -/
def checkedSucc (n : UInt64) : Option UInt64 :=
  if n.toNat + 1 < 2 ^ 64 then some (n + 1) else none

theorem checkedSucc_eq_some {n m : UInt64} :
    checkedSucc n = some m ↔ m.toNat = n.toNat + 1 := by
  unfold checkedSucc
  constructor
  · intro h
    split at h
    · rename_i hlt
      obtain rfl := Option.some.inj h
      rw [UInt64.toNat_add, UInt64.toNat_one]
      exact Nat.mod_eq_of_lt hlt
    · cases h
  · intro h
    have hlt : n.toNat + 1 < 2 ^ 64 := by
      have := m.toNat_lt
      omega
    rw [if_pos hlt]
    congr 1
    apply UInt64.toNat_inj.mp
    rw [UInt64.toNat_add, UInt64.toNat_one, Nat.mod_eq_of_lt hlt, h]

theorem checkedSucc_eq_succ {n m : UInt64} (h : checkedSucc n = some m) : m = n + 1 := by
  have hnat := checkedSucc_eq_some.mp h
  have hlt := m.toNat_lt
  apply UInt64.toNat_inj.mp
  rw [UInt64.toNat_add, hnat]
  exact (Nat.mod_eq_of_lt (by rw [← hnat]; exact hlt)).symm

theorem isSome_checkedSucc {n : UInt64} : (checkedSucc n).isSome = true ↔ n.toNat + 1 < 2 ^ 64 := by
  unfold checkedSucc
  split
  · rename_i hlt
    exact iff_of_true rfl hlt
  · rename_i hlt
    exact iff_of_false Bool.false_ne_true hlt

end LumioVoxel
