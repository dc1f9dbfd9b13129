import LumioVoxel.FirstAppearance
import LumioVoxel.SectionStorage
import Mathlib.Data.Set.Card

/-!
# Canonical storage

Compaction keeps the cells and forgets the history.  The palette it collects is
the list of the section's blocks in order of first appearance, so the compacted
form, and with it the encoding tag, depends on the cells alone.
-/

namespace LumioVoxel

open FirstAppearance

/-- The palette slot of each cell. -/
def slotsOf (entries cells : List BlockId) : List UInt8 :=
  cells.map fun block => UInt8.ofNat (entries.idxOf block)

namespace StorageState

/-! ## 1. What the palette scan collects -/

/-- The scan keeps the blocks of the cells behind it in order of first
appearance, and gives up when they are more than a palette holds. -/
theorem collectPalette_eraseDups (cells seen : List BlockId)
    (hlen : seen.eraseDups.length ≤ PALETTE_MAX_ENTRIES) :
    collectPalette cells seen.eraseDups =
      if (seen ++ cells).eraseDups.length ≤ PALETTE_MAX_ENTRIES then
        some ((seen ++ cells).eraseDups,
          slotsOf (seen ++ cells).eraseDups cells)
      else
        none := by
  induction cells generalizing seen with
  | nil =>
    rw [List.append_nil, if_pos hlen]
    rfl
  | cons block rest ih =>
    have hassoc : seen ++ block :: rest = (seen ++ [block]) ++ rest := by
      rw [List.append_assoc, List.singleton_append]
    -- a block found so far keeps its place in the finished palette
    have hslot : block ∈ (seen ++ [block]).eraseDups →
        ((seen ++ [block]) ++ rest).eraseDups.idxOf block =
          (seen ++ [block]).eraseDups.idxOf block := by
      intro hmem
      obtain ⟨later, hlater⟩ := eraseDups_append_left (seen ++ [block]) rest
      rw [← hlater, List.idxOf_append_of_mem hmem]
    have hhere : block ∈ (seen ++ [block]).eraseDups :=
      List.mem_eraseDups.mpr (List.mem_append_right _ (List.mem_singleton_self _))
    rw [hassoc, collectPalette, slotsOf, List.map_cons, hslot hhere, ← slotsOf]
    by_cases hmem : block ∈ seen
    · have hsame := eraseDups_concat_of_mem hmem
      have hnext := ih (seen ++ [block]) (by rw [hsame]; exact hlen)
      rw [hsame] at hnext ⊢
      rw [idxOf?_of_mem (List.mem_eraseDups.mpr hmem)]
      simp only [hnext]
      split <;> rfl
    · have hgrow := eraseDups_concat_of_not_mem hmem
      have hfresh : block ∉ seen.eraseDups := fun h => hmem (List.mem_eraseDups.mp h)
      have hlast : (seen ++ [block]).eraseDups.idxOf block = seen.eraseDups.length := by
        rw [hgrow, List.idxOf_append_of_notMem hfresh, List.idxOf_cons_self, Nat.add_zero]
      rw [List.idxOf?_eq_none_iff.mpr hfresh, hlast]
      by_cases hroom : seen.eraseDups.length < PALETTE_MAX_ENTRIES
      · have hnext := ih (seen ++ [block])
          (by rw [hgrow, List.length_append, List.length_singleton]; exact hroom)
        rw [hgrow] at hnext
        simp only [if_pos hroom, hnext]
        split <;> rfl
      · -- the palette is full and this block is one more
        have hmore : ¬ ((seen ++ [block]) ++ rest).eraseDups.length ≤ PALETTE_MAX_ENTRIES := by
          have hseen := (eraseDups_append_left (seen ++ [block]) rest).length_le
          rw [hgrow, List.length_append, List.length_singleton] at hseen
          exact fun hle => hroom (Nat.lt_of_lt_of_le (Nat.lt_succ_self _) (hseen.trans hle))
        simp only [if_neg hroom, if_neg hmore]

private theorem collectPalette_nil (cells : List BlockId) :
    collectPalette cells [] =
      if cells.eraseDups.length ≤ PALETTE_MAX_ENTRIES then
        some (cells.eraseDups, slotsOf cells.eraseDups cells)
      else
        none :=
  collectPalette_eraseDups cells [] (Nat.zero_le _)

/-! ## 2. The compacted form, by the number of blocks -/

theorem optimalState_uniform {cells : List BlockId} {block : BlockId}
    (h : cells.eraseDups = [block]) : optimalState cells = .uniform block := by
  have hle : cells.eraseDups.length ≤ PALETTE_MAX_ENTRIES := by
    rw [h, List.length_singleton]
    decide
  rw [optimalState, paletteOrUniform, collectPalette_nil, if_pos hle, h]
  rfl

theorem optimalState_palette {cells : List BlockId} (htwo : 2 ≤ cells.eraseDups.length)
    (hle : cells.eraseDups.length ≤ PALETTE_MAX_ENTRIES) :
    optimalState cells = .palette cells.eraseDups
      (slotsOf cells.eraseDups cells) := by
  rw [optimalState, paletteOrUniform, collectPalette_nil, if_pos hle]
  split
  · rename_i hnone
    cases hnone
  · rename_i block slots hone
    rw [(Prod.mk.inj (Option.some.inj hone)).1] at htwo
    exact absurd htwo (by simp)
  · rename_i hsome
    obtain ⟨rfl, rfl⟩ := Prod.mk.inj (Option.some.inj hsome)
    rfl

theorem optimalState_raw {cells : List BlockId}
    (h : PALETTE_MAX_ENTRIES < cells.eraseDups.length) : optimalState cells = .raw cells := by
  rw [optimalState, paletteOrUniform, collectPalette_nil, if_neg (Nat.not_le.mpr h)]
  rfl

theorem eraseDups_ne_nil {cells : List BlockId} (h : cells.length = SECTION_CELLS) :
    cells.eraseDups ≠ [] := by
  intro hnil
  obtain ⟨block, rest, rfl⟩ := List.exists_cons_of_length_pos (by rw [h]; decide : 0 < cells.length)
  have hmem : block ∈ (block :: rest).eraseDups := List.mem_eraseDups.mpr List.mem_cons_self
  rw [hnil] at hmem
  cases hmem

/-- The three forms a compacted section can have. -/
theorem optimalState_cases {cells : List BlockId} (h : cells.length = SECTION_CELLS) :
    (∃ block, cells.eraseDups = [block] ∧ optimalState cells = .uniform block) ∨
    (2 ≤ cells.eraseDups.length ∧ cells.eraseDups.length ≤ PALETTE_MAX_ENTRIES ∧
      optimalState cells = .palette cells.eraseDups
        (slotsOf cells.eraseDups cells)) ∨
    (PALETTE_MAX_ENTRIES < cells.eraseDups.length ∧ optimalState cells = .raw cells) := by
  rcases Nat.lt_or_ge PALETTE_MAX_ENTRIES cells.eraseDups.length with hmany | hle
  · exact .inr (.inr ⟨hmany, optimalState_raw hmany⟩)
  obtain ⟨block, rest, hcons⟩ := List.exists_cons_of_ne_nil (eraseDups_ne_nil h)
  cases rest with
  | nil => exact .inl ⟨block, hcons, optimalState_uniform hcons⟩
  | cons next rest =>
    have htwo : 2 ≤ cells.eraseDups.length := by
      rw [hcons]
      exact Nat.le_add_left 2 rest.length
    exact .inr (.inl ⟨htwo, hle, optimalState_palette htwo hle⟩)

end StorageState

/-! ## 3. Storages with the same cells -/

theorem CellOffset.exists_index {i : Nat} (h : i < SECTION_CELLS) :
    ∃ o : CellOffset, o.index = i := by
  have hnat : (UInt16.ofNat i).toNat = i := by
    rw [UInt16.toNat_ofNat']
    exact Nat.mod_eq_of_lt (Nat.lt_trans h (by decide))
  exact ⟨⟨UInt16.ofNat i, by rw [hnat]; exact Nat.le_of_lt_succ h⟩, hnat⟩

namespace SectionStorage

/-- The 4096 blocks of a section in cell order. -/
def cells (s : SectionStorage) : List BlockId := s.state.expandedCells

@[simp] theorem length_cells (s : SectionStorage) : s.cells.length = SECTION_CELLS :=
  StorageState.length_expandedCells s.wf

theorem ext_state {s t : SectionStorage} (h : s.state = t.state) : s = t := by
  cases s
  cases t
  cases h
  rfl

theorem fromCells_eq_ok {cells : List BlockId} {s : SectionStorage} :
    fromCells cells = .ok s ↔
      cells.length = SECTION_CELLS ∧ s.state = StorageState.optimalState cells := by
  unfold fromCells
  by_cases h : cells.length = SECTION_CELLS
  · rw [dif_pos h]
    constructor
    · intro hs
      rw [← Except.ok.inj hs]
      exact ⟨h, rfl⟩
    · rintro ⟨-, hs⟩
      exact congrArg Except.ok (ext_state hs.symm)
  · rw [dif_neg h]
    exact ⟨fun hs => (by cases hs), fun hs => absurd hs.1 h⟩

theorem read_eq_cells (s : SectionStorage) (o : CellOffset) :
    s.read o = s.cells.getD o.index ⟨0⟩ :=
  StorageState.read_eq_expandedCells s.wf o.index_lt

theorem compacted_state (s : SectionStorage) :
    s.compacted.state = StorageState.optimalState s.cells := rfl

@[simp] theorem cells_compacted (s : SectionStorage) : s.compacted.cells = s.cells :=
  (StorageState.optimalState_sound s.length_cells).2

@[simp] theorem read_compacted (s : SectionStorage) (o : CellOffset) :
    s.compacted.read o = s.read o := by
  rw [read_eq_cells, read_eq_cells, cells_compacted]

theorem compacted_of_fromCells {cells : List BlockId} {s : SectionStorage}
    (h : fromCells cells = .ok s) : s.cells = cells ∧ s.compacted = s := by
  obtain ⟨hlen, hstate⟩ := fromCells_eq_ok.mp h
  have hcells : s.cells = cells := by
    unfold SectionStorage.cells
    rw [hstate]
    exact (StorageState.optimalState_sound hlen).2
  refine ⟨hcells, ?_⟩
  apply ext_state
  rw [compacted_state, hcells, hstate]

theorem mem_cells {s : SectionStorage} {block : BlockId} :
    block ∈ s.cells ↔ ∃ o, s.read o = block := by
  constructor
  · intro h
    obtain ⟨i, hi, hblock⟩ := List.mem_iff_getElem.mp h
    obtain ⟨o, rfl⟩ := CellOffset.exists_index (by rw [← s.length_cells]; exact hi)
    exact ⟨o, by rw [read_eq_cells, List.getD_eq_getElem _ _ hi, hblock]⟩
  · rintro ⟨o, rfl⟩
    have hi : o.index < s.cells.length := by
      rw [length_cells]
      exact o.index_lt
    rw [read_eq_cells, List.getD_eq_getElem _ _ hi]
    exact List.getElem_mem hi

/-- Two storages have the same cells exactly when they read equal everywhere. -/
theorem cells_eq_iff {s t : SectionStorage} : s.cells = t.cells ↔ ∀ o, s.read o = t.read o := by
  constructor
  · intro h o
    rw [read_eq_cells, read_eq_cells, h]
  · intro h
    apply List.ext_getElem (by rw [length_cells, length_cells])
    intro i hs ht
    obtain ⟨o, rfl⟩ := CellOffset.exists_index (by rw [← s.length_cells]; exact hs)
    have ho := h o
    rw [read_eq_cells, read_eq_cells, List.getD_eq_getElem _ _ hs, List.getD_eq_getElem _ _ ht]
      at ho
    exact ho

/-- **Compaction is canonical**: it identifies exactly the storages that read
equal at every offset. -/
theorem compacted_eq_iff {s t : SectionStorage} :
    s.compacted = t.compacted ↔ ∀ o, s.read o = t.read o := by
  rw [← cells_eq_iff]
  constructor
  · intro h
    rw [← cells_compacted s, h, cells_compacted]
  · intro h
    apply ext_state
    rw [compacted_state, compacted_state, h]

theorem compacted_uniform (block : BlockId) : (uniform block).compacted = uniform block := by
  have hmem : ∀ b, b ∈ [block] ↔ b ∈ (uniform block).cells := by
    intro b
    rw [mem_cells, List.mem_singleton]
    obtain ⟨o, -⟩ := CellOffset.exists_index (by decide : 0 < SECTION_CELLS)
    exact ⟨fun h => ⟨o, h.symm⟩, fun ⟨_, h⟩ => h.symm⟩
  have hone : (uniform block).cells.eraseDups = [block] :=
    (List.singleton_perm.mp (perm_eraseDups (List.nodup_singleton block) hmem)).symm
  apply ext_state
  rw [compacted_state, StorageState.optimalState_uniform hone]
  rfl

/-- The number of different blocks in a section is the length of the list of
first appearances. -/
theorem ncard_range_read (s : SectionStorage) :
    (Set.range s.read).ncard = s.cells.eraseDups.length := by
  have hset : Set.range s.read = ↑s.cells.eraseDups.toFinset := by
    ext block
    rw [Set.mem_range, ← mem_cells, List.coe_toFinset]
    exact List.mem_eraseDups.symm
  rw [hset, Set.ncard_coe_finset, List.toFinset_card_of_nodup (nodup_eraseDups _)]

/-! ## 4. The encoding tag counts the blocks -/

theorem encoding_compacted (s : SectionStorage) :
    s.compacted.encoding =
      if s.cells.eraseDups.length = 1 then .uniform
      else if s.cells.eraseDups.length ≤ PALETTE_MAX_ENTRIES then .palette
      else .raw := by
  unfold encoding
  rw [compacted_state]
  rcases StorageState.optimalState_cases s.length_cells with
    ⟨block, h, hs⟩ | ⟨htwo, hle, hs⟩ | ⟨h, hs⟩
  · rw [hs, h, List.length_singleton, if_pos rfl]
    rfl
  · rw [hs, if_neg (Nat.ne_of_gt htwo), if_pos hle]
    rfl
  · rw [hs, if_neg (Nat.ne_of_gt (Nat.lt_trans (by decide) h)), if_neg (Nat.not_le.mpr h)]
    rfl

theorem one_le_blocks (s : SectionStorage) : 1 ≤ s.cells.eraseDups.length :=
  List.length_pos_of_ne_nil (StorageState.eraseDups_ne_nil s.length_cells)

end SectionStorage

end LumioVoxel
