import LumioVoxel.SectionKey
import Mathlib.Data.List.GetD
import Mathlib.Data.List.Nodup

/-!
# Section storage

The 4096 blocks of one section, held as one block, as a palette of at most 256
distinct blocks with one byte per cell, or as one block per cell.  A write moves
between the three forms and reuses dead palette slots.  The storage type carries
its representation invariant, and reading after writing is proved through every
one of those transitions.
-/

namespace LumioVoxel

/-- The complete 32-bit block identity. -/
structure BlockId where
  raw : UInt32
  deriving DecidableEq, Repr

/-- The 24-bit type segment of a block identity. -/
structure BlockType where
  raw : UInt32
  le_max : raw.toNat ≤ BLOCK_TYPE_MAX
  deriving DecidableEq

def BlockId.blockType (id : BlockId) : BlockType where
  raw := id.raw >>> 8
  le_max := by
    have hlt := id.raw.toNat_lt
    simp only [UInt32.toNat_shiftRight, UInt32.reduceToNat, Nat.reduceMod,
      Nat.shiftRight_eq_div_pow, Nat.reducePow, BLOCK_TYPE_MAX]
    omega

/-- A cell's position inside its section, in the canonical y/z/x order. -/
structure CellOffset where
  raw : UInt16
  le_max : raw.toNat ≤ CELL_OFFSET_MAX
  deriving DecidableEq

namespace CellOffset

/-- `CellOffset::new`: the only constructor of an offset from a raw number. -/
def new (raw : UInt16) : Except String CellOffset :=
  if h : raw.toNat ≤ CELL_OFFSET_MAX then .ok ⟨raw, h⟩ else .error CELL_OFFSET_OUT_OF_RANGE

def index (o : CellOffset) : Nat := o.raw.toNat

theorem index_lt (o : CellOffset) : o.index < SECTION_CELLS :=
  Nat.lt_of_le_of_lt o.le_max (by decide)

theorem index_injective {a b : CellOffset} (h : a.index = b.index) : a = b := by
  cases a
  cases b
  simpa [index, UInt16.toNat_inj] using h

instance : Ord CellOffset where
  compare := compareOn (·.index)

instance : Std.TransOrd CellOffset :=
  inferInstanceAs (Std.TransCmp (compareOn CellOffset.index))

instance : Std.LawfulEqOrd CellOffset where
  eq_of_compare {a b} h := index_injective (by
    have h' : compareOn CellOffset.index a b = .eq := h
    simpa only [compareOn, Std.compare_eq_iff_eq] using h')

end CellOffset

inductive SectionEncoding where
  | uniform
  | palette
  | raw
  | delta
  deriving DecidableEq, Repr

inductive PaletteCapacityAction where
  | notNeeded
  | reusedDeadSlot (cellIndexChanged : Bool)
  | escalatedAfterFullScan
  deriving DecidableEq, Repr

structure WriteOutcome where
  encoding : SectionEncoding
  paletteCapacityAction : PaletteCapacityAction
  deriving DecidableEq, Repr

/-! ## 1. The three representations -/

inductive StorageState where
  | uniform (block : BlockId)
  | palette (entries : List BlockId) (cells : List UInt8)
  | raw (cells : List BlockId)
  deriving DecidableEq, Repr

namespace StorageState

/-- A palette holds distinct blocks, at most 256 of them, and every cell names
one; both cell arrays have one entry for each of the 4096 cells. -/
def WellFormed : StorageState → Prop
  | .uniform _ => True
  | .palette entries cells =>
    cells.length = SECTION_CELLS ∧ entries.length ≤ PALETTE_MAX_ENTRIES ∧ entries.Nodup ∧
      ∀ c ∈ cells, c.toNat < entries.length
  | .raw cells => cells.length = SECTION_CELLS

def encoding : StorageState → SectionEncoding
  | .uniform _ => .uniform
  | .palette _ _ => .palette
  | .raw _ => .raw

/-- The block at one cell.  The default is never read: a well-formed state has
an entry wherever this looks. -/
def read (s : StorageState) (i : Nat) : BlockId :=
  match s with
  | .uniform block => block
  | .palette entries cells => entries.getD (cells.getD i 0).toNat ⟨0⟩
  | .raw cells => cells.getD i ⟨0⟩

/-- All 4096 blocks in cell order. -/
def expandedCells (s : StorageState) : List BlockId :=
  match s with
  | .uniform block => List.replicate SECTION_CELLS block
  | .palette entries cells => cells.map fun slot => entries.getD slot.toNat ⟨0⟩
  | .raw cells => cells

/-- Palette and cell indices for the remaining cells, given the entries found so
far in order of first appearance; `none` when more than 256 blocks occur. -/
def collectPalette : List BlockId → List BlockId → Option (List BlockId × List UInt8)
  | [], entries => some (entries, [])
  | block :: rest, entries =>
    match entries.idxOf? block with
    | some slot =>
      (collectPalette rest entries).map fun (es, slots) => (es, UInt8.ofNat slot :: slots)
    | none =>
      if entries.length < PALETTE_MAX_ENTRIES then
        (collectPalette rest (entries ++ [block])).map fun (es, slots) =>
          (es, UInt8.ofNat entries.length :: slots)
      else
        none

def paletteOrUniform (cells : List BlockId) : Option StorageState :=
  match collectPalette cells [] with
  | none => none
  | some ([block], _) => some (.uniform block)
  | some (entries, indices) => some (.palette entries indices)

def optimalState (cells : List BlockId) : StorageState :=
  (paletteOrUniform cells).getD (.raw cells)

/-! ## 2. Writing -/

/-- Whether a cell other than the excluded one refers to the palette slot. -/
def isSlotLive (cells : List UInt8) (excludedCell slot : Nat) : Bool :=
  (List.range cells.length).any fun cell =>
    cell != excludedCell && (cells.getD cell 0).toNat == slot

inductive PaletteWrite where
  | complete (entries : List BlockId) (cells : List UInt8) (action : PaletteCapacityAction)
  | escalate (raw : List BlockId)

def writePalette (entries : List BlockId) (cells : List UInt8) (cellIndex : Nat)
    (block : BlockId) : PaletteWrite :=
  let oldSlot := (cells.getD cellIndex 0).toNat
  match entries.idxOf? block with
  | some slot => .complete entries (cells.set cellIndex (UInt8.ofNat slot)) .notNeeded
  | none =>
    if entries.length < PALETTE_MAX_ENTRIES then
      .complete (entries ++ [block]) (cells.set cellIndex (UInt8.ofNat entries.length)) .notNeeded
    else
      -- the cell's own slot is preferred; otherwise the first dead one
      let deadSlot :=
        if isSlotLive cells cellIndex oldSlot then
          (List.range PALETTE_MAX_ENTRIES).find? fun slot => !isSlotLive cells cellIndex slot
        else
          some oldSlot
      match deadSlot with
      | some slot =>
        .complete (entries.set slot block) (cells.set cellIndex (UInt8.ofNat slot))
          (.reusedDeadSlot (cells.getD cellIndex 0 != UInt8.ofNat slot))
      | none =>
        .escalate ((cells.map fun slot => entries.getD slot.toNat ⟨0⟩).set cellIndex block)

def write (s : StorageState) (i : Nat) (block : BlockId) : StorageState × PaletteCapacityAction :=
  if s.read i = block then
    (s, .notNeeded)
  else
    match s with
    | .uniform old =>
      (.palette [old, block] ((List.replicate SECTION_CELLS 0).set i 1), .notNeeded)
    | .palette entries cells =>
      match writePalette entries cells i block with
      | .complete entries cells action => (.palette entries cells, action)
      | .escalate blocks => (.raw blocks, .escalatedAfterFullScan)
    | .raw cells =>
      let cells := cells.set i block
      ((paletteOrUniform cells).getD (.raw cells), .notNeeded)

/-! ## 3. Collecting a palette -/

private theorem toNat_ofNat_slot {slot : Nat} (h : slot < 256) : (UInt8.ofNat slot).toNat = slot := by
  rw [UInt8.toNat_ofNat']
  exact Nat.mod_eq_of_lt h

private theorem getD_set {α : Type} {l : List α} {i : Nat} (hi : i < l.length) (j : Nat)
    (a d : α) : (l.set i a).getD j d = if j = i then a else l.getD j d := by
  simp only [List.getD_eq_getElem?_getD, List.getElem?_set, hi, if_true]
  by_cases h : j = i
  · rw [if_pos h, if_pos h.symm, Option.getD_some]
  · rw [if_neg h, if_neg (fun h' => h h'.symm)]

private theorem getD_replicate {α : Type} {n i : Nat} (hi : i < n) (a d : α) :
    (List.replicate n a).getD i d = a := by
  rw [List.getD_eq_getElem _ _ (by rw [List.length_replicate]; exact hi), List.getElem_replicate]

private theorem getD_of_isPrefix {α : Type} {l m : List α} (h : l <+: m) {i : Nat}
    (hi : i < l.length) (d : α) : m.getD i d = l.getD i d := by
  obtain ⟨t, rfl⟩ := h
  simp only [List.getD_eq_getElem?_getD, List.getElem?_append_left hi]

/-- What the palette scan delivers: the entries found so far are kept in front,
the entries stay distinct and at most 256, and each index leads back to its
cell's block. -/
structure CollectedPalette (cells entries es : List BlockId) (slots : List UInt8) : Prop where
  keeps : entries <+: es
  nodup : es.Nodup
  length_le : es.length ≤ PALETTE_MAX_ENTRIES
  indices_lt : ∀ c ∈ slots, c.toNat < es.length
  reads_back : (slots.map fun slot => es.getD slot.toNat ⟨0⟩) = cells

private theorem CollectedPalette.cons {block : BlockId} {rest entries entries' es : List BlockId}
    {slots : List UInt8} {slot : Nat} (h : CollectedPalette rest entries' es slots)
    (hkeep : entries <+: entries') (hslot : slot < entries'.length)
    (hblock : entries'.getD slot ⟨0⟩ = block) :
    CollectedPalette (block :: rest) entries es (UInt8.ofNat slot :: slots) := by
  have hlt : slot < es.length := Nat.lt_of_lt_of_le hslot h.keeps.length_le
  have hnat : (UInt8.ofNat slot).toNat = slot :=
    toNat_ofNat_slot (Nat.lt_of_lt_of_le hlt h.length_le)
  refine ⟨hkeep.trans h.keeps, h.nodup, h.length_le, ?_, ?_⟩
  · intro c hc
    rcases List.mem_cons.mp hc with rfl | hc
    · rw [hnat]
      exact hlt
    · exact h.indices_lt c hc
  · rw [List.map_cons, hnat, getD_of_isPrefix h.keeps hslot, hblock, h.reads_back]

theorem collectPalette_sound {cells entries es : List BlockId} {slots : List UInt8}
    (hnodup : entries.Nodup) (hlen : entries.length ≤ PALETTE_MAX_ENTRIES)
    (h : collectPalette cells entries = some (es, slots)) :
    CollectedPalette cells entries es slots := by
  induction cells generalizing entries es slots with
  | nil =>
    obtain ⟨rfl, rfl⟩ := Prod.mk.inj (Option.some.inj h)
    exact ⟨List.prefix_refl _, hnodup, hlen, fun c hc => absurd hc List.not_mem_nil, rfl⟩
  | cons block rest ih =>
    unfold collectPalette at h
    split at h
    · rename_i slot hslot
      obtain ⟨⟨es', slots'⟩, hrest, heq⟩ := Option.map_eq_some_iff.mp h
      obtain ⟨rfl, rfl⟩ := Prod.mk.inj heq
      obtain ⟨hlt, hblock, -⟩ := List.idxOf?_eq_some_iff.mp hslot
      refine (ih hnodup hlen hrest).cons (List.prefix_refl _) hlt ?_
      rw [List.getD_eq_getElem _ _ hlt, hblock]
    · rename_i hnone
      split at h
      · rename_i hroom
        obtain ⟨⟨es', slots'⟩, hrest, heq⟩ := Option.map_eq_some_iff.mp h
        obtain ⟨rfl, rfl⟩ := Prod.mk.inj heq
        have hfresh : block ∉ entries := List.idxOf?_eq_none_iff.mp hnone
        have hnodup' : (entries ++ [block]).Nodup :=
          List.nodup_append.mpr ⟨hnodup, List.nodup_singleton _, fun a ha b hb hab =>
            hfresh (List.mem_singleton.mp hb ▸ hab ▸ ha)⟩
        have hlen' : (entries ++ [block]).length ≤ PALETTE_MAX_ENTRIES := by
          rw [List.length_append, List.length_singleton]
          exact hroom
        refine (ih hnodup' hlen' hrest).cons (List.prefix_append _ _) ?_ ?_
        · rw [List.length_append, List.length_singleton]
          exact Nat.lt_succ_self _
        · simp [List.getD_eq_getElem?_getD]
      · cases h

/-- The canonical form of 4096 blocks is well formed and reads as those blocks. -/
theorem optimalState_sound {cells : List BlockId} (hlen : cells.length = SECTION_CELLS) :
    (optimalState cells).WellFormed ∧ (optimalState cells).expandedCells = cells := by
  unfold optimalState paletteOrUniform
  split
  · exact ⟨hlen, rfl⟩
  · rename_i block slots hcollect
    have hc := collectPalette_sound List.nodup_nil (by simp) hcollect
    refine ⟨trivial, ?_⟩
    -- every index is 0, so every cell holds the only block
    have hall : ∀ b ∈ cells, b = block := by
      intro b hb
      rw [← hc.reads_back] at hb
      obtain ⟨slot, hslot, rfl⟩ := List.mem_map.mp hb
      have h0 : slot.toNat = 0 := Nat.lt_one_iff.mp (hc.indices_lt slot hslot)
      rw [h0]
      rfl
    simp only [Option.getD_some, expandedCells]
    exact (List.eq_replicate_iff.mpr ⟨hlen, hall⟩).symm
  · rename_i es slots _ hcollect
    have hc := collectPalette_sound List.nodup_nil (by simp) hcollect
    have hslots : slots.length = SECTION_CELLS := by
      rw [← hlen, ← hc.reads_back, List.length_map]
    exact ⟨⟨hslots, hc.length_le, hc.nodup, hc.indices_lt⟩, hc.reads_back⟩

/-! ## 4. A write is a map update -/

theorem length_expandedCells {s : StorageState} (h : s.WellFormed) :
    s.expandedCells.length = SECTION_CELLS := by
  cases s with
  | uniform block => exact List.length_replicate
  | palette entries cells => exact (List.length_map _).trans h.1
  | raw cells => exact h

/-- Reading a cell is looking it up in the expanded cells. -/
theorem read_eq_expandedCells {s : StorageState} (h : s.WellFormed) {i : Nat}
    (hi : i < SECTION_CELLS) : s.read i = s.expandedCells.getD i ⟨0⟩ := by
  cases s with
  | uniform block =>
    rw [read, expandedCells, getD_replicate hi]
  | palette entries cells =>
    have hi' : i < cells.length := by rw [h.1]; exact hi
    simp only [read, expandedCells, List.getD_eq_getElem?_getD, List.getElem?_map,
      List.getElem?_eq_getElem hi', Option.map_some, Option.getD_some]
  | raw cells => rfl

/-- What is known of a state a write produced: it is well formed and reads as
the old one with the written cell replaced. -/
def Updates (s t : StorageState) (i : Nat) (block : BlockId) : Prop :=
  t.WellFormed ∧ ∀ j, j < SECTION_CELLS → t.read j = if j = i then block else s.read j

private theorem updates_of_cells {s : StorageState} {cells : List BlockId} {i : Nat}
    {block : BlockId} (hs : s.WellFormed) (hi : i < SECTION_CELLS)
    (hcells : cells = s.expandedCells.set i block) :
    Updates s (optimalState cells) i block ∧ Updates s (.raw cells) i block := by
  have hexp := length_expandedCells hs
  have hlen : cells.length = SECTION_CELLS := by rw [hcells, List.length_set, hexp]
  have hread : ∀ j, j < SECTION_CELLS →
      cells.getD j ⟨0⟩ = if j = i then block else s.read j := by
    intro j hj
    rw [hcells, getD_set (by rw [hexp]; exact hi), read_eq_expandedCells hs hj]
  obtain ⟨hwf, hcanon⟩ := optimalState_sound hlen
  refine ⟨⟨hwf, fun j hj => ?_⟩, ⟨hlen, hread⟩⟩
  rw [read_eq_expandedCells hwf hj, hcanon, hread j hj]

/-- Pointing one cell at a slot that holds the new block, when no other cell's
block moves. -/
private theorem updates_palette {entries entries' : List BlockId} {cells : List UInt8}
    {i slot : Nat} {block : BlockId} (hs : (palette entries cells).WellFormed)
    (hi : i < SECTION_CELLS) (hlen : entries'.length ≤ PALETTE_MAX_ENTRIES)
    (hnodup : entries'.Nodup) (hslot : slot < entries'.length)
    (hblock : entries'.getD slot ⟨0⟩ = block) (hle : entries.length ≤ entries'.length)
    (hother : ∀ j, j < SECTION_CELLS → j ≠ i →
      entries'.getD (cells.getD j 0).toNat ⟨0⟩ = entries.getD (cells.getD j 0).toNat ⟨0⟩) :
    Updates (palette entries cells) (palette entries' (cells.set i (UInt8.ofNat slot))) i block := by
  obtain ⟨hcells, -, -, hin⟩ := hs
  have hnat : (UInt8.ofNat slot).toNat = slot :=
    toNat_ofNat_slot (Nat.lt_of_lt_of_le hslot hlen)
  have hi' : i < cells.length := by rw [hcells]; exact hi
  refine ⟨⟨by rw [List.length_set, hcells], hlen, hnodup, fun c hc => ?_⟩, fun j hj => ?_⟩
  · rcases List.mem_or_eq_of_mem_set hc with hc | rfl
    · exact Nat.lt_of_lt_of_le (hin c hc) hle
    · rw [hnat]
      exact hslot
  · simp only [read, getD_set hi']
    by_cases hji : j = i
    · rw [if_pos hji, if_pos hji, hnat, hblock]
    · rw [if_neg hji, if_neg hji, hother j hj hji]

/-- A slot the scan reports dead is named by no other cell. -/
private theorem ne_slot_of_not_live {cells : List UInt8} {i slot j : Nat}
    (h : isSlotLive cells i slot = false) (hj : j < cells.length) (hji : j ≠ i) :
    (cells.getD j 0).toNat ≠ slot := by
  simp only [isSlotLive, List.any_eq_false, List.mem_range, Bool.and_eq_true, bne_iff_ne, ne_eq,
    beq_iff_eq, not_and] at h
  exact h j hj hji

private theorem updates_reused {entries : List BlockId} {cells : List UInt8} {i slot : Nat}
    {block : BlockId} (hs : (palette entries cells).WellFormed) (hi : i < SECTION_CELLS)
    (hfresh : block ∉ entries) (hslot : slot < entries.length)
    (hdead : isSlotLive cells i slot = false) :
    Updates (palette entries cells)
      (palette (entries.set slot block) (cells.set i (UInt8.ofNat slot))) i block := by
  have hlen : (entries.set slot block).length = entries.length := List.length_set
  refine updates_palette hs hi (hlen ▸ hs.2.1) (hs.2.2.1.set hfresh) (hlen ▸ hslot) ?_
    (Nat.le_of_eq hlen.symm) ?_
  · rw [getD_set hslot, if_pos rfl]
  · intro j hj hji
    have hj' : j < cells.length := by rw [hs.1]; exact hj
    rw [getD_set hslot, if_neg (ne_slot_of_not_live hdead hj' hji)]

theorem updates_writePalette {entries : List BlockId} {cells : List UInt8} {i : Nat}
    (hs : (palette entries cells).WellFormed) (hi : i < SECTION_CELLS) (block : BlockId) :
    match writePalette entries cells i block with
    | .complete entries' cells' _ => Updates (palette entries cells) (palette entries' cells') i block
    | .escalate blocks => Updates (palette entries cells) (raw blocks) i block := by
  have hi' : i < cells.length := by rw [hs.1]; exact hi
  unfold writePalette
  cases hidx : entries.idxOf? block with
  | some slot =>
    obtain ⟨hlt, hblock, -⟩ := List.idxOf?_eq_some_iff.mp hidx
    refine updates_palette hs hi hs.2.1 hs.2.2.1 hlt ?_ (Nat.le_refl _) (fun j _ _ => rfl)
    rw [List.getD_eq_getElem _ _ hlt, hblock]
  | none =>
    have hfresh : block ∉ entries := List.idxOf?_eq_none_iff.mp hidx
    simp only
    by_cases hroom : entries.length < PALETTE_MAX_ENTRIES
    · rw [if_pos hroom]
      refine updates_palette hs hi ?_ ?_ ?_ ?_ ?_ ?_
      · rw [List.length_append, List.length_singleton]
        exact hroom
      · exact List.nodup_append.mpr ⟨hs.2.2.1, List.nodup_singleton _, fun a ha b hb hab =>
          hfresh (List.mem_singleton.mp hb ▸ hab ▸ ha)⟩
      · rw [List.length_append, List.length_singleton]
        exact Nat.lt_succ_self _
      · simp [List.getD_eq_getElem?_getD]
      · rw [List.length_append]
        exact Nat.le_add_right _ _
      · intro j hj hji
        have hj' : j < cells.length := by rw [hs.1]; exact hj
        refine getD_of_isPrefix (List.prefix_append _ _) (hs.2.2.2 _ ?_) _
        rw [List.getD_eq_getElem _ _ hj']
        exact List.getElem_mem hj'
    · rw [if_neg hroom]
      have hfull : entries.length = PALETTE_MAX_ENTRIES :=
        Nat.le_antisymm hs.2.1 (Nat.not_lt.mp hroom)
      by_cases hlive : isSlotLive cells i (cells.getD i 0).toNat
      · rw [if_pos hlive]
        cases hfind : (List.range PALETTE_MAX_ENTRIES).find?
            (fun slot => !isSlotLive cells i slot) with
        | some slot =>
          have hslot : slot < entries.length := by
            rw [hfull]
            exact List.mem_range.mp (List.mem_of_find?_eq_some hfind)
          have hdead := List.find?_some hfind
          simp only [Bool.not_eq_true'] at hdead
          exact updates_reused hs hi hfresh hslot hdead
        | none => exact (updates_of_cells hs hi rfl).2
      · rw [if_neg hlive]
        have hslot : (cells.getD i 0).toNat < entries.length := by
          refine hs.2.2.2 _ ?_
          rw [List.getD_eq_getElem _ _ hi']
          exact List.getElem_mem hi'
        exact updates_reused hs hi hfresh hslot (Bool.eq_false_iff.mpr hlive)

/-- **A write updates exactly its own cell**, through every transition between
the three representations and every reuse of a dead palette slot. -/
theorem updates_write {s : StorageState} (hs : s.WellFormed) {i : Nat} (hi : i < SECTION_CELLS)
    (block : BlockId) : Updates s (s.write i block).1 i block := by
  unfold write
  by_cases hsame : s.read i = block
  · rw [if_pos hsame]
    refine ⟨hs, fun j _ => ?_⟩
    by_cases hji : j = i
    · rw [if_pos hji, hji, hsame]
    · rw [if_neg hji]
  · rw [if_neg hsame]
    cases s with
    | uniform old =>
      have hlen : (List.replicate SECTION_CELLS (0 : UInt8)).length = SECTION_CELLS :=
        List.length_replicate
      refine ⟨⟨by rw [List.length_set, hlen], Nat.le_add_left 2 254, ?_, fun c hc => ?_⟩,
        fun j hj => ?_⟩
      · simpa [read] using hsame
      · rcases List.mem_or_eq_of_mem_set hc with hc | rfl
        · rw [List.eq_of_mem_replicate hc]
          exact Nat.zero_lt_two
        · exact Nat.one_lt_two
      · simp only [read, getD_set (by rw [hlen]; exact hi)]
        by_cases hji : j = i
        · rw [if_pos hji, if_pos hji]
          rfl
        · rw [if_neg hji, if_neg hji, getD_replicate hj]
          rfl
    | palette entries cells =>
      have h := updates_writePalette hs hi block
      simp only
      cases hw : writePalette entries cells i block with
      | complete entries' cells' action => simpa only [hw] using h
      | escalate blocks => simpa only [hw] using h
    | raw cells => exact (updates_of_cells hs hi rfl).1

end StorageState

/-! ## 5. Storages -/

/-- Errors of the section layer. -/
inductive SectionError where
  | key (err : KeyError)
  | sectionDigestMismatch
  | invalidHandle
  | sectionUnavailable
  | contractViolation (errorId : String)
  deriving DecidableEq, Repr

def SectionError.errorId : SectionError → String
  | .key err => err.errorId
  | .sectionDigestMismatch => SECTION_DIGEST_MISMATCH
  | .invalidHandle => "InvalidHandle"
  | .sectionUnavailable => SECTION_UNAVAILABLE
  | .contractViolation errorId => errorId

/-- Block storage of one section.  Only well-formed states are storages. -/
structure SectionStorage where
  state : StorageState
  wf : state.WellFormed

instance : DecidableEq SectionStorage := fun a b =>
  decidable_of_iff (a.state = b.state) ⟨fun h => by cases a; cases b; cases h; rfl,
    fun h => h ▸ rfl⟩

namespace SectionStorage

def uniform (block : BlockId) : SectionStorage := ⟨.uniform block, trivial⟩

def fromCells (cells : List BlockId) : Except SectionError SectionStorage :=
  if h : cells.length = SECTION_CELLS then
    .ok ⟨StorageState.optimalState cells, (StorageState.optimalState_sound h).1⟩
  else
    .error (.contractViolation SECTION_ENCODING_MISMATCH)

def encoding (s : SectionStorage) : SectionEncoding := s.state.encoding

def read (s : SectionStorage) (o : CellOffset) : BlockId := s.state.read o.index

def write (s : SectionStorage) (o : CellOffset) (block : BlockId) :
    SectionStorage × WriteOutcome :=
  let next : SectionStorage :=
    ⟨(s.state.write o.index block).1, (StorageState.updates_write s.wf o.index_lt block).1⟩
  (next, ⟨next.encoding, (s.state.write o.index block).2⟩)

def compacted (s : SectionStorage) : SectionStorage :=
  ⟨StorageState.optimalState s.state.expandedCells,
    (StorageState.optimalState_sound (StorageState.length_expandedCells s.wf)).1⟩

/-- Canonical full-payload bytes.  The representation is compacted first. -/
def encodedPayload (s : SectionStorage) : Bytes :=
  match s.compacted.state with
  | .uniform block => u32LeBytes block.raw
  | .palette entries cells =>
    u16LeBytes (UInt16.ofNat entries.length) ++
      entries.flatMap (fun entry => u32LeBytes entry.raw) ++ cells
  | .raw cells => cells.flatMap fun block => u32LeBytes block.raw

/-- **Read after write.** -/
theorem read_write (s : SectionStorage) (o o' : CellOffset) (block : BlockId) :
    (s.write o block).1.read o' = if o' = o then block else s.read o' := by
  have h := (StorageState.updates_write s.wf o.index_lt block).2 o'.index o'.index_lt
  by_cases ho : o' = o
  · rw [if_pos ho]
    rw [if_pos (congrArg CellOffset.index ho)] at h
    exact h
  · rw [if_neg ho]
    rw [if_neg (fun hi => ho (CellOffset.index_injective hi))] at h
    exact h

@[simp] theorem read_uniform (block : BlockId) (o : CellOffset) :
    (uniform block).read o = block := rfl

/-- Compaction does not change the expanded cells, so compacting twice is
compacting once. -/
theorem compacted_compacted (s : SectionStorage) : s.compacted.compacted = s.compacted := by
  have h := (StorageState.optimalState_sound (StorageState.length_expandedCells s.wf)).2
  unfold compacted
  congr 1
  exact congrArg StorageState.optimalState h

theorem encodedPayload_compacted (s : SectionStorage) :
    s.compacted.encodedPayload = s.encodedPayload := by
  unfold encodedPayload
  rw [compacted_compacted]

end SectionStorage

end LumioVoxel
