import LumioVoxel.CopyOnWrite
import LumioVoxel.SectionPayloadCodec
import LumioVoxel.StepRuns

/-!
# Storage handles

A section's storage is held through a counted pointer: clones share it, and a write goes
in place or to a copy.  Over whole runs of constructions, decodes, clones and writes, a
write is still the update of one cell of one storage, and every storage keeps the form its
blocks allow.
-/

namespace LumioVoxel

open CopyOnWrite

/-! ## 1. Runs over handles -/

abbrev StorageHeap : Type := Heap SectionStorage

/-- Writing the block that is there changes nothing. -/
theorem SectionStorage.write_same {storage : SectionStorage} {offset : CellOffset}
    {block : BlockId} (h : storage.read offset = block) :
    (storage.write offset block).1 = storage := by
  apply SectionStorage.ext_state
  have hsame : storage.state.read offset.index = block := h
  exact congrArg Prod.fst (if_pos hsame)

namespace StorageHeap

/-- A write of the block that is there leaves the allocation shared. -/
def write (heap : StorageHeap) (h : Nat) (offset : CellOffset) (block : BlockId) : StorageHeap :=
  match heap.deref h with
  | none => heap
  | some storage =>
    if storage.read offset = block then heap
    else heap.makeMut h fun storage => (storage.write offset block).1

def writeEntries (heap : StorageHeap) (h : Nat) : List (UInt16 × BlockId) → StorageHeap
  | [] => heap
  | (raw, block) :: rest =>
    match CellOffset.new raw with
    | .error _ => heap
    | .ok offset => writeEntries (write heap h offset block) h rest

/-- A baseline as the decoder takes it: a storage and its revision. -/
def held (heap : StorageHeap) (baseline : Option (Nat × UInt64)) :
    Option (SectionStorage × UInt64) :=
  baseline.bind fun item => (heap.deref item.1).map fun storage => (storage, item.2)

/-- A delta is written to a clone of its baseline, any other payload is built anew.  What a
failed decode had cloned is dropped with it. -/
def decode (heap : StorageHeap) (env : SectionPayloadEnvelope)
    (baseline : Option (Nat × UInt64)) : StorageHeap :=
  match env.decode (held heap baseline) with
  | .error _ => heap
  | .ok decoded =>
    match env.encoding, baseline with
    | .delta, some item =>
      writeEntries (heap.clone item.1) heap.handles.length (deltaEntryCodec.unpacked env.payload)
    | _, _ => heap.alloc decoded.storage

end StorageHeap

inductive StorageOp where
  | uniform (block : BlockId)
  | fromCells (cells : List BlockId)
  | decode (env : SectionPayloadEnvelope) (baseline : Option (Nat × UInt64))
  | clone (h : Nat)
  | drop (h : Nat)
  | write (h : Nat) (offset : CellOffset) (block : BlockId)

def StorageHeap.step (heap : StorageHeap) : StorageOp → StorageHeap
  | .uniform block => heap.alloc (.uniform block)
  | .fromCells cells =>
    match SectionStorage.fromCells cells with
    | .error _ => heap
    | .ok storage => heap.alloc storage
  | .decode env baseline => StorageHeap.decode heap env baseline
  | .clone h => heap.clone h
  | .drop h => heap.drop h
  | .write h offset block => StorageHeap.write heap h offset block

def StorageHeap.run (ops : List StorageOp) : StorageHeap :=
  StepRuns.run StorageHeap.step Heap.empty ops

/-! ## 2. What a step does to the storages -/

namespace StorageHeap

variable {heap : StorageHeap}

/-- **One storage is written.** Only what the handle itself reads changes. -/
theorem values_write (hsound : heap.Sound) {h : Nat} {storage : SectionStorage}
    (hstorage : heap.deref h = some storage) (offset : CellOffset) (block : BlockId) :
    (write heap h offset block).values =
      heap.values.set h (some (storage.write offset block).1) := by
  unfold write
  simp only [hstorage]
  split
  · rename_i hsame
    have hentry : heap.values[h]? = some (some storage) := Option.join_eq_some_iff.mp hstorage
    obtain ⟨hlt, hvalue⟩ := List.getElem?_eq_some_iff.mp hentry
    rw [SectionStorage.write_same hsame, ← hvalue, List.set_getElem_self]
  · exact Heap.values_makeMut hsound hstorage _

theorem Sound.write (hsound : heap.Sound) (h : Nat) (offset : CellOffset) (block : BlockId) :
    (write heap h offset block).Sound := by
  unfold StorageHeap.write
  split
  · exact hsound
  · split
    · exact hsound
    · exact hsound.makeMut _ _

theorem Sound.writeEntries (h : Nat) (entries : List (UInt16 × BlockId)) :
    ∀ {heap : StorageHeap}, heap.Sound → (writeEntries heap h entries).Sound := by
  induction entries with
  | nil => exact fun hsound => hsound
  | cons entry rest ih =>
    intro heap hsound
    unfold StorageHeap.writeEntries
    cases CellOffset.new entry.1 with
    | error err => exact hsound
    | ok offset => exact ih (Sound.write hsound h offset entry.2)

theorem deref_write (hsound : heap.Sound) {h : Nat} {storage : SectionStorage}
    (hstorage : heap.deref h = some storage) (offset : CellOffset) (block : BlockId) (g : Nat) :
    (write heap h offset block).deref g =
      if g = h then some (storage.write offset block).1 else heap.deref g :=
  Heap.deref_of_values_set hstorage (values_write hsound hstorage offset block) g

/-- Writing the entries of a delta through a handle is applying them to its storage. -/
theorem values_writeEntries {h : Nat} {entries : List (UInt16 × BlockId)}
    {storage result : SectionStorage} (hresult : applyEntries storage entries = .ok result) :
    ∀ {heap : StorageHeap}, heap.Sound → heap.deref h = some storage →
      (writeEntries heap h entries).values = heap.values.set h (some result) := by
  induction entries generalizing storage with
  | nil =>
    intro heap _ hstorage
    obtain rfl := Except.ok.inj hresult
    obtain ⟨hlt, hvalue⟩ :=
      List.getElem?_eq_some_iff.mp (Option.join_eq_some_iff.mp hstorage)
    rw [writeEntries, ← hvalue, List.set_getElem_self]
  | cons entry rest ih =>
    intro heap hsound hstorage
    unfold applyEntries at hresult
    unfold writeEntries
    cases hoffset : CellOffset.new entry.1 with
    | error err =>
      simp only [hoffset] at hresult
      cases hresult
    | ok offset =>
      simp only [hoffset] at hresult
      have hwritten : (write heap h offset entry.2).deref h =
          some (storage.write offset entry.2).1 := by
        rw [deref_write hsound hstorage, if_pos rfl]
      have hrest := ih hresult (Sound.write hsound h offset entry.2) hwritten
      simp only
      rw [hrest, values_write hsound hstorage, List.set_set]

theorem decode_storage {env : SectionPayloadEnvelope} {baseline : Option (SectionStorage × UInt64)}
    {decoded : DecodedSectionPayload} (h : env.decode baseline = .ok decoded) :
    env.decodeStorage baseline = .ok decoded.storage := by
  unfold SectionPayloadEnvelope.decode at h
  split at h
  · cases h
  · split at h
    · cases h
    · split at h
      · cases h
      · split at h
        · cases h
        · rename_i storage hstorage
          obtain rfl := Except.ok.inj h
          exact hstorage

/-- A delta that decodes is applied to the storage its baseline holds. -/
theorem applyEntries_of_decode {env : SectionPayloadEnvelope} {held : SectionStorage × UInt64}
    {storage : SectionStorage} (hdelta : env.encoding = .delta)
    (h : env.decodeStorage (some held) = .ok storage) :
    applyEntries held.1 (deltaEntryCodec.unpacked env.payload) = .ok storage := by
  simp only [SectionPayloadEnvelope.decodeStorage, hdelta] at h
  split at h
  · cases h
  · split at h
    · cases h
    · unfold applyDelta at h
      split at h
      · cases h
      · exact h

/-- **A decode adds what it decodes.** The storages there were read as before, and the new
handle reads the decoded one. -/
theorem values_decode (hsound : heap.Sound) {env : SectionPayloadEnvelope}
    {baseline : Option (Nat × UInt64)} {decoded : DecodedSectionPayload}
    (hdecode : env.decode (held heap baseline) = .ok decoded) :
    (decode heap env baseline).values = heap.values ++ [some decoded.storage] := by
  unfold decode
  simp only [hdecode]
  split
  · rename_i item hdelta
    have hstorage := decode_storage hdecode
    cases hbase : heap.deref item.1 with
    | none =>
      simp only [held, Option.bind_some, hbase, Option.map_none,
        SectionPayloadEnvelope.decodeStorage, hdelta] at hstorage
      cases hstorage
    | some base =>
      have hheld : held heap (some item) = some (base, item.2) := by
        simp only [held, Option.bind_some, hbase, Option.map_some]
      rw [hheld] at hstorage
      have hclone : (heap.clone item.1).values = heap.values ++ [some base] := by
        rw [Heap.values_clone, hbase]
      have hlength : heap.values.length = heap.handles.length := List.length_map _
      have hnew : (heap.clone item.1).deref heap.handles.length = some base := by
        rw [Heap.deref, hclone, ← hlength, List.getElem?_concat_length]
        rfl
      rw [values_writeEntries (applyEntries_of_decode hdelta hstorage) (hsound.clone item.1) hnew,
        hclone, ← hlength, List.set_append_right _ _ (Nat.le_refl _), Nat.sub_self,
        List.set_cons_zero]
  · exact Heap.values_alloc hsound decoded.storage

theorem Sound.step (hsound : heap.Sound) (op : StorageOp) : (heap.step op).Sound := by
  cases op with
  | uniform block => exact hsound.alloc _
  | fromCells cells =>
    unfold StorageHeap.step
    simp only
    split
    · exact hsound
    · exact hsound.alloc _
  | decode env baseline =>
    unfold StorageHeap.step StorageHeap.decode
    simp only
    split
    · exact hsound
    · split
      · exact Sound.writeEntries _ _ (hsound.clone _)
      · exact hsound.alloc _
  | clone h => exact hsound.clone h
  | drop h => exact hsound.drop h
  | write h offset block => exact Sound.write hsound h offset block

theorem sound_run (ops : List StorageOp) : (run ops).Sound := by
  have hstep : ∀ (heap : StorageHeap) op, heap.Sound → (heap.step op).Sound := by
    intro heap op hsound
    exact Sound.step hsound op
  exact StepRuns.run_invariant hstep Heap.sound_empty ops

/-! ## 3. Writes over runs -/

/-- **A write is the update of one cell.** In every heap a run reaches it sets the cell it
names, leaves the other cells of its storage as they are, and no other handle, the clones
of the storage among them, reads anything new. -/
theorem write_updates_one (ops : List StorageOp) {h : Nat} {storage : SectionStorage}
    (hstorage : (run ops).deref h = some storage) (offset : CellOffset) (block : BlockId) :
    (∃ written, (write (run ops) h offset block).deref h = some written ∧
        written.read offset = block ∧
          ∀ other, other ≠ offset → written.read other = storage.read other) ∧
      ∀ g, g ≠ h → (write (run ops) h offset block).deref g = (run ops).deref g := by
  refine ⟨⟨(storage.write offset block).1, ?_, ?_, ?_⟩, ?_⟩
  · rw [deref_write (sound_run ops) hstorage, if_pos rfl]
  · rw [SectionStorage.read_write, if_pos rfl]
  · intro other hother
    rw [SectionStorage.read_write, if_neg hother]
  · intro g hg
    rw [deref_write (sound_run ops) hstorage, if_neg hg]

/-- A write through one of two handles of a storage. -/
theorem write_updates_one_shared :
    (∃ written, (write (run [.uniform ⟨7⟩, .clone 0]) 0 ⟨5, by decide⟩ ⟨9⟩).deref 0 =
          some written ∧ written.read ⟨5, by decide⟩ = ⟨9⟩ ∧
        ∀ other, other ≠ ⟨5, by decide⟩ →
          written.read other = (SectionStorage.uniform ⟨7⟩).read other) ∧
      ∀ g, g ≠ 0 → (write (run [.uniform ⟨7⟩, .clone 0]) 0 ⟨5, by decide⟩ ⟨9⟩).deref g =
        (run [.uniform ⟨7⟩, .clone 0]).deref g :=
  write_updates_one [.uniform ⟨7⟩, .clone 0] (h := 0) rfl ⟨5, by decide⟩ ⟨9⟩

end StorageHeap

/-! ## 4. Forms -/

namespace StorageState

/-- The scan counts a slot as live when a cell other than the excluded one names it. -/
theorem isSlotLive_iff {cells : List UInt8} {excludedCell slot : Nat} :
    isSlotLive cells excludedCell slot = true ↔
      ∃ cell, cell < cells.length ∧ cell ≠ excludedCell ∧ (cells.getD cell 0).toNat = slot := by
  simp only [isSlotLive, List.any_eq_true, List.mem_range, Bool.and_eq_true, bne_iff_ne, ne_eq,
    beq_iff_eq]

/-- **Escalation comes last.** A palette is given up only for a new block, when it is full
and every slot is named by a cell other than the written one. -/
theorem writePalette_eq_escalate {entries : List BlockId} {cells : List UInt8} {i : Nat}
    {block : BlockId} {blocks : List BlockId}
    (h : writePalette entries cells i block = .escalate blocks) :
    block ∉ entries ∧ PALETTE_MAX_ENTRIES ≤ entries.length ∧
      (∀ slot, slot < PALETTE_MAX_ENTRIES → isSlotLive cells i slot = true) ∧
      blocks = (cells.map fun slot => entries.getD slot.toNat ⟨0⟩).set i block := by
  unfold writePalette at h
  split at h
  · cases h
  · rename_i hidx
    split at h
    · cases h
    · rename_i hfull
      simp only at h
      split at h
      · cases h
      · rename_i hdead
        refine ⟨List.idxOf?_eq_none_iff.mp hidx, Nat.not_lt.mp hfull, ?_,
          (PaletteWrite.escalate.inj h).symm⟩
        split at hdead
        · intro slot hslot
          have hlive := List.find?_eq_none.mp hdead slot (List.mem_range.mpr hslot)
          simpa using hlive
        · cases hdead

/-- The blocks of a palette whose slots are all named by other cells, with one more. -/
theorem blocks_of_escalate {entries : List BlockId} {cells : List UInt8} {i : Nat}
    {block : BlockId} {blocks : List BlockId} (hs : (palette entries cells).WellFormed)
    (hi : i < SECTION_CELLS) (h : writePalette entries cells i block = .escalate blocks) :
    PALETTE_MAX_ENTRIES < blocks.eraseDups.length := by
  obtain ⟨hfresh, hfull, hlive, rfl⟩ := writePalette_eq_escalate h
  obtain ⟨hcells, hle, hnodup, -⟩ := hs
  have hlength : entries.length = PALETTE_MAX_ENTRIES := Nat.le_antisymm hle hfull
  have hset : (block :: entries).Nodup := List.nodup_cons.mpr ⟨hfresh, hnodup⟩
  have hsub : (block :: entries) ⊆
      ((cells.map fun slot => entries.getD slot.toNat ⟨0⟩).set i block).eraseDups := by
    intro found hfound
    rw [List.mem_eraseDups]
    rcases List.mem_cons.mp hfound with rfl | hentry
    · refine List.mem_of_getElem? (i := i) (List.getElem?_set_self ?_)
      rw [List.length_map, hcells]
      exact hi
    · obtain ⟨slot, hslot, rfl⟩ := List.mem_iff_getElem.mp hentry
      obtain ⟨cell, hcell, hne, hnamed⟩ := isSlotLive_iff.mp (hlive slot (hlength ▸ hslot))
      refine List.mem_of_getElem? (i := cell) ?_
      rw [List.getElem?_set_ne (Ne.symm hne), List.getElem?_map, List.getElem?_eq_getElem hcell]
      rw [List.getD_eq_getElem _ _ hcell] at hnamed
      rw [Option.map_some, hnamed, List.getD_eq_getElem _ _ hslot]
  have hcount := (hset.subperm hsub).length_le
  rw [List.length_cons, hlength] at hcount
  exact hcount

end StorageState

namespace SectionStorage

/-- Cells are stored one by one only when they hold more blocks than a palette does. -/
def Tight (s : SectionStorage) : Prop :=
  s.encoding = .raw → PALETTE_MAX_ENTRIES < s.cells.eraseDups.length

theorem tight_of_compacted {s : SectionStorage} (h : s.compacted = s) : s.Tight := by
  intro hraw
  rw [← h, encoding_compacted] at hraw
  split at hraw
  · cases hraw
  · split at hraw
    · cases hraw
    · rename_i hmany
      exact Nat.not_le.mp hmany

theorem Tight.write {s : SectionStorage} (h : s.Tight) (offset : CellOffset) (block : BlockId) :
    (s.write offset block).1.Tight := by
  by_cases hsame : s.read offset = block
  · rw [write_same hsame]
    exact h
  · obtain ⟨state, wf⟩ := s
    have hread : ¬ state.read offset.index = block := hsame
    intro hraw
    cases state with
    | uniform old =>
      simp only [SectionStorage.write, encoding, StorageState.write, if_neg hread] at hraw
      cases hraw
    | palette entries cells =>
      cases hwrite : StorageState.writePalette entries cells offset.index block with
      | complete entries' cells' action =>
        simp only [SectionStorage.write, encoding, StorageState.write, if_neg hread, hwrite]
          at hraw
        cases hraw
      | escalate blocks =>
        have hmany := StorageState.blocks_of_escalate wf offset.index_lt hwrite
        simp only [SectionStorage.write, SectionStorage.cells, StorageState.write, if_neg hread,
          hwrite]
        exact hmany
    | raw cells =>
      have hlength : (cells.set offset.index block).length = SECTION_CELLS :=
        List.length_set.trans wf
      have hstate : (SectionStorage.write ⟨.raw cells, wf⟩ offset block).1.state =
          StorageState.optimalState (cells.set offset.index block) := by
        simp only [SectionStorage.write, StorageState.write, if_neg hread]
        rfl
      have hfrom := fromCells_eq_ok.mpr ⟨hlength, hstate⟩
      exact tight_of_compacted (compacted_of_fromCells hfrom).2 hraw

theorem tight_applyEntries {entries : List (UInt16 × BlockId)} {s t : SectionStorage}
    (h : s.Tight) (happly : applyEntries s entries = .ok t) : t.Tight := by
  induction entries generalizing s with
  | nil => exact Except.ok.inj happly ▸ h
  | cons entry rest ih =>
    unfold applyEntries at happly
    cases hoffset : CellOffset.new entry.1 with
    | error err =>
      simp only [hoffset] at happly
      cases happly
    | ok offset =>
      simp only [hoffset] at happly
      exact ih (h.write offset entry.2) happly

theorem tight_decode {env : SectionPayloadEnvelope} {baseline : Option (SectionStorage × UInt64)}
    (hbase : ∀ held ∈ baseline, held.1.Tight) {decoded : DecodedSectionPayload}
    (h : env.decode baseline = .ok decoded) : decoded.storage.Tight := by
  have hstorage := StorageHeap.decode_storage h
  by_cases hdelta : env.encoding = .delta
  · cases baseline with
    | none =>
      simp only [SectionPayloadEnvelope.decodeStorage, hdelta] at hstorage
      cases hstorage
    | some held =>
      exact tight_applyEntries (hbase held rfl)
        (StorageHeap.applyEntries_of_decode hdelta hstorage)
  · rw [SectionPayloadEnvelope.decodeStorage_full hdelta] at hstorage
    split at hstorage
    · cases hstorage
    · split at hstorage
      · cases hstorage
      · exact tight_of_compacted (decodeFull_compacted hstorage).1

end SectionStorage

/-! ## 5. Forms over runs -/

namespace StorageHeap

def AllTight (heap : StorageHeap) : Prop := ∀ storage, some storage ∈ heap.values → storage.Tight

theorem AllTight.of_deref {heap : StorageHeap} (h : AllTight heap) {g : Nat}
    {storage : SectionStorage} (hstorage : heap.deref g = some storage) : storage.Tight :=
  h storage (List.mem_of_getElem? (Option.join_eq_some_iff.mp hstorage))

theorem AllTight.step {heap : StorageHeap} (hsound : heap.Sound) (h : AllTight heap)
    (op : StorageOp) : AllTight (heap.step op) := by
  have happend : ∀ {added : Option SectionStorage} {next : StorageHeap},
      next.values = heap.values ++ [added] → (∀ storage, added = some storage → storage.Tight) →
        AllTight next := by
    intro added next hvalues hadded storage hmem
    rw [hvalues] at hmem
    rcases List.mem_append.mp hmem with hmem | hmem
    · exact h storage hmem
    · exact hadded storage (List.mem_singleton.mp hmem).symm
  cases op with
  | uniform block =>
    refine happend (Heap.values_alloc hsound _) ?_
    rintro storage ⟨⟩
    exact SectionStorage.tight_of_compacted (SectionStorage.compacted_uniform block)
  | fromCells cells =>
    unfold StorageHeap.step
    simp only
    split
    · exact h
    · rename_i built hbuilt
      refine happend (Heap.values_alloc hsound _) ?_
      rintro storage ⟨⟩
      exact SectionStorage.tight_of_compacted (SectionStorage.compacted_of_fromCells hbuilt).2
  | decode env baseline =>
    rw [StorageHeap.step]
    cases hdecode : env.decode (held heap baseline) with
    | error err =>
      simp only [StorageHeap.decode, hdecode]
      exact h
    | ok decoded =>
      refine happend (values_decode hsound hdecode) ?_
      rintro storage ⟨⟩
      refine SectionStorage.tight_decode ?_ hdecode
      intro item hitem
      obtain ⟨base, -, hmap⟩ := Option.bind_eq_some_iff.mp hitem
      obtain ⟨storage, hstorage, rfl⟩ := Option.map_eq_some_iff.mp hmap
      exact h.of_deref hstorage
  | clone g =>
    refine happend (Heap.values_clone heap g) ?_
    intro storage hstorage
    exact h.of_deref hstorage
  | drop g =>
    intro storage hmem
    rw [StorageHeap.step, Heap.values_drop] at hmem
    rcases List.mem_or_eq_of_mem_set hmem with hmem | hmem
    · exact h storage hmem
    · cases hmem
  | write g offset block =>
    cases hstorage : heap.deref g with
    | none =>
      simp only [StorageHeap.step, StorageHeap.write, hstorage]
      exact h
    | some base =>
      intro storage hmem
      rw [StorageHeap.step, values_write hsound hstorage] at hmem
      rcases List.mem_or_eq_of_mem_set hmem with hmem | hmem
      · exact h storage hmem
      · obtain rfl := Option.some.inj hmem
        exact (h.of_deref hstorage).write offset block

theorem allTight_run (ops : List StorageOp) : AllTight (run ops) := by
  have hstep : ∀ (heap : StorageHeap) op, heap.Sound ∧ AllTight heap →
      (heap.step op).Sound ∧ AllTight (heap.step op) := by
    rintro heap op ⟨hsound, htight⟩
    exact ⟨Sound.step hsound op, htight.step hsound op⟩
  have hempty : AllTight Heap.empty := fun _ hmem => absurd hmem List.not_mem_nil
  exact (StepRuns.run_invariant hstep ⟨Heap.sound_empty, hempty⟩ ops).2

/-- The form of a storage is one its blocks allow. -/
def FormHolds (storage : SectionStorage) : Prop :=
  match storage.state with
  | .uniform _ => True
  | .palette entries cells =>
    entries.Nodup ∧ entries.length ≤ PALETTE_MAX_ENTRIES ∧ cells.length = SECTION_CELLS ∧
      ∀ index ∈ cells, index.toNat < entries.length
  | .raw cells => cells.length = SECTION_CELLS ∧
      PALETTE_MAX_ENTRIES < (Set.range storage.read).ncard

/-- The write gives a palette up, and at that moment every slot is named by a cell other
than the written one. -/
def EscalatesFull (storage : SectionStorage) (offset : CellOffset) (block : BlockId) : Prop :=
  ∀ entries cells, storage.state = .palette entries cells →
    (storage.write offset block).1.encoding = .raw →
    ∀ slot, slot < PALETTE_MAX_ENTRIES → ∃ cell, cell < SECTION_CELLS ∧ cell ≠ offset.index ∧
      (cells.getD cell 0).toNat = slot

theorem escalatesFull (storage : SectionStorage) (offset : CellOffset) (block : BlockId) :
    EscalatesFull storage offset block := by
  intro entries cells hstate hraw slot hslot
  obtain ⟨state, wf⟩ := storage
  obtain rfl := hstate
  simp only [SectionStorage.write, SectionStorage.encoding, StorageState.write] at hraw
  split at hraw
  · cases hraw
  · cases hwrite : StorageState.writePalette entries cells offset.index block with
    | complete entries' cells' action =>
      simp only [hwrite] at hraw
      cases hraw
    | escalate blocks =>
      obtain ⟨-, -, hlive, -⟩ := StorageState.writePalette_eq_escalate hwrite
      obtain ⟨cell, hcell, hne, hnamed⟩ := StorageState.isSlotLive_iff.mp (hlive slot hslot)
      exact ⟨cell, wf.1 ▸ hcell, hne, hnamed⟩

/-- **Every storage has the form its blocks allow.** -/
theorem run_forms (ops : List StorageOp) {h : Nat} {storage : SectionStorage}
    (hstorage : (run ops).deref h = some storage) :
    FormHolds storage ∧ ∀ offset block, EscalatesFull storage offset block := by
  refine ⟨?_, escalatesFull storage⟩
  have htight := (allTight_run ops).of_deref hstorage
  unfold FormHolds
  have hwf := storage.wf
  split
  · trivial
  · rename_i entries cells hstate
    rw [hstate] at hwf
    exact ⟨hwf.2.2.1, hwf.2.1, hwf.1, hwf.2.2.2⟩
  · rename_i cells hstate
    rw [hstate] at hwf
    refine ⟨hwf, ?_⟩
    rw [SectionStorage.ncard_range_read]
    exact htight (congrArg StorageState.encoding hstate)

theorem run_forms_palette :
    FormHolds ((SectionStorage.uniform ⟨7⟩).write ⟨5, by decide⟩ ⟨9⟩).1 ∧
      ∀ offset block, EscalatesFull ((SectionStorage.uniform ⟨7⟩).write ⟨5, by decide⟩ ⟨9⟩).1
        offset block :=
  run_forms [.uniform ⟨7⟩, .write 0 ⟨5, by decide⟩ ⟨9⟩] (h := 0) rfl

end StorageHeap

end LumioVoxel
