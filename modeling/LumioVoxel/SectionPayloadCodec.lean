import LumioVoxel.CanonicalStorage
import LumioVoxel.FixedWidthRecords

/-!
# Section payload codec

Full and delta envelopes of one section.  A full envelope carries the canonical
bytes of the section's storage, a delta envelope the cells a batch overwrote.
The decoder checks digest and length before it parses anything, and the full
decoder is characterised by the layouts it accepts: what encoding writes is
always among them, and everything else about a payload follows from the layout.
-/

namespace LumioVoxel

open FirstAppearance

/-! ## 1. Envelopes -/

structure DeltaEntry where
  offset : CellOffset
  blockId : BlockId
  deriving DecidableEq

/-- One section's payload with the facts a receiver checks before parsing it.
The wire constructor fills the fields with whatever arrived. -/
structure SectionPayloadEnvelope where
  sectionKey : String
  sectionRevision : UInt64
  encoding : SectionEncoding
  payloadLength : UInt32
  payloadSha256 : Digest
  baseSectionRevision : Option UInt64
  payload : Bytes
  deriving DecidableEq

structure DecodedSectionPayload where
  sectionId : SectionId
  sectionRevision : UInt64
  storage : SectionStorage
  deriving DecidableEq

def encodingMismatch : SectionError := .contractViolation SECTION_ENCODING_MISMATCH

/-! ## 2. Records -/

def readU32 (bytes : Bytes) : UInt32 :=
  u32FromLeBytes (bytes.getD 0 0) (bytes.getD 1 0) (bytes.getD 2 0) (bytes.getD 3 0)

/-- A block identity as four bytes. -/
def blockCodec : RecordCodec UInt8 BlockId where
  width := 4
  encode block := u32LeBytes block.raw
  decode bytes := ⟨readU32 bytes⟩
  width_pos := by decide
  length_encode _ := rfl
  decode_encode block := congrArg BlockId.mk (u32FromLeBytes_bytes block.raw)
  encode_decode bytes h := by
    obtain ⟨b0, b1, b2, b3, rfl⟩ := List.length_eq_four.mp h
    exact u32LeBytes_fromLeBytes b0 b1 b2 b3

/-- One delta entry as six bytes: the raw offset and the block. -/
def deltaEntryCodec : RecordCodec UInt8 (UInt16 × BlockId) where
  width := 6
  encode entry := u16LeBytes entry.1 ++ u32LeBytes entry.2.raw
  decode bytes := (u16FromLeBytes (bytes.getD 0 0) (bytes.getD 1 0), ⟨readU32 (bytes.drop 2)⟩)
  width_pos := by decide
  length_encode _ := rfl
  decode_encode entry := Prod.ext (u16FromLeBytes_bytes entry.1)
    (congrArg BlockId.mk (u32FromLeBytes_bytes entry.2.raw))
  encode_decode bytes h := by
    match bytes, h with
    | [b0, b1, b2, b3, b4, b5], _ =>
      have hhead : u16LeBytes (u16FromLeBytes b0 b1) = [b0, b1] := u16LeBytes_fromLeBytes b0 b1
      have htail : u32LeBytes (readU32 [b2, b3, b4, b5]) = [b2, b3, b4, b5] :=
        u32LeBytes_fromLeBytes b2 b3 b4 b5
      exact congrArg₂ (· ++ ·) hhead htail

/-! ## 3. Decoding a full payload -/

/-- The number of palette entries a payload announces. -/
def paletteCount (payload : Bytes) : Nat :=
  (u16FromLeBytes (payload.getD 0 0) (payload.getD 1 0)).toNat

def paletteTableEnd (payload : Bytes) : Nat := 2 + paletteCount payload * 4

/-- The palette entries of a payload, in table order. -/
def paletteTable (payload : Bytes) : List BlockId :=
  blockCodec.unpacked ((payload.take (paletteTableEnd payload)).drop 2)

/-- One palette index for each cell. -/
def paletteIndices (payload : Bytes) : Bytes := payload.drop (paletteTableEnd payload)

/-- The entry loop: a block listed twice is refused. -/
def collectEntries : List BlockId → List BlockId → Except SectionError (List BlockId)
  | [], entries => .ok entries
  | block :: rest, entries =>
    if block ∈ entries then .error encodingMismatch else collectEntries rest (entries ++ [block])

/-- The index loop: an index past the table is refused. -/
def lookUpIndices (entries : List BlockId) : Bytes → Except SectionError (List BlockId)
  | [] => .ok []
  | index :: rest =>
    if entries.length ≤ index.toNat then
      .error encodingMismatch
    else
      match lookUpIndices entries rest with
      | .error err => .error err
      | .ok cells => .ok (entries.getD index.toNat ⟨0⟩ :: cells)

def decodePalette (payload : Bytes) : Except SectionError SectionStorage :=
  if payload.length < 2 then
    .error encodingMismatch
  else if PALETTE_MAX_ENTRIES < paletteCount payload then
    .error (.contractViolation PALETTE_OVERFLOW)
  else if paletteCount payload < 2 then
    .error encodingMismatch
  else if payload.length ≠ paletteTableEnd payload + SECTION_CELLS then
    .error encodingMismatch
  else
    match collectEntries (paletteTable payload) [] with
    | .error err => .error err
    | .ok entries =>
      match lookUpIndices entries (paletteIndices payload) with
      | .error err => .error err
      | .ok cells =>
        if (List.range (paletteCount payload)).any fun slot =>
            !(paletteIndices payload).any fun index => index.toNat == slot then
          .error (.contractViolation DEAD_PALETTE_ENTRY_IN_PAYLOAD)
        else
          match SectionStorage.fromCells cells with
          | .error err => .error err
          | .ok storage =>
            if storage.encoding ≠ .palette then .error encodingMismatch else .ok storage

def decodeRaw (payload : Bytes) : Except SectionError SectionStorage :=
  if payload.length ≠ SECTION_CELLS * 4 then
    .error encodingMismatch
  else
    match SectionStorage.fromCells (blockCodec.unpacked payload) with
    | .error err => .error err
    | .ok storage => if storage.encoding ≠ .raw then .error encodingMismatch else .ok storage

def decodeFull (encoding : SectionEncoding) (payload : Bytes) :
    Except SectionError SectionStorage :=
  match encoding with
  | .uniform =>
    if payload.length ≠ 4 then .error encodingMismatch
    else .ok (SectionStorage.uniform ⟨readU32 payload⟩)
  | .palette => decodePalette payload
  | .raw => decodeRaw payload
  -- never reached: a delta is dispatched before full decoding
  | .delta => .error encodingMismatch

/-! ## 4. Applying a delta -/

/-- The entries one after the other, so that the last one written to a cell stays. -/
def applyEntries (storage : SectionStorage) :
    List (UInt16 × BlockId) → Except SectionError SectionStorage
  | [] => .ok storage
  | (raw, block) :: rest =>
    match CellOffset.new raw with
    | .error _ => .error (.contractViolation CELL_OFFSET_OUT_OF_RANGE)
    | .ok offset => applyEntries (storage.write offset block).1 rest

def applyDelta (baseline : SectionStorage) (payload : Bytes) : Except SectionError SectionStorage :=
  if payload.length % 6 ≠ 0 then .error encodingMismatch
  else applyEntries baseline (deltaEntryCodec.unpacked payload)

/-! ## 5. The envelope -/

/-- The canonical bytes, by the form the compacted storage has. -/
theorem SectionStorage.encodedPayload_cases (s : SectionStorage) :
    (∃ block, s.cells.eraseDups = [block] ∧ s.compacted.state = .uniform block ∧
      s.encodedPayload = blockCodec.encode block) ∨
    (2 ≤ s.cells.eraseDups.length ∧ s.cells.eraseDups.length ≤ PALETTE_MAX_ENTRIES ∧
      s.encodedPayload = u16LeBytes (UInt16.ofNat s.cells.eraseDups.length) ++
        blockCodec.packed s.cells.eraseDups ++
        slotsOf s.cells.eraseDups s.cells) ∨
    (PALETTE_MAX_ENTRIES < s.cells.eraseDups.length ∧
      s.encodedPayload = blockCodec.packed s.cells) := by
  rcases StorageState.optimalState_cases s.length_cells with
    ⟨block, h, hs⟩ | ⟨htwo, hle, hs⟩ | ⟨h, hs⟩
  · refine .inl ⟨block, h, hs, ?_⟩
    rw [encodedPayload, compacted_state, hs]
    rfl
  · refine .inr (.inl ⟨htwo, hle, ?_⟩)
    rw [encodedPayload, compacted_state, hs]
    rfl
  · refine .inr (.inr ⟨h, ?_⟩)
    rw [encodedPayload, compacted_state, hs]
    rfl

theorem SectionStorage.length_encodedPayload_lt (s : SectionStorage) :
    s.encodedPayload.length < 2 ^ 32 := by
  have hcells := s.length_cells
  simp only [SECTION_CELLS] at hcells
  rcases s.encodedPayload_cases with ⟨block, -, -, hbytes⟩ | ⟨-, hle, hbytes⟩ | ⟨-, hbytes⟩
  · rw [hbytes, blockCodec.length_encode]
    decide
  · have hwidth : blockCodec.width = 4 := rfl
    simp only [PALETTE_MAX_ENTRIES] at hle
    rw [hbytes, List.length_append, List.length_append, blockCodec.length_packed, hwidth,
      slotsOf, List.length_map, hcells]
    simp only [u16LeBytes, List.length_cons, List.length_nil]
    omega
  · have hwidth : blockCodec.width = 4 := rfl
    rw [hbytes, blockCodec.length_packed, hwidth, hcells]
    decide

namespace SectionPayloadEnvelope

/-- An envelope this side sends.  The proof argument is what the length
conversion's `expect` relies on. -/
def outgoing (sectionId : SectionId) (sectionRevision : UInt64) (encoding : SectionEncoding)
    (baseSectionRevision : Option UInt64) (payload : Bytes) (_h : payload.length < 2 ^ 32) :
    SectionPayloadEnvelope where
  sectionKey := sectionId.key
  sectionRevision := sectionRevision
  encoding := encoding
  payloadLength := UInt32.ofNat payload.length
  payloadSha256 := sha256 payload
  baseSectionRevision := baseSectionRevision
  payload := payload

def encodeFull (sectionId : SectionId) (sectionRevision : UInt64) (storage : SectionStorage) :
    SectionPayloadEnvelope :=
  let storage := storage.compacted
  outgoing sectionId sectionRevision storage.encoding none storage.encodedPayload
    storage.length_encodedPayload_lt

def deltaPayload (entries : List DeltaEntry) : Bytes :=
  entries.flatMap fun entry => u16LeBytes entry.offset.raw ++ u32LeBytes entry.blockId.raw

def encodeDelta (sectionId : SectionId) (sectionRevision baseSectionRevision : UInt64)
    (entries : List DeltaEntry) (h : (deltaPayload entries).length < 2 ^ 32) :
    SectionPayloadEnvelope :=
  outgoing sectionId sectionRevision .delta (some baseSectionRevision) (deltaPayload entries) h

/-- The storage an envelope delivers to a receiver that holds the baseline. -/
def decodeStorage (env : SectionPayloadEnvelope) (baseline : Option (SectionStorage × UInt64)) :
    Except SectionError SectionStorage :=
  match env.encoding with
  | .delta =>
    match baseline with
    | none => .error (.contractViolation DELTA_USED_FOR_FIRST_DELIVERY)
    | some (baseline, currentRevision) =>
      if env.baseSectionRevision ≠ some currentRevision then
        .error (.contractViolation DELTA_BASE_REVISION_MISMATCH)
      else if env.sectionRevision ≤ currentRevision then
        .error (.contractViolation DELTA_BASE_REVISION_MISMATCH)
      else
        applyDelta baseline env.payload
  | encoding =>
    if env.baseSectionRevision.isSome then
      .error (.contractViolation BASE_REVISION_ON_FULL_ENCODING)
    else if baseline.any fun held => env.sectionRevision ≤ held.2 then
      .error (.contractViolation STALE_SECTION_REVISION)
    else
      decodeFull encoding env.payload

/-- Digest and length are checked before key, body or entries are parsed. -/
def decode (env : SectionPayloadEnvelope) (baseline : Option (SectionStorage × UInt64)) :
    Except SectionError DecodedSectionPayload :=
  if sha256 env.payload ≠ env.payloadSha256 then
    .error .sectionDigestMismatch
  else if env.payload.length ≠ env.payloadLength.toNat then
    .error encodingMismatch
  else
    match SectionId.parse env.sectionKey with
    | .error err => .error (.key err)
    | .ok sectionId =>
      match env.decodeStorage baseline with
      | .error err => .error err
      | .ok storage => .ok ⟨sectionId, env.sectionRevision, storage⟩

end SectionPayloadEnvelope

/-! ## 6. Which palettes are accepted -/

theorem collectEntries_eq_ok {blocks acc entries : List BlockId} (hacc : acc.Nodup) :
    collectEntries blocks acc = .ok entries ↔ (acc ++ blocks).Nodup ∧ entries = acc ++ blocks := by
  induction blocks generalizing acc with
  | nil =>
    rw [collectEntries, List.append_nil]
    exact ⟨fun h => ⟨hacc, (Except.ok.inj h).symm⟩, fun h => by rw [h.2]⟩
  | cons block rest ih =>
    have hassoc : acc ++ block :: rest = (acc ++ [block]) ++ rest := by
      rw [List.append_assoc, List.singleton_append]
    unfold collectEntries
    by_cases hmem : block ∈ acc
    · rw [if_pos hmem]
      constructor
      · intro h
        cases h
      · intro h
        have hdisjoint := (List.nodup_append.mp h.1).2.2
        exact absurd rfl (hdisjoint block hmem block List.mem_cons_self)
    · have hacc' : (acc ++ [block]).Nodup := by
        apply List.nodup_append.mpr
        refine ⟨hacc, List.nodup_singleton _, ?_⟩
        intro a ha b hb hab
        exact hmem (List.mem_singleton.mp hb ▸ hab ▸ ha)
      rw [if_neg hmem, hassoc, ih hacc']

theorem lookUpIndices_eq_ok {entries cells : List BlockId} {indices : Bytes} :
    lookUpIndices entries indices = .ok cells ↔
      (∀ c ∈ indices, c.toNat < entries.length) ∧
        cells = indices.map fun c => entries.getD c.toNat ⟨0⟩ := by
  induction indices generalizing cells with
  | nil =>
    rw [lookUpIndices, List.map_nil]
    exact ⟨fun h => ⟨fun c hc => absurd hc List.not_mem_nil, (Except.ok.inj h).symm⟩,
      fun h => by rw [h.2]⟩
  | cons index rest ih =>
    rw [lookUpIndices, List.map_cons, List.forall_mem_cons]
    by_cases hlt : entries.length ≤ index.toNat
    · rw [if_pos hlt]
      constructor
      · intro h
        cases h
      · intro h
        exact absurd hlt (Nat.not_le.mpr h.1.1)
    · rw [if_neg hlt]
      cases hrest : lookUpIndices entries rest with
      | error err =>
        constructor
        · intro h
          cases h
        · rintro ⟨⟨-, hin⟩, -⟩
          rw [ih.mpr ⟨hin, rfl⟩] at hrest
          cases hrest
      | ok blocks =>
        obtain ⟨hin, rfl⟩ := ih.mp hrest
        constructor
        · intro h
          exact ⟨⟨Nat.not_le.mp hlt, hin⟩, (Except.ok.inj h).symm⟩
        · rintro ⟨-, rfl⟩
          rfl

/-- The blocks a palette and its indices spell. -/
def paletteCells (entries : List BlockId) (indices : Bytes) : List BlockId :=
  indices.map fun c => entries.getD c.toNat ⟨0⟩

/-- A palette payload as the decoder wants it: the count, the entries, one index
for each cell; the entries distinct, every index inside the table and every slot
named by a cell. -/
structure PaletteLayout (payload : Bytes) (entries : List BlockId) (indices : Bytes) : Prop where
  bytes : payload = u16LeBytes (UInt16.ofNat entries.length) ++ blockCodec.packed entries ++ indices
  two_le : 2 ≤ entries.length
  le_max : entries.length ≤ PALETTE_MAX_ENTRIES
  nodup : entries.Nodup
  length_indices : indices.length = SECTION_CELLS
  indices_lt : ∀ c ∈ indices, c.toNat < entries.length
  live : ∀ slot, slot < entries.length → ∃ c ∈ indices, c.toNat = slot

namespace PaletteLayout

variable {payload indices : Bytes} {entries : List BlockId}

theorem paletteCount_eq (h : PaletteLayout payload entries indices) :
    paletteCount payload = entries.length := by
  have hlt : entries.length < 65536 := Nat.lt_of_le_of_lt h.le_max (by decide)
  have hcount : paletteCount payload = (UInt16.ofNat entries.length).toNat := by
    rw [h.bytes]
    exact congrArg UInt16.toNat (u16FromLeBytes_bytes _)
  rw [hcount, UInt16.toNat_ofNat']
  exact Nat.mod_eq_of_lt hlt

theorem length_table (h : PaletteLayout payload entries indices) :
    (u16LeBytes (UInt16.ofNat entries.length) ++ blockCodec.packed entries).length =
      paletteTableEnd payload := by
  have hwidth : blockCodec.width = 4 := rfl
  rw [List.length_append, blockCodec.length_packed, hwidth, paletteTableEnd, h.paletteCount_eq]
  rfl

theorem paletteTable_eq (h : PaletteLayout payload entries indices) :
    paletteTable payload = entries := by
  have htake : payload.take (paletteTableEnd payload) =
      u16LeBytes (UInt16.ofNat entries.length) ++ blockCodec.packed entries := by
    conv_lhs => rw [h.bytes]
    rw [List.take_left' (by rw [← h.bytes]; exact h.length_table)]
  have hdrop : (u16LeBytes (UInt16.ofNat entries.length) ++ blockCodec.packed entries).drop 2 =
      blockCodec.packed entries := List.drop_left' rfl
  rw [paletteTable, htake, hdrop, blockCodec.unpacked_packed]

theorem paletteIndices_eq (h : PaletteLayout payload entries indices) :
    paletteIndices payload = indices := by
  have hdrop : payload.drop (paletteTableEnd payload) = indices := by
    conv_lhs => rw [h.bytes]
    rw [List.drop_left' (by rw [← h.bytes]; exact h.length_table)]
  exact hdrop

theorem length_payload (h : PaletteLayout payload entries indices) :
    payload.length = paletteTableEnd payload + SECTION_CELLS := by
  conv_lhs => rw [h.bytes]
  rw [List.length_append, h.length_table, h.length_indices]

/-- The palette holds exactly the blocks of the cells. -/
theorem mem_iff (h : PaletteLayout payload entries indices) (block : BlockId) :
    block ∈ entries ↔ block ∈ paletteCells entries indices := by
  constructor
  · intro hmem
    obtain ⟨slot, hslot, rfl⟩ := List.mem_iff_getElem.mp hmem
    obtain ⟨c, hc, rfl⟩ := h.live slot hslot
    exact List.mem_map.mpr ⟨c, hc, List.getD_eq_getElem _ _ hslot⟩
  · intro hmem
    obtain ⟨c, hc, rfl⟩ := List.mem_map.mp hmem
    rw [List.getD_eq_getElem _ _ (h.indices_lt c hc)]
    exact List.getElem_mem _

theorem perm (h : PaletteLayout payload entries indices) :
    entries.Perm (paletteCells entries indices).eraseDups :=
  perm_eraseDups h.nodup h.mem_iff

/-- The indices are determined by the table and the cells. -/
theorem slotsOf_eq (h : PaletteLayout payload entries indices) :
    slotsOf entries (paletteCells entries indices) = indices := by
  have hback : ∀ c ∈ indices, UInt8.ofNat (entries.idxOf (entries.getD c.toNat ⟨0⟩)) = c := by
    intro c hc
    rw [List.getD_eq_getElem _ _ (h.indices_lt c hc), h.nodup.idxOf_getElem, UInt8.ofNat_toNat]
  rw [slotsOf, paletteCells, List.map_map]
  exact (List.map_congr_left hback).trans (List.map_id _)

end PaletteLayout

theorem length_paletteCells (entries : List BlockId) (indices : Bytes) :
    (paletteCells entries indices).length = indices.length := List.length_map _

/-- A payload that passes the decoder's shape checks is its count, its table and
its indices. -/
theorem bytes_of_shape {payload : Bytes} (htwo : 2 ≤ payload.length)
    (hlen : payload.length = paletteTableEnd payload + SECTION_CELLS) :
    payload = u16LeBytes (UInt16.ofNat (paletteTable payload).length) ++
      blockCodec.packed (paletteTable payload) ++ paletteIndices payload ∧
      (paletteTable payload).length = paletteCount payload := by
  have hwidth : blockCodec.width = 4 := rfl
  have hend : paletteTableEnd payload = 2 + paletteCount payload * 4 := rfl
  have hregion : ((payload.take (paletteTableEnd payload)).drop 2).length =
      paletteCount payload * 4 := by
    rw [List.length_drop, List.length_take, hlen, Nat.min_eq_left (Nat.le_add_right _ _), hend,
      Nat.add_sub_cancel_left]
  have hcount : (paletteTable payload).length = paletteCount payload := by
    rw [paletteTable, blockCodec.length_unpacked, hregion, hwidth,
      Nat.mul_div_cancel _ (by decide : 0 < 4)]
  refine ⟨?_, hcount⟩
  have hpacked : blockCodec.packed (paletteTable payload) =
      (payload.take (paletteTableEnd payload)).drop 2 := by
    apply blockCodec.packed_unpacked
    rw [hregion, hwidth]
    exact Nat.dvd_mul_left _ _
  have hhead : u16LeBytes (UInt16.ofNat (paletteTable payload).length) = payload.take 2 := by
    obtain ⟨b0, b1, rest, rfl⟩ : ∃ b0 b1 rest, payload = b0 :: b1 :: rest := by
      match payload, htwo with
      | b0 :: b1 :: rest, _ => exact ⟨b0, b1, rest, rfl⟩
    rw [hcount, paletteCount, UInt16.ofNat_toNat]
    exact u16LeBytes_fromLeBytes b0 b1
  have htake : payload.take 2 = (payload.take (paletteTableEnd payload)).take 2 := by
    rw [List.take_take, Nat.min_eq_left (by rw [hend]; exact Nat.le_add_right _ _)]
  rw [hhead, hpacked, htake, List.take_append_drop, paletteIndices, List.take_append_drop]

/-- **The palette decoder accepts exactly the palette layouts**, and delivers the
compacted storage of the cells they spell. -/
theorem decodePalette_eq_ok {payload : Bytes} {s : SectionStorage} :
    decodePalette payload = .ok s ↔
      ∃ entries indices, PaletteLayout payload entries indices ∧
        s.state = StorageState.optimalState (paletteCells entries indices) := by
  constructor
  · intro h
    unfold decodePalette at h
    split at h
    · cases h
    rename_i htwo
    split at h
    · cases h
    rename_i hmax
    split at h
    · cases h
    rename_i hcount
    split at h
    · cases h
    rename_i hlen
    obtain ⟨hbytes, hlength⟩ := bytes_of_shape (Nat.not_lt.mp htwo) (not_not.mp hlen)
    split at h
    · cases h
    rename_i entries hentries
    obtain ⟨hnodup, rfl⟩ := (collectEntries_eq_ok List.nodup_nil).mp hentries
    simp only [List.nil_append] at h hnodup
    split at h
    · cases h
    rename_i cells hcells
    obtain ⟨hin, hspell⟩ := lookUpIndices_eq_ok.mp hcells
    split at h
    · cases h
    rename_i hlive
    have hindices : (paletteIndices payload).length = SECTION_CELLS := by
      rw [paletteIndices, List.length_drop, not_not.mp hlen, Nat.add_sub_cancel_left]
    have hstate : SectionStorage.fromCells cells = .ok s := by
      split at h
      · cases h
      rename_i storage hfrom
      split at h
      · cases h
      rw [hfrom, h]
    refine ⟨_, _, ⟨hbytes, ?_, ?_, hnodup, hindices, hin, ?_⟩, ?_⟩
    · rw [hlength]
      exact Nat.not_lt.mp hcount
    · rw [hlength]
      exact Nat.not_lt.mp hmax
    · intro slot hslot
      rw [hlength] at hslot
      simp only [List.any_eq_true, List.mem_range, Bool.not_eq_true', not_exists, not_and,
        Bool.not_eq_false, beq_iff_eq] at hlive
      exact hlive slot hslot
    · rw [(SectionStorage.fromCells_eq_ok.mp hstate).2, hspell]
      rfl
  · rintro ⟨entries, indices, hlayout, hstate⟩
    have hcells : (paletteCells entries indices).length = SECTION_CELLS := by
      rw [length_paletteCells, hlayout.length_indices]
    have hfrom : SectionStorage.fromCells (paletteCells entries indices) = .ok s :=
      SectionStorage.fromCells_eq_ok.mpr ⟨hcells, hstate⟩
    have henc : s.encoding = .palette := by
      have htwo := hlayout.two_le
      have hle := hlayout.le_max
      rw [hlayout.perm.length_eq] at htwo hle
      rw [SectionStorage.encoding, hstate, StorageState.optimalState_palette htwo hle]
      rfl
    have htwo := hlayout.two_le
    have hle := hlayout.le_max
    have hbig : ¬ payload.length < 2 := by
      rw [hlayout.length_payload]
      exact Nat.not_lt.mpr (Nat.le_trans (by decide) (Nat.le_add_left _ _))
    have hentries : collectEntries entries [] = .ok entries :=
      (collectEntries_eq_ok List.nodup_nil).mpr ⟨hlayout.nodup, rfl⟩
    have hlook : lookUpIndices entries indices = .ok (paletteCells entries indices) :=
      lookUpIndices_eq_ok.mpr ⟨hlayout.indices_lt, rfl⟩
    have hlive : ¬ ((List.range (paletteCount payload)).any fun slot =>
        !indices.any fun index => index.toNat == slot) = true := by
      simp only [List.any_eq_true, List.mem_range, Bool.not_eq_true', not_exists, not_and,
        Bool.not_eq_false, beq_iff_eq]
      intro slot hslot
      rw [hlayout.paletteCount_eq] at hslot
      exact hlayout.live slot hslot
    unfold decodePalette
    rw [if_neg hbig, hlayout.paletteTable_eq, hlayout.paletteIndices_eq, hentries]
    simp only [hlook]
    rw [if_neg hlive, hlayout.paletteCount_eq, if_neg (Nat.not_lt.mpr hle),
      if_neg (Nat.not_lt.mpr htwo), if_neg (not_not.mpr hlayout.length_payload), hfrom]
    exact if_neg (not_not.mpr henc)

/-! ## 7. Full payloads round-trip -/

theorem decodeRaw_eq_ok {payload : Bytes} {s : SectionStorage} :
    decodeRaw payload = .ok s ↔
      payload = blockCodec.packed s.cells ∧ s.compacted = s ∧ s.encoding = .raw := by
  have hwidth : blockCodec.width = 4 := rfl
  constructor
  · intro h
    unfold decodeRaw at h
    split at h
    · cases h
    rename_i hlen
    split at h
    · cases h
    rename_i storage hfrom
    split at h
    · cases h
    rename_i henc
    obtain rfl := Except.ok.inj h
    obtain ⟨hcells, hcompact⟩ := SectionStorage.compacted_of_fromCells hfrom
    refine ⟨?_, hcompact, not_not.mp henc⟩
    rw [hcells, blockCodec.packed_unpacked]
    rw [not_not.mp hlen, hwidth]
    exact Nat.dvd_mul_left _ _
  · rintro ⟨rfl, hcompact, henc⟩
    have hlen : (blockCodec.packed s.cells).length = SECTION_CELLS * 4 := by
      rw [blockCodec.length_packed, s.length_cells, hwidth]
    have hfrom : SectionStorage.fromCells s.cells = .ok s :=
      SectionStorage.fromCells_eq_ok.mpr
        ⟨s.length_cells, by rw [← SectionStorage.compacted_state, hcompact]⟩
    unfold decodeRaw
    rw [if_neg (not_not.mpr hlen), blockCodec.unpacked_packed, hfrom]
    exact if_neg (not_not.mpr henc)

/-- Whatever the full decoder delivers is compacted and has the encoding the
envelope named. -/
theorem decodeFull_compacted {encoding : SectionEncoding} {payload : Bytes} {s : SectionStorage}
    (h : decodeFull encoding payload = .ok s) : s.compacted = s ∧ s.encoding = encoding := by
  cases encoding with
  | uniform =>
    simp only [decodeFull] at h
    split at h
    · cases h
    obtain rfl := Except.ok.inj h
    exact ⟨SectionStorage.compacted_uniform _, rfl⟩
  | palette =>
    obtain ⟨entries, indices, hlayout, hstate⟩ := decodePalette_eq_ok.mp h
    have hcells : (paletteCells entries indices).length = SECTION_CELLS := by
      rw [length_paletteCells, hlayout.length_indices]
    have hfrom := SectionStorage.fromCells_eq_ok.mpr ⟨hcells, hstate⟩
    have htwo := hlayout.two_le
    have hle := hlayout.le_max
    rw [hlayout.perm.length_eq] at htwo hle
    refine ⟨(SectionStorage.compacted_of_fromCells hfrom).2, ?_⟩
    rw [SectionStorage.encoding, hstate, StorageState.optimalState_palette htwo hle]
    rfl
  | raw => exact (decodeRaw_eq_ok.mp h).2
  | delta => cases h

/-- The canonical palette bytes are a layout that spells the section's cells. -/
theorem SectionStorage.paletteLayout (s : SectionStorage) (htwo : 2 ≤ s.cells.eraseDups.length)
    (hle : s.cells.eraseDups.length ≤ PALETTE_MAX_ENTRIES) :
    PaletteLayout
      (u16LeBytes (UInt16.ofNat s.cells.eraseDups.length) ++ blockCodec.packed s.cells.eraseDups ++
        slotsOf s.cells.eraseDups s.cells)
      s.cells.eraseDups (slotsOf s.cells.eraseDups s.cells) ∧
    paletteCells s.cells.eraseDups
      (slotsOf s.cells.eraseDups s.cells) = s.cells := by
  -- the slot of a block fits a byte and leads back to the block
  have hslot : ∀ block ∈ s.cells, s.cells.eraseDups.idxOf block < s.cells.eraseDups.length :=
    fun block h => List.idxOf_lt_length_of_mem (List.mem_eraseDups.mpr h)
  have hnat : ∀ block ∈ s.cells,
      (UInt8.ofNat (s.cells.eraseDups.idxOf block)).toNat = s.cells.eraseDups.idxOf block := by
    intro block h
    rw [UInt8.toNat_ofNat']
    exact Nat.mod_eq_of_lt (Nat.lt_of_lt_of_le (hslot block h) hle)
  refine ⟨⟨rfl, htwo, hle, nodup_eraseDups _, ?_, ?_, ?_⟩, ?_⟩
  · rw [slotsOf, List.length_map, s.length_cells]
  · intro c hc
    obtain ⟨block, hblock, rfl⟩ := List.mem_map.mp hc
    rw [hnat block hblock]
    exact hslot block hblock
  · intro slot hlt
    have hmem : s.cells.eraseDups[slot] ∈ s.cells := List.mem_eraseDups.mp (List.getElem_mem hlt)
    refine ⟨_, List.mem_map.mpr ⟨_, hmem, rfl⟩, ?_⟩
    rw [hnat _ hmem, (nodup_eraseDups s.cells).idxOf_getElem]
  · rw [paletteCells, slotsOf, List.map_map]
    have hback : ∀ block ∈ s.cells, s.cells.eraseDups.getD
        (UInt8.ofNat (s.cells.eraseDups.idxOf block)).toNat ⟨0⟩ = block := by
      intro block h
      rw [hnat block h, List.getD_eq_getElem _ _ (hslot block h), List.getElem_idxOf]
    exact (List.map_congr_left hback).trans (List.map_id _)

/-- The full decoder undoes the canonical bytes. -/
theorem decodeFull_encodedPayload (s : SectionStorage) :
    decodeFull s.compacted.encoding s.encodedPayload = .ok s.compacted := by
  rw [s.encoding_compacted]
  rcases s.encodedPayload_cases with ⟨block, hone, hstate, hbytes⟩ | ⟨htwo, hle, hbytes⟩ |
    ⟨hmany, hbytes⟩
  · rw [if_pos (by rw [hone]; rfl), hbytes]
    have hstorage : s.compacted = SectionStorage.uniform block := SectionStorage.ext_state hstate
    rw [hstorage]
    exact congrArg (fun b => Except.ok (SectionStorage.uniform b)) (blockCodec.decode_encode block)
  · rw [if_neg (Nat.ne_of_gt htwo), if_pos hle, hbytes]
    obtain ⟨hlayout, hspell⟩ := s.paletteLayout htwo hle
    apply decodePalette_eq_ok.mpr
    exact ⟨_, _, hlayout, by rw [hspell]; rfl⟩
  · have henc : s.compacted.encoding = .raw := by
      rw [s.encoding_compacted, if_neg (Nat.ne_of_gt (Nat.lt_trans (by decide) hmany)),
        if_neg (Nat.not_le.mpr hmany)]
    rw [if_neg (Nat.ne_of_gt (Nat.lt_trans (by decide) hmany)), if_neg (Nat.not_le.mpr hmany),
      hbytes]
    apply decodeRaw_eq_ok.mpr
    exact ⟨by rw [s.cells_compacted], s.compacted_compacted, henc⟩

namespace SectionPayloadEnvelope

@[simp] theorem encodeFull_encoding (id : SectionId) (rev : UInt64) (s : SectionStorage) :
    (encodeFull id rev s).encoding = s.compacted.encoding := rfl

@[simp] theorem encodeFull_payload (id : SectionId) (rev : UInt64) (s : SectionStorage) :
    (encodeFull id rev s).payload = s.encodedPayload := s.encodedPayload_compacted

/-- An envelope this side sends passes the receiver's digest, length and key
checks. -/
theorem decode_outgoing (id : SectionId) (rev : UInt64) (encoding : SectionEncoding)
    (base : Option UInt64) (payload : Bytes) (h : payload.length < 2 ^ 32)
    (baseline : Option (SectionStorage × UInt64)) :
    (outgoing id rev encoding base payload h).decode baseline =
      match (outgoing id rev encoding base payload h).decodeStorage baseline with
      | .error err => .error err
      | .ok storage => .ok ⟨id, rev, storage⟩ := by
  have hdigest : sha256 (outgoing id rev encoding base payload h).payload =
      (outgoing id rev encoding base payload h).payloadSha256 := rfl
  have hlen : (outgoing id rev encoding base payload h).payload.length =
      (outgoing id rev encoding base payload h).payloadLength.toNat := (Nat.mod_eq_of_lt h).symm
  have hkey : SectionId.parse (outgoing id rev encoding base payload h).sectionKey = .ok id :=
    SectionId.parse_key id
  unfold decode
  rw [if_neg (not_not.mpr hdigest), if_neg (not_not.mpr hlen), hkey]
  rfl

theorem decodeStorage_full {env : SectionPayloadEnvelope} (henc : env.encoding ≠ .delta)
    (baseline : Option (SectionStorage × UInt64)) :
    env.decodeStorage baseline =
      if env.baseSectionRevision.isSome then
        .error (.contractViolation BASE_REVISION_ON_FULL_ENCODING)
      else if baseline.any fun held => env.sectionRevision ≤ held.2 then
        .error (.contractViolation STALE_SECTION_REVISION)
      else
        decodeFull env.encoding env.payload := by
  unfold decodeStorage
  cases h : env.encoding with
  | delta => exact absurd h henc
  | uniform => rfl
  | palette => rfl
  | raw => rfl

/-- A full envelope this side sends decodes to the compacted storage, unless the
receiver already holds that revision or a later one. -/
theorem decode_encodeFull (id : SectionId) (rev : UInt64) (s : SectionStorage)
    (baseline : Option (SectionStorage × UInt64)) :
    (encodeFull id rev s).decode baseline =
      if baseline.any fun held => rev ≤ held.2 then
        .error (.contractViolation STALE_SECTION_REVISION)
      else .ok ⟨id, rev, s.compacted⟩ := by
  have hfull := decodeFull_encodedPayload s
  have henc : (encodeFull id rev s).encoding ≠ .delta := by
    intro hdelta
    rw [encodeFull_encoding] at hdelta
    rw [hdelta] at hfull
    cases hfull
  have hstorage : (encodeFull id rev s).decodeStorage baseline =
      if baseline.any fun held => rev ≤ held.2 then
        .error (.contractViolation STALE_SECTION_REVISION)
      else .ok s.compacted := by
    rw [decodeStorage_full henc, encodeFull_payload, encodeFull_encoding, hfull]
    rfl
  have hdecode : (encodeFull id rev s).decode baseline =
      match (encodeFull id rev s).decodeStorage baseline with
      | .error err => .error err
      | .ok storage => .ok ⟨id, rev, storage⟩ :=
    decode_outgoing id rev s.compacted.encoding none s.compacted.encodedPayload
      s.compacted.length_encodedPayload_lt baseline
  rw [hdecode, hstorage]
  split_ifs <;> rfl

/-- **Full payloads round-trip.** -/
theorem full_round_trip (sectionId : SectionId) (revision : UInt64) (s : SectionStorage)
    (baseline : Option (SectionStorage × UInt64)) (holder : ∀ held ∈ baseline, held.2 < revision) :
    ∃ decoded, (encodeFull sectionId revision s).decode baseline = .ok decoded ∧
      decoded.sectionId = sectionId ∧ decoded.sectionRevision = revision ∧
      ∀ o, decoded.storage.read o = s.read o := by
  have hfresh : ¬ (baseline.any fun held => revision ≤ held.2) = true := by
    rw [Option.any_eq_true]
    rintro ⟨held, hheld, hle⟩
    have hlt := holder held hheld
    rw [UInt64.lt_iff_toNat_lt] at hlt
    rw [decide_eq_true_eq, UInt64.le_iff_toNat_le] at hle
    exact Nat.not_le.mpr hlt hle
  refine ⟨⟨sectionId, revision, s.compacted⟩, ?_, rfl, rfl, s.read_compacted⟩
  rw [decode_encodeFull, if_neg hfresh]

theorem full_round_trip_uniform :
    ∃ decoded, (encodeFull originSection 2 (.uniform ⟨7⟩)).decode (some (.uniform ⟨0⟩, 1)) =
        .ok decoded ∧ decoded.sectionId = originSection ∧ decoded.sectionRevision = 2 ∧
      ∀ o, decoded.storage.read o = (SectionStorage.uniform ⟨7⟩).read o :=
  full_round_trip originSection 2 (.uniform ⟨7⟩) (some (.uniform ⟨0⟩, 1)) (by
    intro held hheld
    obtain rfl := Option.mem_some.mp hheld
    decide)

end SectionPayloadEnvelope

/-! ## 8. Deltas -/

/-- The entries of a batch written in order. -/
def writeEntries (storage : SectionStorage) (entries : List DeltaEntry) : SectionStorage :=
  entries.foldl (fun s entry => (s.write entry.offset entry.blockId).1) storage

/-- The block of the last entry that targets a cell. -/
def lastEntry (entries : List DeltaEntry) (offset : CellOffset) : Option BlockId :=
  (entries.filter fun entry => entry.offset = offset).getLast?.map (·.blockId)

/-- **Last write wins.** -/
theorem read_writeEntries (storage : SectionStorage) (entries : List DeltaEntry)
    (offset : CellOffset) :
    (writeEntries storage entries).read offset =
      (lastEntry entries offset).getD (storage.read offset) := by
  induction entries using List.reverseRecOn with
  | nil => rfl
  | append_singleton entries entry ih =>
    have hlast : writeEntries storage (entries ++ [entry]) =
        ((writeEntries storage entries).write entry.offset entry.blockId).1 :=
      List.foldl_concat _ _ _ _
    rw [hlast, SectionStorage.read_write, lastEntry, List.filter_append]
    by_cases ho : entry.offset = offset
    · rw [if_pos ho.symm, List.filter_cons_of_pos (by simpa using ho), List.filter_nil,
        List.getLast?_concat]
      rfl
    · rw [if_neg (Ne.symm ho), List.filter_cons_of_neg (by simpa using ho), List.filter_nil,
        List.append_nil, ih, lastEntry]

theorem applyEntries_entries (storage : SectionStorage) (entries : List DeltaEntry) :
    applyEntries storage (entries.map fun entry => (entry.offset.raw, entry.blockId)) =
      .ok (writeEntries storage entries) := by
  induction entries generalizing storage with
  | nil => rfl
  | cons entry rest ih =>
    have hoffset : CellOffset.new entry.offset.raw = .ok entry.offset := dif_pos entry.offset.le_max
    rw [List.map_cons, applyEntries, hoffset]
    exact ih _

theorem applyDelta_deltaPayload (storage : SectionStorage) (entries : List DeltaEntry) :
    applyDelta storage (SectionPayloadEnvelope.deltaPayload entries) =
      .ok (writeEntries storage entries) := by
  have hpacked : SectionPayloadEnvelope.deltaPayload entries =
      deltaEntryCodec.packed (entries.map fun entry => (entry.offset.raw, entry.blockId)) := by
    rw [RecordCodec.packed, List.flatMap_map]
    rfl
  have hwidth : deltaEntryCodec.width = 6 := rfl
  rw [hpacked, applyDelta, deltaEntryCodec.length_packed, hwidth, Nat.mul_mod_left,
    if_neg (not_not.mpr rfl), deltaEntryCodec.unpacked_packed]
  exact applyEntries_entries storage entries

namespace SectionPayloadEnvelope

/-- A delta this side sends decodes, at its base revision, to the baseline with
the entries written over it. -/
theorem decode_encodeDelta {id : SectionId} {rev base : UInt64} {entries : List DeltaEntry}
    {h : (deltaPayload entries).length < 2 ^ 32} {held : SectionStorage × UInt64} :
    (encodeDelta id rev base entries h).decode (some held) =
      if base ≠ held.2 ∨ rev ≤ held.2 then
        .error (.contractViolation DELTA_BASE_REVISION_MISMATCH)
      else .ok ⟨id, rev, writeEntries held.1 entries⟩ := by
  have hstorage : (encodeDelta id rev base entries h).decodeStorage (some held) =
      if base ≠ held.2 ∨ rev ≤ held.2 then
        .error (.contractViolation DELTA_BASE_REVISION_MISMATCH)
      else .ok (writeEntries held.1 entries) := by
    have happly := applyDelta_deltaPayload held.1 entries
    simp only [decodeStorage, encodeDelta, outgoing, Option.some.injEq, ne_eq, happly]
    by_cases hbase : base = held.2
    · by_cases hrev : rev ≤ held.2
      · rw [if_neg (not_not.mpr hbase), if_pos hrev, if_pos (.inr hrev)]
      · rw [if_neg (not_not.mpr hbase), if_neg hrev,
          if_neg (not_or.mpr ⟨not_not.mpr hbase, hrev⟩)]
    · rw [if_pos hbase, if_pos (.inl hbase)]
  unfold encodeDelta at hstorage ⊢
  rw [decode_outgoing, hstorage]
  split_ifs <;> rfl

end SectionPayloadEnvelope

end LumioVoxel
