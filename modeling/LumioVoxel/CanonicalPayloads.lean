import LumioVoxel.SectionPayloadCodec

/-!
# Canonical payloads

Encoding looks at the cells of a section and at nothing else: equal cells give
equal bytes, different cells different bytes.  The decoder is more liberal in one
respect only.  It takes a palette in any order of its entries, so what comes back
when an accepted payload is encoded again is the same section with its palette
in order of first appearance.
-/

namespace LumioVoxel

open FirstAppearance

/-! ## 1. The bytes determine the reads -/

namespace SectionStorage

/-- The form of the canonical bytes shows in their number. -/
private theorem length_encodedPayload_cases (s : SectionStorage) :
    (s.compacted.encoding = .uniform ∧ s.encodedPayload.length = 4) ∨
      (s.compacted.encoding = .palette ∧ 4 < s.encodedPayload.length ∧
        s.encodedPayload.length < 16384) ∨
      (s.compacted.encoding = .raw ∧ s.encodedPayload.length = 16384) := by
  have hcells := s.length_cells
  simp only [SECTION_CELLS] at hcells
  have hwidth : blockCodec.width = 4 := rfl
  rw [s.encoding_compacted]
  rcases s.encodedPayload_cases with ⟨block, hone, -, hbytes⟩ | ⟨htwo, hle, hbytes⟩ |
    ⟨hmany, hbytes⟩
  · rw [hone, hbytes, blockCodec.length_encode]
    exact Or.inl ⟨rfl, rfl⟩
  · refine Or.inr (Or.inl ⟨?_, ?_⟩)
    · rw [if_neg (Nat.ne_of_gt htwo), if_pos hle]
    · simp only [PALETTE_MAX_ENTRIES] at hle
      rw [hbytes, List.length_append, List.length_append, blockCodec.length_packed, hwidth,
        slotsOf, List.length_map, hcells]
      simp only [u16LeBytes, List.length_cons, List.length_nil]
      omega
  · refine Or.inr (Or.inr ⟨?_, ?_⟩)
    · simp only [PALETTE_MAX_ENTRIES] at hmany ⊢
      rw [if_neg (by omega), if_neg (Nat.not_le.mpr hmany)]
    · rw [hbytes, blockCodec.length_packed, hwidth, hcells]

/-- The canonical bytes alone determine every read. -/
theorem read_eq_of_encodedPayload {s t : SectionStorage}
    (h : s.encodedPayload = t.encodedPayload) (o : CellOffset) : s.read o = t.read o := by
  have hlength := congrArg List.length h
  have hencoding : s.compacted.encoding = t.compacted.encoding := by
    rcases length_encodedPayload_cases s with ⟨hs, hlen⟩ | ⟨hs, hlow, hhigh⟩ | ⟨hs, hlen⟩ <;>
      rcases length_encodedPayload_cases t with ⟨ht, hlen'⟩ | ⟨ht, hlow', hhigh'⟩ | ⟨ht, hlen'⟩ <;>
      first | omega | rw [hs, ht]
  have hs := decodeFull_encodedPayload s
  rw [hencoding, h, decodeFull_encodedPayload t] at hs
  exact compacted_eq_iff.mp (Except.ok.inj hs).symm o

end SectionStorage

namespace SectionPayloadEnvelope

/-! ## 2. The encoding is canonical -/

/-- **The encoder erases the history of a storage.**  Tag and bytes agree exactly
when the storages read equal, the tag counts the different blocks, and every
slot of an encoded palette is named by a cell. -/
theorem canonical_encoding (id id' : SectionId) (rev rev' : UInt64) (s t : SectionStorage) :
    ((∀ o, s.read o = t.read o) ↔
      (encodeFull id rev s).encoding = (encodeFull id' rev' t).encoding ∧
        (encodeFull id rev s).payload = (encodeFull id' rev' t).payload) ∧
    ((encodeFull id rev s).encoding = .uniform ↔ (Set.range s.read).ncard = 1) ∧
    ((encodeFull id rev s).encoding = .palette ↔
      2 ≤ (Set.range s.read).ncard ∧ (Set.range s.read).ncard ≤ 256) ∧
    ((encodeFull id rev s).encoding = .raw ↔ 256 < (Set.range s.read).ncard) ∧
    ((encodeFull id rev s).encoding = .palette →
      ∀ slot, slot < (paletteTable (encodeFull id rev s).payload).length →
        ∃ o : CellOffset,
          ((paletteIndices (encodeFull id rev s).payload).getD o.index 0).toNat = slot) := by
  have hcount := s.one_le_blocks
  refine ⟨⟨fun h => ?_, fun h => ?_⟩, ?_, ?_, ?_, ?_⟩
  · rw [encodeFull_encoding, encodeFull_encoding, encodeFull_payload, encodeFull_payload,
      ← s.encodedPayload_compacted, ← t.encodedPayload_compacted,
      SectionStorage.compacted_eq_iff.mpr h]
    exact ⟨rfl, rfl⟩
  · simp only [encodeFull_encoding, encodeFull_payload] at h
    have hs := decodeFull_encodedPayload s
    rw [h.1, h.2, decodeFull_encodedPayload t] at hs
    exact SectionStorage.compacted_eq_iff.mp (Except.ok.inj hs).symm
  · rw [encodeFull_encoding, s.encoding_compacted, s.ncard_range_read]
    split_ifs with hone hle
    · exact ⟨fun _ => hone, fun _ => rfl⟩
    · exact ⟨fun h => (by cases h), fun h => absurd h hone⟩
    · exact ⟨fun h => (by cases h), fun h => absurd h hone⟩
  · rw [encodeFull_encoding, s.encoding_compacted, s.ncard_range_read]
    split_ifs with hone hle
    · exact ⟨fun h => (by cases h), fun h => by omega⟩
    · exact ⟨fun _ => ⟨by omega, hle⟩, fun _ => rfl⟩
    · exact ⟨fun h => (by cases h), fun h => absurd h.2 hle⟩
  · rw [encodeFull_encoding, s.encoding_compacted, s.ncard_range_read]
    split_ifs with hone hle
    · exact ⟨fun h => (by cases h), fun h => by omega⟩
    · exact ⟨fun h => (by cases h), fun h => absurd hle (Nat.not_le.mpr h)⟩
    · exact ⟨fun _ => Nat.not_le.mp hle, fun _ => rfl⟩
  · intro henc slot hslot
    have hfull := decodeFull_encodedPayload s
    rw [encodeFull_encoding] at henc
    rw [henc] at hfull
    obtain ⟨entries, indices, hlayout, -⟩ := decodePalette_eq_ok.mp hfull
    rw [encodeFull_payload, hlayout.paletteTable_eq] at hslot
    obtain ⟨c, hc, hslot⟩ := hlayout.live slot hslot
    obtain ⟨i, hi, rfl⟩ := List.mem_iff_getElem.mp hc
    obtain ⟨o, rfl⟩ := CellOffset.exists_index (by rw [← hlayout.length_indices]; exact hi)
    refine ⟨o, ?_⟩
    rw [encodeFull_payload, hlayout.paletteIndices_eq, List.getD_eq_getElem _ _ hi, hslot]

end SectionPayloadEnvelope

/-- A delivered palette spells the storage's cells. -/
theorem cells_of_decodePalette {payload indices : Bytes} {entries : List BlockId}
    {s : SectionStorage} (hlayout : PaletteLayout payload entries indices)
    (hstate : s.state = StorageState.optimalState (paletteCells entries indices)) :
    s.cells = paletteCells entries indices := by
  have hlen : (paletteCells entries indices).length = SECTION_CELLS := by
    rw [length_paletteCells, hlayout.length_indices]
  exact (SectionStorage.compacted_of_fromCells (SectionStorage.fromCells_eq_ok.mpr ⟨hlen, hstate⟩)).1

theorem PaletteLayout.decodes {payload indices : Bytes} {entries : List BlockId}
    (h : PaletteLayout payload entries indices) :
    ∃ s, decodePalette payload = .ok s ∧ s.cells = paletteCells entries indices := by
  have hlen : (paletteCells entries indices).length = SECTION_CELLS := by
    rw [length_paletteCells, h.length_indices]
  let s : SectionStorage := ⟨_, (StorageState.optimalState_sound hlen).1⟩
  exact ⟨s, decodePalette_eq_ok.mpr ⟨_, _, h, rfl⟩, cells_of_decodePalette h rfl⟩

/-- Encoding the cells of an accepted palette again gives a palette of the same
blocks that spells the same cells; the bytes are the accepted ones exactly when
the accepted table was in order of first appearance. -/
theorem PaletteLayout.encodedPayload {payload indices : Bytes} {entries : List BlockId}
    (h : PaletteLayout payload entries indices) {s : SectionStorage}
    (hcells : s.cells = paletteCells entries indices) :
    (paletteTable s.encodedPayload).Perm entries ∧
      paletteCells (paletteTable s.encodedPayload) (paletteIndices s.encodedPayload) = s.cells ∧
      (s.encodedPayload = payload ↔ InOrderOf s.cells entries) := by
  have hperm : entries.Perm s.cells.eraseDups := by
    rw [hcells]
    exact h.perm
  have htwo : 2 ≤ s.cells.eraseDups.length := by
    rw [← hperm.length_eq]
    exact h.two_le
  have hle : s.cells.eraseDups.length ≤ PALETTE_MAX_ENTRIES := by
    rw [← hperm.length_eq]
    exact h.le_max
  obtain ⟨hcanon, hspell⟩ := s.paletteLayout htwo hle
  have hbytes : s.encodedPayload = u16LeBytes (UInt16.ofNat s.cells.eraseDups.length) ++
      blockCodec.packed s.cells.eraseDups ++ slotsOf s.cells.eraseDups s.cells := by
    rcases s.encodedPayload_cases with ⟨block, hone, -⟩ | ⟨-, -, hbytes⟩ | ⟨hmany, -⟩
    · rw [hone] at htwo
      exact absurd htwo (by simp)
    · exact hbytes
    · exact absurd hle (Nat.not_le.mpr hmany)
  rw [← hbytes] at hcanon
  have hmem : ∀ block, block ∈ entries ↔ block ∈ s.cells := by
    intro block
    rw [hcells]
    exact h.mem_iff block
  refine ⟨?_, ?_, ?_⟩
  · rw [hcanon.paletteTable_eq]
    exact hperm.symm
  · rw [hcanon.paletteTable_eq, hcanon.paletteIndices_eq, hspell]
  · rw [← eq_eraseDups_iff h.nodup hmem]
    constructor
    · intro hsame
      rw [← h.paletteTable_eq, ← hsame, hcanon.paletteTable_eq]
    · intro hfirst
      rw [hbytes, ← hfirst, hcells, h.slotsOf_eq]
      exact h.bytes.symm

/-! ## 3. What the decoder accepts -/

/-- The bytes of an accepted full payload that is no palette are the canonical ones. -/
theorem encodedPayload_of_decodeFull {encoding : SectionEncoding} {payload : Bytes}
    {s : SectionStorage} (h : decodeFull encoding payload = .ok s) (hpalette : encoding ≠ .palette) :
    s.encodedPayload = payload := by
  have hcompact := decodeFull_compacted h
  cases encoding with
  | uniform =>
    simp only [decodeFull] at h
    split at h
    · cases h
    rename_i hlen
    obtain rfl := Except.ok.inj h
    rw [SectionStorage.encodedPayload, hcompact.1]
    exact blockCodec.encode_decode payload (not_not.mp hlen)
  | palette => exact absurd rfl hpalette
  | raw =>
    obtain ⟨hbytes, -, -⟩ := decodeRaw_eq_ok.mp h
    have hcount := s.encoding_compacted
    rw [hcompact.1, hcompact.2] at hcount
    rcases s.encodedPayload_cases with ⟨block, hone, -, -⟩ | ⟨htwo, hle, -⟩ | ⟨-, hpayload⟩
    · rw [hone, List.length_singleton, if_pos rfl] at hcount
      cases hcount
    · rw [if_neg (Nat.ne_of_gt htwo), if_pos hle] at hcount
      cases hcount
    · rw [hpayload, ← hbytes]
  | delta => cases h

namespace SectionPayloadEnvelope

theorem decode_eq_ok {env : SectionPayloadEnvelope} {baseline : Option (SectionStorage × UInt64)}
    {decoded : DecodedSectionPayload} (h : env.decode baseline = .ok decoded) :
    decoded.sectionRevision = env.sectionRevision ∧ decoded.sectionId.key = env.sectionKey ∧
      env.decodeStorage baseline = .ok decoded.storage := by
  unfold decode at h
  split at h
  · cases h
  split at h
  · cases h
  split at h
  · cases h
  rename_i sectionId hkey
  split at h
  · cases h
  rename_i storage hstorage
  obtain rfl := Except.ok.inj h
  exact ⟨rfl, (SectionId.parse_eq_ok.mp hkey).symm, hstorage⟩

theorem decodeFull_of_decode {env : SectionPayloadEnvelope}
    {baseline : Option (SectionStorage × UInt64)} {decoded : DecodedSectionPayload}
    (henc : env.encoding ≠ .delta) (h : env.decode baseline = .ok decoded) :
    decodeFull env.encoding env.payload = .ok decoded.storage := by
  have hstorage := (decode_eq_ok h).2.2
  rw [decodeStorage_full henc] at hstorage
  split at hstorage
  · cases hstorage
  split at hstorage
  · cases hstorage
  exact hstorage

/-- **Encoding an accepted payload again** keeps the tag; the bytes are kept too,
except that a palette comes back in order of first appearance. -/
theorem reencoded_payload {env : SectionPayloadEnvelope}
    {baseline : Option (SectionStorage × UInt64)} {decoded : DecodedSectionPayload}
    (hfull : env.encoding ≠ .delta) (hdecode : env.decode baseline = .ok decoded) :
    (encodeFull decoded.sectionId decoded.sectionRevision decoded.storage).encoding = env.encoding ∧
    (env.encoding ≠ .palette →
      (encodeFull decoded.sectionId decoded.sectionRevision decoded.storage).payload =
        env.payload) ∧
    (env.encoding = .palette →
      (paletteTable (encodeFull decoded.sectionId decoded.sectionRevision
        decoded.storage).payload).Perm (paletteTable env.payload) ∧
      paletteCells
          (paletteTable (encodeFull decoded.sectionId decoded.sectionRevision
            decoded.storage).payload)
          (paletteIndices (encodeFull decoded.sectionId decoded.sectionRevision
            decoded.storage).payload) =
        paletteCells (paletteTable env.payload) (paletteIndices env.payload) ∧
      ((encodeFull decoded.sectionId decoded.sectionRevision decoded.storage).payload =
        env.payload ↔ InOrderOf decoded.storage.cells (paletteTable env.payload))) := by
  have hstorage := decodeFull_of_decode hfull hdecode
  obtain ⟨hcompact, henc⟩ := decodeFull_compacted hstorage
  simp only [encodeFull_encoding, encodeFull_payload]
  refine ⟨by rw [hcompact, henc], encodedPayload_of_decodeFull hstorage, fun hpalette => ?_⟩
  rw [hpalette] at hstorage
  obtain ⟨entries, indices, hlayout, hstate⟩ := decodePalette_eq_ok.mp hstorage
  have hcells := cells_of_decodePalette hlayout hstate
  rw [hlayout.paletteTable_eq, hlayout.paletteIndices_eq, ← hcells]
  exact hlayout.encodedPayload hcells

/-- Block 0 in the first cell and block 1 in all others, with block 1 listed first. -/
def permutedPayload : Bytes :=
  u16LeBytes 2 ++ blockCodec.packed [⟨1⟩, ⟨0⟩] ++ (1 :: List.replicate 4095 0)

theorem permutedPayload_layout :
    PaletteLayout permutedPayload [⟨1⟩, ⟨0⟩] (1 :: List.replicate 4095 0) where
  bytes := rfl
  two_le := by decide
  le_max := by decide
  nodup := by decide
  length_indices := by rw [List.length_cons, List.length_replicate]
  indices_lt c hc := by
    rcases List.mem_cons.mp hc with rfl | hc
    · decide
    · rw [List.eq_of_mem_replicate hc]
      decide
  live slot hslot := by
    rcases Nat.lt_or_ge slot 1 with h | h
    · refine ⟨0, List.mem_cons_of_mem _ (List.mem_replicate.mpr ⟨by decide, rfl⟩), ?_⟩
      exact (Nat.lt_one_iff.mp h).symm
    · refine ⟨1, List.mem_cons_self, ?_⟩
      exact Nat.le_antisymm h (Nat.le_of_lt_succ hslot)

def permutedEnvelope : SectionPayloadEnvelope :=
  outgoing originSection 1 .palette none permutedPayload (by
    rw [permutedPayload_layout.length_payload, paletteTableEnd,
      permutedPayload_layout.paletteCount_eq]
    decide)

private theorem permutedEnvelope_decode :
    ∃ decoded, permutedEnvelope.decode none = .ok decoded ∧
      decoded.storage.cells = paletteCells [⟨1⟩, ⟨0⟩] (1 :: List.replicate 4095 0) := by
  obtain ⟨s, hs, hcells⟩ := permutedPayload_layout.decodes
  have hfull : decodeFull permutedEnvelope.encoding permutedEnvelope.payload = .ok s := hs
  have hstorage : permutedEnvelope.decodeStorage none = .ok s := by
    rw [decodeStorage_full (by decide), hfull]
    rfl
  refine ⟨⟨originSection, 1, s⟩, ?_, hcells⟩
  unfold permutedEnvelope at hstorage ⊢
  rw [decode_outgoing, hstorage]

/-- The decoder accepts a palette out of order, which the encoder never writes. -/
theorem permuted_palette_accepted :
    ∃ decoded, permutedEnvelope.decode none = .ok decoded ∧
      (encodeFull decoded.sectionId decoded.sectionRevision decoded.storage).payload ≠
        permutedEnvelope.payload := by
  obtain ⟨decoded, hdecode, hcells⟩ := permutedEnvelope_decode
  refine ⟨decoded, hdecode, ?_⟩
  rw [encodeFull_payload]
  intro hsame
  have horder := (permutedPayload_layout.encodedPayload hcells).2.2.mp hsame
  -- block 0 stands in the first cell, so block 1 cannot come before it
  have hfirst : decoded.storage.cells.idxOf ⟨0⟩ = 0 := by
    rw [hcells, paletteCells, List.map_cons]
    exact List.idxOf_cons_self
  have hlt := List.rel_of_pairwise_cons horder (List.mem_singleton_self _)
  rw [hfirst] at hlt
  exact Nat.not_lt_zero _ hlt

theorem reencoded_payload_permuted :
    ∃ decoded, permutedEnvelope.decode none = .ok decoded ∧
      (encodeFull decoded.sectionId decoded.sectionRevision decoded.storage).encoding =
        .palette := by
  obtain ⟨decoded, hdecode, -⟩ := permutedEnvelope_decode
  exact ⟨decoded, hdecode, (reencoded_payload (by decide) hdecode).1⟩

end SectionPayloadEnvelope

end LumioVoxel
