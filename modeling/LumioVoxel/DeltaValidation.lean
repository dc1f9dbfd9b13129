import LumioVoxel.BlockEntityBinding
import LumioVoxel.SectionPayloadCodec

/-!
# Validating a section payload

The binding checks a payload before anything is done with it.  A full envelope is
simply decoded.  A delta has no baseline there, so its bytes are classified by
length and content; the classification knows the shapes of all four encodings,
while a decoder that does have a baseline reads a delta as six-byte entries and
nothing else.
-/

namespace LumioVoxel

open Fallible

/-! ## 1. The validator -/

/-- The length is that of the palette the first two bytes announce. -/
def PaletteShaped (bytes : Bytes) : Prop :=
  2 ≤ bytes.length ∧ (2 ≤ paletteCount bytes ∧ paletteCount bytes ≤ PALETTE_MAX_ENTRIES) ∧
    bytes.length = paletteTableEnd bytes + SECTION_CELLS

instance (bytes : Bytes) : Decidable (PaletteShaped bytes) :=
  inferInstanceAs (Decidable (_ ∧ _ ∧ _))

/-- An entry of the table that an earlier one repeats. -/
def hasRepeat (table : List BlockId) : Bool :=
  table.zipIdx.any fun item => (table.take item.2).contains item.1

/-- One palette index: in the table, and then its slot is live. -/
def markLive (entries : Nat) (live : List Bool) (index : UInt8) :
    Except BindingError (List Bool) := do
  require (index.toNat < entries) .businessData
  return live.set index.toNat true

def validatePaletteBytes (bytes : Bytes) : Except BindingError Unit := do
  require (hasRepeat (paletteTable bytes) = false) .businessData
  let live ← foldSteps (markLive (paletteCount bytes))
    (List.replicate (paletteCount bytes) false) (paletteIndices bytes)
  require (live.all id = true) .businessData

/-- One six-byte entry: only its offset can be wrong. -/
def checkEntryOffset (entry : UInt16 × BlockId) : Except BindingError Unit := do
  let _ ← (CellOffset.new entry.1).mapError BindingError.block
  return ()

def validateVoxelPayloadBytes (bytes : Bytes) : Except BindingError Unit :=
  if bytes.length = 4 ∨ bytes.length = SECTION_CELLS * 4 then .ok ()
  else if PaletteShaped bytes then validatePaletteBytes bytes
  else if bytes.length % 6 = 0 ∧ bytes ≠ [] then
    foldSteps (fun _ entry => checkEntryOffset entry) () (deltaEntryCodec.unpacked bytes)
  else .error .businessData

/-- A delta is known by the refusal it gets without a baseline. -/
def BindingState.validateSectionPayload (payload : SectionPayloadEnvelope) :
    Except BindingError Unit :=
  match payload.decode none with
  | .ok _ => .ok ()
  | .error err =>
    if payload.encoding = .delta ∧ err.errorId = DELTA_USED_FOR_FIRST_DELIVERY then
      match payload.baseSectionRevision with
      | none => .error .businessData
      | some baseRevision =>
        if payload.sectionRevision ≤ baseRevision then .error .businessData
        else validateVoxelPayloadBytes payload.payload
    else .error .businessData

/-! ## 2. Palettes -/

theorem hasRepeat_eq_false {table : List BlockId} : hasRepeat table = false ↔ table.Nodup := by
  rw [hasRepeat, List.any_eq_false, List.nodup_iff_getElem?_ne_getElem?]
  constructor
  · intro h i j hij hj hsame
    have hmem : (table[j], j) ∈ table.zipIdx :=
      List.mk_mem_zipIdx_iff_getElem?.mpr (List.getElem?_eq_getElem hj)
    refine h _ hmem (List.contains_iff_mem.mpr (List.mem_take_iff_getElem.mpr ?_))
    rw [List.getElem?_eq_getElem (Nat.lt_trans hij hj), List.getElem?_eq_getElem hj] at hsame
    exact ⟨i, by omega, Option.some.inj hsame⟩
  · rintro h ⟨block, j⟩ hmem hrepeat
    have hblock := List.mk_mem_zipIdx_iff_getElem?.mp hmem
    obtain ⟨hj, rfl⟩ := List.getElem?_eq_some_iff.mp hblock
    obtain ⟨i, hi, hsame⟩ := List.mem_take_iff_getElem.mp (List.contains_iff_mem.mp hrepeat)
    refine h i j (by omega) hj ?_
    rw [List.getElem?_eq_getElem (by omega), List.getElem?_eq_getElem hj, hsame]

theorem markLive_eq_ok {entries : Nat} {live next : List Bool} {index : UInt8} :
    markLive entries live index = .ok next ↔
      index.toNat < entries ∧ next = live.set index.toNat true := by
  simp only [markLive, bind_eq_ok, require_eq_ok, exists_const, pure_eq_ok, eq_comm (a := next)]

/-- After the pass a slot is live exactly when it was or an index names it. -/
theorem getElem?_marked (indices : Bytes) (live : List Bool) (slot : Nat) :
    (indices.foldl (fun (live : List Bool) index => live.set index.toNat true) live)[slot]? =
      live[slot]?.map fun was => was || indices.any fun index => index.toNat = slot := by
  induction indices generalizing live with
  | nil => simp
  | cons index rest ih =>
    rw [List.foldl_cons, ih, List.any_cons, List.getElem?_set]
    by_cases hown : index.toNat = slot
    · rw [if_pos hown]
      by_cases hlt : slot < live.length
      · rw [if_pos (hown ▸ hlt), List.getElem?_eq_getElem hlt]
        simp [hown]
      · rw [if_neg (hown ▸ hlt), List.getElem?_eq_none (Nat.le_of_not_lt hlt)]
        rfl
    · rw [if_neg hown, decide_eq_false hown, Bool.false_or]

theorem marked_all_live {indices : Bytes} {entries : Nat} :
    (indices.foldl (fun (live : List Bool) index => live.set index.toNat true)
        (List.replicate entries false)).all id = true ↔
      ∀ slot, slot < entries → ∃ index ∈ indices, index.toNat = slot := by
  have hslot : ∀ slot, (indices.foldl (fun (live : List Bool) index => live.set index.toNat true)
      (List.replicate entries false))[slot]? =
        if slot < entries then some (indices.any fun index => index.toNat = slot) else none := by
    intro slot
    rw [getElem?_marked, List.getElem?_replicate]
    split
    · simp
    · rfl
  rw [List.all_eq_true]
  constructor
  · intro h slot hlt
    have hlive := h _ (List.mem_of_getElem? ((hslot slot).trans (if_pos hlt)))
    obtain ⟨index, hindex, hname⟩ := List.any_eq_true.mp hlive
    exact ⟨index, hindex, of_decide_eq_true hname⟩
  · intro h was hwas
    obtain ⟨slot, hread⟩ := List.mem_iff_getElem?.mp hwas
    rw [hslot] at hread
    split at hread
    · rename_i hlt
      obtain ⟨index, hindex, hname⟩ := h slot hlt
      obtain rfl := Option.some.inj hread
      exact List.any_eq_true.mpr ⟨index, hindex, decide_eq_true hname⟩
    · cases hread

theorem layout_iff {bytes : Bytes} (hshape : PaletteShaped bytes) :
    (∃ s, decodePalette bytes = .ok s) ↔ (paletteTable bytes).Nodup ∧
      (∀ index ∈ paletteIndices bytes, index.toNat < paletteCount bytes) ∧
      ∀ slot, slot < paletteCount bytes → ∃ index ∈ paletteIndices bytes, index.toNat = slot := by
  obtain ⟨htwo, ⟨hmin, hmax⟩, hlength⟩ := hshape
  obtain ⟨hbytes, hcount⟩ := bytes_of_shape htwo hlength
  constructor
  · rintro ⟨s, hs⟩
    obtain ⟨entries, indices, hlayout, -⟩ := decodePalette_eq_ok.mp hs
    rw [hlayout.paletteTable_eq, hlayout.paletteIndices_eq, hlayout.paletteCount_eq]
    exact ⟨hlayout.nodup, hlayout.indices_lt, hlayout.live⟩
  · rintro ⟨hnodup, hrange, hlive⟩
    have hindices : (paletteIndices bytes).length = SECTION_CELLS := by
      rw [paletteIndices, List.length_drop, hlength, Nat.add_sub_cancel_left]
    have hlayout : PaletteLayout bytes (paletteTable bytes) (paletteIndices bytes) := {
      bytes := hbytes
      two_le := hcount ▸ hmin
      le_max := hcount ▸ hmax
      nodup := hnodup
      length_indices := hindices
      indices_lt := hcount ▸ hrange
      live := hcount ▸ hlive }
    have hcells := (length_paletteCells (paletteTable bytes) (paletteIndices bytes)).trans hindices
    exact ⟨⟨_, (StorageState.optimalState_sound hcells).1⟩, decodePalette_eq_ok.mpr
      ⟨_, _, hlayout, rfl⟩⟩

/-- The palette check accepts what the full palette decoder accepts. -/
theorem validatePaletteBytes_eq_ok {bytes : Bytes} (hshape : PaletteShaped bytes) {u : Unit} :
    validatePaletteBytes bytes = .ok u ↔ ∃ s, decodePalette bytes = .ok s := by
  have hfold : ∀ live, foldSteps (markLive (paletteCount bytes))
      (List.replicate (paletteCount bytes) false) (paletteIndices bytes) = .ok live ↔
        (∀ index ∈ paletteIndices bytes, index.toNat < paletteCount bytes) ∧
          live = (paletteIndices bytes).foldl (fun live index => live.set index.toNat true)
            (List.replicate (paletteCount bytes) false) := by
    intro live
    have hstep : ∀ (live : List Bool) (index : UInt8) next,
        markLive (paletteCount bytes) live index = .ok next ↔
          index.toNat < paletteCount bytes ∧ next = live.set index.toNat true :=
      fun _ _ _ => markLive_eq_ok
    exact foldSteps_checked hstep
  rw [layout_iff hshape]
  simp only [validatePaletteBytes, bind_eq_ok, require_eq_ok, exists_const, hasRepeat_eq_false,
    hfold]
  refine and_congr_right fun _ => ?_
  constructor
  · rintro ⟨_, ⟨hrange, rfl⟩, hlive⟩
    exact ⟨hrange, marked_all_live.mp hlive⟩
  · rintro ⟨hrange, hlive⟩
    exact ⟨_, ⟨hrange, rfl⟩, marked_all_live.mpr hlive⟩

/-! ## 3. Entries -/

/-- The bytes are six-byte entries, each for a cell of the section. -/
def ReadsAsEntries (bytes : Bytes) : Prop :=
  bytes.length % 6 = 0 ∧ ∀ entry ∈ deltaEntryCodec.unpacked bytes, entry.1.toNat ≤ CELL_OFFSET_MAX

theorem checkEntryOffset_eq_ok {entry : UInt16 × BlockId} {u : Unit} :
    checkEntryOffset entry = .ok u ↔ entry.1.toNat ≤ CELL_OFFSET_MAX := by
  unfold checkEntryOffset CellOffset.new
  split
  · rename_i hle
    exact iff_of_true rfl hle
  · rename_i hle
    refine iff_of_false ?_ hle
    intro h
    cases h

theorem applyEntries_isOk {entries : List (UInt16 × BlockId)} (storage : SectionStorage) :
    (∃ out, applyEntries storage entries = .ok out) ↔
      ∀ entry ∈ entries, entry.1.toNat ≤ CELL_OFFSET_MAX := by
  induction entries generalizing storage with
  | nil => exact iff_of_true ⟨storage, rfl⟩ fun _ h => absurd h List.not_mem_nil
  | cons entry rest ih =>
    rw [List.forall_mem_cons, applyEntries, CellOffset.new]
    by_cases hle : entry.1.toNat ≤ CELL_OFFSET_MAX
    · rw [dif_pos hle, ← ih (storage.write ⟨entry.1, hle⟩ entry.2).1]
      exact (and_iff_right hle).symm
    · rw [dif_neg hle]
      refine iff_of_false ?_ fun h => hle h.1
      rintro ⟨out, hout⟩
      cases hout

/-- Whether a delta applies does not depend on what it is applied to. -/
theorem applyDelta_isOk {bytes : Bytes} (storage : SectionStorage) :
    (∃ out, applyDelta storage bytes = .ok out) ↔ ReadsAsEntries bytes := by
  unfold applyDelta ReadsAsEntries
  by_cases hsix : bytes.length % 6 = 0
  · rw [if_neg (not_not.mpr hsix), applyEntries_isOk]
    exact (and_iff_right hsix).symm
  · rw [if_pos hsix]
    refine iff_of_false ?_ fun h => hsix h.1
    rintro ⟨out, hout⟩
    cases hout

/-! ## 4. The classification -/

theorem validateVoxelPayloadBytes_eq_ok {bytes : Bytes} :
    validateVoxelPayloadBytes bytes = .ok () ↔
      (bytes.length = 4 ∨ bytes.length = SECTION_CELLS * 4) ∨
      (PaletteShaped bytes ∧ ∃ s, decodePalette bytes = .ok s) ∨
      (¬ PaletteShaped bytes ∧ bytes ≠ [] ∧ ReadsAsEntries bytes) := by
  have hentries : foldSteps (fun _ entry => checkEntryOffset entry) ()
      (deltaEntryCodec.unpacked bytes) = .ok () ↔
        ∀ entry ∈ deltaEntryCodec.unpacked bytes, entry.1.toNat ≤ CELL_OFFSET_MAX := by
    constructor
    · intro h entry hentry
      exact checkEntryOffset_eq_ok.mp (forall_of_foldSteps h entry hentry)
    · intro h
      exact foldSteps_of_forall fun entry hentry => checkEntryOffset_eq_ok.mpr (h entry hentry)
  unfold validateVoxelPayloadBytes
  by_cases hfull : bytes.length = 4 ∨ bytes.length = SECTION_CELLS * 4
  · rw [if_pos hfull]
    exact iff_of_true rfl (.inl hfull)
  · rw [if_neg hfull, or_iff_right hfull]
    by_cases hshape : PaletteShaped bytes
    · rw [if_pos hshape, validatePaletteBytes_eq_ok hshape]
      constructor
      · exact fun h => .inl ⟨hshape, h⟩
      · rintro (⟨-, h⟩ | ⟨hnot, -⟩)
        · exact h
        · exact absurd hshape hnot
    · rw [if_neg hshape]
      by_cases hsix : bytes.length % 6 = 0 ∧ bytes ≠ []
      · rw [if_pos hsix, hentries]
        constructor
        · exact fun h => .inr ⟨hshape, hsix.2, hsix.1, h⟩
        · rintro (⟨h, -⟩ | ⟨-, -, -, h⟩)
          · exact absurd h hshape
          · exact h
      · rw [if_neg hsix]
        refine iff_of_false nofun ?_
        rintro (⟨h, -⟩ | ⟨-, hne, hmod, -⟩)
        · exact hshape h
        · exact hsix ⟨hmod, hne⟩

/-- Bytes on which the classification and a decoder with a baseline agree: neither
empty nor as long as a full uniform or raw payload, and, where they are as long as
the palette they announce, a canonical palette exactly when they are entries. -/
def AgreedBytes (bytes : Bytes) : Prop :=
  bytes ≠ [] ∧ bytes.length ≠ 4 ∧ bytes.length ≠ SECTION_CELLS * 4 ∧
    (PaletteShaped bytes → ((∃ s, decodePalette bytes = .ok s) ↔ ReadsAsEntries bytes))

theorem agreedBytes_iff {bytes : Bytes} :
    (validateVoxelPayloadBytes bytes = .ok () ↔ ReadsAsEntries bytes) ↔ AgreedBytes bytes := by
  rw [validateVoxelPayloadBytes_eq_ok]
  constructor
  · intro h
    refine ⟨?_, fun hfour => ?_, fun hraw => ?_, fun hshape => ?_⟩
    · -- no bytes are no entries, which a decoder applies
      rintro rfl
      have hnone : ReadsAsEntries [] := ⟨rfl, fun entry hentry => absurd hentry List.not_mem_nil⟩
      rcases h.mpr hnone with (hlen | hlen) | ⟨⟨htwo, -⟩, -⟩ | ⟨-, hne, -⟩
      · cases hlen
      · cases hlen
      · exact absurd htwo (by decide)
      · exact hne rfl
    · have hmod := (h.mp (.inl (.inl hfour))).1
      rw [hfour] at hmod
      cases hmod
    · have hmod := (h.mp (.inl (.inr hraw))).1
      rw [hraw] at hmod
      cases hmod
    · constructor
      · exact fun hpalette => h.mp (.inr (.inl ⟨hshape, hpalette⟩))
      · intro hentries
        rcases h.mpr hentries with hfull | ⟨-, hpalette⟩ | ⟨hnot, -⟩
        · obtain ⟨-, ⟨hmin, hmax⟩, hlength⟩ := hshape
          simp only [PALETTE_MAX_ENTRIES] at hmax
          simp only [paletteTableEnd, SECTION_CELLS] at hlength hfull
          omega
        · exact hpalette
        · exact absurd hshape hnot
  · rintro ⟨hne, hfour, hraw, hpalette⟩
    constructor
    · rintro ((h | h) | ⟨hshape, h⟩ | ⟨-, -, h⟩)
      · exact absurd h hfour
      · exact absurd h hraw
      · exact (hpalette hshape).mp h
      · exact h
    · intro h
      by_cases hshape : PaletteShaped bytes
      · exact .inr (.inl ⟨hshape, (hpalette hshape).mpr h⟩)
      · exact .inr (.inr ⟨hshape, hne, h⟩)

/-! ## 5. Envelopes -/

/-- What both sides check before they look at the entries of a delta. -/
structure SectionPayloadEnvelope.Announced (env : SectionPayloadEnvelope) : Prop where
  digest : sha256 env.payload = env.payloadSha256
  length : env.payload.length = env.payloadLength.toNat
  key : ∃ id, SectionId.parse env.sectionKey = .ok id
  newer : ∃ base, env.baseSectionRevision = some base ∧ base < env.sectionRevision

theorem KeyError.errorId_ne_first_delivery (err : KeyError) :
    err.errorId ≠ DELTA_USED_FOR_FIRST_DELIVERY := by
  unfold errorId
  split <;> decide

section Delta

variable {env : SectionPayloadEnvelope}

/-- Without a baseline a delta is refused, and the refusal tells whether digest,
length and key were right. -/
theorem decode_first_delivery (hdelta : env.encoding = .delta) : ∃ err,
    env.decode none = .error err ∧ (err.errorId = DELTA_USED_FOR_FIRST_DELIVERY ↔
      sha256 env.payload = env.payloadSha256 ∧ env.payload.length = env.payloadLength.toNat ∧
        ∃ id, SectionId.parse env.sectionKey = .ok id) := by
  unfold SectionPayloadEnvelope.decode
  by_cases hdigest : sha256 env.payload = env.payloadSha256
  · rw [if_neg (not_not.mpr hdigest)]
    by_cases hlength : env.payload.length = env.payloadLength.toNat
    · rw [if_neg (not_not.mpr hlength)]
      cases hkey : SectionId.parse env.sectionKey with
      | error err =>
        refine ⟨.key err, rfl, iff_of_false err.errorId_ne_first_delivery ?_⟩
        rintro ⟨-, -, id, hid⟩
        cases hid
      | ok id =>
        refine ⟨.contractViolation DELTA_USED_FOR_FIRST_DELIVERY, ?_,
          iff_of_true rfl ⟨hdigest, hlength, id, rfl⟩⟩
        simp only [SectionPayloadEnvelope.decodeStorage, hdelta]
    · rw [if_pos hlength]
      exact ⟨encodingMismatch, rfl, iff_of_false (by decide) fun h => hlength h.2.1⟩
  · rw [if_pos hdigest]
    exact ⟨.sectionDigestMismatch, rfl, iff_of_false (by decide) fun h => hdigest h.1⟩

theorem validate_delta_eq_ok (hdelta : env.encoding = .delta) :
    BindingState.validateSectionPayload env = .ok () ↔
      env.Announced ∧ validateVoxelPayloadBytes env.payload = .ok () := by
  obtain ⟨err, herr, hchecks⟩ := decode_first_delivery hdelta
  unfold BindingState.validateSectionPayload
  rw [herr]
  dsimp only
  split
  · rename_i hsent
    obtain ⟨hdigest, hlength, hkey⟩ := hchecks.mp hsent.2
    cases hbase : env.baseSectionRevision with
    | none =>
      refine iff_of_false nofun ?_
      rintro ⟨hannounced, -⟩
      obtain ⟨base, hsome, -⟩ := hannounced.newer
      cases hbase.symm.trans hsome
    | some base =>
      by_cases hle : env.sectionRevision ≤ base
      · simp only [if_pos hle]
        refine iff_of_false nofun ?_
        rintro ⟨hannounced, -⟩
        obtain ⟨base', hsome, hlt⟩ := hannounced.newer
        obtain rfl := Option.some.inj (hbase.symm.trans hsome)
        exact absurd hle (UInt64.not_le.mpr hlt)
      · simp only [if_neg hle]
        refine (and_iff_right ?_).symm
        exact ⟨hdigest, hlength, hkey, base, hbase, UInt64.not_le.mp hle⟩
  · rename_i hsent
    refine iff_of_false nofun ?_
    rintro ⟨hannounced, -⟩
    exact hsent ⟨hdelta, hchecks.mpr ⟨hannounced.digest, hannounced.length, hannounced.key⟩⟩

theorem decode_delta_isOk (hdelta : env.encoding = .delta) :
    (∃ storage base, env.baseSectionRevision = some base ∧
      ∃ decoded, env.decode (some (storage, base)) = .ok decoded) ↔
      env.Announced ∧ ReadsAsEntries env.payload := by
  constructor
  · rintro ⟨storage, base, hbase, decoded, hdecode⟩
    unfold SectionPayloadEnvelope.decode at hdecode
    split at hdecode
    · cases hdecode
    · rename_i hdigest
      split at hdecode
      · cases hdecode
      · rename_i hlength
        split at hdecode
        · cases hdecode
        · rename_i id hkey
          simp only [SectionPayloadEnvelope.decodeStorage, hdelta, hbase, ne_eq,
            not_true_eq_false, if_false] at hdecode
          by_cases hle : env.sectionRevision ≤ base
          · simp only [if_pos hle] at hdecode
            cases hdecode
          · simp only [if_neg hle] at hdecode
            refine ⟨⟨not_not.mp hdigest, not_not.mp hlength, ⟨id, hkey⟩, base, hbase,
              UInt64.not_le.mp hle⟩, ?_⟩
            cases happly : applyDelta storage env.payload with
            | error err =>
              rw [happly] at hdecode
              cases hdecode
            | ok out => exact (applyDelta_isOk storage).mp ⟨out, happly⟩
  · rintro ⟨⟨hdigest, hlength, ⟨id, hkey⟩, base, hbase, hlt⟩, hentries⟩
    obtain ⟨out, hout⟩ := (applyDelta_isOk (.uniform ⟨0⟩)).mpr hentries
    refine ⟨.uniform ⟨0⟩, base, hbase, ⟨id, env.sectionRevision, out⟩, ?_⟩
    unfold SectionPayloadEnvelope.decode
    rw [if_neg (not_not.mpr hdigest), if_neg (not_not.mpr hlength), hkey]
    simp only [SectionPayloadEnvelope.decodeStorage, hdelta, hbase, ne_eq, not_true_eq_false,
      if_false, if_neg (UInt64.not_le.mpr hlt), hout]

/-- **Validation and decoding of a delta.** On every delta envelope the two agree
exactly where the envelope fails the checks both make, or its bytes are of the
agreed kind. -/
theorem delta_validation_iff (env : SectionPayloadEnvelope) (hdelta : env.encoding = .delta) :
    (BindingState.validateSectionPayload env = .ok () ↔
      ∃ storage base, env.baseSectionRevision = some base ∧
        ∃ decoded, env.decode (some (storage, base)) = .ok decoded) ↔
      (env.Announced → AgreedBytes env.payload) := by
  rw [validate_delta_eq_ok hdelta, decode_delta_isOk hdelta, ← agreedBytes_iff]
  exact and_congr_right_iff

end Delta

/-! ## 6. The empty delta and a lone block -/

/-- A delta for the origin section with the given bytes. -/
def originDelta (payload : Bytes) (h : payload.length < 2 ^ 32) : SectionPayloadEnvelope :=
  .outgoing originSection 2 .delta (some 1) payload h

theorem originDelta_announced (payload : Bytes) (h : payload.length < 2 ^ 32) :
    (originDelta payload h).Announced where
  digest := rfl
  length := (Nat.mod_eq_of_lt h).symm
  key := ⟨originSection, SectionId.parse_key originSection⟩
  newer := ⟨1, rfl, show (1 : UInt64) < 2 by decide⟩

/-- Four bytes are a uniform payload: the validator takes them in a delta, and no
decoder does.  No bytes at all are the delta of an empty batch: every decoder takes
them, and the validator does not. -/
theorem delta_validation_disagrees :
    (BindingState.validateSectionPayload (originDelta [0, 0, 0, 0] (by decide)) = .ok () ∧
      ∀ storage decoded, (originDelta [0, 0, 0, 0] (by decide)).decode (some (storage, 1)) ≠
        .ok decoded) ∧
    BindingState.validateSectionPayload (originDelta [] (by decide)) ≠ .ok () ∧
      ∀ storage, ∃ decoded, (originDelta [] (by decide)).decode (some (storage, 1)) =
        .ok decoded := by
  refine ⟨⟨?_, fun storage decoded hdecode => ?_⟩, fun hvalid => ?_, fun storage => ?_⟩
  · exact (validate_delta_eq_ok rfl).mpr ⟨originDelta_announced _ _, rfl⟩
  · have hread := (decode_delta_isOk rfl).mp ⟨storage, 1, rfl, decoded, hdecode⟩
    cases hread.2.1
  · have hbytes := ((validate_delta_eq_ok rfl).mp hvalid).2
    cases hbytes
  · exact ⟨_, SectionPayloadEnvelope.decode_outgoing _ _ _ _ _ _ _⟩

/-- One six-byte entry is of the agreed kind. -/
theorem delta_validation_iff_entry :
    (BindingState.validateSectionPayload (originDelta [0, 0, 7, 0, 0, 0] (by decide)) = .ok () ↔
      ∃ storage base, (originDelta [0, 0, 7, 0, 0, 0] (by decide)).baseSectionRevision = some base ∧
        ∃ decoded, (originDelta [0, 0, 7, 0, 0, 0] (by decide)).decode (some (storage, base)) =
          .ok decoded) ↔
      ((originDelta [0, 0, 7, 0, 0, 0] (by decide)).Announced →
        AgreedBytes (originDelta [0, 0, 7, 0, 0, 0] (by decide)).payload) :=
  delta_validation_iff _ rfl

end LumioVoxel
