import LumioVoxel.BlockTables
import LumioVoxel.StateLayouts
import Mathlib.Data.List.Infix

/-!
# Block meanings

What a block id means is the row its type resolves to.  Stored sections hold ids and not
rows, so an id has to go on meaning what it meant when it was written: through every row
registered later, accepted or refused, and, for the ids of an imported room, under the types
the import gives its rows.  The palette lookup and the lookup for saves are two more ways to
ask the same catalogs, and agree with the one for ids.
-/

namespace LumioVoxel

open Attempts Fallible StepRuns

namespace Catalogs

def OfficialCatalog.resolvePalette (catalog : OfficialCatalog) (palette : List BlockId) :
    Except String (List BlockDefinition) :=
  palette.mapM fun id => do
    let row ← catalog.get id.blockType
    someOr row UNREGISTERED_BLOCK_TYPE

def RoomLocalCatalog.getForSaveMapping (catalog : RoomLocalCatalog) (blockType : BlockType) :
    Except String BlockDefinition := do
  let localIndex ← someOr blockType.roomLocalIndex BLOCK_TYPE_SCOPE_VIOLATION
  someOr catalog.rows[localIndex.toNat]? ROOM_LOCAL_TYPE_WITHOUT_MAPPING

def BlockResolution.ordinary? : BlockResolution → Option BlockDefinition
  | .builtin _ => none
  | .ordinary row => some row

namespace BlockTables

def resolveType (tables : BlockTables) (blockType : BlockType) : Except String BlockResolution :=
  tables.resolve (BlockId.fromParts blockType ⟨0⟩)

def resolveForSaveMapping (tables : BlockTables) (blockType : BlockType) :
    Except String BlockDefinition :=
  tables.roomLocal.getForSaveMapping blockType

def resolveOrdinary (tables : BlockTables) (blockId : BlockId) :
    Except String BlockDefinition := do
  let resolution ← tables.resolve blockId
  someOr resolution.ordinary? UNREGISTERED_BLOCK_TYPE

/-- A call on one of the two catalogs the tables are made of. -/
inductive Call where
  | official (row : BlockCatalogRowInput)
  | roomLocal (call : RoomLocalCatalog.Call)

def step (tables : BlockTables) : Call → BlockTables
  | .official row => { tables with official := tables.official.step row }
  | .roomLocal call => { tables with roomLocal := tables.roomLocal.step call }

/-! ## 1. Rows stay where they are -/

/-- The catalogs have grown at their ends only. -/
structure GrownTo (earlier later : BlockTables) : Prop where
  official : earlier.official.rows <+: later.official.rows
  roomLocal : earlier.roomLocal.rows <+: later.roomLocal.rows

theorem GrownTo.refl (tables : BlockTables) : tables.GrownTo tables :=
  ⟨List.prefix_refl _, List.prefix_refl _⟩

theorem GrownTo.trans {a b c : BlockTables} (hab : a.GrownTo b) (hbc : b.GrownTo c) :
    a.GrownTo c :=
  ⟨hab.official.trans hbc.official, hab.roomLocal.trans hbc.roomLocal⟩

theorem grown_importFrom (catalog source : RoomLocalCatalog) :
    catalog.rows <+: (catalog.importFrom source).2.rows := by
  unfold RoomLocalCatalog.importFrom
  rcases RoomLocalCatalog.importRows_cases source.complete catalog [] with
    ⟨hpanic, -⟩ | ⟨after, news, hloop, hafter, -⟩
  · rw [hpanic]
  · rw [hloop]
    exact ⟨news, hafter.symm⟩

/-- One call moves no row. -/
theorem grownTo_step (tables : BlockTables) (call : Call) :
    tables.GrownTo (tables.step call) := by
  cases call with
  | official row =>
    refine ⟨?_, List.prefix_refl _⟩
    simp only [step, OfficialCatalog.step]
    rcases tables.official.register_cases row with ⟨definition, -, hcall⟩ | ⟨err, -, hcall⟩
    · rw [hcall]
      exact List.prefix_append _ _
    · rw [hcall]
  | roomLocal call =>
    refine ⟨List.prefix_refl _, ?_⟩
    cases call with
    | register row =>
      simp only [step, RoomLocalCatalog.step]
      rcases tables.roomLocal.register_cases row with
        ⟨definition, -, -, hrows⟩ | ⟨err, -, hcall⟩ | ⟨-, hcall⟩
      · rw [hrows]
        exact List.prefix_append _ _
      · rw [hcall]
      · rw [hcall]
    | importFrom source => exact grown_importFrom tables.roomLocal source

theorem grownTo_run (tables : BlockTables) (calls : List Call) :
    tables.GrownTo (run step tables calls) :=
  run_relation_along (C := fun _ _ => True) GrownTo.refl (fun _ _ _ => GrownTo.trans)
    (fun s call _ => grownTo_step s call) (along_of_forall (fun _ _ => trivial) tables calls)

/-! ## 2. What a lookup found -/

theorem fromBlockType_le {blockType : BlockType} {builtin : BuiltinBlockType}
    (h : BuiltinBlockType.fromBlockType blockType = some builtin) :
    blockType.raw.toNat ≤ 255 := by
  rw [BuiltinBlockType.fromBlockType_eq_some.mp h]
  cases builtin <;> decide

theorem resolve_eq_builtin {tables : BlockTables} {blockId : BlockId}
    {builtin : BuiltinBlockType} : tables.resolve blockId = .ok (.builtin builtin) ↔
      BuiltinBlockType.fromBlockType blockId.blockType = some builtin := by
  unfold resolve
  generalize blockId.blockType = blockType
  cases hbuiltin : BuiltinBlockType.fromBlockType blockType with
  | some other =>
    simp only [hbuiltin, Except.ok.injEq, BlockResolution.builtin.injEq, Option.some.injEq]
  | none =>
    refine iff_of_false (fun h => ?_) nofun
    cases hscope : blockType.scope with
    | global =>
      simp only [hbuiltin, hscope] at h
      split at h
      · cases h
      · simp only [bind_eq_ok, pure_eq_ok, reduceCtorEq, and_false, exists_false] at h
    | roomLocal =>
      simp only [hbuiltin, hscope, bind_eq_ok, pure_eq_ok, reduceCtorEq, and_false,
        exists_false] at h

theorem scope_of_get_official {catalog : OfficialCatalog} {blockType : BlockType}
    {row : Option BlockDefinition} (h : catalog.get blockType = .ok row) :
    blockType.scope = .global ∧ catalog.rows[blockType.raw.toNat]?.join = row := by
  unfold OfficialCatalog.get at h
  split at h
  · cases h
  · rename_i hscope
    exact ⟨not_not.mp hscope, Except.ok.inj h⟩

theorem scope_of_get_roomLocal {catalog : RoomLocalCatalog} {blockType : BlockType}
    {row : BlockDefinition} (h : catalog.get blockType = .ok row) :
    blockType.scope = .roomLocal := by
  have hge := (RoomLocalCatalog.get_eq_ok.mp h).1
  cases hscope : blockType.scope with
  | global => exact absurd (BlockType.scope_eq_global.mp hscope) (Nat.not_lt.mpr hge)
  | roomLocal => rfl

/-- An id resolves to a row exactly when its type is past the reserved ones and one of the
catalogs has the row. -/
theorem resolve_eq_ordinary {tables : BlockTables} {blockId : BlockId} {row : BlockDefinition} :
    tables.resolve blockId = .ok (.ordinary row) ↔
      255 < blockId.blockType.raw.toNat ∧
        (tables.official.get blockId.blockType = .ok (some row) ∨
          tables.roomLocal.get blockId.blockType = .ok row) := by
  unfold resolve
  generalize blockId.blockType = blockType
  have hreserved : blockType.raw ≤ SYSTEM_RESERVED_TYPE_MAX ↔ blockType.raw.toNat ≤ 255 :=
    UInt32.le_iff_toNat_le
  cases hbuiltin : BuiltinBlockType.fromBlockType blockType with
  | some builtin =>
    have hle := fromBlockType_le hbuiltin
    simp only [hbuiltin]
    refine iff_of_false (fun h => ?_) (fun h => absurd h.1 (Nat.not_lt.mpr hle))
    cases h
  | none =>
    simp only [hbuiltin]
    cases hscope : blockType.scope with
    | global =>
      have hroom : tables.roomLocal.get blockType ≠ .ok row := by
        intro h
        rw [scope_of_get_roomLocal h] at hscope
        cases hscope
      simp only [hreserved, hroom, or_false]
      split
      · rename_i hle
        refine iff_of_false (fun h => ?_) (fun h => absurd h.1 (Nat.not_lt.mpr hle))
        cases h
      · rename_i hlt
        simp only [bind_eq_ok, someOr_eq_ok, pure_eq_ok, BlockResolution.ordinary.injEq,
          exists_eq_right, Nat.not_le.mp hlt, true_and]
    | roomLocal =>
      have hofficial : tables.official.get blockType ≠ .ok (some row) := by
        intro h
        rw [(scope_of_get_official h).1] at hscope
        cases hscope
      simp only [bind_eq_ok, pure_eq_ok, BlockResolution.ordinary.injEq, exists_eq_right,
        hofficial, false_or]
      constructor
      · intro hget
        have hge := (RoomLocalCatalog.get_eq_ok.mp hget).1
        exact ⟨by omega, hget⟩
      · exact fun h => h.2

theorem getForSaveMapping_eq_ok {catalog : RoomLocalCatalog} {blockType : BlockType}
    {row : BlockDefinition} :
    catalog.getForSaveMapping blockType = .ok row ↔ catalog.get blockType = .ok row := by
  unfold RoomLocalCatalog.getForSaveMapping RoomLocalCatalog.get
  simp only [bind_eq_ok, someOr_eq_ok]

/-! ## 3. What resolved goes on resolving -/

theorem getElem?_of_grown {α : Type} {earlier later : List α} (h : earlier <+: later) {i : Nat}
    {a : α} (hat : earlier[i]? = some a) : later[i]? = some a := by
  obtain ⟨more, rfl⟩ := h
  rw [List.getElem?_append_left (List.getElem?_eq_some_iff.mp hat).1]
  exact hat

theorem GrownTo.get_official {earlier later : BlockTables} (h : earlier.GrownTo later)
    {blockType : BlockType} {row : BlockDefinition}
    (hget : earlier.official.get blockType = .ok (some row)) :
    later.official.get blockType = .ok (some row) := by
  obtain ⟨hscope, hrow⟩ := scope_of_get_official hget
  unfold OfficialCatalog.get
  rw [if_neg (not_not.mpr hscope), getElem?_of_grown h.official (Option.join_eq_some_iff.mp hrow)]
  rfl

theorem get_of_grown {earlier later : RoomLocalCatalog} (h : earlier.rows <+: later.rows)
    {blockType : BlockType} {row : BlockDefinition} (hget : earlier.get blockType = .ok row) :
    later.get blockType = .ok row := by
  obtain ⟨hge, hat⟩ := RoomLocalCatalog.get_eq_ok.mp hget
  exact RoomLocalCatalog.get_eq_ok.mpr ⟨hge, getElem?_of_grown h hat⟩

/-- Whatever resolved, alone, in a palette or for a save, resolves to the same. -/
structure KeptBy (earlier later : BlockTables) : Prop where
  resolve : ∀ id resolution, earlier.resolve id = .ok resolution →
    later.resolve id = .ok resolution
  resolvePalette : ∀ palette rows, earlier.official.resolvePalette palette = .ok rows →
    later.official.resolvePalette palette = .ok rows
  resolveForSaveMapping : ∀ blockType row, earlier.resolveForSaveMapping blockType = .ok row →
    later.resolveForSaveMapping blockType = .ok row

theorem resolvePalette_eq_ok {catalog : OfficialCatalog} {palette : List BlockId}
    {rows : List BlockDefinition} : catalog.resolvePalette palette = .ok rows ↔
      List.Forall₂ (fun id row => catalog.get id.blockType = .ok (some row)) palette rows := by
  unfold OfficialCatalog.resolvePalette
  simp only [mapM_eq_ok, bind_eq_ok, someOr_eq_ok, exists_eq_right]

theorem GrownTo.keptBy {earlier later : BlockTables} (h : earlier.GrownTo later) :
    earlier.KeptBy later where
  resolve := by
    intro id resolution hresolve
    cases resolution with
    | builtin builtin => exact resolve_eq_builtin.mpr (resolve_eq_builtin.mp hresolve)
    | ordinary row =>
      obtain ⟨hlt, hget⟩ := resolve_eq_ordinary.mp hresolve
      exact resolve_eq_ordinary.mpr ⟨hlt, hget.imp h.get_official (get_of_grown h.roomLocal)⟩
  resolvePalette := by
    intro palette rows hpalette
    rw [resolvePalette_eq_ok] at hpalette ⊢
    exact hpalette.imp fun id row hget => h.get_official hget
  resolveForSaveMapping := by
    intro blockType row hsave
    exact getForSaveMapping_eq_ok.mpr (get_of_grown h.roomLocal (getForSaveMapping_eq_ok.mp hsave))

/-- A palette, a save and an ordinary row are resolved as the ids are, a palette and a save
each in the one catalog it asks. -/
structure Agrees (tables : BlockTables) : Prop where
  palette : ∀ palette rows, tables.official.resolvePalette palette = .ok rows ↔
    List.Forall₂ (fun id row => id.blockType.scope = .global ∧
      tables.resolve id = .ok (.ordinary row)) palette rows
  saveMapping : ∀ blockType row, tables.resolveForSaveMapping blockType = .ok row ↔
    blockType.scope = .roomLocal ∧ tables.resolveType blockType = .ok (.ordinary row)
  ordinary : ∀ id row, tables.resolveOrdinary id = .ok row ↔
    tables.resolve id = .ok (.ordinary row)

/-- A row of the official catalog is never below the first official type. -/
theorem get_official_iff {tables : BlockTables} {definitions : List BlockDefinition}
    (h : tables.official.Holds definitions) {id : BlockId} {row : BlockDefinition} :
    tables.official.get id.blockType = .ok (some row) ↔
      id.blockType.scope = .global ∧ tables.resolve id = .ok (.ordinary row) := by
  rw [resolve_eq_ordinary]
  constructor
  · intro hget
    obtain ⟨hscope, hrow⟩ := scope_of_get_official hget
    refine ⟨hscope, ?_, Or.inl hget⟩
    by_contra hle
    rw [h.rows, List.getElem?_append_left (by
      rw [List.length_replicate]
      simp only [FIRST_OFFICIAL_BLOCK_TYPE]
      omega), List.getElem?_replicate] at hrow
    split at hrow <;> cases hrow
  · rintro ⟨hscope, -, hget | hget⟩
    · exact hget
    · rw [scope_of_get_roomLocal hget] at hscope
      cases hscope

theorem agrees_of_holds {tables : BlockTables} {definitions : List BlockDefinition}
    (h : tables.official.Holds definitions) : tables.Agrees where
  palette := by
    intro palette rows
    rw [resolvePalette_eq_ok]
    constructor
    · exact fun hrows => hrows.imp fun id row => (get_official_iff h).mp
    · exact fun hrows => hrows.imp fun id row => (get_official_iff h).mpr
  saveMapping := by
    intro blockType row
    unfold resolveForSaveMapping resolveType
    rw [getForSaveMapping_eq_ok, resolve_eq_ordinary, BlockId.blockType_fromParts]
    constructor
    · intro hget
      have hge := (RoomLocalCatalog.get_eq_ok.mp hget).1
      exact ⟨scope_of_get_roomLocal hget, by omega, Or.inr hget⟩
    · rintro ⟨hscope, -, hget | hget⟩
      · rw [(scope_of_get_official hget).1] at hscope
        cases hscope
      · exact hget
  ordinary := by
    intro id row
    unfold resolveOrdinary
    rw [bind_eq_ok]
    simp only [someOr_eq_ok]
    constructor
    · rintro ⟨resolution, hresolve, hrow⟩
      cases resolution with
      | builtin builtin => cases hrow
      | ordinary found => rwa [Option.some.inj hrow] at hresolve
    · exact fun hresolve => ⟨_, hresolve, rfl⟩

/-! ## 4. Imported rooms -/

/-- Each room-local id of the imported room has one new type in the remap, under which it
means what it meant. -/
def Moves (later : BlockTables) (source : RoomLocalCatalog)
    (remap : List (BlockType × BlockType)) : Prop :=
  ∀ official id row, id.blockType.scope = .roomLocal →
    (BlockTables.mk official source).resolve id = .ok (.ordinary row) →
      (∃! new, (id.blockType, new) ∈ remap) ∧
        ∀ new, (id.blockType, new) ∈ remap →
          later.resolve (BlockId.fromParts new id.blockState) =
            .ok (.ordinary { row with blockType := new })

/-- What an import promises of the ids it remaps. -/
def Carries (later tables : BlockTables) : Call → Prop
  | .roomLocal (.importFrom source) =>
    ∀ remap, (tables.roomLocal.importFrom source).1 = .value remap → later.Moves source remap
  | _ => True

theorem length_importFrom {catalog source : RoomLocalCatalog}
    {remap : List (BlockType × BlockType)} (h : (catalog.importFrom source).1 = .value remap) :
    (catalog.importFrom source).2.rows.length = catalog.rows.length + source.rows.length := by
  unfold RoomLocalCatalog.importFrom at h ⊢
  rcases RoomLocalCatalog.importRows_cases source.complete catalog [] with
    ⟨hpanic, -⟩ | ⟨after, news, hloop, hafter, hsame⟩
  · rw [hpanic] at h
    cases h
  · rw [hloop]
    simp only [hafter, List.length_append, hsame.length_eq]

/-- Below the capacity a source row is found under its own type and no other. -/
theorem resolve_source {official : OfficialCatalog} {source : RoomLocalCatalog}
    {id : BlockId} {row : BlockDefinition} (hscope : id.blockType.scope = .roomLocal)
    (h : (BlockTables.mk official source).resolve id = .ok (.ordinary row)) :
    row.blockType = id.blockType ∧
      source.rows[id.blockType.raw.toNat - 2 ^ 23]? = some row := by
  rcases (resolve_eq_ordinary.mp h).2 with hget | hget
  · rw [(scope_of_get_official hget).1] at hscope
    cases hscope
  · obtain ⟨hge, hrow⟩ := RoomLocalCatalog.get_eq_ok.mp hget
    have hmax := id.blockType.le_max
    simp only [BLOCK_TYPE_MAX] at hmax
    have htype := RoomLocalCatalog.toNat_blockType hrow (by omega)
    refine ⟨BlockType.ext_toNat ?_, hrow⟩
    rw [htype, Nat.mod_eq_of_lt (by omega)]
    omega

theorem Remaps.entry {after source : RoomLocalCatalog} {remap : List (BlockType × BlockType)}
    (h : RoomLocalCatalog.Remaps after source remap) {i : Nat} {row : BlockDefinition}
    (hrow : source.rows[i]? = some row) :
    ∃ new, remap[i]? = some (row.blockType, new) ∧
      after.get new = .ok { row with blockType := new } := by
  obtain ⟨hlength, hpairs⟩ := List.forall₂_iff_get.mp h
  obtain ⟨hi, hat⟩ := List.getElem?_eq_some_iff.mp hrow
  have hi' : i < remap.length := hlength ▸ hi
  have hpair := hpairs i hi hi'
  simp only [List.get_eq_getElem, hat] at hpair
  refine ⟨remap[i].2, ?_, hpair.2⟩
  rw [List.getElem?_eq_getElem hi', ← hpair.1]

theorem Remaps.row {after source : RoomLocalCatalog} {remap : List (BlockType × BlockType)}
    (h : RoomLocalCatalog.Remaps after source remap) {i : Nat}
    {pair : BlockType × BlockType} (hpair : remap[i]? = some pair) :
    ∃ row, source.rows[i]? = some row ∧ pair.1 = row.blockType := by
  obtain ⟨hi', hat⟩ := List.getElem?_eq_some_iff.mp hpair
  have hi : i < source.rows.length := (List.Forall₂.length_eq h).symm ▸ hi'
  obtain ⟨new, hentry, -⟩ := Remaps.entry h (List.getElem?_eq_getElem hi)
  rw [hpair] at hentry
  exact ⟨_, List.getElem?_eq_getElem hi, congrArg Prod.fst (Option.some.inj hentry)⟩

/-- The entry of an id in a remap is the one at the position of its row. -/
theorem moves_of_remaps {after source : RoomLocalCatalog} {later : BlockTables}
    {remap : List (BlockType × BlockType)} (hsource : source.Sound)
    (hremap : RoomLocalCatalog.Remaps after source remap)
    (hlater : after.rows <+: later.roomLocal.rows) : later.Moves source remap := by
  intro official id row hscope hresolve
  obtain ⟨htype, hrow⟩ := resolve_source hscope hresolve
  generalize id.blockType.raw.toNat - 2 ^ 23 = n at hrow
  obtain ⟨new, hentry, hget⟩ := Remaps.entry hremap hrow
  rw [htype] at hentry
  have honly : ∀ other, (id.blockType, other) ∈ remap → other = new := by
    intro other hother
    obtain ⟨i, hi⟩ := List.getElem?_of_mem hother
    obtain ⟨there, hthere, hsame⟩ := Remaps.row hremap hi
    have hindex := hsource.index i there hthere
    rw [← hsame, ← htype, hsource.index n row hrow] at hindex
    obtain rfl := Option.some.inj hindex
    exact (Prod.mk.inj (Option.some.inj (hi.symm.trans hentry))).2
  refine ⟨⟨new, List.mem_of_getElem? hentry, honly⟩, ?_⟩
  intro other hother
  rw [honly other hother]
  have hlaterGet := get_of_grown hlater hget
  have hge := (RoomLocalCatalog.get_eq_ok.mp hlaterGet).1
  rw [resolve_eq_ordinary, BlockId.blockType_fromParts]
  exact ⟨by omega, Or.inr hlaterGet⟩

/-- Below the capacity, an import carries the ids of the room over, now and later. -/
theorem carries_of_grown {tables later : BlockTables} (call : Call)
    (hgrown : (tables.step call).GrownTo later)
    (hcapacity : later.roomLocal.rows.length ≤ 2 ^ 23) : later.Carries tables call := by
  match call with
  | .official _ => trivial
  | .roomLocal (.register _) => trivial
  | .roomLocal (.importFrom source) =>
    intro remap hreply
    have hlength := length_importFrom hreply
    have hrows := hgrown.roomLocal
    have hle := hrows.length_le
    simp only [step, RoomLocalCatalog.step] at hrows hle
    have hroom : tables.roomLocal.rows.length ≤ 2 ^ 23 := by omega
    have hfits : RoomLocalCatalog.Fits tables.roomLocal (.importFrom source) := by
      simp only [RoomLocalCatalog.Fits]
      omega
    have hobeys := ((RoomLocalCatalog.fits_iff hroom _).mp hfits).1
    exact moves_of_remaps (RoomLocalCatalog.sound_iff.mpr (by omega)) (hobeys.2.2 remap hreply)
      hrows

theorem holds_step (tables : BlockTables) (call : Call)
    (h : ∃ definitions, tables.official.Holds definitions) :
    ∃ definitions, (tables.step call).official.Holds definitions := by
  obtain ⟨definitions, hholds⟩ := h
  cases call with
  | official row => exact ⟨_, hholds.step row⟩
  | roomLocal _ => exact ⟨definitions, hholds⟩

/-- **Meanings last.** Tables made of a loaded catalog and a room's, after any calls on the
two, accepted, refused or panicking: whatever an id, a palette or a save resolved to earlier
it resolves to later; a palette and a save are resolved just as the ids are; and while the
room has at most 2^23 rows, the ids of every room imported on the way mean, under their one
new type, what they meant in that room. -/
theorem meanings_last {rows : List BlockCatalogRowInput} {retiredNames : List String}
    {official : OfficialCatalog} (hload : OfficialCatalog.load rows retiredNames = .ok official)
    (roomLocal : RoomLocalCatalog) (before after : List Call) :
    let earlier := run step ⟨official, roomLocal⟩ before
    let later := run step earlier after
    earlier.KeptBy later ∧ later.Agrees ∧
      (later.roomLocal.rows.length ≤ 2 ^ 23 →
        Along step later.Carries ⟨official, roomLocal⟩ (before ++ after)) := by
  intro earlier later
  have hwhole : run step ⟨official, roomLocal⟩ (before ++ after) = later := run_append _ _ _
  have hstart : ∃ definitions, (BlockTables.mk official roomLocal).official.Holds definitions := by
    have h := (OfficialCatalog.holds_unloaded retiredNames).run rows
    rw [OfficialCatalog.load_eq_ok hload] at h
    exact ⟨_, h⟩
  refine ⟨(grownTo_run earlier after).keptBy, ?_, ?_⟩
  · obtain ⟨definitions, hholds⟩ := run_invariant holds_step hstart (before ++ after)
    exact agrees_of_holds (hwhole ▸ hholds)
  · intro hcapacity
    refine along_of_splits fun first call rest hsplit => ?_
    refine carries_of_grown call ?_ hcapacity
    rw [← hwhole, hsplit, run_append, run_cons]
    exact grownTo_run _ rest

/-- A catalog with no row yet, a row and an import of a room with one, then another row. -/
theorem meanings_last_import :
    let source := (RoomLocalCatalog.new.register RoomLocalCatalog.stoneRow).2
    let before := [Call.official stoneInput, .roomLocal (.importFrom source)]
    let after := [Call.roomLocal (.register RoomLocalCatalog.stoneRow)]
    let start : BlockTables := ⟨OfficialCatalog.unloaded ["dirt"], RoomLocalCatalog.new⟩
    let earlier := run step start before
    let later := run step earlier after
    earlier.KeptBy later ∧ later.Agrees ∧ Along step later.Carries start (before ++ after) := by
  intro source before after start
  have hload : OfficialCatalog.load [] ["dirt"] = .ok (OfficialCatalog.unloaded ["dirt"]) := rfl
  obtain ⟨hkept, hagrees, hcarries⟩ := meanings_last hload RoomLocalCatalog.new before after
  exact ⟨hkept, hagrees, hcarries (by decide)⟩

end BlockTables

end Catalogs

end LumioVoxel
