import LumioVoxel.BlockCatalogs

/-!
# Room-local catalogs

The block types a room declares for itself.  A row's type is the scope bit over its
position, and the rows of one catalog can be imported into another, where they get new
types.  The type packs the position into 23 bits and the catalog grows without a limit, so
the two agree as long as the catalog holds at most 2^23 rows, and not longer.
-/

namespace LumioVoxel

open Attempts Fallible StepRuns

namespace Catalogs

inductive RoomBehaviorInput where
  | template (name : String)
  | custom
  deriving DecidableEq, Repr

structure RoomLocalRowInput where
  name : String
  materialClass : String
  behavior : RoomBehaviorInput
  assetRef : String
  stateLayout : StateLayout
  deriving DecidableEq, Repr

/-- A field that must be there is blank. -/
def RoomLocalRowInput.Incomplete (row : RoomLocalRowInput) : Prop :=
  Blank row.name ∨ Blank row.materialClass ∨ Blank row.assetRef ∨
    match row.behavior with
    | .template name => Blank name
    | .custom => False

instance (row : RoomLocalRowInput) : Decidable row.Incomplete := by
  unfold RoomLocalRowInput.Incomplete
  cases row.behavior <;> infer_instance

/-- The template a room may name; a behavior of its own is refused. -/
def RoomBehaviorInput.template? : RoomBehaviorInput → Except String BehaviorTemplate
  | .template name => BehaviorTemplate.parse name
  | .custom => .error PLAYER_TYPE_DECLARES_BEHAVIOR

/-! ## 1. The catalog and its calls -/

/-- The rows of a room: each names what it must, and each row's type is the scope bit over
the row's position. -/
structure RoomLocalCatalog where
  rows : List BlockDefinition
  complete : ∀ row ∈ rows, ¬ Blank row.name ∧ ¬ Blank row.assetRef
  placed : ∀ i row, rows[i]? = some row → roomLocalType i = some row.blockType

namespace RoomLocalCatalog

def new : RoomLocalCatalog where
  rows := []
  complete := fun _ h => absurd h List.not_mem_nil
  placed := fun _ _ h => nomatch h

/-- The row `register` appends, or what stops it. -/
def newRow (catalog : RoomLocalCatalog) (row : RoomLocalRowInput) :
    Attempt String BlockDefinition := do
  Attempt.check (¬ row.Incomplete) BLOCK_CATALOG_ROW_INCOMPLETE
  let behaviorTemplate ← Attempt.call row.behavior.template?
  -- `expect("local index fits uint23")`
  let blockType ← Attempt.expect (roomLocalType catalog.rows.length)
  let materialClass ← Attempt.call (MaterialClass.parse row.materialClass)
  return {
    blockType, name := row.name, materialClass, behaviorTemplate, assetRef := row.assetRef,
    stateLayout := row.stateLayout }

theorem newRow_eq_value {catalog : RoomLocalCatalog} {row : RoomLocalRowInput}
    {definition : BlockDefinition} : catalog.newRow row = .value definition ↔
      ¬ row.Incomplete ∧ row.behavior.template? = .ok definition.behaviorTemplate ∧
        roomLocalType catalog.rows.length = some definition.blockType ∧
        MaterialClass.parse row.materialClass = .ok definition.materialClass ∧
        definition.name = row.name ∧ definition.assetRef = row.assetRef ∧
        definition.stateLayout = row.stateLayout := by
  unfold newRow
  simp only [Attempt.bind_eq_value, Attempt.check_eq_value, Attempt.call_eq_value,
    Attempt.expect_eq_value, Attempt.pure_eq_value]
  constructor
  · rintro ⟨_, hcomplete, template, htemplate, blockType, htype, materialClass, hclass, rfl⟩
    exact ⟨hcomplete, htemplate, htype, hclass, rfl, rfl, rfl⟩
  · rintro ⟨hcomplete, htemplate, htype, hclass, hname, hasset, hlayout⟩
    refine ⟨(), hcomplete, _, htemplate, _, htype, _, hclass, ?_⟩
    rw [← hname, ← hasset, ← hlayout]

/-- The catalog with one more row, which the checks of `register` let through. -/
def push (catalog : RoomLocalCatalog) {row : RoomLocalRowInput} (definition : BlockDefinition)
    (h : catalog.newRow row = .value definition) : RoomLocalCatalog where
  rows := catalog.rows ++ [definition]
  complete := by
    obtain ⟨hcomplete, -, -, -, hname, hasset, -⟩ := newRow_eq_value.mp h
    intro d hd
    rcases List.mem_append.mp hd with hd | hd
    · exact catalog.complete d hd
    · rw [List.mem_singleton.mp hd, hname, hasset]
      exact ⟨fun hblank => hcomplete (Or.inl hblank),
        fun hblank => hcomplete (Or.inr (Or.inr (Or.inl hblank)))⟩
  placed := by
    obtain ⟨-, -, htype, -⟩ := newRow_eq_value.mp h
    intro i d hd
    rcases Nat.lt_trichotomy i catalog.rows.length with hlt | rfl | hgt
    · rw [List.getElem?_append_left hlt] at hd
      exact catalog.placed i d hd
    · rw [List.getElem?_concat_length] at hd
      exact Option.some.inj hd ▸ htype
    · rw [List.getElem?_eq_none (by rw [List.length_append, List.length_singleton]; omega)] at hd
      cases hd

def register (catalog : RoomLocalCatalog) (row : RoomLocalRowInput) :
    Attempt String BlockType × RoomLocalCatalog :=
  match h : catalog.newRow row with
  | .value definition => (.value definition.blockType, catalog.push definition h)
  | .refused err => (.refused err, catalog)
  | .panicked => (.panicked, catalog)

def get (catalog : RoomLocalCatalog) (blockType : BlockType) : Except String BlockDefinition := do
  let localIndex ← someOr blockType.roomLocalIndex BLOCK_TYPE_SCOPE_VIOLATION
  someOr catalog.rows[localIndex.toNat]? UNREGISTERED_BLOCK_TYPE

/-- A row of another catalog, as `import_from` registers it. -/
def rowInput (definition : BlockDefinition) : RoomLocalRowInput where
  name := definition.name
  materialClass := definition.materialClass.name
  behavior := .template definition.behaviorTemplate.name
  assetRef := definition.assetRef
  stateLayout := definition.stateLayout

/-- The loop of `import_from` over the staged copy. -/
def importRows (staged : RoomLocalCatalog) (remap : List (BlockType × BlockType)) :
    List BlockDefinition → Attempt String (RoomLocalCatalog × List (BlockType × BlockType))
  | [] => .value (staged, remap)
  | definition :: rest =>
    match staged.register (rowInput definition) with
    | (.value blockType, staged) =>
      importRows staged (remap ++ [(definition.blockType, blockType)]) rest
    | (.refused err, _) => .refused err
    | (.panicked, _) => .panicked

def importFrom (catalog source : RoomLocalCatalog) :
    Attempt String (List (BlockType × BlockType)) × RoomLocalCatalog :=
  match importRows catalog [] source.rows with
  | .value (staged, remap) => (.value remap, staged)
  | .refused err => (.refused err, catalog)
  | .panicked => (.panicked, catalog)

/-- What a call to `register` does. -/
theorem register_cases (catalog : RoomLocalCatalog) (row : RoomLocalRowInput) :
    (∃ definition, catalog.newRow row = .value definition ∧
      (catalog.register row).1 = .value definition.blockType ∧
      (catalog.register row).2.rows = catalog.rows ++ [definition]) ∨
    ((∃ err, catalog.newRow row = .refused err ∧
      catalog.register row = (.refused err, catalog)) ∨
    (catalog.newRow row = .panicked ∧ catalog.register row = (.panicked, catalog))) := by
  unfold register
  split
  · rename_i definition h
    exact Or.inl ⟨definition, h, rfl, rfl⟩
  · rename_i err h
    exact Or.inr (Or.inl ⟨err, h, rfl⟩)
  · rename_i h
    exact Or.inr (Or.inr ⟨h, rfl⟩)

/-! ## 2. Positions and types -/

theorem toNat_blockType {catalog : RoomLocalCatalog} {i : Nat} {row : BlockDefinition}
    (h : catalog.rows[i]? = some row) (hi : i < 2 ^ 24) :
    row.blockType.raw.toNat = 2 ^ 23 + i % 2 ^ 23 :=
  toNat_roomLocalType hi (catalog.placed i row h)

theorem get_eq_ok {catalog : RoomLocalCatalog} {blockType : BlockType} {row : BlockDefinition} :
    catalog.get blockType = .ok row ↔
      2 ^ 23 ≤ blockType.raw.toNat ∧ catalog.rows[blockType.raw.toNat - 2 ^ 23]? = some row := by
  unfold get
  simp only [bind_eq_ok, someOr_eq_ok]
  rcases blockType.roomLocalIndex_eq with ⟨hge, index, hindex, htoNat⟩ | ⟨hlt, hnone⟩
  · simp only [hindex, Option.some.injEq, exists_eq_left', htoNat, hge, true_and]
  · simp only [hnone, reduceCtorEq, false_and, exists_false, false_iff, not_and]
    exact fun hge => absurd hge (Nat.not_le.mpr hlt)

/-- What the rows, their types and `get` have to do with each other. -/
structure Sound (catalog : RoomLocalCatalog) : Prop where
  index : ∀ i (row : BlockDefinition), catalog.rows[i]? = some row →
    row.blockType.roomLocalIndex.map UInt32.toNat = some i
  distinct : catalog.rows.Pairwise fun a b => a.blockType ≠ b.blockType
  found : ∀ row ∈ catalog.rows, catalog.get row.blockType = .ok row

/-- The index a type carries. -/
private theorem roomLocalIndex_row {row : BlockDefinition} {k : Nat}
    (h : row.blockType.raw.toNat = 2 ^ 23 + k) :
    row.blockType.roomLocalIndex.map UInt32.toNat = some k := by
  rcases row.blockType.roomLocalIndex_eq with ⟨-, index, hindex, htoNat⟩ | ⟨hlt, -⟩
  · rw [hindex, Option.map_some, htoNat, h, Nat.add_sub_cancel_left]
  · omega

/-- **Capacity.** Positions and types agree exactly up to 2^23 rows. -/
theorem sound_iff {catalog : RoomLocalCatalog} :
    catalog.Sound ↔ catalog.rows.length ≤ 2 ^ 23 := by
  constructor
  · intro h
    by_contra hlong
    have hget := List.getElem?_eq_getElem (Nat.not_le.mp hlong)
    -- the first row too many carries the index 0 again
    have htype := toNat_blockType hget (by decide)
    rw [Nat.mod_self] at htype
    have hindex := (roomLocalIndex_row htype).symm.trans (h.index _ _ hget)
    exact absurd (Option.some.inj hindex) (by decide)
  · intro hle
    have htype : ∀ i row, catalog.rows[i]? = some row →
        row.blockType.raw.toNat = 2 ^ 23 + i := by
      intro i row hrow
      have hi := (List.getElem?_eq_some_iff.mp hrow).1
      rw [toNat_blockType hrow (by omega), Nat.mod_eq_of_lt (by omega)]
    constructor
    · exact fun i row hrow => roomLocalIndex_row (htype i row hrow)
    · rw [List.pairwise_iff_getElem]
      intro i j hi hj hij heq
      have hi' := htype i _ (List.getElem?_eq_getElem hi)
      have hj' := htype j _ (List.getElem?_eq_getElem hj)
      rw [heq] at hi'
      omega
    · intro row hrow
      obtain ⟨i, hi⟩ := List.getElem?_of_mem hrow
      rw [get_eq_ok, htype i row hi, Nat.add_sub_cancel_left]
      exact ⟨Nat.le_add_right _ _, hi⟩

/-! ## 3. What the calls do -/

/-- The row passes every check that does not look at the catalog. -/
def Acceptable (row : RoomLocalRowInput) : Prop :=
  ¬ row.Incomplete ∧ (∃ template, row.behavior.template? = .ok template) ∧
    ∃ materialClass, MaterialClass.parse row.materialClass = .ok materialClass

theorem newRow_eq_panicked {catalog : RoomLocalCatalog} {row : RoomLocalRowInput}
    (h : catalog.newRow row = .panicked) : roomLocalType catalog.rows.length = none := by
  unfold newRow at h
  simp only [Attempt.bind_eq_panicked, Attempt.check_ne_panicked, Attempt.call_ne_panicked,
    Attempt.expect_eq_panicked, Attempt.pure_ne_panicked, false_or, and_false, exists_false,
    or_false] at h
  obtain ⟨-, -, -, -, hnone⟩ := h
  exact hnone

theorem newRow_ne_panicked {catalog : RoomLocalCatalog} (hlen : catalog.rows.length ≤ 2 ^ 23)
    (row : RoomLocalRowInput) : catalog.newRow row ≠ .panicked :=
  fun h => roomLocalType_ne_none (by omega) (newRow_eq_panicked h)

theorem acceptable_iff {catalog : RoomLocalCatalog} (hlen : catalog.rows.length ≤ 2 ^ 23)
    {row : RoomLocalRowInput} :
    Acceptable row ↔ ∃ definition, catalog.newRow row = .value definition := by
  constructor
  · rintro ⟨hcomplete, ⟨template, htemplate⟩, materialClass, hclass⟩
    have hfree : roomLocalType catalog.rows.length ≠ none := roomLocalType_ne_none (by omega)
    obtain ⟨blockType, htype⟩ := Option.ne_none_iff_exists'.mp hfree
    exact ⟨⟨blockType, row.name, materialClass, template, row.assetRef, row.stateLayout⟩,
      newRow_eq_value.mpr ⟨hcomplete, htemplate, htype, hclass, rfl, rfl, rfl⟩⟩
  · rintro ⟨definition, h⟩
    obtain ⟨hcomplete, htemplate, -, hclass, -⟩ := newRow_eq_value.mp h
    exact ⟨hcomplete, ⟨_, htemplate⟩, _, hclass⟩

/-- A complete row of another catalog is never refused, and keeps all but its type. -/
theorem newRow_rowInput (catalog : RoomLocalCatalog) {definition : BlockDefinition}
    (hcomplete : ¬ Blank definition.name ∧ ¬ Blank definition.assetRef) :
    catalog.newRow (rowInput definition) = .panicked ∨
      ∃ blockType, catalog.newRow (rowInput definition) = .value { definition with blockType } := by
  have hinput : ¬ (rowInput definition).Incomplete := by
    rintro (h | h | h | h)
    · exact hcomplete.1 h
    · exact definition.materialClass.not_blank_name h
    · exact hcomplete.2 h
    · exact definition.behaviorTemplate.not_blank_name h
  cases htype : roomLocalType catalog.rows.length with
  | none =>
    left
    unfold newRow
    rw [Attempt.check_eq_value (u := ()).mpr hinput, htype]
    simp only [rowInput, RoomBehaviorInput.template?, BehaviorTemplate.parse_name]
    rfl
  | some blockType =>
    refine Or.inr ⟨blockType, newRow_eq_value.mpr ⟨hinput, ?_, htype, ?_, rfl, rfl, rfl⟩⟩
    · exact definition.behaviorTemplate.parse_name
    · exact definition.materialClass.parse_name

/-- The new type of each row beside the old one. -/
def remapOf (rows news : List BlockDefinition) : List (BlockType × BlockType) :=
  List.zipWith (fun row new => (row.blockType, new.blockType)) rows news

/-- The import loop appends one copy of each row, under a new type, or panics. -/
theorem importRows_cases {rows : List BlockDefinition}
    (hcomplete : ∀ row ∈ rows, ¬ Blank row.name ∧ ¬ Blank row.assetRef)
    (staged : RoomLocalCatalog) (remap : List (BlockType × BlockType)) :
    importRows staged remap rows = .panicked ∧ 2 ^ 23 < staged.rows.length + rows.length ∨
      ∃ after news, importRows staged remap rows = .value (after, remap ++ remapOf rows news) ∧
        after.rows = staged.rows ++ news ∧
        List.Forall₂ (fun row new => new = { row with blockType := new.blockType }) rows news := by
  induction rows generalizing staged remap with
  | nil =>
    refine Or.inr ⟨staged, [], ?_, (List.append_nil _).symm, List.Forall₂.nil⟩
    rw [importRows, remapOf, List.zipWith_nil_left, List.append_nil]
  | cons row rest ih =>
    have hrow := hcomplete row List.mem_cons_self
    have hrest := fun r hr => hcomplete r (List.mem_cons_of_mem row hr)
    have hnew := newRow_rowInput staged hrow
    rcases staged.register_cases (rowInput row) with
      ⟨new, hvalue, hreply, hrows⟩ | ⟨err, hrefused, -⟩ | ⟨hpanic, hcall⟩
    · obtain ⟨blockType, rfl⟩ : ∃ blockType, new = { row with blockType } := by
        rcases hnew with hpanic | ⟨blockType, hsome⟩
        · rw [hpanic] at hvalue
          cases hvalue
        · exact ⟨blockType, Attempt.value.inj (hvalue.symm.trans hsome)⟩
      have hstep : importRows staged remap (row :: rest) =
          importRows (staged.register (rowInput row)).2
            (remap ++ [(row.blockType, blockType)]) rest := by
        rw [importRows, ← Prod.mk.eta (p := staged.register (rowInput row)), hreply]
      rw [hstep, List.length_cons]
      rcases ih hrest (staged.register (rowInput row)).2 (remap ++ [(row.blockType, blockType)])
        with ⟨hpanic, hlong⟩ | ⟨after, news, hloop, hafter, hsame⟩
      · rw [hrows, List.length_append, List.length_singleton] at hlong
        exact Or.inl ⟨hpanic, by omega⟩
      · refine Or.inr ⟨after, { row with blockType } :: news, ?_, ?_, List.Forall₂.cons rfl hsame⟩
        · rw [hloop, List.append_assoc]
          rfl
        · rw [hafter, hrows, List.append_assoc]
          rfl
    · rcases hnew with h | ⟨blockType, h⟩
      · rw [h] at hrefused
        cases hrefused
      · rw [h] at hrefused
        cases hrefused
    · left
      rw [importRows, hcall, List.length_cons]
      refine ⟨rfl, ?_⟩
      by_contra hshort
      exact newRow_ne_panicked (by omega) _ hpanic

/-! ## 4. Runs -/

/-- A call on a catalog. -/
inductive Call where
  | register (row : RoomLocalRowInput)
  | importFrom (source : RoomLocalCatalog)

def step (catalog : RoomLocalCatalog) : Call → RoomLocalCatalog
  | .register row => (catalog.register row).2
  | .importFrom source => (catalog.importFrom source).2

/-- The remap sends the type of every source row to the type of a row that equals it in all
other fields. -/
def Remaps (after source : RoomLocalCatalog) (remap : List (BlockType × BlockType)) : Prop :=
  List.Forall₂ (fun row pair => pair.1 = row.blockType ∧
    after.get pair.2 = .ok { row with blockType := pair.2 }) source.rows remap

/-- The call does not panic, changes nothing where it fails, and remaps what it imports. -/
def Obeys (catalog : RoomLocalCatalog) : Call → Prop
  | .register row => (catalog.register row).1 ≠ .panicked ∧
      ∀ err, (catalog.register row).1 = .refused err → (catalog.register row).2 = catalog
  | .importFrom source => (catalog.importFrom source).1 ≠ .panicked ∧
      (∀ err, (catalog.importFrom source).1 = .refused err →
        (catalog.importFrom source).2 = catalog) ∧
      ∀ remap, (catalog.importFrom source).1 = .value remap →
        Remaps (catalog.importFrom source).2 source remap

/-- The rows the call would add leave the catalog with at most 2^23. -/
def Fits (catalog : RoomLocalCatalog) : Call → Prop
  | .register row => Acceptable row → catalog.rows.length < 2 ^ 23
  | .importFrom source => catalog.rows.length + source.rows.length ≤ 2 ^ 23

private theorem fits_register {catalog : RoomLocalCatalog}
    (hlen : catalog.rows.length ≤ 2 ^ 23) (row : RoomLocalRowInput) :
    Fits catalog (.register row) ↔
      Obeys catalog (.register row) ∧ (step catalog (.register row)).rows.length ≤ 2 ^ 23 := by
  simp only [Fits, Obeys, step]
  rw [acceptable_iff hlen]
  rcases catalog.register_cases row with
    ⟨new, hvalue, hreply, hrows⟩ | ⟨err, hrefused, hcall⟩ | ⟨hpanic, -⟩
  · rw [hreply, hrows, List.length_append, List.length_singleton]
    constructor
    · intro hfits
      refine ⟨⟨?_, ?_⟩, hfits ⟨new, hvalue⟩⟩
      · intro h
        cases h
      · intro err h
        cases h
    · rintro ⟨-, hafter⟩ -
      exact hafter
  · rw [hcall, hrefused]
    constructor
    · intro _
      refine ⟨⟨?_, fun _ _ => rfl⟩, hlen⟩
      intro h
      cases h
    · rintro - ⟨new, h⟩
      cases h
  · exact absurd hpanic (newRow_ne_panicked hlen row)

/-- The remap of copies that sit at the end of a catalog below its capacity. -/
private theorem remaps_of_copies {after : RoomLocalCatalog} {source : RoomLocalCatalog}
    {news : List BlockDefinition} (hafter : after.rows.length ≤ 2 ^ 23)
    (hmem : ∀ new ∈ news, new ∈ after.rows)
    (hsame : List.Forall₂ (fun row new => new = { row with blockType := new.blockType })
      source.rows news) : Remaps after source (remapOf source.rows news) := by
  have hfound := (sound_iff.mpr hafter).found
  unfold Remaps remapOf
  generalize source.rows = rows at hsame
  induction hsame with
  | nil => exact List.Forall₂.nil
  | @cons row new rows news hnew _ ih =>
    refine List.Forall₂.cons ⟨rfl, ?_⟩ (ih fun n hn => hmem n (List.mem_cons_of_mem new hn))
    have hget := hfound new (hmem new List.mem_cons_self)
    rwa [hnew] at hget

private theorem fits_importFrom (catalog source : RoomLocalCatalog) :
    Fits catalog (.importFrom source) ↔
      Obeys catalog (.importFrom source) ∧
        (step catalog (.importFrom source)).rows.length ≤ 2 ^ 23 := by
  simp only [Fits, Obeys, step, importFrom]
  rcases importRows_cases source.complete catalog [] with
    ⟨hpanic, hlong⟩ | ⟨after, news, hloop, hafter, hsame⟩
  · rw [hpanic]
    refine iff_of_false (Nat.not_le.mpr hlong) ?_
    rintro ⟨⟨h, -⟩, -⟩
    exact h rfl
  · have hcount : after.rows.length = catalog.rows.length + source.rows.length := by
      rw [hafter, List.length_append, hsame.length_eq]
    rw [hloop, ← hcount, List.nil_append]
    constructor
    · intro hfits
      refine ⟨⟨?_, ?_, ?_⟩, hfits⟩
      · intro h
        cases h
      · intro err h
        cases h
      · intro remap h
        obtain rfl := Attempt.value.inj h
        refine remaps_of_copies hfits (fun new hnew => ?_) hsame
        rw [hafter]
        exact List.mem_append_right _ hnew
    · rintro ⟨-, hle⟩
      exact hle

/-- **One call.** A call fits exactly when it does what it should and leaves the catalog
within its capacity. -/
theorem fits_iff {catalog : RoomLocalCatalog} (hlen : catalog.rows.length ≤ 2 ^ 23)
    (call : Call) :
    Fits catalog call ↔ Obeys catalog call ∧ (step catalog call).rows.length ≤ 2 ^ 23 := by
  cases call with
  | register row => exact fits_register hlen row
  | importFrom source => exact fits_importFrom catalog source

/-- Every state is sound and every call obeys, along the run. -/
def Lawful (catalog : RoomLocalCatalog) (calls : List Call) : Prop :=
  (∀ t ∈ visited step catalog calls, t.Sound) ∧ Along step Obeys catalog calls

/-- **Runs.** The run is lawful exactly when each of its calls fits. -/
theorem lawful_iff {catalog : RoomLocalCatalog} (hlen : catalog.rows.length ≤ 2 ^ 23)
    (calls : List Call) : Lawful catalog calls ↔ Along step Fits catalog calls := by
  induction calls generalizing catalog with
  | nil =>
    refine iff_of_true ⟨fun t ht => ?_, trivial⟩ trivial
    exact List.mem_singleton.mp ht ▸ sound_iff.mpr hlen
  | cons call rest ih =>
    constructor
    · rintro ⟨hsound, hcall, hrest⟩
      have htail : ∀ t ∈ visited step (step catalog call) rest, t.Sound :=
        fun t ht => hsound t (List.mem_cons_of_mem catalog ht)
      have hnext := sound_iff.mp (htail _ (start_mem_visited _ _))
      exact ⟨(fits_iff hlen call).mpr ⟨hcall, hnext⟩, (ih hnext).mp ⟨htail, hrest⟩⟩
    · rintro ⟨hfits, hrest⟩
      obtain ⟨hcall, hnext⟩ := (fits_iff hlen call).mp hfits
      obtain ⟨htail, hobeys⟩ := (ih hnext).mpr hrest
      refine ⟨?_, hcall, hobeys⟩
      intro t ht
      rcases List.mem_cons.mp ht with rfl | ht
      · exact sound_iff.mpr hlen
      · exact htail t ht

/-- **Room-local catalogs.** From the empty catalog on, rows, types and positions stay
aligned and every call does what it should, exactly as long as no call takes the catalog
past 2^23 rows. -/
theorem calls_lawful_iff (calls : List Call) :
    Lawful new calls ↔ Along step Fits new calls :=
  lawful_iff (Nat.zero_le _) calls

/-- A row that every catalog takes. -/
def stoneRow : RoomLocalRowInput where
  name := "stone"
  materialClass := "Solid"
  behavior := .template "FullCube"
  assetRef := "stone.png"
  stateLayout := ⟨[]⟩

theorem acceptable_stoneRow : Acceptable stoneRow :=
  ⟨by decide, ⟨.fullCube, by decide⟩, .solid, by decide⟩

/-- While the calls fit, each adds one row. -/
private theorem length_replicate {row : RoomLocalRowInput} (hrow : Acceptable row) (n : Nat) :
    ∀ {catalog : RoomLocalCatalog}, catalog.rows.length ≤ 2 ^ 23 →
      Along step Fits catalog (List.replicate n (.register row)) →
      (run step catalog (List.replicate n (.register row))).rows.length =
        catalog.rows.length + n ∧
      catalog.rows.length + n ≤ 2 ^ 23 := by
  induction n with
  | zero => exact fun hlen _ => ⟨rfl, hlen⟩
  | succ n ih =>
    intro catalog hlen halong
    obtain ⟨hfits, hrest⟩ := halong
    have hnext := ((fits_iff hlen _).mp hfits).2
    obtain ⟨hrun, hle⟩ := ih hnext hrest
    have hone : (step catalog (.register row)).rows.length = catalog.rows.length + 1 := by
      obtain ⟨new, hnew⟩ := (acceptable_iff hlen).mp hrow
      rcases catalog.register_cases row with
        ⟨_, -, -, hrows⟩ | ⟨err, hrefused, -⟩ | ⟨hpanic, -⟩
      · rw [step, hrows, List.length_append, List.length_singleton]
      · rw [hnew] at hrefused
        cases hrefused
      · rw [hnew] at hpanic
        cases hpanic
    rw [List.replicate_succ, run_cons, hrun]
    rw [hone] at hle ⊢
    exact ⟨by omega, by omega⟩

/-- One row more than the index has room for: its type is that of the first row. -/
theorem one_row_too_many :
    ¬ Lawful new (List.replicate (2 ^ 23 + 1) (.register stoneRow)) := by
  intro h
  have hfits := (lawful_iff (Nat.zero_le _) _).mp h
  have hle := (length_replicate acceptable_stoneRow _ (Nat.zero_le _) hfits).2
  omega

end RoomLocalCatalog

end Catalogs

end LumioVoxel
