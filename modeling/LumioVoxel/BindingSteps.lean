import LumioVoxel.BlockEntityBinding

/-!
# One transaction for many steps

A transaction is a base and three tables of changes over it.  Reading through the
changes gives the state its commit builds.  Placing and removing look up which
entity a cell refers to so far; a cell whose reference was taken away inside the
transaction is answered from the base, which names an entity that may have moved
to another cell in the meantime.
-/

namespace LumioVoxel

open Fallible

/-! ## 1. What a state of the constructor is -/

/-- Accepted by validation, with every entity registered under its own id. -/
structure BindingState.Valid (policy : BlockEntityTypePolicy) (state : BindingState) : Prop where
  checked : state.validate policy = .ok ()
  keyed : ∀ (id : String) (entity : EntityRecord), state.entities[id]? = some entity →
    entity.id = id ∧ id ≠ ""

/-- The same contents in every cell, the same references, the same entities. -/
structure SameBinding (a b : BindingState) : Prop where
  cells : ∀ offset, a.blocks.read offset = b.blocks.read offset
  references : a.references = b.references
  entities : a.entities = b.entities

namespace BindingState

variable {policy : BlockEntityTypePolicy} {state : BindingState}

private theorem keyed_register {entities : List EntityRecord}
    {registry registry' : BTreeMap String EntityRecord}
    (hkeyed : ∀ (id : String) (entity : EntityRecord), registry[id]? = some entity →
      entity.id = id ∧ id ≠ "")
    (h : foldSteps register registry entities = .ok registry') (id : String)
    (entity : EntityRecord) (hentity : registry'[id]? = some entity) :
    entity.id = id ∧ id ≠ "" := by
  refine foldSteps_invariant (P := fun registry : BTreeMap String EntityRecord =>
    ∀ (id : String) (entity : EntityRecord), registry[id]? = some entity →
      entity.id = id ∧ id ≠ "") ?_ hkeyed h id entity hentity
  intro registry entity next _ hkeyed hregister id found hfound
  simp only [register, bind_eq_ok, require_eq_ok, exists_const, pure_eq_ok] at hregister
  obtain ⟨⟨hid, -⟩, rfl⟩ := hregister
  rw [BTreeMap.getElem?_insert] at hfound
  split at hfound
  · rename_i hsame
    obtain rfl := Option.some.inj hfound
    exact ⟨hsame, hsame ▸ hid⟩
  · exact hkeyed id found hfound

theorem valid_of_new {blocks : SectionStorage} {references : SparseReferenceTable}
    {entities : List EntityRecord} (h : BindingState.new blocks references entities policy =
      .ok state) : state.Valid policy := by
  simp only [BindingState.new, bind_eq_ok, pure_eq_ok] at h
  obtain ⟨registry, hregister, _, hvalid, rfl⟩ := h
  refine ⟨hvalid, keyed_register (fun id entity hentity => ?_) hregister⟩
  rw [BTreeMap.getElem?_empty] at hentity
  cases hentity

private theorem foldSteps_register {entities : List EntityRecord}
    {registry registry' : BTreeMap String EntityRecord}
    (hdistinct : entities.Pairwise fun a b => a.id ≠ b.id)
    (hnew : ∀ entity ∈ entities, registry[entity.id]? = none) :
    foldSteps register registry entities = .ok registry' ↔ (∀ entity ∈ entities, entity.id ≠ "") ∧
      registry' = entities.foldl (fun registry entity => registry.insert entity.id entity)
        registry := by
  induction entities generalizing registry with
  | nil =>
    simp only [foldSteps, Except.ok.injEq, List.foldl_nil, List.not_mem_nil, false_implies,
      implies_true, true_and, eq_comm]
  | cons entity rest ih =>
    obtain ⟨hhead, htail⟩ := List.pairwise_cons.mp hdistinct
    have hrest : ∀ other ∈ rest, (registry.insert entity.id entity)[other.id]? = none := by
      intro other hother
      rw [BTreeMap.getElem?_insert, if_neg (hhead other hother)]
      exact hnew other (List.mem_cons_of_mem _ hother)
    rw [foldSteps_cons_eq_ok, List.foldl_cons, List.forall_mem_cons, and_assoc, ← ih htail hrest]
    simp only [register, bind_eq_ok, require_eq_ok, exists_const, pure_eq_ok,
      hnew entity List.mem_cons_self, and_true]
    constructor
    · rintro ⟨next, ⟨hid, rfl⟩, hnext⟩
      exact ⟨hid, hnext⟩
    · rintro ⟨hid, hnext⟩
      exact ⟨_, ⟨hid, rfl⟩, hnext⟩

/-- Registering the entities of a registry again gives the registry. -/
theorem register_toList {registry : BTreeMap String EntityRecord}
    (hkeyed : ∀ (id : String) (entity : EntityRecord), registry[id]? = some entity →
      entity.id = id) {registry' : BTreeMap String EntityRecord} :
    foldSteps register ∅ (registry.toList.map (·.2)) = .ok registry' ↔
      (∀ (id : String) (entity : EntityRecord), registry[id]? = some entity → id ≠ "") ∧
        registry' = registry := by
  have hids : ∀ item ∈ registry.toList, item.2.id = item.1 := by
    intro item hitem
    exact hkeyed item.1 item.2 (BTreeMap.mem_toList.mp hitem)
  have hdistinct : (registry.toList.map (·.2)).Pairwise fun a b => a.id ≠ b.id := by
    rw [List.pairwise_map]
    refine (BTreeMap.pairwise_toList registry).imp_of_mem fun {a b} ha hb hne => ?_
    rw [hids a ha, hids b hb]
    exact hne
  have hbuild : (registry.toList.map (·.2)).foldl
      (fun registry entity => registry.insert entity.id entity) ∅ = registry := by
    rw [List.foldl_map]
    refine Eq.trans ?_ (BTreeMap.foldl_insert_toList registry)
    exact List.foldl_ext _ _ _ fun table item hitem => by rw [hids item hitem]
  rw [foldSteps_register hdistinct fun entity _ => BTreeMap.getElem?_empty entity.id, hbuild]
  refine and_congr_left fun _ => ⟨fun h id entity hentity => ?_, fun h entity hentity => ?_⟩
  · have hmem : entity ∈ registry.toList.map (·.2) :=
      List.mem_map.mpr ⟨(id, entity), BTreeMap.mem_toList.mpr hentity, rfl⟩
    exact hkeyed id entity hentity ▸ h entity hmem
  · obtain ⟨item, hitem, rfl⟩ := List.mem_map.mp hentity
    rw [hids item hitem]
    exact h item.1 item.2 (BTreeMap.mem_toList.mp hitem)

/-- Every referenced entity is registered. -/
theorem Valid.registered (h : state.Valid policy) {offset : CellOffset} {id : String}
    (hreference : state.references[offset]? = some id) :
    ∃ entity, state.entities[id]? = some entity := by
  have hbound := bound_of_validate h.checked
  have hrequires := hbound.references offset (hreference ▸ Option.some_ne_none id)
  obtain ⟨id', entity, hid, hentity, -⟩ := (hbound.cells offset).mp hrequires
  obtain rfl := Option.some.inj (hreference.symm.trans hid)
  exact ⟨entity, hentity⟩

/-- No entity is referenced from two cells. -/
theorem Valid.single (h : state.Valid policy) {a b : CellOffset} {id : String}
    (ha : state.references[a]? = some id) (hb : state.references[b]? = some id) : a = b := by
  obtain ⟨entity, hentity⟩ := h.registered ha
  obtain ⟨offset, -, honly⟩ := (bound_of_validate h.checked).entities id entity hentity
  exact (honly a ha).trans (honly b hb).symm

/-- Every registered entity has its cell. -/
theorem Valid.referenced (h : state.Valid policy) {id : String} {entity : EntityRecord}
    (hentity : state.entities[id]? = some entity) :
    ∃ offset : CellOffset, state.references[offset]? = some id := by
  obtain ⟨offset, hoffset, -⟩ := (bound_of_validate h.checked).entities id entity hentity
  exact ⟨offset, hoffset⟩

theorem checkEntity_of {offset : CellOffset} {id : String}
    (hoffset : state.references[offset]? = some id)
    (honly : ∀ other : CellOffset, state.references[other]? = some id → other = offset) :
    state.checkEntity id = .ok () := by
  have hmem : (offset, id) ∈ state.references.toList.filter fun row => row.2 = id :=
    List.mem_filter.mpr ⟨BTreeMap.mem_toList.mpr hoffset, decide_eq_true rfl⟩
  have hsame : ∀ row ∈ state.references.toList.filter fun row => row.2 = id, row.1 = offset := by
    intro row hrow
    obtain ⟨hrow, hid⟩ := List.mem_filter.mp hrow
    exact honly row.1 (of_decide_eq_true hid ▸ BTreeMap.mem_toList.mp hrow)
  have hdistinct := (BTreeMap.pairwise_toList state.references).filter fun row => row.2 = id
  rw [checkEntity, require_eq_ok]
  cases hrows : state.references.toList.filter fun row => row.2 = id with
  | nil =>
    rw [hrows] at hmem
    cases hmem
  | cons first rest =>
    rw [hrows] at hsame hdistinct
    cases rest with
    | nil => rfl
    | cons second rest =>
      have hne := List.rel_of_pairwise_cons hdistinct List.mem_cons_self
      exact absurd ((hsame first List.mem_cons_self).trans
        (hsame second (List.mem_cons_of_mem _ List.mem_cons_self)).symm) hne

/-- Conversely, these agreements are all that validation asks for. -/
theorem validate_of (hcells : ∀ offset : CellOffset,
      policy.requiresEntity (state.blocks.read offset).blockType = true ↔
        state.references[offset]? ≠ none)
    (hreferences : ∀ (offset : CellOffset) (id : String), state.references[offset]? = some id →
      ∃ entity, state.entities[id]? = some entity ∧ entity.alive = true ∧
        policy.entityTypeFor (state.blocks.read offset).blockType = some entity.entityType)
    (hentities : ∀ (id : String) (entity : EntityRecord), state.entities[id]? = some entity →
      ∃ offset : CellOffset, state.references[offset]? = some id ∧
        ∀ other : CellOffset, state.references[other]? = some id → other = offset) :
    state.validate policy = .ok () := by
  simp only [validate, bind_eq_ok]
  refine ⟨(), foldSteps_of_forall fun offset _ => ?_, (), foldSteps_of_forall fun row hrow => ?_,
    (), foldSteps_of_forall fun raw hraw => ?_, foldSteps_of_forall fun id hid => ?_⟩
  · rw [checkOffset, CellOffset.new, dif_pos offset.le_max]
    rfl
  · exact checkReference_eq_ok.mpr (hreferences row.1 row.2 (BTreeMap.mem_toList.mp hrow))
  · obtain ⟨offset, rfl⟩ := CellOffset.exists_index (List.mem_range.mp hraw)
    exact checkCell_index.mpr (hcells offset)
  · obtain ⟨item, hitem, rfl⟩ := List.mem_map.mp hid
    obtain ⟨offset, hoffset, honly⟩ := hentities item.1 item.2 (BTreeMap.mem_toList.mp hitem)
    exact checkEntity_of hoffset honly

theorem validate_congr {other : BindingState} (h : SameBinding state other) :
    state.validate policy = other.validate policy := by
  obtain ⟨blocks, references, entities⟩ := state
  obtain ⟨blocks', references', entities'⟩ := other
  obtain ⟨hcells, hreferences, hentities⟩ := h
  obtain rfl : references = references' := hreferences
  obtain rfl : entities = entities' := hentities
  have hcells : ∀ offset, blocks.read offset = blocks'.read offset := hcells
  simp only [validate, checkReference, checkCell, checkEntity, hcells]

end BindingState

/-! ## 2. Reading through the changes -/

namespace BindingTransaction

/-- What the cell holds as far as the transaction goes. -/
def cell (tx : BindingTransaction) (offset : CellOffset) : BlockId :=
  tx.blockChanges[offset]?.getD (tx.base.blocks.read offset)

def reference (tx : BindingTransaction) (offset : CellOffset) : Option String :=
  tx.referenceChanges[offset]?.getD tx.base.references[offset]?

def entity (tx : BindingTransaction) (id : String) : Option EntityRecord :=
  tx.entityChanges[id]?.getD tx.base.entities[id]?

/-- The state is what the transaction reads through its changes. -/
structure Shows (tx : BindingTransaction) (state : BindingState) : Prop where
  cells : ∀ offset, state.blocks.read offset = tx.cell offset
  references : ∀ offset : CellOffset, state.references[offset]? = tx.reference offset
  entities : ∀ id : String, state.entities[id]? = tx.entity id

/-- Entities are staged under their own ids. -/
def Keyed (tx : BindingTransaction) : Prop :=
  ∀ (id : String) (entity : EntityRecord), tx.entityChanges[id]? = some (some entity) →
    entity.id = id

/-- One reference change where it is accepted. -/
def changedReference (table : SparseReferenceTable) (change : CellOffset × Option String) :
    SparseReferenceTable :=
  match change.2 with
  | some entityId => (table.erase change.1).insert change.1 entityId
  | none => table.erase change.1

/-- The state a commit hands to validation. -/
def merged (tx : BindingTransaction) : BindingState where
  blocks := tx.blockChanges.toList.foldl (fun blocks change =>
    (blocks.write change.1 change.2).1) tx.base.blocks
  references := tx.referenceChanges.toList.foldl changedReference tx.base.references
  entities := tx.entityChanges.toList.foldl changeEntity tx.base.entities

variable {tx : BindingTransaction} {policy : BlockEntityTypePolicy} {state : BindingState}

theorem changeReference_eq_ok {table table' : SparseReferenceTable}
    {change : CellOffset × Option String} :
    changeReference table change = .ok table' ↔
      change.2 ≠ some "" ∧ table' = changedReference table change := by
  obtain ⟨offset, staged⟩ := change
  cases staged with
  | none =>
    simp only [changeReference, changedReference, Except.ok.injEq, ne_eq, reduceCtorEq,
      not_false_eq_true, true_and, eq_comm]
  | some entityId =>
    have hgone : (table.erase offset)[offset]? = none := by
      rw [BTreeMap.getElem?_erase, if_pos rfl]
    simp only [changeReference, changedReference, SparseReferenceTable.insertEntry, bind_eq_ok,
      require_eq_ok, exists_const, pure_eq_ok, hgone, and_true, ne_eq, Option.some.injEq,
      eq_comm (a := table')]

theorem merged_shows (tx : BindingTransaction) : tx.Shows tx.merged where
  cells offset := by
    have hfold := BTreeMap.look_foldl_toList tx.blockChanges
      (fun (blocks : SectionStorage) change => (blocks.write change.1 change.2).1)
      (fun blocks => blocks.read offset) offset id ?_ ?_ tx.base.blocks
    · rw [Option.map_id] at hfold
      exact hfold
    · intro blocks change hne
      exact (blocks.read_write change.1 offset change.2).trans (if_neg (Ne.symm hne))
    · intro blocks block
      exact (blocks.read_write offset offset block).trans (if_pos rfl)
  references offset := by
    have hfold := BTreeMap.look_foldl_toList tx.referenceChanges changedReference
      (fun table => table[offset]?) offset id ?_ ?_ tx.base.references
    · rw [Option.map_id] at hfold
      exact hfold
    · intro table change hne
      dsimp only [changedReference]
      split
      · rw [BTreeMap.getElem?_insert, if_neg hne, BTreeMap.getElem?_erase, if_neg hne]
      · rw [BTreeMap.getElem?_erase, if_neg hne]
    · intro table staged
      cases staged with
      | some entityId => exact Std.ExtTreeMap.getElem?_insert_self
      | none => exact (BTreeMap.getElem?_erase _ _ _).trans (if_pos rfl)
  entities key := by
    have hfold := BTreeMap.look_foldl_toList tx.entityChanges changeEntity
      (fun registry => registry[key]?) key id ?_ ?_ tx.base.entities
    · rw [Option.map_id] at hfold
      exact hfold
    · intro registry change hne
      dsimp only [changeEntity]
      split
      · rw [BTreeMap.getElem?_insert, if_neg hne]
      · rw [BTreeMap.getElem?_erase, if_neg hne]
    · intro registry staged
      cases staged with
      | some entity => exact Std.ExtTreeMap.getElem?_insert_self
      | none => exact (BTreeMap.getElem?_erase _ _ _).trans (if_pos rfl)

theorem merged_keyed (hbase : ∀ (id : String) (entity : EntityRecord),
    tx.base.entities[id]? = some entity → entity.id = id) (hkeyed : tx.Keyed) (id : String)
    (entity : EntityRecord) (hentity : tx.merged.entities[id]? = some entity) : entity.id = id := by
  rw [tx.merged_shows.entities, BindingTransaction.entity] at hentity
  cases hchange : tx.entityChanges[id]? with
  | none =>
    rw [hchange] at hentity
    exact hbase id entity hentity
  | some staged =>
    rw [hchange] at hentity
    obtain rfl : staged = some entity := hentity
    exact hkeyed id entity hchange

/-- What a commit accepts: a transaction that is not split, stages no empty id and
merges to a state that validation accepts. -/
theorem commit_eq_ok (hbase : ∀ (id : String) (entity : EntityRecord),
    tx.base.entities[id]? = some entity → entity.id = id) (hkeyed : tx.Keyed) :
    tx.commit policy = .ok state ↔ tx.split = false ∧
      (∀ offset : CellOffset, tx.referenceChanges[offset]? ≠ some (some "")) ∧
      (∀ (id : String) (entity : EntityRecord), tx.merged.entities[id]? = some entity → id ≠ "") ∧
      tx.merged.validate policy = .ok () ∧ state = tx.merged := by
  have hmerged := merged_keyed hbase hkeyed
  have hstaged : (∀ change ∈ tx.referenceChanges.toList, change.2 ≠ some "") ↔
      ∀ offset : CellOffset, tx.referenceChanges[offset]? ≠ some (some "") := by
    constructor
    · intro h offset hempty
      exact h (offset, some "") (BTreeMap.mem_toList.mpr hempty) rfl
    · rintro h ⟨offset, staged⟩ hmem rfl
      exact h offset (BTreeMap.mem_toList.mp hmem)
  have hfold : ∀ table, foldSteps changeReference tx.base.references tx.referenceChanges.toList =
      .ok table ↔ (∀ offset : CellOffset, tx.referenceChanges[offset]? ≠ some (some "")) ∧
        table = tx.merged.references := by
    intro table
    rw [← hstaged]
    have hstep : ∀ (table : SparseReferenceTable) change table',
        changeReference table change = .ok table' ↔
          change.2 ≠ some "" ∧ table' = changedReference table change :=
      fun _ _ _ => changeReference_eq_ok
    exact foldSteps_checked hstep
  simp only [commit, BindingState.new, bind_eq_ok, require_eq_ok, exists_const, pure_eq_ok, hfold]
  constructor
  · rintro ⟨hsplit, _, ⟨hreferences, rfl⟩, registry, hregister, _, hvalid, rfl⟩
    obtain ⟨hids, rfl⟩ := (BindingState.register_toList hmerged).mp hregister
    exact ⟨hsplit, hreferences, hids, hvalid, rfl⟩
  · rintro ⟨hsplit, hreferences, hids, hvalid, rfl⟩
    exact ⟨hsplit, _, ⟨hreferences, rfl⟩, _, (BindingState.register_toList hmerged).mpr
      ⟨hids, rfl⟩, _, hvalid, rfl⟩

theorem shows_of_commit (hbase : tx.base.Valid policy) (hkeyed : tx.Keyed)
    (h : tx.commit policy = .ok state) : state.Valid policy ∧ tx.Shows state := by
  have hids : ∀ (id : String) (entity : EntityRecord), tx.base.entities[id]? = some entity →
      entity.id = id := fun id entity hentity => (hbase.keyed id entity hentity).1
  obtain ⟨-, -, hnonempty, hvalid, rfl⟩ := (commit_eq_ok hids hkeyed).mp h
  refine ⟨⟨hvalid, fun id entity hentity => ⟨?_, hnonempty id entity hentity⟩⟩, tx.merged_shows⟩
  exact merged_keyed hids hkeyed id entity hentity

/-- A transaction that reads like a valid state commits to it. -/
theorem commit_of_shows (hbase : tx.base.Valid policy) (hkeyed : tx.Keyed)
    (hsplit : tx.split = false) (hvalid : state.Valid policy) (hshows : tx.Shows state) :
    ∃ out, tx.commit policy = .ok out ∧ SameBinding out state := by
  have hsame : SameBinding tx.merged state := by
    have hmerged := tx.merged_shows
    refine ⟨fun offset => ?_, ?_, ?_⟩
    · rw [hmerged.cells, hshows.cells]
    · apply Std.ExtTreeMap.ext_getElem?
      intro offset
      rw [hmerged.references, hshows.references]
    · apply Std.ExtTreeMap.ext_getElem?
      intro id
      rw [hmerged.entities, hshows.entities]
  refine ⟨tx.merged, (commit_eq_ok (fun id entity hentity => (hbase.keyed id entity hentity).1)
    hkeyed).mpr ⟨hsplit, fun offset hempty => ?_, fun id entity hentity => ?_, ?_, rfl⟩, hsame⟩
  · have hreference : state.references[offset]? = some "" := by
      rw [hshows.references, reference, hempty]
      rfl
    obtain ⟨entity, hentity⟩ := hvalid.registered hreference
    exact (hvalid.keyed "" entity hentity).2 rfl
  · rw [hsame.entities] at hentity
    exact (hvalid.keyed id entity hentity).2
  · rw [BindingState.validate_congr hsame]
    exact hvalid.checked

end BindingTransaction

/-! ## 3. Placing and removing -/

/-- The two steps that keep cell, reference and entity together. -/
inductive CellEdit where
  | place (offset : CellOffset) (block : BlockId) (entity : EntityRecord)
  | remove (offset : CellOffset) (replacement : BlockId)

namespace CellEdit

def step : CellEdit → BindingStep
  | .place offset block entity => .place offset block entity
  | .remove offset replacement => .remove offset replacement

def offset : CellEdit → CellOffset
  | .place offset _ _ => offset
  | .remove offset _ => offset

def block : CellEdit → BlockId
  | .place _ block _ => block
  | .remove _ replacement => replacement

/-- What the cell is to hold afterwards. -/
def entity : CellEdit → Option EntityRecord
  | .place _ _ entity => some entity
  | .remove _ _ => none

def entityId (edit : CellEdit) : Option String := edit.entity.map (·.id)

end CellEdit

namespace BindingTransaction

variable {tx : BindingTransaction} {edit : CellEdit}

theorem base_edit (tx : BindingTransaction) (edit : CellEdit) :
    (tx.apply edit.step).base = tx.base := (tx.observed_apply edit.step).sameBase

/-- Edits go under the transaction's own commit id. -/
theorem split_edit (tx : BindingTransaction) (edit : CellEdit) :
    (tx.apply edit.step).split = tx.split := by
  have hcarried : tx.carriedBy edit.step = tx.commitId.getD 0 := by
    cases edit <;> rfl
  rw [(tx.observed_apply edit.step).observedSplit, hcarried, split_observeCommit]
  cases tx.commitId with
  | none => simp only [Option.getD_none, ne_eq, not_true_eq_false, decide_false, Bool.or_false]
  | some commitId =>
    simp only [Option.getD_some, ne_eq, not_true_eq_false, decide_false, Bool.or_false]

/-- Observing a commit stages nothing. -/
private theorem changes_observe (tx : BindingTransaction) (commitId : UInt64) :
    (tx.observeCommit commitId).blockChanges = tx.blockChanges ∧
      (tx.observeCommit commitId).referenceChanges = tx.referenceChanges ∧
      (tx.observeCommit commitId).entityChanges = tx.entityChanges := by
  unfold observeCommit
  split
  · split
    · exact ⟨rfl, rfl, rfl⟩
    · exact ⟨rfl, rfl, rfl⟩
  · exact ⟨rfl, rfl, rfl⟩

@[simp] theorem blockChanges_observe (tx : BindingTransaction) (commitId : UInt64) :
    (tx.observeCommit commitId).blockChanges = tx.blockChanges := (changes_observe tx commitId).1

@[simp] theorem referenceChanges_observe (tx : BindingTransaction) (commitId : UInt64) :
    (tx.observeCommit commitId).referenceChanges = tx.referenceChanges :=
  (changes_observe tx commitId).2.1

@[simp] theorem entityChanges_observe (tx : BindingTransaction) (commitId : UInt64) :
    (tx.observeCommit commitId).entityChanges = tx.entityChanges :=
  (changes_observe tx commitId).2.2

theorem blockChanges_edit (tx : BindingTransaction) (edit : CellEdit) :
    (tx.apply edit.step).blockChanges = tx.blockChanges.insert edit.offset edit.block := by
  cases edit with
  | place offset block entity =>
    simp only [CellEdit.step, apply, place]
    split
    · split <;> simp [setEntityRemovedCommit, setEntityCommit, setReferenceCommit, setBlockCommit,
        CellEdit.offset, CellEdit.block]
    · simp [setEntityCommit, setReferenceCommit, setBlockCommit, CellEdit.offset, CellEdit.block]
  | remove offset replacement =>
    simp only [CellEdit.step, apply, remove]
    split <;> simp [setEntityRemovedCommit, setReferenceRemovedCommit, setBlockCommit,
      CellEdit.offset, CellEdit.block]

theorem referenceChanges_edit (tx : BindingTransaction) (edit : CellEdit) :
    (tx.apply edit.step).referenceChanges =
      tx.referenceChanges.insert edit.offset edit.entityId := by
  cases edit with
  | place offset block entity =>
    simp only [CellEdit.step, apply, place]
    split
    · split <;> simp [setEntityRemovedCommit, setEntityCommit, setReferenceCommit, setBlockCommit,
        CellEdit.offset, CellEdit.entityId, CellEdit.entity]
    · simp [setEntityCommit, setReferenceCommit, setBlockCommit, CellEdit.offset,
        CellEdit.entityId, CellEdit.entity]
  | remove offset replacement =>
    simp only [CellEdit.step, apply, remove]
    split <;> simp [setEntityRemovedCommit, setReferenceRemovedCommit, setBlockCommit,
      CellEdit.offset, CellEdit.entityId, CellEdit.entity]

/-- The entity of the edit is staged; the one the cell is thought to have had
before, if it is another, is staged for removal. -/
theorem entityChanges_edit (tx : BindingTransaction) (edit : CellEdit) (id : String) :
    (tx.apply edit.step).entityChanges[id]? =
      if tx.previousEntity edit.offset = some id ∧ edit.entityId ≠ some id then some none
      else if edit.entityId = some id then some edit.entity else tx.entityChanges[id]? := by
  cases edit with
  | place offset block entity =>
    have hstaged : ((tx.setBlockCommit (tx.commitId.getD 0) offset block).setReferenceCommit
        (tx.commitId.getD 0) offset entity.id |>.setEntityCommit (tx.commitId.getD 0)
          entity).entityChanges = tx.entityChanges.insert entity.id (some entity) := by
      simp [setEntityCommit, setReferenceCommit, setBlockCommit]
    have hreference : ((tx.setBlockCommit (tx.commitId.getD 0) offset block).setReferenceCommit
        (tx.commitId.getD 0) offset entity.id |>.setEntityCommit (tx.commitId.getD 0)
          entity).referenceChanges[offset]? = some (some entity.id) := by
      simp [setEntityCommit, setReferenceCommit, setBlockCommit]
    simp only [CellEdit.step, apply, place, CellEdit.offset, CellEdit.entityId, CellEdit.entity,
      Option.map_some, Option.some.injEq, ne_eq, hreference, Option.bind_some, id_eq]
    cases tx.previousEntity offset with
    | none =>
      simp only [hstaged, reduceCtorEq, false_and, if_false]
      exact BTreeMap.getElem?_insert _ _ _ _
    | some previous =>
      simp only [Option.some.injEq]
      by_cases hsame : entity.id = previous
      · subst hsame
        simp only [not_true_eq_false, if_false, hstaged, and_not_self]
        exact BTreeMap.getElem?_insert _ _ _ _
      · rw [if_pos hsame]
        simp only [setEntityRemovedCommit, entityChanges_observe, hstaged]
        rw [BTreeMap.getElem?_insert, BTreeMap.getElem?_insert]
        by_cases hprevious : previous = id
        · subst hprevious
          rw [if_pos rfl, if_pos ⟨rfl, hsame⟩]
        · simp only [hprevious, false_and, if_false]
  | remove offset replacement =>
    have hstaged : ((tx.setBlockCommit (tx.commitId.getD 0) offset replacement)
        |>.setReferenceRemovedCommit (tx.commitId.getD 0) offset).entityChanges =
          tx.entityChanges := by
      simp [setReferenceRemovedCommit, setBlockCommit]
    simp only [CellEdit.step, apply, remove, CellEdit.offset, CellEdit.entityId, CellEdit.entity,
      Option.map_none, reduceCtorEq, if_false, ne_eq, not_false_eq_true, and_true]
    cases tx.previousEntity offset with
    | none => simp only [hstaged, reduceCtorEq, if_false]
    | some previous =>
      simp only [setEntityRemovedCommit, entityChanges_observe, hstaged, Option.some.injEq]
      exact BTreeMap.getElem?_insert _ _ _ _

theorem cell_edit (tx : BindingTransaction) (edit : CellEdit) (offset : CellOffset) :
    (tx.apply edit.step).cell offset =
      if edit.offset = offset then edit.block else tx.cell offset := by
  rw [cell, cell, blockChanges_edit, base_edit, BTreeMap.getElem?_insert]
  split <;> rfl

theorem reference_edit (tx : BindingTransaction) (edit : CellEdit) (offset : CellOffset) :
    (tx.apply edit.step).reference offset =
      if edit.offset = offset then edit.entityId else tx.reference offset := by
  rw [reference, reference, referenceChanges_edit, base_edit, BTreeMap.getElem?_insert]
  split <;> rfl

theorem entity_edit (tx : BindingTransaction) (edit : CellEdit) (id : String) :
    (tx.apply edit.step).entity id =
      if tx.previousEntity edit.offset = some id ∧ edit.entityId ≠ some id then none
      else if edit.entityId = some id then edit.entity else tx.entity id := by
  rw [BindingTransaction.entity, BindingTransaction.entity, entityChanges_edit, base_edit]
  split
  · rfl
  · split <;> rfl

theorem keyed_edit (h : tx.Keyed) (edit : CellEdit) : (tx.apply edit.step).Keyed := by
  intro id entity hentity
  rw [entityChanges_edit] at hentity
  split at hentity
  · cases hentity
  · split at hentity
    · rename_i hid
      obtain hown : edit.entity = some entity := Option.some.inj hentity
      rw [CellEdit.entityId, hown] at hid
      exact Option.some.inj hid
    · exact h id entity hentity

theorem shows_begin (state : BindingState) : (begin state).Shows state where
  cells _ := rfl
  references _ := rfl
  entities _ := rfl

theorem keyed_begin (state : BindingState) : (begin state).Keyed := by
  intro id entity hentity
  cases (BTreeMap.getElem?_empty (α := Option EntityRecord) id).symm.trans hentity

end BindingTransaction

/-! ## 4. One by one -/

/-- The edit in a transaction of its own. -/
def editAlone (policy : BlockEntityTypePolicy) (state : BindingState) (edit : CellEdit) :
    Except BindingError BindingState :=
  ((BindingTransaction.begin state).apply edit.step).commit policy

def editEach (policy : BlockEntityTypePolicy) (state : BindingState) (edits : List CellEdit) :
    Except BindingError BindingState :=
  foldSteps (editAlone policy) state edits

def BindingTransaction.applyEdits (tx : BindingTransaction) (edits : List CellEdit) :
    BindingTransaction :=
  edits.foldl (fun (tx : BindingTransaction) edit => tx.apply edit.step) tx

/-- All edits in one transaction. -/
def editTogether (policy : BlockEntityTypePolicy) (state : BindingState)
    (edits : List CellEdit) : Except BindingError BindingState :=
  ((BindingTransaction.begin state).applyEdits edits).commit policy

/-- What the edit, committed alone, makes of a state. -/
structure Edited (edit : CellEdit) (old new : BindingState) : Prop where
  cells : ∀ offset, new.blocks.read offset =
    if edit.offset = offset then edit.block else old.blocks.read offset
  references : ∀ offset : CellOffset, new.references[offset]? =
    if edit.offset = offset then edit.entityId else old.references[offset]?
  entities : ∀ id : String, new.entities[id]? =
    if old.references[edit.offset]? = some id ∧ edit.entityId ≠ some id then none
    else if edit.entityId = some id then edit.entity else old.entities[id]?

section Edits

variable {policy : BlockEntityTypePolicy} {base old new : BindingState} {edit : CellEdit}

theorem edited_of_alone (hold : old.Valid policy) (h : editAlone policy old edit = .ok new) :
    new.Valid policy ∧ Edited edit old new := by
  have hbase : ((BindingTransaction.begin old).apply edit.step).base = old :=
    BindingTransaction.base_edit _ edit
  obtain ⟨hvalid, hshows⟩ := BindingTransaction.shows_of_commit (hbase.symm ▸ hold)
    (BindingTransaction.keyed_edit (BindingTransaction.keyed_begin old) edit) h
  refine ⟨hvalid, fun offset => ?_, fun offset => ?_, fun id => ?_⟩
  · rw [hshows.cells, BindingTransaction.cell_edit, (BindingTransaction.shows_begin old).cells]
  · rw [hshows.references, BindingTransaction.reference_edit,
      (BindingTransaction.shows_begin old).references]
  · rw [hshows.entities, BindingTransaction.entity_edit,
      (BindingTransaction.shows_begin old).entities]
    rfl

/-! ## 5. Entities that a transaction loses -/

/-- What the edits so far stage for a cell's reference: nothing, its removal, or
an entity. -/
def stagedEntity (edits : List CellEdit) (offset : CellOffset) : Option (Option String) :=
  (edits.filter fun edit => edit.offset = offset).getLast?.map CellEdit.entityId

theorem stagedEntity_concat (edits : List CellEdit) (edit : CellEdit) (offset : CellOffset) :
    stagedEntity (edits ++ [edit]) offset =
      if edit.offset = offset then some edit.entityId else stagedEntity edits offset := by
  unfold stagedEntity
  rw [List.filter_append]
  by_cases hsame : edit.offset = offset
  · have hown : [edit].filter (fun edit => edit.offset = offset) = [edit] := by simp [hsame]
    rw [if_pos hsame, hown, List.getLast?_concat]
    rfl
  · have hnone : [edit].filter (fun edit => edit.offset = offset) = [] := by simp [hsame]
    rw [if_neg hsame, hnone, List.append_nil]

/-- The entity was moved from its cell of the base to `cell`, where it stays, and
its old cell, emptied in between, is edited again. -/
def ForgetsAt (base : BindingState) (edits : List CellEdit) (id : String) (cell : CellOffset) :
    Prop :=
  ∃ before edit after, edits = before ++ edit :: after ∧
    base.references[edit.offset]? = some id ∧ stagedEntity before edit.offset = some none ∧
    stagedEntity before cell = some (some id) ∧ ∀ later ∈ edit :: after, later.offset ≠ cell

/-- Some cell's entity is forgotten on the way. -/
def Forgets (base : BindingState) (edits : List CellEdit) (id : String) : Prop :=
  ∃ cell, ForgetsAt base edits id cell

theorem forgetsAt_concat {edits : List CellEdit} {id : String} {cell : CellOffset} :
    ForgetsAt base (edits ++ [edit]) id cell ↔ edit.offset ≠ cell ∧
      (ForgetsAt base edits id cell ∨ (base.references[edit.offset]? = some id ∧
        stagedEntity edits edit.offset = some none ∧ stagedEntity edits cell = some (some id))) := by
  constructor
  · rintro ⟨before, first, after, hsplit, hbase, hempty, hmoved, hkept⟩
    rcases List.eq_nil_or_concat' after with rfl | ⟨middle, last, rfl⟩
    · obtain ⟨rfl, hlast⟩ := List.append_inj' hsplit rfl
      obtain rfl := List.singleton_inj.mp hlast
      exact ⟨hkept _ List.mem_cons_self, .inr ⟨hbase, hempty, hmoved⟩⟩
    · rw [← List.cons_append, ← List.append_assoc] at hsplit
      obtain ⟨rfl, hlast⟩ := List.append_inj' hsplit rfl
      obtain rfl := List.singleton_inj.mp hlast
      refine ⟨hkept _ (List.mem_cons_of_mem _ (List.mem_append_right _ List.mem_cons_self)),
        .inl ⟨before, first, middle, rfl, hbase, hempty, hmoved, fun later hlater => ?_⟩⟩
      exact hkept later (List.mem_append_left [edit] hlater)
  · rintro ⟨hne, ⟨before, first, after, rfl, hbase, hempty, hmoved, hkept⟩ |
      ⟨hbase, hempty, hmoved⟩⟩
    · refine ⟨before, first, after ++ [edit], List.append_assoc .., hbase, hempty, hmoved, ?_⟩
      intro later hlater
      rcases List.mem_append.mp (List.cons_append ▸ hlater) with hold | hnew
      · exact hkept later hold
      · exact List.mem_singleton.mp hnew ▸ hne
    · refine ⟨edits, edit, [], rfl, hbase, hempty, hmoved, fun later hlater => ?_⟩
      exact List.mem_singleton.mp hlater ▸ hne

/-- A forgotten entity is still staged at its new cell. -/
theorem ForgetsAt.staged {edits : List CellEdit} {id : String} {cell : CellOffset}
    (h : ForgetsAt base edits id cell) : stagedEntity edits cell = some (some id) := by
  obtain ⟨before, edit, after, rfl, -, -, hmoved, hkept⟩ := h
  have hnone : (edit :: after).filter (fun edit => edit.offset = cell) = [] := by
    apply List.filter_eq_nil_iff.mpr
    intro later hlater
    simpa using hkept later hlater
  unfold stagedEntity at hmoved ⊢
  rw [List.filter_append, hnone, List.append_nil]
  exact hmoved

/-- The transaction of the edits so far against the state they reach one by one. -/
structure Tracks (base : BindingState) (edits : List CellEdit) (state : BindingState)
    (tx : BindingTransaction) : Prop where
  sameBase : tx.base = base
  together : tx.split = false
  keyed : tx.Keyed
  staged : ∀ offset : CellOffset, tx.referenceChanges[offset]? = stagedEntity edits offset
  cells : ∀ offset, state.blocks.read offset = tx.cell offset
  references : ∀ offset : CellOffset, state.references[offset]? = tx.reference offset
  forgotten : ∀ id, Forgets base edits id → tx.entity id = none
  remembered : ∀ id, ¬ Forgets base edits id → state.entities[id]? = tx.entity id

namespace Tracks

variable {edits : List CellEdit} {tx : BindingTransaction}

theorem start (base : BindingState) : Tracks base [] base (.begin base) where
  sameBase := rfl
  together := rfl
  keyed := BindingTransaction.keyed_begin base
  staged offset := BTreeMap.getElem?_empty offset
  cells _ := rfl
  references _ := rfl
  forgotten id := by
    rintro ⟨cell, before, edit, after, hsplit, -⟩
    cases before <;> cases hsplit
  remembered _ _ := rfl

/-- Where no removal is staged, the transaction knows the cell's entity. -/
theorem previousEntity_eq (h : Tracks base edits old tx) {offset : CellOffset}
    (hstaged : stagedEntity edits offset ≠ some none) :
    tx.previousEntity offset = old.references[offset]? := by
  rw [h.references, BindingTransaction.previousEntity, BindingTransaction.reference, h.staged]
  cases hown : stagedEntity edits offset with
  | none => rfl
  | some staged =>
    cases staged with
    | none => exact absurd hown hstaged
    | some id => rfl

/-- Where one is, it answers from the base. -/
theorem previousEntity_removed (h : Tracks base edits old tx) {offset : CellOffset}
    (hstaged : stagedEntity edits offset = some none) :
    tx.previousEntity offset = base.references[offset]? ∧ old.references[offset]? = none := by
  rw [h.references, BindingTransaction.previousEntity, BindingTransaction.reference, h.staged,
    h.sameBase, hstaged]
  exact ⟨rfl, rfl⟩

/-- The staged entity of a cell is the one the cell refers to. -/
theorem references_of_staged (h : Tracks base edits old tx) {offset : CellOffset} {id : String}
    (hstaged : stagedEntity edits offset = some (some id)) :
    old.references[offset]? = some id := by
  rw [h.references, BindingTransaction.reference, h.staged, hstaged]
  rfl

/-- The transaction never overlooks an entity that is there. -/
theorem previousEntity_of_references (h : Tracks base edits old tx) {offset : CellOffset}
    {id : String} (hreference : old.references[offset]? = some id) :
    tx.previousEntity offset = some id := by
  by_cases hstaged : stagedEntity edits offset = some none
  · cases (h.previousEntity_removed hstaged).2.symm.trans hreference
  · exact (h.previousEntity_eq hstaged).trans hreference

/-- An entity that the edit does not take away is forgotten exactly when it was. -/
private theorem forgets_concat (h : Tracks base edits old tx) {id : String}
    (hprevious : tx.previousEntity edit.offset ≠ some id) :
    Forgets base (edits ++ [edit]) id ↔ Forgets base edits id := by
  constructor
  · rintro ⟨cell, hcell⟩
    obtain ⟨-, hforgets | ⟨hbase, hempty, -⟩⟩ := forgetsAt_concat.mp hcell
    · exact ⟨cell, hforgets⟩
    · rw [(h.previousEntity_removed hempty).1] at hprevious
      exact absurd hbase hprevious
  · rintro ⟨cell, hcell⟩
    refine ⟨cell, forgetsAt_concat.mpr ⟨?_, .inl hcell⟩⟩
    rintro rfl
    exact hprevious (h.previousEntity_of_references (h.references_of_staged hcell.staged))

/-- What the transaction takes away without a reason, it forgets. -/
private theorem forgets_previous (h : Tracks base edits old tx) (hbase : base.Valid policy)
    (hold : old.Valid policy) {id : String} {entity : EntityRecord}
    (hprevious : tx.previousEntity edit.offset = some id)
    (hother : old.references[edit.offset]? ≠ some id) (hentity : old.entities[id]? = some entity) :
    Forgets base (edits ++ [edit]) id := by
  have hempty : stagedEntity edits edit.offset = some none := by
    by_contra hstaged
    exact hother ((h.previousEntity_eq hstaged).symm.trans hprevious)
  have hfirst : base.references[edit.offset]? = some id :=
    (h.previousEntity_removed hempty).1.symm.trans hprevious
  obtain ⟨cell, hcell⟩ := hold.referenced hentity
  have hne : edit.offset ≠ cell := by
    rintro rfl
    exact hother hcell
  refine ⟨cell, forgetsAt_concat.mpr ⟨hne, .inr ⟨hfirst, hempty, ?_⟩⟩⟩
  -- an untouched cell would refer to the entity in the base as well
  have hread := hcell
  rw [h.references, BindingTransaction.reference, h.staged, h.sameBase] at hread
  cases hstaged : stagedEntity edits cell with
  | none =>
    rw [hstaged] at hread
    exact absurd (hbase.single hfirst hread) hne
  | some staged =>
    rw [hstaged] at hread
    exact congrArg some hread

theorem step (h : Tracks base edits old tx) (hbase : base.Valid policy) (hold : old.Valid policy)
    (hnew : new.Valid policy) (hedited : Edited edit old new) :
    Tracks base (edits ++ [edit]) new (tx.apply edit.step) where
  sameBase := (BindingTransaction.base_edit tx edit).trans h.sameBase
  together := (BindingTransaction.split_edit tx edit).trans h.together
  keyed := BindingTransaction.keyed_edit h.keyed edit
  staged offset := by
    rw [BindingTransaction.referenceChanges_edit, BTreeMap.getElem?_insert, stagedEntity_concat,
      h.staged]
  cells offset := by
    rw [hedited.cells, BindingTransaction.cell_edit, h.cells]
  references offset := by
    rw [hedited.references, BindingTransaction.reference_edit, h.references]
  forgotten id hforgets := by
    rw [BindingTransaction.entity_edit]
    by_cases hprevious : tx.previousEntity edit.offset = some id ∧ edit.entityId ≠ some id
    · rw [if_pos hprevious]
    · rw [if_neg hprevious]
      by_cases hown : edit.entityId = some id
      · -- the entity would be referenced from two cells
        exfalso
        obtain ⟨cell, hcell⟩ := hforgets
        have hstaged := hcell.staged
        have hne := (forgetsAt_concat.mp hcell).1
        rw [stagedEntity_concat, if_neg hne] at hstaged
        have hkept : new.references[cell]? = some id := by
          rw [hedited.references, if_neg hne]
          exact h.references_of_staged hstaged
        have hplaced : new.references[edit.offset]? = some id := by
          rw [hedited.references, if_pos rfl]
          exact hown
        exact hne (hnew.single hplaced hkept)
      · rw [if_neg hown]
        exact h.forgotten id ((h.forgets_concat fun hp => hprevious ⟨hp, hown⟩).mp hforgets)
  remembered id hforgets := by
    rw [BindingTransaction.entity_edit, hedited.entities]
    by_cases hown : edit.entityId = some id
    · simp only [hown, ne_eq, not_true_eq_false, and_false, if_false, if_true]
    · simp only [hown, ne_eq, not_false_eq_true, and_true, if_false]
      by_cases hprevious : tx.previousEntity edit.offset = some id
      · rw [if_pos hprevious]
        split
        · rfl
        · rename_i hother
          cases hentity : old.entities[id]? with
          | none => rfl
          | some entity =>
            exact absurd (h.forgets_previous hbase hold hprevious hother hentity) hforgets
      · rw [if_neg hprevious, if_neg fun hr => hprevious (h.previousEntity_of_references hr)]
        exact h.remembered id fun hbefore => hforgets ((h.forgets_concat hprevious).mpr hbefore)

/-- The run lemma: committing the rest one by one stays in step with applying it. -/
theorem run (hbase : base.Valid policy) {rest : List CellEdit} {final : BindingState}
    (h : Tracks base edits old tx) (hold : old.Valid policy)
    (heach : editEach policy old rest = .ok final) :
    final.Valid policy ∧ Tracks base (edits ++ rest) final (tx.applyEdits rest) := by
  induction rest generalizing edits old tx with
  | nil =>
    obtain rfl := Except.ok.inj heach
    rw [List.append_nil]
    exact ⟨hold, h⟩
  | cons edit rest ih =>
    obtain ⟨next, halone, hrest⟩ := foldSteps_cons_eq_ok.mp heach
    obtain ⟨hnext, hedited⟩ := edited_of_alone hold halone
    have hrun := ih (h.step hbase hold hnext hedited) hnext hrest
    rw [List.append_assoc] at hrun
    exact hrun

end Tracks

/-! ## 6. Together and one by one -/

variable {edits : List CellEdit} {final : BindingState}

/-- A forgotten entity leaves a reference to nobody, which no commit accepts. -/
theorem not_together_of_forgets (hbase : base.Valid policy)
    (heach : editEach policy base edits = .ok final) {id : String}
    (hforgets : Forgets base edits id) (out : BindingState) :
    editTogether policy base edits ≠ .ok out := by
  intro hout
  obtain ⟨-, htracks⟩ := (Tracks.start base).run hbase hbase heach
  rw [List.nil_append] at htracks
  obtain ⟨hvalid, hshows⟩ := BindingTransaction.shows_of_commit
    (htracks.sameBase.symm ▸ hbase) htracks.keyed hout
  have hcell := hforgets
  obtain ⟨cell, hcell⟩ := hcell
  have hreference : out.references[cell]? = some id := by
    rw [hshows.references, ← htracks.references]
    exact htracks.references_of_staged hcell.staged
  obtain ⟨entity, hentity⟩ := hvalid.registered hreference
  rw [hshows.entities, htracks.forgotten id hforgets] at hentity
  cases hentity

theorem together_of_not_forgets (hbase : base.Valid policy)
    (heach : editEach policy base edits = .ok final) (hnone : ∀ id, ¬ Forgets base edits id) :
    ∃ out, editTogether policy base edits = .ok out ∧ SameBinding out final := by
  obtain ⟨hfinal, htracks⟩ := (Tracks.start base).run hbase hbase heach
  rw [List.nil_append] at htracks
  exact BindingTransaction.commit_of_shows (htracks.sameBase.symm ▸ hbase) htracks.keyed
    htracks.together hfinal
    ⟨htracks.cells, htracks.references, fun id => htracks.remembered id (hnone id)⟩

/-- **One transaction for many edits.** Where each edit commits on its own, all of
them together commit to the same cells, references and entities exactly when the
transaction forgets no entity on the way. -/
theorem together_iff_not_forgets {blocks : SectionStorage} {references : SparseReferenceTable}
    {entities : List EntityRecord}
    (hbase : BindingState.new blocks references entities policy = .ok base)
    (heach : editEach policy base edits = .ok final) :
    (∃ out, editTogether policy base edits = .ok out ∧ SameBinding out final) ↔
      ∀ id, ¬ Forgets base edits id := by
  have hvalid := BindingState.valid_of_new hbase
  constructor
  · rintro ⟨out, hout, -⟩ id hforgets
    exact not_together_of_forgets hvalid heach hforgets out hout
  · exact together_of_not_forgets hvalid heach

end Edits

/-! ## 7. A chest that is moved -/

theorem SameBinding.valid {policy : BlockEntityTypePolicy} {a b : BindingState}
    (h : SameBinding a b) (hb : b.Valid policy) : a.Valid policy :=
  ⟨(BindingState.validate_congr h).trans hb.checked, h.entities ▸ hb.keyed⟩

theorem SameBinding.edited {edit : CellEdit} {a b new : BindingState} (h : SameBinding a b)
    (hb : Edited edit b new) : Edited edit a new := by
  refine ⟨fun offset => ?_, fun offset => ?_, fun id => ?_⟩
  · rw [hb.cells, h.cells]
  · rw [hb.references, h.references]
  · rw [hb.entities, h.references, h.entities]

/-- Conversely, an edit between valid states commits. -/
theorem alone_of_edited {policy : BlockEntityTypePolicy} {edit : CellEdit} {old new : BindingState}
    (hold : old.Valid policy) (hnew : new.Valid policy) (h : Edited edit old new) :
    ∃ out, editAlone policy old edit = .ok out ∧ SameBinding out new := by
  have hbase : ((BindingTransaction.begin old).apply edit.step).base = old :=
    BindingTransaction.base_edit _ edit
  refine BindingTransaction.commit_of_shows (hbase.symm ▸ hold)
    (BindingTransaction.keyed_edit (BindingTransaction.keyed_begin old) edit)
    (BindingTransaction.split_edit _ edit) hnew ⟨fun offset => ?_, fun offset => ?_, fun id => ?_⟩
  · rw [h.cells, BindingTransaction.cell_edit, (BindingTransaction.shows_begin old).cells]
  · rw [h.references, BindingTransaction.reference_edit,
      (BindingTransaction.shows_begin old).references]
  · rw [h.entities, BindingTransaction.entity_edit,
      (BindingTransaction.shows_begin old).entities]
    rfl

def chest : EntityRecord := ⟨"entity-1", "chest", true⟩

/-- Plain blocks and one chest. -/
def chestAt (offset : CellOffset) : BindingState where
  blocks := (plainState.blocks.write offset ⟨256000⟩).1
  references := (∅ : SparseReferenceTable).insert offset chest.id
  entities := (∅ : BTreeMap String EntityRecord).insert chest.id chest

theorem read_chestAt (offset other : CellOffset) :
    (chestAt offset).blocks.read other = if other = offset then ⟨256000⟩ else ⟨0⟩ :=
  plainState.blocks.read_write offset other ⟨256000⟩

theorem references_chestAt (offset other : CellOffset) :
    (chestAt offset).references[other]? = if offset = other then some chest.id else none := by
  rw [chestAt, BTreeMap.getElem?_insert, BTreeMap.getElem?_empty]

theorem entities_chestAt (offset : CellOffset) (id : String) :
    (chestAt offset).entities[id]? = if chest.id = id then some chest else none := by
  rw [chestAt, BTreeMap.getElem?_insert, BTreeMap.getElem?_empty]

theorem chestAt_valid (offset : CellOffset) : (chestAt offset).Valid chestPolicy where
  checked := by
    refine BindingState.validate_of (fun other => ?_) (fun other id hid => ?_)
      fun id entity hentity => ⟨offset, ?_, fun other hother => ?_⟩
    · rw [read_chestAt, references_chestAt]
      by_cases hown : offset = other
      · subst hown
        rw [if_pos rfl, if_pos rfl]
        exact iff_of_true (by decide) (Option.some_ne_none _)
      · rw [if_neg (Ne.symm hown), if_neg hown]
        exact iff_of_false (by decide) (not_not.mpr rfl)
    · rw [references_chestAt] at hid
      split at hid
      · rename_i hown
        subst hown
        obtain rfl := Option.some.inj hid
        rw [read_chestAt, if_pos rfl, entities_chestAt, if_pos rfl]
        exact ⟨chest, rfl, rfl, by decide⟩
      · cases hid
    · rw [entities_chestAt] at hentity
      split at hentity
      · rename_i hid
        rw [references_chestAt, if_pos rfl, hid]
      · cases hentity
    · rw [references_chestAt] at hother
      split at hother
      · rename_i hown
        exact hown.symm
      · cases hother
  keyed id entity hentity := by
    rw [entities_chestAt] at hentity
    split at hentity
    · rename_i hid
      obtain rfl := Option.some.inj hentity
      exact ⟨hid, hid ▸ by decide⟩
    · cases hentity

theorem plainState_valid : plainState.Valid chestPolicy := by
  have hnew : BindingState.new (.uniform ⟨0⟩) ∅ [] chestPolicy = .ok plainState :=
    plainState_new (by decide)
  exact BindingState.valid_of_new hnew

theorem chestAt_new (offset : CellOffset) :
    BindingState.new (chestAt offset).blocks (chestAt offset).references [chest] chestPolicy =
      .ok (chestAt offset) := by
  simp only [BindingState.new, bind_eq_ok]
  exact ⟨_, rfl, (), (chestAt_valid offset).checked, rfl⟩

theorem edited_place (offset : CellOffset) :
    Edited (.place offset ⟨256000⟩ chest) plainState (chestAt offset) where
  cells other := by
    rw [read_chestAt]
    simp only [CellEdit.offset, CellEdit.block, eq_comm]
    rfl
  references other := by
    rw [references_chestAt, plainState, BTreeMap.getElem?_empty]
    rfl
  entities id := by
    rw [entities_chestAt]
    simp only [plainState, BTreeMap.getElem?_empty, reduceCtorEq, false_and, if_false,
      CellEdit.entityId, CellEdit.entity, Option.map_some, Option.some.injEq]

theorem edited_of_remove {offset : CellOffset} {replacement : BlockId} {old new : BindingState}
    (hcells : ∀ other, new.blocks.read other =
      if offset = other then replacement else old.blocks.read other)
    (hreferences : ∀ other : CellOffset, new.references[other]? =
      if offset = other then none else old.references[other]?)
    (hentities : ∀ id : String, new.entities[id]? =
      if old.references[offset]? = some id then none else old.entities[id]?) :
    Edited (.remove offset replacement) old new where
  cells := hcells
  references := hreferences
  entities id := by
    rw [hentities]
    simp only [CellEdit.offset, CellEdit.entityId, CellEdit.entity, Option.map_none, reduceCtorEq,
      ne_eq, not_false_eq_true, and_true, if_false]

theorem edited_remove (offset : CellOffset) :
    Edited (.remove offset ⟨0⟩) (chestAt offset) plainState := by
  apply edited_of_remove
  · intro other
    rw [read_chestAt]
    by_cases hown : offset = other
    · rw [if_pos hown]
      rfl
    · rw [if_neg hown, if_neg (Ne.symm hown)]
      rfl
  · intro other
    rw [references_chestAt, plainState, BTreeMap.getElem?_empty]
    split <;> rfl
  · intro id
    rw [references_chestAt, entities_chestAt, plainState, BTreeMap.getElem?_empty, if_pos rfl]
    by_cases hown : chest.id = id
    · rw [if_pos (congrArg some hown)]
    · rw [if_neg fun h => hown (Option.some.inj h), if_neg hown]

/-- Clearing an empty cell changes nothing. -/
theorem edited_clear {offset other : CellOffset} (h : offset ≠ other) :
    Edited (.remove offset ⟨0⟩) (chestAt other) (chestAt other) := by
  apply edited_of_remove
  · intro cell
    rw [read_chestAt]
    by_cases hown : offset = cell
    · subst hown
      rw [if_neg h, if_pos rfl]
    · rw [if_neg hown]
  · intro cell
    rw [references_chestAt]
    by_cases hown : offset = cell
    · subst hown
      rw [if_neg (Ne.symm h), if_pos rfl]
    · rw [if_neg hown]
  · intro id
    rw [references_chestAt, if_neg (Ne.symm h), if_neg (Option.some_ne_none id).symm]

/-- The chest goes from one cell to the other, and the empty cell is cleared again. -/
def movedChest (first second : CellOffset) : List CellEdit :=
  [.remove first ⟨0⟩, .place second ⟨256000⟩ chest, .remove first ⟨0⟩]

theorem exists_movedChest {first second : CellOffset} (h : first ≠ second) :
    ∃ final, editEach chestPolicy (chestAt first) (movedChest first second) = .ok final := by
  obtain ⟨emptied, hremove, hempty⟩ := alone_of_edited (chestAt_valid first) plainState_valid
    (edited_remove first)
  obtain ⟨moved, hplace, hmoved⟩ := alone_of_edited (hempty.valid plainState_valid)
    (chestAt_valid second) (hempty.edited (edited_place second))
  obtain ⟨final, hclear, -⟩ := alone_of_edited (hmoved.valid (chestAt_valid second))
    (chestAt_valid second) (hmoved.edited (edited_clear h))
  exact ⟨final, foldSteps_cons_eq_ok.mpr ⟨emptied, hremove, foldSteps_cons_eq_ok.mpr
    ⟨moved, hplace, foldSteps_cons_eq_ok.mpr ⟨final, hclear, rfl⟩⟩⟩⟩

theorem movedChest_forgets {first second : CellOffset} (h : first ≠ second) :
    Forgets (chestAt first) (movedChest first second) chest.id := by
  have hempty : stagedEntity [.remove first ⟨0⟩, .place second ⟨256000⟩ chest] first =
      some none := by
    simp [stagedEntity, CellEdit.offset, Ne.symm h, CellEdit.entityId, CellEdit.entity]
  have hmoved : stagedEntity [.remove first ⟨0⟩, .place second ⟨256000⟩ chest] second =
      some (some chest.id) := by
    simp [stagedEntity, CellEdit.offset, h, CellEdit.entityId, CellEdit.entity]
  refine ⟨second, [.remove first ⟨0⟩, .place second ⟨256000⟩ chest], .remove first ⟨0⟩, [], rfl,
    ?_, hempty, hmoved, fun later hlater => ?_⟩
  · exact (references_chestAt first first).trans (if_pos rfl)
  · obtain rfl := List.mem_singleton.mp hlater
    exact h

/-- **A moved chest is lost.** Taken out of one cell, put into another and the first
cell cleared once more: each edit commits alone, and all of them together do not. -/
theorem moved_chest_lost : ∃ final,
    BindingState.new (chestAt ⟨17, by decide⟩).blocks (chestAt ⟨17, by decide⟩).references [chest]
      chestPolicy = .ok (chestAt ⟨17, by decide⟩) ∧
    editEach chestPolicy (chestAt ⟨17, by decide⟩) (movedChest ⟨17, by decide⟩ ⟨18, by decide⟩) =
      .ok final ∧
    ∀ out, editTogether chestPolicy (chestAt ⟨17, by decide⟩)
      (movedChest ⟨17, by decide⟩ ⟨18, by decide⟩) ≠ .ok out := by
  have hne : (⟨17, by decide⟩ : CellOffset) ≠ ⟨18, by decide⟩ := by decide
  obtain ⟨final, hfinal⟩ := exists_movedChest hne
  refine ⟨final, chestAt_new _, hfinal, fun out => ?_⟩
  exact not_together_of_forgets (chestAt_valid _) hfinal (movedChest_forgets hne) out

/-- The same edits through the general theorem. -/
theorem together_iff_not_forgets_chest : ∃ final,
    editEach chestPolicy (chestAt ⟨17, by decide⟩) (movedChest ⟨17, by decide⟩ ⟨18, by decide⟩) =
      .ok final ∧
    ((∃ out, editTogether chestPolicy (chestAt ⟨17, by decide⟩)
        (movedChest ⟨17, by decide⟩ ⟨18, by decide⟩) = .ok out ∧ SameBinding out final) ↔
      ∀ id, ¬ Forgets (chestAt ⟨17, by decide⟩) (movedChest ⟨17, by decide⟩ ⟨18, by decide⟩) id) := by
  obtain ⟨final, hfinal⟩ := exists_movedChest
    (show (⟨17, by decide⟩ : CellOffset) ≠ ⟨18, by decide⟩ by decide)
  exact ⟨final, hfinal, together_iff_not_forgets (chestAt_new _) hfinal⟩

end LumioVoxel
