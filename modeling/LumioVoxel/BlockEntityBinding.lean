import LumioVoxel.CanonicalStorage
import LumioVoxel.FallibleSteps
import LumioVoxel.OrderedMaps
import LumioVoxel.StepRuns

/-!
# Block entities

A cell whose block type is backed by an entity has one entry in a sparse reference
table, and the entity it names is registered, alive and of the type the policy asks
for.  Transactions edit blocks, references and entities apart and in any order; a
publication accepts one only over the very state it began from, and validates the
whole result before it swaps.
-/

namespace LumioVoxel

open Fallible StepRuns

/-! ## 1. Entities and policies -/

/-- What the binding knows of an entity: its identity, its type, whether it lives. -/
structure EntityRecord where
  id : String
  entityType : String
  alive : Bool
  deriving DecidableEq, Repr

/-- The entity type expected for a block type, or `none` for plain blocks.  Whether
one is required follows from that unless a policy says otherwise. -/
structure BlockEntityTypePolicy where
  entityTypeFor : BlockType → Option String
  requiresEntity : BlockType → Bool := fun blockType => (entityTypeFor blockType).isSome

inductive BindingError where
  | block (code : String)
  | missing
  | orphan
  | typeMismatch
  | notSparse
  | businessData
  | commitSplit
  deriving DecidableEq, Repr

def BindingError.errorId : BindingError → String
  | .block code => code
  | .missing => "entity_binding_missing"
  | .orphan => "entity_binding_orphan"
  | .typeMismatch => "entity_binding_type_mismatch"
  | .notSparse => "entity_binding_not_sparse"
  | .businessData => "business_data_in_payload"
  | .commitSplit => "binding_commit_split"

/-! ## 2. The sparse table and the composed state -/

/-- `cellOffset -> NetEntityId` for the entity-backed cells. -/
abbrev SparseReferenceTable : Type := BTreeMap CellOffset String

def SparseReferenceTable.insertEntry (table : SparseReferenceTable) (offset : CellOffset)
    (entityId : String) : Except BindingError SparseReferenceTable := do
  require (entityId ≠ "" ∧ table[offset]? = none) .notSparse
  return table.insert offset entityId

structure BindingState where
  blocks : SectionStorage
  references : SparseReferenceTable
  entities : BTreeMap String EntityRecord
  deriving DecidableEq

namespace BindingState

variable (state : BindingState) (policy : BlockEntityTypePolicy)

/-- One row of the table against the cell it is for and the registry. -/
def checkReference (reference : CellOffset × String) : Except BindingError Unit := do
  let expected ← someOr (policy.entityTypeFor (state.blocks.read reference.1).blockType) .orphan
  let entity ← someOr state.entities[reference.2]? .missing
  require (entity.alive = true) .missing
  require (entity.entityType = expected) .typeMismatch

/-- One cell against the table. -/
def checkCell (raw : Nat) : Except BindingError Unit := do
  let offset ← (CellOffset.new (UInt16.ofNat raw)).mapError BindingError.block
  let needsEntity := policy.requiresEntity (state.blocks.read offset).blockType
  require (¬ (needsEntity = true ∧ state.references.contains offset = false)) .missing
  require (¬ (needsEntity = false ∧ state.references.contains offset = true)) .orphan

/-- One registered entity against the table. -/
def checkEntity (entityId : String) : Except BindingError Unit :=
  require ((state.references.toList.filter fun reference => reference.2 = entityId).length = 1)
    .orphan

/-- One offset of the table. -/
def checkOffset (offset : CellOffset) : Except BindingError Unit := do
  let _ ← (CellOffset.new offset.raw).mapError BindingError.block
  return ()

def validate : Except BindingError Unit := do
  foldSteps (fun _ offset => checkOffset offset) () (state.references.toList.map (·.1))
  foldSteps (fun _ reference => state.checkReference policy reference) () state.references.toList
  foldSteps (fun _ raw => state.checkCell policy raw) () (List.range SECTION_CELLS)
  foldSteps (fun _ entityId => state.checkEntity entityId) () (state.entities.toList.map (·.1))

def register (registry : BTreeMap String EntityRecord) (entity : EntityRecord) :
    Except BindingError (BTreeMap String EntityRecord) := do
  require (entity.id ≠ "" ∧ registry[entity.id]? = none) .orphan
  return registry.insert entity.id entity

/-- The validating constructor. -/
def new (blocks : SectionStorage) (references : SparseReferenceTable)
    (entities : List EntityRecord) (policy : BlockEntityTypePolicy) :
    Except BindingError BindingState := do
  let registry ← foldSteps register ∅ entities
  let state : BindingState := ⟨blocks, references, registry⟩
  state.validate policy
  return state

end BindingState

/-! ## 3. Transactions -/

/-- Unpublished changes over a base.  Every step carries a commit id; the first one
is kept, and a different one splits the transaction for good. -/
structure BindingTransaction where
  base : BindingState
  blockChanges : BTreeMap CellOffset BlockId
  referenceChanges : BTreeMap CellOffset (Option String)
  entityChanges : BTreeMap String (Option EntityRecord)
  commitId : Option UInt64
  split : Bool

namespace BindingTransaction

def begin (base : BindingState) : BindingTransaction := ⟨base, ∅, ∅, ∅, none, false⟩

def observeCommit (tx : BindingTransaction) (commitId : UInt64) : BindingTransaction :=
  match tx.commitId with
  | some existing => if existing ≠ commitId then { tx with split := true } else tx
  | none => { tx with commitId := some commitId }

def setBlockCommit (tx : BindingTransaction) (commitId : UInt64) (offset : CellOffset)
    (block : BlockId) : BindingTransaction :=
  let tx := tx.observeCommit commitId
  { tx with blockChanges := tx.blockChanges.insert offset block }

def setReferenceCommit (tx : BindingTransaction) (commitId : UInt64) (offset : CellOffset)
    (entityId : String) : BindingTransaction :=
  let tx := tx.observeCommit commitId
  { tx with referenceChanges := tx.referenceChanges.insert offset (some entityId) }

def setReferenceRemovedCommit (tx : BindingTransaction) (commitId : UInt64)
    (offset : CellOffset) : BindingTransaction :=
  let tx := tx.observeCommit commitId
  { tx with referenceChanges := tx.referenceChanges.insert offset none }

def setEntityCommit (tx : BindingTransaction) (commitId : UInt64) (entity : EntityRecord) :
    BindingTransaction :=
  let tx := tx.observeCommit commitId
  { tx with entityChanges := tx.entityChanges.insert entity.id (some entity) }

def setEntityRemovedCommit (tx : BindingTransaction) (commitId : UInt64) (entityId : String) :
    BindingTransaction :=
  let tx := tx.observeCommit commitId
  { tx with entityChanges := tx.entityChanges.insert entityId none }

/-- The entity the cell refers to as far as the transaction knows.  A staged removal
falls back to the base. -/
def previousEntity (tx : BindingTransaction) (offset : CellOffset) : Option String :=
  (tx.referenceChanges[offset]?.bind id).or tx.base.references[offset]?

def place (tx : BindingTransaction) (offset : CellOffset) (block : BlockId)
    (entity : EntityRecord) : BindingTransaction :=
  let previous := tx.previousEntity offset
  let commitId := tx.commitId.getD 0
  let tx := tx.setBlockCommit commitId offset block
  let tx := tx.setReferenceCommit commitId offset entity.id
  let tx := tx.setEntityCommit commitId entity
  match previous with
  | some previous =>
    if tx.referenceChanges[offset]?.bind id ≠ some previous then
      tx.setEntityRemovedCommit commitId previous
    else tx
  | none => tx

def remove (tx : BindingTransaction) (offset : CellOffset) (replacement : BlockId) :
    BindingTransaction :=
  let entityId := tx.previousEntity offset
  let commitId := tx.commitId.getD 0
  let tx := tx.setBlockCommit commitId offset replacement
  let tx := tx.setReferenceRemovedCommit commitId offset
  match entityId with
  | some entityId => tx.setEntityRemovedCommit commitId entityId
  | none => tx

def changeReference (table : SparseReferenceTable) (change : CellOffset × Option String) :
    Except BindingError SparseReferenceTable :=
  match change.2 with
  | some entityId => SparseReferenceTable.insertEntry (table.erase change.1) change.1 entityId
  | none => .ok (table.erase change.1)

def changeEntity (registry : BTreeMap String EntityRecord)
    (change : String × Option EntityRecord) : BTreeMap String EntityRecord :=
  match change.2 with
  | some entity => registry.insert change.1 entity
  | none => registry.erase change.1

def commit (tx : BindingTransaction) (policy : BlockEntityTypePolicy) :
    Except BindingError BindingState := do
  require (tx.split = false) .commitSplit
  let blocks := tx.blockChanges.toList.foldl (fun blocks change =>
    (blocks.write change.1 change.2).1) tx.base.blocks
  let references ← foldSteps changeReference tx.base.references tx.referenceChanges.toList
  let registry := tx.entityChanges.toList.foldl changeEntity tx.base.entities
  BindingState.new blocks references (registry.toList.map (·.2)) policy

end BindingTransaction

/-! ## 4. Publication -/

/-- The current binding cut. -/
structure BindingPublication where
  current : BindingState

/-- Only over the state the transaction began from, and only if the result is valid. -/
def BindingPublication.publish (publication : BindingPublication) (tx : BindingTransaction)
    (policy : BlockEntityTypePolicy) : Except BindingError BindingState × BindingPublication :=
  if publication.current ≠ tx.base then
    (.error .commitSplit, publication)
  else
    match tx.commit policy with
    | .error err => (.error err, publication)
    | .ok next => (.ok next, ⟨next⟩)

/-! ## 5. What validation establishes -/

/-- Table, registry and cells agree in both directions. -/
structure Bound (policy : BlockEntityTypePolicy) (state : BindingState) : Prop where
  cells : ∀ offset, policy.requiresEntity (state.blocks.read offset).blockType = true ↔
    ∃ entityId entity, state.references[offset]? = some entityId ∧
      state.entities[entityId]? = some entity ∧ entity.alive = true ∧
      policy.entityTypeFor (state.blocks.read offset).blockType = some entity.entityType
  references : ∀ offset, state.references[offset]? ≠ none →
    policy.requiresEntity (state.blocks.read offset).blockType = true
  entities : ∀ entityId entity, state.entities[entityId]? = some entity →
    ∃ offset, state.references[offset]? = some entityId ∧
      ∀ other : CellOffset, state.references[other]? = some entityId → other = offset

namespace BindingState

variable {state : BindingState} {policy : BlockEntityTypePolicy}

theorem checkReference_eq_ok {offset : CellOffset} {entityId : String} {u : Unit} :
    state.checkReference policy (offset, entityId) = .ok u ↔
      ∃ entity, state.entities[entityId]? = some entity ∧ entity.alive = true ∧
        policy.entityTypeFor (state.blocks.read offset).blockType = some entity.entityType := by
  simp only [checkReference, bind_eq_ok, someOr_eq_ok, require_eq_ok, exists_const]
  constructor
  · rintro ⟨expected, hexpected, entity, hentity, halive, rfl⟩
    exact ⟨entity, hentity, halive, hexpected⟩
  · rintro ⟨entity, hentity, halive, hexpected⟩
    exact ⟨_, hexpected, entity, hentity, halive, rfl⟩

theorem checkCell_index {offset : CellOffset} {u : Unit} :
    state.checkCell policy offset.index = .ok u ↔
      (policy.requiresEntity (state.blocks.read offset).blockType = true ↔
        state.references[offset]? ≠ none) := by
  have hraw : CellOffset.new (UInt16.ofNat offset.index) = .ok offset := by
    have hsame : UInt16.ofNat offset.index = offset.raw := UInt16.ofNat_toNat
    rw [hsame, CellOffset.new, dif_pos offset.le_max]
  have hcontains : state.references.contains offset = state.references[offset]?.isSome :=
    Std.ExtTreeMap.contains_eq_isSome_getElem?
  simp only [checkCell, hraw, mapError_ok, ok_bind, bind_eq_ok, require_eq_ok, exists_const,
    hcontains]
  cases policy.requiresEntity (state.blocks.read offset).blockType <;>
    cases state.references[offset]? <;> simp

theorem referenced_of_checkEntity {entityId : String} {u : Unit}
    (h : state.checkEntity entityId = .ok u) :
    ∃ offset, state.references[offset]? = some entityId ∧
      ∀ other : CellOffset, state.references[other]? = some entityId → other = offset := by
  obtain ⟨⟨offset, named⟩, hone⟩ := List.length_eq_one_iff.mp (require_eq_ok.mp h)
  have hmem : ∀ other : CellOffset, state.references[other]? = some entityId ↔
      (other, entityId) = (offset, named) := by
    intro other
    rw [← List.mem_singleton (a := (other, entityId)), ← hone, List.mem_filter,
      BTreeMap.mem_toList]
    exact (and_iff_left (decide_eq_true rfl)).symm
  have hnamed : named = entityId := by
    have hself : (offset, named) ∈ [(offset, named)] := List.mem_singleton.mpr rfl
    rw [← hone, List.mem_filter] at hself
    exact of_decide_eq_true hself.2
  subst hnamed
  exact ⟨offset, (hmem offset).mpr rfl, fun other h => congrArg Prod.fst ((hmem other).mp h)⟩

theorem bound_of_validate (h : state.validate policy = .ok ()) : Bound policy state := by
  simp only [validate, bind_eq_ok] at h
  obtain ⟨_, -, _, hreferences, _, hcells, hentities⟩ := h
  have hcell : ∀ offset : CellOffset,
      (policy.requiresEntity (state.blocks.read offset).blockType = true ↔
        state.references[offset]? ≠ none) := by
    intro offset
    exact checkCell_index.mp
      (forall_of_foldSteps hcells _ (List.mem_range.mpr offset.index_lt))
  refine ⟨fun offset => ?_, fun offset => (hcell offset).mpr, fun entityId entity hentity => ?_⟩
  · constructor
    · intro hrequires
      obtain ⟨entityId, hentityId⟩ := Option.ne_none_iff_exists'.mp ((hcell offset).mp hrequires)
      obtain ⟨entity, hentity⟩ := checkReference_eq_ok.mp
        (forall_of_foldSteps hreferences _ (BTreeMap.mem_toList.mpr hentityId))
      exact ⟨entityId, entity, hentityId, hentity⟩
    · rintro ⟨entityId, entity, hentityId, -⟩
      refine (hcell offset).mpr ?_
      rw [hentityId]
      exact Option.some_ne_none _
  · exact referenced_of_checkEntity (forall_of_foldSteps hentities _
      (List.mem_map.mpr ⟨(entityId, entity), BTreeMap.mem_toList.mpr hentity, rfl⟩))

end BindingState

theorem BindingState.bound_of_new {blocks : SectionStorage} {references : SparseReferenceTable}
    {entities : List EntityRecord} {policy : BlockEntityTypePolicy} {state : BindingState}
    (h : BindingState.new blocks references entities policy = .ok state) : Bound policy state := by
  simp only [BindingState.new, bind_eq_ok, pure_eq_ok] at h
  obtain ⟨registry, -, _, hvalid, rfl⟩ := h
  exact BindingState.bound_of_validate hvalid

/-! ## 6. Steps and the commit ids they carry -/

/-- One call on a transaction. -/
inductive BindingStep where
  | place (offset : CellOffset) (block : BlockId) (entity : EntityRecord)
  | remove (offset : CellOffset) (replacement : BlockId)
  | block (commitId : UInt64) (offset : CellOffset) (block : BlockId)
  | reference (commitId : UInt64) (offset : CellOffset) (entityId : String)
  | referenceRemoved (commitId : UInt64) (offset : CellOffset)
  | entity (commitId : UInt64) (entity : EntityRecord)
  | entityRemoved (commitId : UInt64) (entityId : String)

namespace BindingTransaction

def apply (tx : BindingTransaction) : BindingStep → BindingTransaction
  | .place offset block entity => tx.place offset block entity
  | .remove offset replacement => tx.remove offset replacement
  | .block commitId offset block => tx.setBlockCommit commitId offset block
  | .reference commitId offset entityId => tx.setReferenceCommit commitId offset entityId
  | .referenceRemoved commitId offset => tx.setReferenceRemovedCommit commitId offset
  | .entity commitId entity => tx.setEntityCommit commitId entity
  | .entityRemoved commitId entityId => tx.setEntityRemovedCommit commitId entityId

/-- The commit id a step carries; placing and removing go with the transaction. -/
def carriedBy (tx : BindingTransaction) : BindingStep → UInt64
  | .place _ _ _ | .remove _ _ => tx.commitId.getD 0
  | .block commitId _ _ | .reference commitId _ _ | .referenceRemoved commitId _
  | .entity commitId _ | .entityRemoved commitId _ => commitId

variable {tx : BindingTransaction} {carried : List UInt64}

/-- The first id is kept, and the transaction is split once another one came. -/
structure Carries (tx : BindingTransaction) (carried : List UInt64) : Prop where
  first : tx.commitId = carried.head?
  split : (∃ commitId ∈ carried, carried.head? ≠ some commitId) → tx.split = true

theorem carries_begin (base : BindingState) : (begin base).Carries [] :=
  ⟨rfl, fun ⟨_, hmem, _⟩ => absurd hmem List.not_mem_nil⟩

/-- `next` went on from `tx` under one commit id. -/
structure Observed (tx next : BindingTransaction) (commitId : UInt64) : Prop where
  sameBase : next.base = tx.base
  observedId : next.commitId = (tx.observeCommit commitId).commitId
  observedSplit : next.split = (tx.observeCommit commitId).split

theorem base_observeCommit (tx : BindingTransaction) (commitId : UInt64) :
    (tx.observeCommit commitId).base = tx.base := by
  unfold observeCommit
  split
  · split
    · rfl
    · rfl
  · rfl

theorem commitId_observeCommit (tx : BindingTransaction) (commitId : UInt64) :
    (tx.observeCommit commitId).commitId = some (tx.commitId.getD commitId) := by
  unfold observeCommit
  cases hfirst : tx.commitId with
  | none => rfl
  | some existing =>
    simp only [Option.getD_some]
    split
    · rfl
    · exact hfirst

theorem split_observeCommit (tx : BindingTransaction) (commitId : UInt64) :
    (tx.observeCommit commitId).split =
      (tx.split || decide (tx.commitId.getD commitId ≠ commitId)) := by
  unfold observeCommit
  cases tx.commitId with
  | none => simp only [Option.getD_none, ne_eq, not_true_eq_false, decide_false, Bool.or_false]
  | some existing =>
    simp only [Option.getD_some]
    by_cases hother : existing ≠ commitId
    · rw [if_pos hother, decide_eq_true hother, Bool.or_true]
    · rw [if_neg hother, decide_eq_false hother, Bool.or_false]

theorem observed_of_eq {next : BindingTransaction} {commitId : UInt64}
    (hbase : next.base = (tx.observeCommit commitId).base)
    (hcommit : next.commitId = (tx.observeCommit commitId).commitId)
    (hsplit : next.split = (tx.observeCommit commitId).split) : Observed tx next commitId :=
  ⟨hbase.trans (base_observeCommit tx commitId), hcommit, hsplit⟩

/-- Observing an id twice is observing it once. -/
theorem Observed.again {next last : BindingTransaction} {commitId : UInt64}
    (h : Observed tx next commitId) (h' : Observed next last commitId) :
    Observed tx last commitId := by
  obtain ⟨hbase, hcommit, hsplit⟩ := h
  obtain ⟨hbase', hcommit', hsplit'⟩ := h'
  refine ⟨hbase'.trans hbase, ?_, ?_⟩
  · rw [hcommit', commitId_observeCommit, hcommit, commitId_observeCommit, Option.getD_some]
  · rw [hsplit', split_observeCommit, hsplit, hcommit, commitId_observeCommit, Option.getD_some,
      split_observeCommit, Bool.or_assoc, Bool.or_self]

theorem observed_setBlock (tx : BindingTransaction) (commitId : UInt64) (offset : CellOffset)
    (block : BlockId) : Observed tx (tx.setBlockCommit commitId offset block) commitId :=
  observed_of_eq rfl rfl rfl

theorem observed_setReference (tx : BindingTransaction) (commitId : UInt64) (offset : CellOffset)
    (entityId : String) : Observed tx (tx.setReferenceCommit commitId offset entityId) commitId :=
  observed_of_eq rfl rfl rfl

theorem observed_setReferenceRemoved (tx : BindingTransaction) (commitId : UInt64)
    (offset : CellOffset) :
    Observed tx (tx.setReferenceRemovedCommit commitId offset) commitId :=
  observed_of_eq rfl rfl rfl

theorem observed_setEntity (tx : BindingTransaction) (commitId : UInt64) (entity : EntityRecord) :
    Observed tx (tx.setEntityCommit commitId entity) commitId :=
  observed_of_eq rfl rfl rfl

theorem observed_setEntityRemoved (tx : BindingTransaction) (commitId : UInt64)
    (entityId : String) : Observed tx (tx.setEntityRemovedCommit commitId entityId) commitId :=
  observed_of_eq rfl rfl rfl

/-- Every step keeps the base and goes on under the one id it carries. -/
theorem observed_apply (tx : BindingTransaction) (step : BindingStep) :
    Observed tx (tx.apply step) (tx.carriedBy step) := by
  cases step with
  | place offset block entity =>
    have hplaced := ((observed_setBlock tx (tx.commitId.getD 0) offset block).again
      (observed_setReference _ _ offset entity.id)).again (observed_setEntity _ _ entity)
    simp only [apply, place, carriedBy]
    split
    · split
      · exact hplaced.again (observed_setEntityRemoved _ _ _)
      · exact hplaced
    · exact hplaced
  | remove offset replacement =>
    have hremoved := (observed_setBlock tx (tx.commitId.getD 0) offset replacement).again
      (observed_setReferenceRemoved _ _ offset)
    simp only [apply, remove, carriedBy]
    split
    · exact hremoved.again (observed_setEntityRemoved _ _ _)
    · exact hremoved
  | block commitId offset block => exact observed_setBlock tx commitId offset block
  | reference commitId offset entityId => exact observed_setReference tx commitId offset entityId
  | referenceRemoved commitId offset => exact observed_setReferenceRemoved tx commitId offset
  | entity commitId entity => exact observed_setEntity tx commitId entity
  | entityRemoved commitId entityId => exact observed_setEntityRemoved tx commitId entityId

theorem carries_apply (h : tx.Carries carried) (step : BindingStep) :
    (tx.apply step).Carries (carried ++ [tx.carriedBy step]) := by
  obtain ⟨-, hcommit, hsplit⟩ := observed_apply tx step
  rw [commitId_observeCommit, h.first] at hcommit
  rw [split_observeCommit, h.first] at hsplit
  cases carried with
  | nil =>
    refine ⟨hcommit, ?_⟩
    rintro ⟨commitId, hmem, hne⟩
    exact absurd (congrArg some (List.mem_singleton.mp hmem).symm) hne
  | cons first rest =>
    refine ⟨hcommit, ?_⟩
    rintro ⟨commitId, hmem, hne⟩
    rw [hsplit, Bool.or_eq_true, decide_eq_true_eq]
    rcases List.mem_append.mp hmem with hold | hnew
    · exact .inl (h.split ⟨commitId, hold, hne⟩)
    · right
      rintro hsame
      exact hne (congrArg some (hsame.trans (List.mem_singleton.mp hnew).symm))

/-- A transaction whose steps carry two ids is split. -/
theorem Carries.split_of_two (h : tx.Carries carried) {a b : UInt64} (ha : a ∈ carried)
    (hb : b ∈ carried) (hne : a ≠ b) : tx.split = true := by
  by_cases hfirst : carried.head? = some a
  · refine h.split ⟨b, hb, fun hsecond => hne ?_⟩
    exact Option.some.inj (hfirst.symm.trans hsecond)
  · exact h.split ⟨a, ha, hfirst⟩

end BindingTransaction

/-- What publishing can do. -/
theorem BindingPublication.publish_cases (publication : BindingPublication)
    (tx : BindingTransaction) (policy : BlockEntityTypePolicy) :
    (∃ err, publication.publish tx policy = (.error err, publication)) ∨
    ∃ next, publication.publish tx policy = (.ok next, ⟨next⟩) ∧ publication.current = tx.base ∧
      tx.split = false ∧ Bound policy next := by
  unfold publish
  by_cases hbase : publication.current ≠ tx.base
  · rw [if_pos hbase]
    exact .inl ⟨_, rfl⟩
  · rw [if_neg hbase]
    cases hcommit : tx.commit policy with
    | error err => exact .inl ⟨err, rfl⟩
    | ok next =>
      simp only [BindingTransaction.commit, bind_eq_ok, require_eq_ok, exists_const] at hcommit
      obtain ⟨hsplit, references, -, hnew⟩ := hcommit
      exact .inr ⟨next, rfl, not_not.mp hbase, hsplit, BindingState.bound_of_new hnew⟩

/-! ## 7. Sessions -/

/-- A transaction a caller holds, and the commit ids its steps carried. -/
structure OpenTransaction where
  tx : BindingTransaction
  carried : List UInt64

structure BindingSession where
  publication : BindingPublication
  opened : List OpenTransaction

/-- Transactions are named by position; publishing and rolling back use one up. -/
inductive BindingOp where
  | begin (base : BindingState)
  | apply (i : Nat) (step : BindingStep)
  | clone (i : Nat)
  | publish (i : Nat)
  | rollback (i : Nat)

def OpenTransaction.apply (opened : OpenTransaction) (step : BindingStep) : OpenTransaction :=
  ⟨opened.tx.apply step, opened.carried ++ [opened.tx.carriedBy step]⟩

namespace BindingSession

def start (initial : BindingState) : BindingSession := ⟨⟨initial⟩, []⟩

/-- What publishing the `i`-th transaction does, if there is one. -/
def published (s : BindingSession) (policy : BlockEntityTypePolicy) (i : Nat) :
    Option (Except BindingError BindingState × BindingPublication) :=
  s.opened[i]?.map fun opened => s.publication.publish opened.tx policy

def step (policy : BlockEntityTypePolicy) (s : BindingSession) : BindingOp → BindingSession
  | .begin base => { s with opened := s.opened ++ [⟨.begin base, []⟩] }
  | .apply i step => { s with opened := s.opened.modify i (·.apply step) }
  | .clone i => { s with opened := s.opened ++ s.opened[i]?.toList }
  | .publish i =>
    ⟨((s.published policy i).map (·.2)).getD s.publication, s.opened.eraseIdx i⟩
  | .rollback i => { s with opened := s.opened.eraseIdx i }

/-- The current state is bound, and every open transaction knows its commit ids. -/
structure Consistent (policy : BlockEntityTypePolicy) (s : BindingSession) : Prop where
  bound : Bound policy s.publication.current
  carries : ∀ opened ∈ s.opened, opened.tx.Carries opened.carried

variable {policy : BlockEntityTypePolicy} {s : BindingSession}

theorem consistent_step (h : Consistent policy s) (op : BindingOp) :
    Consistent policy (s.step policy op) := by
  cases op with
  | begin base =>
    refine ⟨h.bound, fun opened hopened => ?_⟩
    rcases List.mem_append.mp hopened with hold | hnew
    · exact h.carries opened hold
    · obtain rfl := List.mem_singleton.mp hnew
      exact BindingTransaction.carries_begin base
  | apply i step =>
    refine ⟨h.bound, fun opened hopened => ?_⟩
    obtain ⟨k, hk⟩ := List.mem_iff_getElem?.mp hopened
    have hk : (s.opened.modify i (·.apply step))[k]? = some opened := hk
    rw [List.getElem?_modify] at hk
    obtain ⟨old, hold, rfl⟩ := Option.map_eq_some_iff.mp hk
    have hcarries := h.carries old (List.mem_of_getElem? hold)
    split
    · exact BindingTransaction.carries_apply hcarries step
    · exact hcarries
  | clone i =>
    refine ⟨h.bound, fun opened hopened => ?_⟩
    rcases List.mem_append.mp hopened with hold | hnew
    · exact h.carries opened hold
    · exact h.carries opened (List.mem_of_getElem? (Option.mem_toList.mp hnew))
  | publish i =>
    refine ⟨?_, fun opened hopened => h.carries opened (List.mem_of_mem_eraseIdx hopened)⟩
    simp only [step, published]
    cases hopened : s.opened[i]? with
    | none => exact h.bound
    | some opened =>
      rcases s.publication.publish_cases opened.tx policy with ⟨err, herr⟩ |
        ⟨next, hnext, -, -, hbound⟩
      · simp only [Option.map_some, herr]
        exact h.bound
      · simp only [Option.map_some, hnext]
        exact hbound
  | rollback i =>
    exact ⟨h.bound, fun opened hopened => h.carries opened (List.mem_of_mem_eraseIdx hopened)⟩

/-- What one publish of the `i`-th transaction guarantees. -/
structure PublishSound (policy : BlockEntityTypePolicy) (s : BindingSession) (i : Nat)
    (opened : OpenTransaction) : Prop where
  failed : ∀ err, (s.publication.publish opened.tx policy).1 = .error err →
    (s.step policy (.publish i)).publication = s.publication
  stale : opened.tx.base ≠ s.publication.current →
    ∃ err, (s.publication.publish opened.tx policy).1 = .error err
  split : ∀ a ∈ opened.carried, ∀ b ∈ opened.carried, a ≠ b →
    ∃ err, (s.publication.publish opened.tx policy).1 = .error err

theorem publishSound (h : Consistent policy s) {i : Nat} {opened : OpenTransaction}
    (hopened : s.opened[i]? = some opened) : PublishSound policy s i opened := by
  have hcarries := h.carries opened (List.mem_of_getElem? hopened)
  rcases s.publication.publish_cases opened.tx policy with ⟨err, herr⟩ |
    ⟨next, hnext, hbase, hsplit, -⟩
  · have hfailed : ∃ err, (s.publication.publish opened.tx policy).1 = .error err :=
      ⟨err, congrArg Prod.fst herr⟩
    refine ⟨fun _ _ => ?_, fun _ => hfailed, fun _ _ _ _ _ => hfailed⟩
    simp only [step, published, hopened, Option.map_some, herr, Option.getD_some]
  · refine ⟨fun err herr => ?_, fun hne => absurd hbase.symm hne, fun a ha b hb hne => ?_⟩
    · rw [hnext] at herr
      cases herr
    · rw [hcarries.split_of_two ha hb hne] at hsplit
      cases hsplit

/-- **Bindings hold.** From a state its constructor accepted, through any steps on any
transactions and any publishes under one policy: in every state reached the cells, the
table and the registry agree; a failed publish changes nothing; and a transaction that
began elsewhere, or whose steps carry two commit ids, is not published. -/
theorem bindings_hold (policy : BlockEntityTypePolicy) (blocks : SectionStorage)
    (references : SparseReferenceTable) (entities : List EntityRecord) (initial : BindingState)
    (hnew : BindingState.new blocks references entities policy = .ok initial)
    (ops : List BindingOp) :
    (∀ s ∈ visited (step policy) (.start initial) ops, Bound policy s.publication.current) ∧
    Along (step policy) (fun s op => ∀ i opened, op = .publish i → s.opened[i]? = some opened →
      PublishSound policy s i opened) (.start initial) ops := by
  have hstart : Consistent policy (.start initial) :=
    ⟨BindingState.bound_of_new hnew, fun opened hopened => absurd hopened List.not_mem_nil⟩
  have hany : Along (step policy) (fun _ _ => True) (.start initial) ops :=
    along_of_forall (fun _ _ => trivial) _ _
  have hstep : ∀ (s : BindingSession) (op : BindingOp), Consistent policy s → True →
      Consistent policy (s.step policy op) := fun s op h _ => consistent_step h op
  constructor
  · exact fun s hs => (visited_invariant_along hstep hstart hany s hs).bound
  · exact along_of_invariant hstep (fun s op h _ i opened _ hopened => publishSound h hopened)
      hstart hany

end BindingSession

/-! ## 8. A chest -/

/-- Plain blocks everywhere. -/
def plainState : BindingState := ⟨.uniform ⟨0⟩, ∅, ∅⟩

theorem plainState_new {policy : BlockEntityTypePolicy}
    (hplain : policy.requiresEntity (BlockId.blockType ⟨0⟩) = false) :
    BindingState.new (.uniform ⟨0⟩) ∅ [] policy = .ok plainState := by
  have hcells : foldSteps (fun _ raw => plainState.checkCell policy raw) ()
      (List.range SECTION_CELLS) = .ok () := by
    apply foldSteps_of_forall
    intro raw hraw
    obtain ⟨offset, rfl⟩ := CellOffset.exists_index (List.mem_range.mp hraw)
    rw [BindingState.checkCell_index]
    refine iff_of_false ?_ (not_not.mpr (BTreeMap.getElem?_empty _))
    rw [plainState, SectionStorage.read_uniform, hplain]
    exact Bool.false_ne_true
  have hvalid : plainState.validate policy = .ok () := by
    have hnone : plainState.references.toList = [] := BTreeMap.toList_empty
    have hnobody : plainState.entities.toList = [] := BTreeMap.toList_empty
    simp only [BindingState.validate, hnone, hnobody, hcells]
    rfl
  simp only [BindingState.new, foldSteps, ok_bind]
  exact bind_eq_ok.mpr ⟨(), hvalid, rfl⟩

/-- Blocks of type 1000 are chests. -/
def chestPolicy : BlockEntityTypePolicy where
  entityTypeFor blockType := if blockType.raw = 1000 then some "chest" else none

namespace BindingSession

/-- A chest placed, published, and taken away under a commit id of another step. -/
def chestSteps : List BindingOp :=
  [.begin plainState, .apply 0 (.place ⟨17, by decide⟩ ⟨256000⟩ ⟨"entity-1", "chest", true⟩),
    .publish 0, .begin plainState, .apply 0 (.block 1 ⟨17, by decide⟩ ⟨0⟩),
    .apply 0 (.entityRemoved 2 "entity-1"), .publish 0]

theorem bindings_hold_chest :
    (∀ s ∈ visited (step chestPolicy) (.start plainState) chestSteps,
      Bound chestPolicy s.publication.current) ∧
    Along (step chestPolicy) (fun s op => ∀ i opened, op = .publish i →
      s.opened[i]? = some opened → PublishSound chestPolicy s i opened)
      (.start plainState) chestSteps :=
  bindings_hold chestPolicy (.uniform ⟨0⟩) ∅ [] plainState (plainState_new (by decide)) chestSteps

end BindingSession

end LumioVoxel
