import LumioVoxel.BlockReads

/-!
# Query execution

A plan names sections in canonical order and the cut it was made for.  Executing
it walks the directory of one captured view, charges every section to the
budget, asks the guard about each presence before anything is returned, and
never reads a payload.
-/

namespace LumioVoxel

open Fallible

/-! ## 1. Section access -/

structure SectionAccessResult where
  sectionId : String
  presence : Presence
  schemaId : Option String
  deriving DecidableEq

/-- Only a ready section names the schema of its pages. -/
def slotSchemaId (slot : SectionSlot) : Except QueryError (Option String) :=
  if slot.presence = .ready then
    (someOr slot.payload .invalidHandle).map fun _ => some SECTION_PAGE_SCHEMA
  else .ok none

/-- The directory's answer for one key.  A section without a slot is `Unchanged`:
nothing was ever published for it. -/
def access (view : PublishedReadView) (sectionId : String) :
    Except QueryError SectionAccessResult :=
  match view.root.directory.lookup sectionId with
  | .ok (some slot) => do
    let schemaId ← slotSchemaId slot
    return ⟨sectionId, slot.presence, schemaId⟩
  | .ok none => .ok ⟨sectionId, .unchanged, none⟩
  | .error (.key err) => .error (.fromKey err)
  | .error _ => .error .invalidHandle

/-! ## 2. The executor -/

structure QueryPlan where
  canonicalSections : List String
  readStamp : RevisionStamp
  budget : Nat
  configHash : String
  cancelToken : String
  planHash : Digest

structure QueryEvidence where
  readStamp : RevisionStamp
  budgetUsed : Nat
  missingStates : List SectionAccessResult
  planHash : Digest

structure VoxelQueryOutcome where
  items : List SectionAccessResult
  evidence : QueryEvidence

/-- Whether a request is over the budget; a budget of zero admits nothing. -/
def budgetExceeds (requested maxSections : Nat) : Prop :=
  maxSections = 0 ∨ maxSections < requested

instance (requested maxSections : Nat) : Decidable (budgetExceeds requested maxSections) :=
  inferInstanceAs (Decidable (_ ∨ _))

def assemble (items : List SectionAccessResult) (readStamp : RevisionStamp) (budgetUsed : Nat)
    (planHash : Digest) : VoxelQueryOutcome :=
  ⟨items, readStamp, budgetUsed, items.filter (·.presence ≠ .ready), planHash⟩

namespace QueryExecutor

/-- The view shows the cut the plan was made for. -/
def bindCut (plan : QueryPlan) (view : PublishedReadView) : Except QueryError Unit := do
  let planned := plan.readStamp
  let observed := view.root.stamp
  require (planned.worldId = observed.worldId ∧ planned.contextId = observed.contextId ∧
    planned.generation = observed.generation ∧
    planned.worldRevision = observed.worldRevision) .invalidHandle
  require (plan.cancelToken ≠ "") .invalidHandle

def checkGuard (guard : Option SectionPresenceGuard) (item : SectionAccessResult) :
    Except QueryError Unit :=
  match guard with
  | some guard => (guard item.sectionId item.presence.name).mapError QueryError.contract
  | none => .ok ()

/-- One section of the walk: charge it, look it up, ask the guard. -/
def walkSection (budget : Nat) (view : PublishedReadView) (guard : Option SectionPresenceGuard)
    (progress : Nat × List SectionAccessResult) (sectionId : String) :
    Except QueryError (Nat × List SectionAccessResult) := do
  let used := progress.1 + 1
  require (used < 2 ^ 64) .budgetExceeded
  require (¬ budgetExceeds used budget) .budgetExceeded
  let item ← access view sectionId
  checkGuard guard item
  return (used, progress.2 ++ [item])

def walkBound (plan : QueryPlan) (view : PublishedReadView) (alreadyUsed : Nat)
    (guard : Option SectionPresenceGuard) : Except QueryError VoxelQueryOutcome := do
  require (¬ budgetExceeds alreadyUsed plan.budget) .budgetExceeded
  let (used, items) ← foldSteps (walkSection plan.budget view guard) (alreadyUsed, [])
    plan.canonicalSections
  return assemble items plan.readStamp used plan.planHash

def walk (plan : QueryPlan) (view : PublishedReadView) (alreadyUsed : Nat) :
    Except QueryError VoxelQueryOutcome := do
  bindCut plan view
  walkBound plan view alreadyUsed none

def walkWithPresenceGuard (plan : QueryPlan) (view : PublishedReadView) (alreadyUsed : Nat)
    (guard : SectionPresenceGuard) : Except QueryError VoxelQueryOutcome := do
  bindCut plan view
  walkBound plan view alreadyUsed (some guard)

def execute (plan : QueryPlan) (view : PublishedReadView) : Except QueryError VoxelQueryOutcome :=
  walk plan view 0

def executeWithPresenceGuard (plan : QueryPlan) (view : PublishedReadView)
    (guard : SectionPresenceGuard) : Except QueryError VoxelQueryOutcome :=
  walkWithPresenceGuard plan view 0 guard

end QueryExecutor

/-! ## 3. What an outcome reports -/

/-- The presence the directory reports for a section. -/
def accessPresence (root : PublishedStateRoot) (id : SectionId) : Presence :=
  match root.directory.entries[id]? with
  | some slot => slot.presence
  | none => .unchanged

/-- A canonical key always has an answer. -/
theorem access_key (view : PublishedReadView) (id : SectionId) :
    ∃ schemaId, access view id.key = .ok ⟨id.key, accessPresence view.root id, schemaId⟩ := by
  simp only [access, SectionDirectoryRoot.lookup_key, accessPresence]
  cases view.root.directory.entries[id]? with
  | none => exact ⟨none, rfl⟩
  | some slot =>
    cases slot with
    | ready payload => exact ⟨some SECTION_PAGE_SCHEMA, rfl⟩
    | unchanged => exact ⟨none, rfl⟩
    | pending => exact ⟨none, rfl⟩
    | unavailable => exact ⟨none, rfl⟩

theorem access_presence {view : PublishedReadView} {id : SectionId} {item : SectionAccessResult}
    (h : access view id.key = .ok item) : item.presence = accessPresence view.root id := by
  obtain ⟨schemaId, hkey⟩ := access_key view id
  rw [h] at hkey
  rw [Except.ok.inj hkey]

theorem access_sectionId {view : PublishedReadView} {raw : String} {item : SectionAccessResult}
    (h : access view raw = .ok item) : item.sectionId = raw := by
  unfold access at h
  split at h
  · obtain ⟨_, -, hitem⟩ := bind_eq_ok.mp h
    obtain rfl := Except.ok.inj hitem
    rfl
  · obtain rfl := Except.ok.inj h
    rfl
  · cases h
  · cases h

namespace QueryExecutor

/-- Every item of an outcome is the directory's answer for its key. -/
theorem walkBound_items {plan : QueryPlan} {view : PublishedReadView} {alreadyUsed : Nat}
    {guard : Option SectionPresenceGuard} {outcome : VoxelQueryOutcome}
    (h : walkBound plan view alreadyUsed guard = .ok outcome) :
    ∀ item ∈ outcome.items, access view item.sectionId = .ok item := by
  obtain ⟨_, -, h⟩ := bind_eq_ok.mp h
  obtain ⟨⟨used, items⟩, hwalk, houtcome⟩ := bind_eq_ok.mp h
  obtain rfl := Except.ok.inj houtcome
  have hstep : ∀ (progress : Nat × List SectionAccessResult) (raw : String)
      (next : Nat × List SectionAccessResult), raw ∈ plan.canonicalSections →
      (∀ item ∈ progress.2, access view item.sectionId = .ok item) →
      walkSection plan.budget view guard progress raw = .ok next →
      ∀ item ∈ next.2, access view item.sectionId = .ok item := by
    intro progress raw next _ hprogress hnext
    simp only [walkSection, bind_eq_ok, require_eq_ok, exists_and_left, exists_const,
      pure_eq_ok] at hnext
    obtain ⟨-, -, found, hfound, _, -, rfl⟩ := hnext
    intro item hitem
    rcases List.mem_append.mp hitem with hold | hnew
    · exact hprogress item hold
    · obtain rfl := List.mem_singleton.mp hnew
      rw [access_sectionId hfound]
      exact hfound
  exact foldSteps_invariant hstep (fun item hitem => absurd hitem List.not_mem_nil) hwalk

end QueryExecutor

end LumioVoxel
