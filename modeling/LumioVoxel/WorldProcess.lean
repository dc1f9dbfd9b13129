import LumioVoxel.LifecycleGate

/-!
# The worlds of one process

Every world takes its instance generation from one counter of the process, and the
ordered shutdown moves a disposed world one generation further on its own.  The two
meet: the generation a world moves on to is the one its successor is created with.
So the context tells them apart or nothing does, and this module says when nothing
does.
-/

namespace LumioVoxel

open DebugText Fallible StepRuns

/-! ## 1. What a world is created from -/

structure WorldConfigAdapter where
  worldId : String
  deriving DecidableEq, Repr

structure WorldDescriptor where
  role : String
  worldContextId : String
  capabilities : List String
  config : WorldConfigAdapter
  deriving DecidableEq, Repr

def VOXEL_WORLD_ROLES : List String := ["Authority", "Replica"]

def internRole (role : String) : Except WorldError String := do
  require (role ≠ "") .invalidHandle
  someOr (VOXEL_WORLD_ROLES.find? fun item => decide (item = role)) .roleMismatch

/-- Finite admission limits, chosen by the host. -/
structure WorldLimits where
  maxPinnedRevisions : Nat
  maxReceipts : Nat
  maxQuerySections : Nat
  deriving DecidableEq, Repr

instance : Inhabited WorldLimits := ⟨⟨64, 4096, 256⟩⟩

/-- The current root and the sealed next one are held together. -/
def WorldLimits.validate (limits : WorldLimits) : Except WorldError WorldLimits := do
  require (¬ (limits.maxPinnedRevisions < 2 ∨ limits.maxReceipts = 0 ∨
    limits.maxQuerySections = 0)) (.mapped "BudgetExceeded")
  return limits

/-- Capability names, sorted and without repetitions. -/
structure HostCapabilitySet where
  names : List String
  deriving DecidableEq, Repr

def HostCapabilitySet.fromNames (names : List String) : HostCapabilitySet :=
  ⟨(names.mergeSort fun a b => decide (a ≤ b)).eraseReps⟩

structure CapabilityError where
  errorId : String
  name : String
  deriving DecidableEq, Repr

/-- Every declared name has to be on the snapshot's allow list. -/
def CapabilityView.derive (declared : HostCapabilitySet) (snapshot : VoxelConfigSnapshot) :
    Except CapabilityError (BTreeMap String Unit) :=
  declared.names.foldlM (fun enabled name => do
    require (name ∈ snapshot.capabilities) ⟨"ClaimNotGranted", name⟩
    return enabled.insert name ()) ∅

def validateCapabilities (requested : List String) (snapshot : VoxelConfigSnapshot) :
    Except WorldError Unit := do
  require (requested ≠ []) .claimNotGranted
  let _ ← (CapabilityView.derive (.fromNames requested) snapshot).mapError fun err =>
    WorldError.mapped err.errorId
  return ()

/-- What is checked before a generation is taken from the counter. -/
def WorldDescriptor.admitted (descriptor : WorldDescriptor) (snapshot : VoxelConfigSnapshot)
    (limits : WorldLimits) : Except WorldError WorldLimits := do
  let limits ← limits.validate
  let _ ← internRole descriptor.role
  require (¬ (descriptor.worldContextId = "" ∨ descriptor.config.worldId = "")) .invalidHandle
  validateCapabilities descriptor.capabilities snapshot
  return limits

theorem WorldDescriptor.admitted_eq_ok {descriptor : WorldDescriptor} {snapshot : VoxelConfigSnapshot}
    {limits checked : WorldLimits} (h : descriptor.admitted snapshot limits = .ok checked) :
    checked = limits ∧ 2 ≤ limits.maxPinnedRevisions ∧ limits.maxReceipts ≠ 0 ∧
      limits.maxQuerySections ≠ 0 ∧ descriptor.config.worldId ≠ "" ∧
      descriptor.worldContextId ≠ "" := by
  simp only [admitted, WorldLimits.validate, bind_eq_ok, require_eq_ok, pure_eq_ok, not_or,
    Nat.not_lt] at h
  obtain ⟨_, ⟨-, ⟨hpins, hreceipts, hsections⟩, rfl⟩, _, -, -, ⟨hcontext, hworld⟩, -, -, rfl⟩ := h
  exact ⟨rfl, hpins, hreceipts, hsections, hworld, hcontext⟩

/-! ## 2. Creation -/

/-- Zero is invalid; the largest value is a permanent sentinel and never wraps.
Returns the value taken and the counter after it. -/
def allocateFrom (counter : UInt64) : Except WorldError (UInt64 × UInt64) := do
  require (counter ≠ 0) .invalidHandle
  let next ← someOr (checkedSucc counter) .invalidHandle
  return (counter, next)

theorem allocateFrom_eq_ok {counter generation next : UInt64} :
    allocateFrom counter = .ok (generation, next) ↔
      counter ≠ 0 ∧ generation = counter ∧ next.toNat = counter.toNat + 1 := by
  simp only [allocateFrom, bind_eq_ok, require_eq_ok, someOr_eq_ok, pure_eq_ok, Prod.mk.injEq,
    checkedSucc_eq_some, exists_and_left, exists_const]
  constructor
  · rintro ⟨hne, _, hnext, rfl, rfl⟩
    exact ⟨hne, rfl, hnext⟩
  · rintro ⟨hne, rfl, hnext⟩
    exact ⟨hne, next, hnext, rfl, rfl⟩

def initialRoot (worldId contextId : String) (generation : UInt64) :
    Except WorldError PublishedStateRoot := do
  let dirty ← (DirtyFrontier.new worldId generation).mapError .fromDirty
  return .new ⟨REVISION_STAMP_SCHEMA, worldId, contextId, generation, 0, ∅⟩
    SectionDirectoryBuilder.new.freeze dirty

def bindQueryPlanner (snapshot : VoxelConfigSnapshot) (maxSections : Nat) :
    Except WorldError QueryPlanner :=
  (QueryPlanner.fromApprovedSnapshot snapshot maxSections).mapError .fromQuery

/-- The world of a generation that was just taken. -/
def WorldDescriptor.build (descriptor : WorldDescriptor) (snapshot : VoxelConfigSnapshot)
    (limits : WorldLimits) (generation : UInt64) : Except WorldError WorldInstance := do
  let worldId := descriptor.config.worldId
  let contextId := descriptor.worldContextId
  let root ← initialRoot worldId contextId generation
  let authority ← (PublicationAuthority.new worldId contextId generation
    (.new limits.maxPinnedRevisions contextId generation) root).mapError .fromPublish
  let ledger ← (ReceiptLedger.fromApprovedSnapshot snapshot.configHash
    limits.maxReceipts).mapError .fromLedger
  let queryPlanner ← bindQueryPlanner snapshot limits.maxQuerySections
  return ⟨worldId, contextId, generation, snapshot, .created, authority, ledger, queryPlanner,
    false, none⟩

/-- Returns the counter too: a generation that was taken is not given back. -/
def createWithLimits (counter : UInt64) (descriptor : WorldDescriptor)
    (snapshot : VoxelConfigSnapshot) (limits : WorldLimits) :
    Except WorldError WorldInstance × UInt64 :=
  match descriptor.admitted snapshot limits with
  | .error err => (.error err, counter)
  | .ok limits =>
    match allocateFrom counter with
    | .error err => (.error err, counter)
    | .ok (generation, counter) => (descriptor.build snapshot limits generation, counter)

theorem initialRoot_of {worldId : String} (hworld : worldId ≠ "") (contextId : String)
    (generation : UInt64) :
    ∃ root, initialRoot worldId contextId generation = .ok root ∧
      root.stamp.BelongsTo worldId contextId generation := by
  rw [initialRoot, DirtyFrontier.new, require_of hworld, ok_bind]
  exact ⟨_, rfl, rfl, rfl, rfl, rfl⟩

/-- After the checks nothing can fail. -/
theorem WorldDescriptor.build_of_admitted {descriptor : WorldDescriptor}
    {snapshot : VoxelConfigSnapshot} {limits checked : WorldLimits}
    (h : descriptor.admitted snapshot limits = .ok checked) (generation : UInt64) :
    ∃ world, descriptor.build snapshot checked generation = .ok world ∧
      world.worldContextId = descriptor.worldContextId ∧ world.generation = generation ∧
      world.state = .created := by
  obtain ⟨rfl, hpins, hreceipts, hsections, hworld, hcontext⟩ := admitted_eq_ok h
  obtain ⟨root, hroot, hstamp⟩ := initialRoot_of hworld descriptor.worldContextId generation
  obtain ⟨authority, hauthority, -⟩ := PublicationAuthority.new_of (n := 1) ⟨hworld, hcontext⟩
    hstamp hpins (by decide)
  refine ⟨⟨descriptor.config.worldId, descriptor.worldContextId, generation, snapshot, .created,
    authority, ⟨snapshot.configHash, checked.maxReceipts, ∅, 0, none, none⟩,
    ⟨snapshot, checked.maxQuerySections⟩, false, none⟩, ?_, rfl, rfl, rfl⟩
  rw [build, hroot, ok_bind, hauthority, mapError_ok, ok_bind, ReceiptLedger.fromApprovedSnapshot,
    require_of hreceipts, ok_bind, bindQueryPlanner, QueryPlanner.fromApprovedSnapshot,
    require_of hsections, ok_bind]
  rfl

/-- What a creation needs: the checks pass, and the counter has a value left. -/
def WorldDescriptor.Creatable (descriptor : WorldDescriptor) (snapshot : VoxelConfigSnapshot)
    (limits : WorldLimits) (counter : UInt64) : Prop :=
  (∃ checked, descriptor.admitted snapshot limits = .ok checked) ∧
    ∃ r, allocateFrom counter = .ok r

/-- The world carries the counter's value, and the counter moves past it. -/
theorem createWithLimits_of {counter : UInt64} {descriptor : WorldDescriptor}
    {snapshot : VoxelConfigSnapshot} {limits : WorldLimits}
    (h : descriptor.Creatable snapshot limits counter) :
    ∃ world next, createWithLimits counter descriptor snapshot limits = (.ok world, next) ∧
      next.toNat = counter.toNat + 1 ∧ world.worldContextId = descriptor.worldContextId ∧
      world.generation = counter ∧ world.state = .created := by
  obtain ⟨⟨checked, hadmit⟩, ⟨generation, next⟩, hallocate⟩ := h
  obtain ⟨-, rfl, hnext⟩ := allocateFrom_eq_ok.mp hallocate
  obtain ⟨world, hbuild, hworld⟩ := WorldDescriptor.build_of_admitted hadmit generation
  refine ⟨world, next, ?_, hnext, hworld⟩
  simp only [createWithLimits, hadmit, hallocate, hbuild]

theorem createWithLimits_of_not {counter : UInt64} {descriptor : WorldDescriptor}
    {snapshot : VoxelConfigSnapshot} {limits : WorldLimits}
    (h : ¬ descriptor.Creatable snapshot limits counter) :
    ∃ err, createWithLimits counter descriptor snapshot limits = (.error err, counter) := by
  cases hadmit : descriptor.admitted snapshot limits with
  | error err => exact ⟨err, by simp only [createWithLimits, hadmit]⟩
  | ok checked =>
    cases hallocate : allocateFrom counter with
    | error err => exact ⟨err, by simp only [createWithLimits, hadmit, hallocate]⟩
    | ok r => exact absurd ⟨⟨checked, hadmit⟩, r, hallocate⟩ h

/-! ## 3. What a world's own operations do to its identity -/

section Process

variable [UnicodeTables]

omit [UnicodeTables] in
/-- The operation gets to the end of the ordered shutdown. -/
def WorldInstance.Finalizes (world : WorldInstance) : WorldOp → Prop
  | .finalize => world.state = .snapshotted
  | .trip cause diagnosticName =>
    cause ≠ "" ∧ diagnosticName ≠ "" ∧
      WorldShutdown.shutdownAdmissible world.state = true ∧ world.state ≠ .disposed
  | _ => False

omit [UnicodeTables] in
/-- The same identity, and no way back from the disposed state. -/
structure SameIdentity (old new : WorldInstance) : Prop where
  contextId : new.worldContextId = old.worldContextId
  generation : new.generation = old.generation
  disposed : old.state = .disposed → new.state = .disposed

omit [UnicodeTables] in
/-- Disposed, and one generation further. -/
structure MovedOn (old new : WorldInstance) : Prop where
  contextId : new.worldContextId = old.worldContextId
  generation : new.generation = WorldShutdown.invalidateGeneration old.generation
  before : old.state ≠ .disposed
  disposed : new.state = .disposed

namespace WorldShutdown

omit [UnicodeTables] in
theorem finalize_sameIdentity {world : WorldInstance} (h : world.state ≠ .snapshotted) :
    SameIdentity world (finalize world).2 := by
  rcases finalize_cases world with hsame | ⟨hedge, -⟩
  · rw [hsame]
    exact ⟨rfl, rfl, id⟩
  · exact absurd ((edge_ends hedge).2.2 rfl).2 h

omit [UnicodeTables] in
theorem finalize_movedOn {world : WorldInstance} (h : world.state = .snapshotted) :
    MovedOn world (finalize world).2 := by
  have hreached : sequenceReached world.state .disposed = false := by rw [h]; decide
  have hedge : world.state.apply .dispose .disposed = .ok .disposed := by rw [h]; decide
  unfold finalize
  rw [hreached, hedge]
  exact ⟨rfl, rfl, by rw [h]; decide, rfl⟩

omit [UnicodeTables] in
theorem begin_sameIdentity (world : WorldInstance) : SameIdentity world (begin world).2 := by
  rcases begin_cases world with hsame | ⟨hedge, hmoved⟩
  · rw [hsame]
    exact ⟨rfl, rfl, id⟩
  · rw [hmoved]
    exact ⟨rfl, rfl, fun h => absurd h (edge_ends hedge).1⟩

omit [UnicodeTables] in
theorem drain_sameIdentity (world : WorldInstance) : SameIdentity world (drain world).2 := by
  rcases drain_cases world with hsame | ⟨hedge, hmoved⟩
  · rw [hsame]
    exact ⟨rfl, rfl, id⟩
  · rw [hmoved]
    exact ⟨rfl, rfl, fun h => absurd h (edge_ends hedge).1⟩

omit [UnicodeTables] in
theorem begin_of_admissible {world : WorldInstance} (h : shutdownAdmissible world.state = true)
    (hlive : world.state ≠ .disposed) :
    ∃ next, begin world = (.ok (), next) ∧ (next.state = .draining ∨ next.state = .snapshotted) := by
  by_cases hreached : sequenceReached world.state .draining = true
  · refine ⟨world, if_pos hreached, ?_⟩
    generalize world.state = state at hreached hlive ⊢
    revert hreached hlive
    cases state <;> decide
  · have hedge : world.state.apply .drain .draining = .ok .draining := by
      generalize world.state = state at h hreached
      revert h hreached
      cases state <;> decide
    refine ⟨{ world with state := .draining }, ?_, .inl rfl⟩
    rw [begin, if_neg hreached, hedge]

omit [UnicodeTables] in
theorem drain_of_draining {world : WorldInstance}
    (h : world.state = .draining ∨ world.state = .snapshotted) :
    ∃ next, drain world = (.ok (), next) ∧ next.state = .snapshotted := by
  rcases h with hdraining | hsnapshotted
  · refine ⟨{ world with state := .snapshotted, ledger := world.ledger.abortInFlight }, ?_, rfl⟩
    rw [drain, hdraining]
    rfl
  · refine ⟨world, ?_, hsnapshotted⟩
    rw [drain, hsnapshotted]
    rfl

omit [UnicodeTables] in
/-- A trip that gets through ends like the ordered shutdown. -/
theorem trip_movedOn {world : WorldInstance} {cause diagnosticName : String} (hcause : cause ≠ "")
    (hname : diagnosticName ≠ "") (hadmissible : shutdownAdmissible world.state = true)
    (hlive : world.state ≠ .disposed) : MovedOn world (trip world cause diagnosticName).2 := by
  obtain ⟨draining, hbegin, hdraining⟩ := begin_of_admissible hadmissible hlive
  obtain ⟨snapshotted, hdrain, hsnapshotted⟩ := drain_of_draining hdraining
  have hsame₁ := begin_sameIdentity world
  have hsame₂ := drain_sameIdentity draining
  rw [hbegin] at hsame₁
  rw [hdrain] at hsame₂
  obtain ⟨hcontext, hgeneration, -, hdisposed⟩ := finalize_movedOn hsnapshotted
  have hchecks : ¬ (cause = "" ∨ diagnosticName = "" ∨ shutdownAdmissible world.state = false) := by
    rintro (h | h | h)
    · exact hcause h
    · exact hname h
    · rw [hadmissible] at h
      cases h
  rw [trip, if_neg hchecks, hbegin]
  simp only [hdrain]
  refine ⟨?_, ?_, hlive, hdisposed⟩
  · rw [hcontext, hsame₂.contextId, hsame₁.contextId]
  · rw [hgeneration, hsame₂.generation, hsame₁.generation]

omit [UnicodeTables] in
theorem trip_sameIdentity {world : WorldInstance} {cause diagnosticName : String}
    (h : ¬ world.Finalizes (.trip cause diagnosticName)) :
    SameIdentity world (trip world cause diagnosticName).2 := by
  by_cases hdisposed : world.state = .disposed
  · unfold trip
    split
    · exact ⟨rfl, rfl, id⟩
    · have hbegin : begin world = (.ok (), world) := if_pos (by rw [hdisposed]; rfl)
      have hdrain : drain world = (.ok (), world) := if_pos (by rw [hdisposed]; rfl)
      have hfinalize : finalize world = (.ok (), world) := if_pos (by rw [hdisposed]; rfl)
      simp only [hbegin, hdrain, hfinalize]
      exact ⟨rfl, rfl, id⟩
  · have hrefused : cause = "" ∨ diagnosticName = "" ∨ shutdownAdmissible world.state = false := by
      by_contra hall
      rw [not_or, not_or, Bool.not_eq_false] at hall
      exact h ⟨hall.1, hall.2.1, hall.2.2, hdisposed⟩
    rw [trip, if_pos hrefused]
    exact ⟨rfl, rfl, id⟩

end WorldShutdown

namespace WorldSession

/-- **One operation.** It leaves the identity alone, or it is the one that moves it on. -/
theorem identity_step (s : WorldSession) (op : WorldOp) :
    s.world.Finalizes op ∧ MovedOn s.world (s.step op).world ∨
      ¬ s.world.Finalizes op ∧ SameIdentity s.world (s.step op).world := by
  by_cases hdrives : op.Drives
  · cases op with
    | lifecycle event target origin =>
      refine .inr ⟨id, ?_⟩
      rcases s.lifecycle_step event target origin with hsame | ⟨e, t, htakes, hstep⟩
      · rw [hsame]
        exact ⟨rfl, rfl, id⟩
      · rw [hstep]
        exact ⟨rfl, rfl, fun h => absurd h (edge_ends htakes.edge).1⟩
    | beginShutdown => exact .inr ⟨id, WorldShutdown.begin_sameIdentity s.world⟩
    | drain => exact .inr ⟨id, WorldShutdown.drain_sameIdentity s.world⟩
    | finalize =>
      by_cases h : s.world.state = .snapshotted
      · exact .inl ⟨h, WorldShutdown.finalize_movedOn h⟩
      · exact .inr ⟨h, WorldShutdown.finalize_sameIdentity h⟩
    | trip cause diagnosticName =>
      by_cases h : s.world.Finalizes (.trip cause diagnosticName)
      · exact .inl ⟨h, WorldShutdown.trip_movedOn h.1 h.2.1 h.2.2.1 h.2.2.2⟩
      · exact .inr ⟨h, WorldShutdown.trip_sameIdentity h⟩
    | _ => exact absurd hdrives id
  · obtain ⟨hstate, hgeneration, hcontext⟩ := s.sameSession_step op hdrives
    refine .inr ⟨?_, hcontext, hgeneration, hstate.trans⟩
    cases op with
    | finalize => exact absurd trivial hdrives
    | trip cause diagnosticName => exact absurd trivial hdrives
    | _ => exact id

end WorldSession

/-! ## 4. The process -/

omit [UnicodeTables] in
/-- The token carries the guard's context and generation. -/
def OriginToken.StampedBy (origin : OriginToken) (generationGuard : InstanceGenerationGuard) :
    Prop :=
  origin.worldContextId = generationGuard.worldContextId ∧
    origin.instanceGeneration = generationGuard.generation

/-- Worlds in the order they were created; a disposed one stays where it is. -/
structure WorldProcess where
  nextInstanceGeneration : UInt64
  worlds : List WorldSession

inductive ProcessOp where
  | create (descriptor : WorldDescriptor) (snapshot : VoxelConfigSnapshot) (limits : WorldLimits)
  | drive (i : Nat) (op : WorldOp)

namespace WorldProcess

def start : WorldProcess := ⟨1, []⟩

def step (p : WorldProcess) : ProcessOp → WorldProcess
  | .create descriptor snapshot limits =>
    match createWithLimits p.nextInstanceGeneration descriptor snapshot limits with
    | (.ok world, next) => ⟨next, p.worlds ++ [.start world]⟩
    | (.error _, next) => { p with nextInstanceGeneration := next }
  | .drive i op => { p with worlds := p.worlds.modify i (·.step op) }

variable {p : WorldProcess}

theorem create_step {descriptor : WorldDescriptor} {snapshot : VoxelConfigSnapshot}
    {limits : WorldLimits}
    (h : descriptor.Creatable snapshot limits p.nextInstanceGeneration) :
    ∃ world next, p.step (.create descriptor snapshot limits) =
        ⟨next, p.worlds ++ [.start world]⟩ ∧
      next.toNat = p.nextInstanceGeneration.toNat + 1 ∧
      world.generationGuard = ⟨descriptor.worldContextId, p.nextInstanceGeneration⟩ ∧
      world.state = .created := by
  obtain ⟨world, next, hcreate, hnext, hcontext, hgeneration, hstate⟩ := createWithLimits_of h
  refine ⟨world, next, ?_, hnext, ?_, hstate⟩
  · simp only [step, hcreate]
  · rw [WorldInstance.generationGuard, hcontext, hgeneration]

theorem create_step_refused {descriptor : WorldDescriptor} {snapshot : VoxelConfigSnapshot}
    {limits : WorldLimits}
    (h : ¬ descriptor.Creatable snapshot limits p.nextInstanceGeneration) :
    p.step (.create descriptor snapshot limits) = p := by
  obtain ⟨err, hcreate⟩ := createWithLimits_of_not h
  simp only [step, hcreate]

theorem getElem?_drive (p : WorldProcess) (i j : Nat) (op : WorldOp) :
    (p.step (.drive i op)).worlds[j]? =
      if i = j then p.worlds[j]?.map (·.step op) else p.worlds[j]? := by
  simp only [step, List.getElem?_modify]
  split
  · rfl
  · exact Option.map_id'

/-- The new world comes after the others. -/
private theorem getElem?_append_world {worlds : List WorldSession} {world w : WorldSession} {i : Nat}
    (h : (worlds ++ [world])[i]? = some w) :
    worlds[i]? = some w ∨ i = worlds.length ∧ w = world := by
  rw [List.getElem?_append] at h
  split at h
  · exact .inl h
  · obtain ⟨hlt, hw⟩ := List.getElem?_eq_some_iff.mp h
    rw [List.length_singleton] at hlt
    refine .inr ⟨by omega, ?_⟩
    rw [← hw, List.getElem_singleton]

/-! ## 5. Numbers -/

/-- The world at `i` was created with the generation `i + 1`, and carries that one or,
disposed, the next. -/
structure Numbered (p : WorldProcess) : Prop where
  next : p.nextInstanceGeneration.toNat = p.worlds.length + 1
  generation : ∀ (i : Nat) (w : WorldSession), p.worlds[i]? = some w →
    w.world.generation.toNat = i + 1 ∨
    w.world.state = .disposed ∧ w.world.generation.toNat = i + 2

theorem numbered_start : start.Numbered where
  next := rfl
  generation i w h := by cases h

omit [UnicodeTables] in
theorem toNat_invalidateGeneration {generation : UInt64} (h : generation.toNat + 1 < 2 ^ 64) :
    (WorldShutdown.invalidateGeneration generation).toNat = generation.toNat + 1 := by
  have hsucc : (generation + 1).toNat = generation.toNat + 1 := by
    rw [UInt64.toNat_add, UInt64.toNat_one, Nat.mod_eq_of_lt h]
  have hne : generation + 1 ≠ 0 := by
    intro hzero
    rw [hzero] at hsucc
    cases hsucc
  rw [WorldShutdown.invalidateGeneration, if_neg hne, hsucc]

/-- A world that is still to be disposed moves on to its successor's generation. -/
theorem Numbered.movedOn (h : p.Numbered) {i : Nat} {w : WorldSession} {new : WorldInstance}
    (hw : p.worlds[i]? = some w) (hmoved : MovedOn w.world new) : new.generation.toNat = i + 2 := by
  have hlt : i < p.worlds.length := (List.getElem?_eq_some_iff.mp hw).1
  have hmax := p.nextInstanceGeneration.toNat_lt
  have hnext := h.next
  rcases h.generation i w hw with hgeneration | ⟨hdisposed, -⟩
  · rw [hmoved.generation, toNat_invalidateGeneration (by omega), hgeneration]
  · exact absurd hdisposed hmoved.before

theorem numbered_step (h : p.Numbered) (op : ProcessOp) : (p.step op).Numbered := by
  cases op with
  | create descriptor snapshot limits =>
    by_cases hcreatable : descriptor.Creatable snapshot limits p.nextInstanceGeneration
    · obtain ⟨world, next, hstep, hnext, hguard, -⟩ := create_step hcreatable
      have hgeneration : world.generation = p.nextInstanceGeneration :=
        congrArg InstanceGenerationGuard.generation hguard
      rw [hstep]
      refine ⟨?_, ?_⟩
      · simp only [List.length_append, List.length_singleton]
        rw [hnext, h.next]
      · intro i w hw
        rcases getElem?_append_world hw with hold | ⟨rfl, rfl⟩
        · exact h.generation i w hold
        · exact .inl ((congrArg UInt64.toNat hgeneration).trans h.next)
    · rw [create_step_refused hcreatable]
      exact h
  | drive i op =>
    refine ⟨?_, ?_⟩
    · simp only [step, List.length_modify]
      exact h.next
    · intro j w hw
      rw [getElem?_drive] at hw
      split at hw
      · rename_i hij
        subst hij
        obtain ⟨old, hold, rfl⟩ := Option.map_eq_some_iff.mp hw
        rcases old.identity_step op with ⟨-, hmoved⟩ | ⟨-, hsame⟩
        · exact .inr ⟨hmoved.disposed, h.movedOn hold hmoved⟩
        · rw [hsame.generation]
          exact (h.generation i old hold).imp_right fun ⟨hdisposed, hgeneration⟩ =>
            ⟨hsame.disposed hdisposed, hgeneration⟩
      · exact h.generation j w hw

theorem numbered_run (ops : List ProcessOp) : (run step start ops).Numbered := by
  have hstep : ∀ (p : WorldProcess) (op : ProcessOp), p.Numbered → (p.step op).Numbered := by
    intro p op h
    exact numbered_step h op
  exact run_invariant hstep numbered_start ops

/-! ## 6. Whether an identity is ever shared -/

/-- No two worlds carry one guard, at whatever points of the run, and none accepts a
token stamped from another's. -/
structure SoleIdentities (ops : List ProcessOp) : Prop where
  guards : ∀ s ∈ visited step start ops, ∀ t ∈ visited step start ops,
    ∀ (i j : Nat) (w v : WorldSession), i ≠ j → s.worlds[i]? = some w → t.worlds[j]? = some v →
      w.world.generationGuard ≠ v.world.generationGuard
  origins : ∀ s ∈ visited step start ops, ∀ t ∈ visited step start ops,
    ∀ (i j : Nat) (w v : WorldSession), i ≠ j → s.worlds[i]? = some w → t.worlds[j]? = some v →
      ∀ origin : OriginToken, origin.StampedBy w.world.generationGuard →
        v.world.generationGuard.checkOrigin origin ≠ .ok ()

/-- The next world comes from the context of a world that has moved on to the counter's
generation, or a world moves on whose successor is of its own context. -/
def Reuses (p : WorldProcess) : ProcessOp → Prop
  | .create descriptor snapshot limits =>
    descriptor.Creatable snapshot limits p.nextInstanceGeneration ∧
      ∃ w : WorldSession, p.worlds.getLast? = some w ∧ w.world.generation = p.nextInstanceGeneration ∧
        w.world.worldContextId = descriptor.worldContextId
  | .drive i op => ∃ w v : WorldSession, p.worlds[i]? = some w ∧ p.worlds[i + 1]? = some v ∧
      w.world.Finalizes op ∧ v.world.worldContextId = w.world.worldContextId

/-- A world that moved on and its successor are of different contexts. -/
def Apart (p : WorldProcess) : Prop :=
  ∀ (i : Nat) (w v : WorldSession), p.worlds[i]? = some w → p.worlds[i + 1]? = some v →
    w.world.generation.toNat = i + 2 → v.world.worldContextId ≠ w.world.worldContextId

theorem drive_world {i k : Nat} {op : WorldOp} {w : WorldSession}
    (h : (p.step (.drive k op)).worlds[i]? = some w) :
    ∃ old, p.worlds[i]? = some old ∧ w.world.worldContextId = old.world.worldContextId ∧
      (w.world.generation = old.world.generation ∨ k = i ∧ old.world.Finalizes op) := by
  rw [getElem?_drive] at h
  split at h
  · rename_i hki
    obtain ⟨old, hold, rfl⟩ := Option.map_eq_some_iff.mp h
    rcases old.identity_step op with ⟨hfinalizes, hmoved⟩ | ⟨-, hsame⟩
    · exact ⟨old, hold, hmoved.contextId, .inr ⟨hki, hfinalizes⟩⟩
    · exact ⟨old, hold, hsame.contextId, .inl hsame.generation⟩
  · exact ⟨w, h, rfl, .inl rfl⟩

theorem apart_step (hnumbered : p.Numbered) (h : p.Apart) {op : ProcessOp} (hop : ¬ p.Reuses op) :
    (p.step op).Apart := by
  intro i w v hw hv hgeneration
  cases op with
  | create descriptor snapshot limits =>
    by_cases hcreatable : descriptor.Creatable snapshot limits p.nextInstanceGeneration
    · obtain ⟨world, next, hstep, -, hguard, -⟩ := create_step hcreatable
      rw [hstep] at hw hv
      rcases getElem?_append_world hv with hvold | ⟨hlast, rfl⟩
      · rcases getElem?_append_world hw with hwold | ⟨rfl, -⟩
        · exact h i w v hwold hvold hgeneration
        · have hlt := (List.getElem?_eq_some_iff.mp hvold).1
          omega
      · rcases getElem?_append_world hw with hwold | ⟨rfl, -⟩
        · intro hcontext
          apply hop
          refine ⟨hcreatable, w, ?_, ?_, ?_⟩
          · rw [List.getLast?_eq_getElem?, ← hlast, Nat.add_sub_cancel]
            exact hwold
          · apply UInt64.toNat_inj.mp
            rw [hgeneration, hnumbered.next, ← hlast]
          · rw [← hcontext]
            exact congrArg InstanceGenerationGuard.worldContextId hguard
        · omega
    · rw [create_step_refused hcreatable] at hw hv
      exact h i w v hw hv hgeneration
  | drive k op =>
    obtain ⟨oldw, holdw, hcontextw, hwas⟩ := drive_world hw
    obtain ⟨oldv, holdv, hcontextv, -⟩ := drive_world hv
    rw [hcontextw, hcontextv]
    rcases hwas with hsame | ⟨rfl, hfinalizes⟩
    · exact h i oldw oldv holdw holdv (hsame ▸ hgeneration)
    · intro hcontext
      exact hop ⟨oldw, oldv, holdw, holdv, hfinalizes, hcontext⟩

/-- Worlds keep their place and context, and a disposed one its generation. -/
def Later (p q : WorldProcess) : Prop :=
  ∀ (i : Nat) (w : WorldSession), p.worlds[i]? = some w → ∃ v : WorldSession,
    q.worlds[i]? = some v ∧ v.world.worldContextId = w.world.worldContextId ∧
    (w.world.state = .disposed →
      v.world.state = .disposed ∧ v.world.generation = w.world.generation)

theorem Later.refl (p : WorldProcess) : p.Later p := by
  intro i w hw
  exact ⟨w, hw, rfl, fun hdisposed => ⟨hdisposed, rfl⟩⟩

theorem Later.trans {q r : WorldProcess} (hpq : p.Later q) (hqr : q.Later r) : p.Later r := by
  intro i w hw
  obtain ⟨v, hv, hcontext, hkept⟩ := hpq i w hw
  obtain ⟨u, hu, hcontext', hkept'⟩ := hqr i v hv
  refine ⟨u, hu, hcontext'.trans hcontext, ?_⟩
  intro hdisposed
  obtain ⟨hv, hgeneration⟩ := hkept hdisposed
  exact ⟨(hkept' hv).1, (hkept' hv).2.trans hgeneration⟩

theorem later_step (p : WorldProcess) (op : ProcessOp) : p.Later (p.step op) := by
  cases op with
  | create descriptor snapshot limits =>
    by_cases hcreatable : descriptor.Creatable snapshot limits p.nextInstanceGeneration
    · obtain ⟨world, next, hstep, -⟩ := create_step hcreatable
      rw [hstep]
      intro i w hw
      refine ⟨w, ?_, rfl, fun hdisposed => ⟨hdisposed, rfl⟩⟩
      rw [List.getElem?_append_left (List.getElem?_eq_some_iff.mp hw).1]
      exact hw
    · rw [create_step_refused hcreatable]
      exact .refl p
  | drive k op =>
    intro i w hw
    rw [getElem?_drive, hw]
    split
    · refine ⟨w.step op, rfl, ?_⟩
      rcases w.identity_step op with ⟨-, hmoved⟩ | ⟨-, hsame⟩
      · exact ⟨hmoved.contextId, fun hdisposed => absurd hdisposed hmoved.before⟩
      · exact ⟨hsame.contextId, fun hdisposed => ⟨hsame.disposed hdisposed, hsame.generation⟩⟩
    · exact ⟨w, rfl, rfl, fun hdisposed => ⟨hdisposed, rfl⟩⟩

theorem later_run (p : WorldProcess) (ops : List ProcessOp) : p.Later (run step p ops) :=
  run_relation_along (C := fun _ _ => True) Later.refl (fun _ _ _ => Later.trans)
    (fun p op _ => later_step p op) (along_of_forall (fun _ _ => trivial) p ops)

/-- Every world once carried the number of its place. -/
theorem exists_numbered (ops : List ProcessOp) (i : Nat) (w : WorldSession)
    (hw : (run step start ops).worlds[i]? = some w) :
    ∃ s ∈ visited step start ops, ∃ first : WorldSession, s.worlds[i]? = some first ∧
      first.world.generation.toNat = i + 1 ∧
      first.world.worldContextId = w.world.worldContextId := by
  induction ops using List.reverseRecOn generalizing w with
  | nil => cases hw
  | append_singleton ops op ih =>
    have hnumbered := numbered_run ops
    rw [run_append] at hw
    -- a world that was there already is traced back through the run without the last step
    have hold : ∀ old : WorldSession, (run step start ops).worlds[i]? = some old →
        w.world.worldContextId = old.world.worldContextId →
        ∃ s ∈ visited step start (ops ++ [op]), ∃ first : WorldSession, s.worlds[i]? = some first ∧
          first.world.generation.toNat = i + 1 ∧
          first.world.worldContextId = w.world.worldContextId := by
      intro old hat hcontext
      obtain ⟨s, hs, first, hfirst, hgeneration, hsame⟩ := ih old hat
      exact ⟨s, mem_visited_append_left [op] hs, first, hfirst, hgeneration,
        hsame.trans hcontext.symm⟩
    cases op with
    | create descriptor snapshot limits =>
      by_cases hcreatable :
          descriptor.Creatable snapshot limits (run step start ops).nextInstanceGeneration
      · obtain ⟨world, next, hstep, -, hguard, -⟩ := create_step hcreatable
        have hafter : run step (run step start ops) [.create descriptor snapshot limits] =
            ⟨next, (run step start ops).worlds ++ [.start world]⟩ := hstep
        rw [hafter] at hw
        rcases getElem?_append_world hw with hat | ⟨rfl, rfl⟩
        · exact hold w hat rfl
        · refine ⟨_, run_mem_visited _ _, .start world, ?_, ?_, rfl⟩
          · rw [run_append, hafter]
            exact hw
          · exact (congrArg (·.generation.toNat) hguard).trans hnumbered.next
      · refine hold w ?_ rfl
        rw [← create_step_refused hcreatable]
        exact hw
    | drive k op =>
      obtain ⟨old, hat, hcontext, -⟩ := drive_world hw
      exact hold old hat hcontext

omit [UnicodeTables] in
theorem origins_of_guards {g g' : InstanceGenerationGuard} (h : g ≠ g') {origin : OriginToken}
    (hstamped : origin.StampedBy g) : g'.checkOrigin origin ≠ .ok () := by
  intro haccepted
  obtain ⟨-, hcontext, hgeneration⟩ := InstanceGenerationGuard.checkOrigin_eq_ok.mp haccepted
  apply h
  rw [InstanceGenerationGuard.mk.injEq]
  exact ⟨hstamped.1.symm.trans hcontext, hstamped.2.symm.trans hgeneration⟩

/-- Two worlds with one guard are neighbours, and the elder has moved on. -/
theorem guards_ne_of_lt {ops : List ProcessOp} (hapart : (run step start ops).Apart)
    {s t : WorldProcess} (hs : s ∈ visited step start ops) (ht : t ∈ visited step start ops)
    {i j : Nat} {w v : WorldSession} (hij : i < j) (hw : s.worlds[i]? = some w)
    (hv : t.worlds[j]? = some v) : w.world.generationGuard ≠ v.world.generationGuard := by
  intro hguard
  obtain ⟨hcontext, hgeneration⟩ := InstanceGenerationGuard.mk.inj hguard
  obtain ⟨first, rest, rfl, rfl⟩ := mem_visited_iff.mp hs
  obtain ⟨first', rest', hsplit, rfl⟩ := mem_visited_iff.mp ht
  have hnumber := congrArg UInt64.toNat hgeneration
  have hfirst := (numbered_run first).generation i w hw
  have hsecond := (numbered_run first').generation j v hv
  obtain ⟨hdisposed, hmoved⟩ : w.world.state = .disposed ∧ w.world.generation.toNat = i + 2 := by
    rcases hfirst with hplace | hmoved
    · omega
    · exact hmoved
  obtain rfl : j = i + 1 := by omega
  obtain ⟨w', hw', hcontextw, hkept⟩ := later_run (run step start first) rest i w hw
  obtain ⟨v', hv', hcontextv, -⟩ := later_run (run step start first') rest' (i + 1) v hv
  rw [← run_append] at hw'
  rw [← run_append, ← hsplit] at hv'
  apply hapart i w' v' hw' hv'
  · rw [(hkept hdisposed).2]
    exact hmoved
  · rw [hcontextw, hcontextv]
    exact hcontext.symm

/-- A step that reuses an identity gives two worlds one guard. -/
theorem not_reuses_of_sole {ops : List ProcessOp} (h : SoleIdentities ops) :
    Along step (fun p op => ¬ p.Reuses op) start ops := by
  apply along_of_splits
  intro first op rest hsplit hreuses
  have hnumbered := numbered_run first
  have hafter : (run step start first).step op ∈ visited step start ops := by
    rw [hsplit]
    exact mem_visited_iff.mpr ⟨first ++ [op], rest, by simp, run_append ..⟩
  cases op with
  | create descriptor snapshot limits =>
    obtain ⟨hcreatable, w, hlast, hgeneration, hcontext⟩ := hreuses
    obtain ⟨world, next, hstep, -, hguard, -⟩ := create_step hcreatable
    rw [List.getLast?_eq_getElem?] at hlast
    have hlt := (List.getElem?_eq_some_iff.mp hlast).1
    refine h.guards _ hafter _ hafter _ (run step start first).worlds.length w (.start world)
      (Nat.ne_of_lt hlt) ?_ ?_ ?_
    · rw [hstep]
      exact (List.getElem?_append_left hlt).trans hlast
    · rw [hstep]
      exact List.getElem?_concat_length
    · rw [WorldSession.start, hguard, WorldInstance.generationGuard, hgeneration, hcontext]
  | drive i op =>
    obtain ⟨w, v, hw, hv, hfinalizes, hcontext⟩ := hreuses
    obtain ⟨s, hs, v', hv', hnumber, hcontext'⟩ := exists_numbered first (i + 1) v hv
    have hmoved : MovedOn w.world (w.step op).world := by
      rcases w.identity_step op with ⟨-, hmoved⟩ | ⟨hnot, -⟩
      · exact hmoved
      · exact absurd hfinalizes hnot
    refine h.guards _ hafter s (hsplit ▸ mem_visited_append_left _ hs) i (i + 1) (w.step op) v'
      (Nat.ne_of_lt (Nat.lt_succ_self i)) ?_ hv' ?_
    · rw [getElem?_drive, if_pos rfl, hw]
      rfl
    · rw [WorldInstance.generationGuard, WorldInstance.generationGuard,
        InstanceGenerationGuard.mk.injEq]
      refine ⟨?_, ?_⟩
      · rw [hmoved.contextId, hcontext', hcontext]
      · exact UInt64.toNat_inj.mp ((hnumbered.movedOn hw hmoved).trans hnumber.symm)

/-- **Instance identity.** No two worlds of a process ever carry one guard exactly when
no step reuses one. -/
theorem sole_identities_iff (ops : List ProcessOp) :
    SoleIdentities ops ↔ Along step (fun p op => ¬ p.Reuses op) start ops := by
  constructor
  · exact not_reuses_of_sole
  · intro halong
    have hstep : ∀ (p : WorldProcess) (op : ProcessOp), p.Numbered ∧ p.Apart → ¬ p.Reuses op →
        (p.step op).Numbered ∧ (p.step op).Apart := by
      intro p op hinv hop
      exact ⟨numbered_step hinv.1 op, apart_step hinv.1 hinv.2 hop⟩
    have hstart : start.Apart := by
      intro i w v hw
      cases hw
    have hend : (run step start ops).Numbered ∧ (run step start ops).Apart :=
      run_invariant_along hstep ⟨numbered_start, hstart⟩ halong
    have hguards : ∀ s ∈ visited step start ops, ∀ t ∈ visited step start ops,
        ∀ (i j : Nat) (w v : WorldSession), i ≠ j → s.worlds[i]? = some w →
          t.worlds[j]? = some v → w.world.generationGuard ≠ v.world.generationGuard := by
      intro s hs t ht i j w v hij hw hv
      rcases Nat.lt_or_gt_of_ne hij with hlt | hgt
      · exact guards_ne_of_lt hend.2 hs ht hlt hw hv
      · exact (guards_ne_of_lt hend.2 ht hs hgt hv hw).symm
    refine ⟨hguards, ?_⟩
    intro s hs t ht i j w v hij hw hv origin hstamped
    exact origins_of_guards (hguards s hs t ht i j w v hij hw hv) hstamped

/-! ## 7. A world created in the context of a disposed one -/

/-- One world's operations, one after another. -/
theorem run_drive (p : WorldProcess) (i : Nat) (ops : List WorldOp) :
    run step p (ops.map (.drive i)) =
      { p with worlds := p.worlds.modify i (run WorldSession.step · ops) } := by
  induction ops generalizing p with
  | nil =>
    simp only [List.map_nil, run_nil]
    exact congrArg (WorldProcess.mk p.nextInstanceGeneration) (List.modify_id i p.worlds).symm
  | cons op ops ih =>
    rw [List.map_cons, run_cons, ih]
    simp only [step, List.modify_modify_eq]
    rfl

omit [UnicodeTables] in
def sharedDescriptor : WorldDescriptor := ⟨"Authority", "context", ["Native"], ⟨"world"⟩⟩

omit [UnicodeTables] in
theorem sharedDescriptor_creatable {counter : UInt64} (h : counter ≠ 0)
    (hlt : counter.toNat + 1 < 2 ^ 64) :
    sharedDescriptor.Creatable nativeConfig default counter := by
  have hlimits : WorldLimits.validate default = .ok default := by decide
  have hrole : internRole "Authority" = .ok "Authority" := by decide
  have hnames : HostCapabilitySet.fromNames ["Native"] = ⟨["Native"]⟩ := by
    rw [HostCapabilitySet.fromNames, List.mergeSort_singleton]
    rfl
  have hcapabilities : validateCapabilities ["Native"] nativeConfig = .ok () := by
    rw [validateCapabilities, require_of (by decide), ok_bind, hnames]
    rfl
  refine ⟨⟨default, ?_⟩, ⟨(counter, counter + 1), ?_⟩⟩
  · rw [WorldDescriptor.admitted, hlimits, ok_bind]
    simp only [sharedDescriptor, hrole, hcapabilities, ok_bind]
    rfl
  · rw [allocateFrom_eq_ok]
    refine ⟨h, rfl, ?_⟩
    rw [UInt64.toNat_add, UInt64.toNat_one, Nat.mod_eq_of_lt hlt]

/-- Started through the endpoint and shut down in order. -/
def orderedLife : List WorldOp :=
  WorldSession.endpointStart ++ [.beginShutdown, .drain, .finalize]

/-- The first world of the process ends under the second generation. -/
theorem run_orderedLife {s : WorldSession} (hcontext : s.world.worldContextId = "context")
    (hgeneration : s.world.generation = 1) (hstate : s.world.state = .created) :
    (run WorldSession.step s orderedLife).world.generationGuard = ⟨"context", 2⟩ := by
  rw [orderedLife, run_append, WorldSession.run_endpointStart hcontext hgeneration hstate]
  let draining := (s.inState .running).step .beginShutdown
  have hdraining : draining.world.state = .draining := rfl
  obtain ⟨snapshotted, hdrain, hsnapshotted⟩ :=
    @WorldShutdown.drain_of_draining draining.world (.inl hdraining)
  have hbegin : SameIdentity (s.inState .running).world draining.world :=
    WorldShutdown.begin_sameIdentity _
  have hsame := WorldShutdown.drain_sameIdentity draining.world
  rw [hdrain] at hsame
  have hmoved := WorldShutdown.finalize_movedOn hsnapshotted
  have hlast : (run WorldSession.step (s.inState .running)
      [.beginShutdown, .drain, .finalize]).world =
        (WorldShutdown.finalize (WorldShutdown.drain draining.world).2).2 := rfl
  rw [hlast, hdrain, WorldInstance.generationGuard, hmoved.contextId, hmoved.generation,
    hsame.contextId, hsame.generation, hbegin.contextId, hbegin.generation]
  have hone : (s.inState .running).world.generation = 1 := hgeneration
  rw [hone]
  exact congrArg (InstanceGenerationGuard.mk · 2) hcontext

/-- One world lives and dies, and the next is created in its context. -/
def successorLife : List ProcessOp :=
  .create sharedDescriptor nativeConfig default :: orderedLife.map (.drive 0) ++
    [.create sharedDescriptor nativeConfig default]

theorem not_sole_successorLife : ¬ SoleIdentities successorLife := by
  intro hsole
  have halong := not_reuses_of_sole hsole
  have hfirst : sharedDescriptor.Creatable nativeConfig default 1 :=
    sharedDescriptor_creatable (by decide) (by decide)
  have hsecond : sharedDescriptor.Creatable nativeConfig default 2 :=
    sharedDescriptor_creatable (by decide) (by decide)
  obtain ⟨world, next, hcreate, hnext, hguard, hstate⟩ := create_step (p := start) hfirst
  obtain ⟨hcontext, hgeneration⟩ := InstanceGenerationGuard.mk.inj hguard
  obtain rfl : next = 2 := UInt64.toNat_inj.mp hnext
  have hlife : run step start
      (.create sharedDescriptor nativeConfig default :: orderedLife.map (.drive 0)) =
        ⟨2, [run WorldSession.step (.start world) orderedLife]⟩ := by
    rw [run_cons, hcreate, run_drive]
    rfl
  rw [successorLife, along_append, hlife] at halong
  have hend := run_orderedLife (s := .start world) hcontext hgeneration hstate
  obtain ⟨hcontext', hgeneration'⟩ := InstanceGenerationGuard.mk.inj hend
  exact halong.2.1 ⟨hsecond, _, rfl, hgeneration', hcontext'⟩

end WorldProcess

omit [UnicodeTables] in
/-- The identity of a disposed world is issued again. -/
theorem WorldProcess.successor_shares_identity : letI := asciiOnly
    ¬ SoleIdentities successorLife := @not_sole_successorLife asciiOnly

end Process

end LumioVoxel
