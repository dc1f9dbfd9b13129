import LumioVoxel.MutationCommit
import LumioVoxel.QueryPlanning
import LumioVoxel.RegionPins

/-!
# One world

A world owns its publication authority, its receipt ledger, its query planner
and, once attached, a region pin policy.  Every command is admitted against the
session state and the instance generation, and every write runs under exclusive
occupancy that is given back whatever the outcome.
-/

namespace LumioVoxel

open Fallible

/-! ## 1. Errors -/

structure WorldError where
  errorId : String
  deriving DecidableEq, Repr

namespace WorldError

/-- Contract identifiers and the engine's own pass through alike. -/
def mapped (id : String) : WorldError := ⟨id⟩

def invalidHandle : WorldError := mapped "InvalidHandle"
def staleEpoch : WorldError := mapped "StaleEpoch"
def sessionMismatch : WorldError := mapped "SessionMismatch"
def roleMismatch : WorldError := mapped "RoleMismatch"
def claimNotGranted : WorldError := mapped "ClaimNotGranted"
def handleDoubleRelease : WorldError := mapped "HandleDoubleRelease"
def fromMutation (err : MutationError) : WorldError := mapped err.errorId
def fromQuery (err : QueryError) : WorldError := mapped err.errorId
def fromLedger (err : LedgerError) : WorldError := mapped err.errorId
def fromSection (err : SectionError) : WorldError := mapped err.errorId
def fromDirty (err : DirtyError) : WorldError := mapped err.errorId
def fromPublish (err : PublishError) : WorldError := mapped err.errorId
def fromPin (err : PinExemptionError) : WorldError := mapped err.errorId

end WorldError

/-! ## 2. The session state machine -/

inductive SessionState where
  | created
  | initialized
  | ready
  | running
  | paused
  | draining
  | snapshotted
  | disposed
  deriving DecidableEq, Repr

def SessionState.name : SessionState → String
  | .created => "Created"
  | .initialized => "Initialized"
  | .ready => "Ready"
  | .running => "Running"
  | .paused => "Paused"
  | .draining => "Draining"
  | .snapshotted => "Snapshotted"
  | .disposed => "Disposed"

inductive SessionEvent where
  | initialise
  | prime
  | start
  | pause
  | resume
  | drain
  | finalSnapshotTaken
  | dispose
  deriving DecidableEq, Repr

def SessionEvent.name : SessionEvent → String
  | .initialise => "Initialize"
  | .prime => "Prime"
  | .start => "Start"
  | .pause => "Pause"
  | .resume => "Resume"
  | .drain => "Drain"
  | .finalSnapshotTaken => "FinalSnapshotTaken"
  | .dispose => "Dispose"

/-- `(from, event, to)`: the single source of session edges. -/
def SESSION_TRANSITIONS : List (SessionState × SessionEvent × SessionState) :=
  [(.created, .initialise, .initialized),
   (.initialized, .prime, .ready),
   (.ready, .start, .running),
   (.running, .pause, .paused),
   (.paused, .resume, .running),
   (.running, .drain, .draining),
   (.paused, .drain, .draining),
   (.draining, .finalSnapshotTaken, .snapshotted),
   (.snapshotted, .dispose, .disposed)]

def internSessionState (name : String) : Option SessionState :=
  SESSION_TRANSITIONS.findSome? fun edge =>
    if edge.1.name = name then some edge.1
    else if edge.2.2.name = name then some edge.2.2
    else none

def internSessionEvent (name : String) : Option SessionEvent :=
  SESSION_TRANSITIONS.findSome? fun edge =>
    if edge.2.1.name = name then some edge.2.1 else none

def hasSessionEdge (source : SessionState) (event : SessionEvent) (target : SessionState) : Bool :=
  SESSION_TRANSITIONS.any fun edge => edge.1 = source ∧ edge.2.1 = event ∧ edge.2.2 = target

def SessionState.apply (current : SessionState) (event : SessionEvent) (target : SessionState) :
    Except WorldError SessionState := do
  require (hasSessionEdge current event target = true) .invalidHandle
  return target

def queryAdmissible (state : SessionState) : Bool :=
  state = .ready ∨ state = .running ∨ state = .paused

def writeAdmissible (state : SessionState) : Bool := state = .running

/-! ## 3. Origins -/

def APPLY_PHASES : List String :=
  ["IngressCapture", "DecodeAndCanonicalize", "ApplyInputs", "ProcessorPlan", "CrossWorldPrepare",
   "NativeJobBarrier", "CommitDecision", "VoxelCommit", "EcsCommandBufferCommit",
   "GasAndEventFinalize", "ReplicationProjection", "SnapshotHashMetrics", "EgressPublish"]

structure OriginToken where
  worldContextId : String
  instanceGeneration : UInt64
  requestId : String
  inputWorldRevision : UInt64
  inputSectionRevisionSet : BTreeMap String UInt64
  applyPhase : String

def OriginToken.tryNew (worldContextId : String) (instanceGeneration : UInt64)
    (requestId : String) (inputWorldRevision : UInt64)
    (inputSectionRevisionSet : BTreeMap String UInt64) (applyPhase : String) :
    Except WorldError OriginToken := do
  require (worldContextId ≠ "" ∧ requestId ≠ "") .invalidHandle
  require (APPLY_PHASES.contains applyPhase = true) .invalidHandle
  return ⟨worldContextId, instanceGeneration, requestId, inputWorldRevision,
    inputSectionRevisionSet, applyPhase⟩

structure InstanceGenerationGuard where
  worldContextId : String
  generation : UInt64
  deriving DecidableEq, Repr

def InstanceGenerationGuard.checkOrigin (generationGuard : InstanceGenerationGuard)
    (origin : OriginToken) : Except WorldError Unit := do
  require (origin.worldContextId ≠ "" ∧ origin.requestId ≠ "") .invalidHandle
  require (origin.worldContextId = generationGuard.worldContextId) .sessionMismatch
  require (origin.instanceGeneration = generationGuard.generation) .staleEpoch

theorem InstanceGenerationGuard.checkOrigin_eq_ok {generationGuard : InstanceGenerationGuard}
    {origin : OriginToken} {u : Unit} :
    generationGuard.checkOrigin origin = .ok u ↔
      (origin.worldContextId ≠ "" ∧ origin.requestId ≠ "") ∧
        origin.worldContextId = generationGuard.worldContextId ∧
        origin.instanceGeneration = generationGuard.generation := by
  simp only [checkOrigin, bind_eq_ok, require_eq_ok, exists_and_left, exists_const]

/-! ## 4. The instance -/

structure WorldInstance where
  worldId : String
  worldContextId : String
  generation : UInt64
  snapshot : VoxelConfigSnapshot
  state : SessionState
  authority : PublicationAuthority
  ledger : ReceiptLedger
  queryPlanner : QueryPlanner
  writeOccupied : Bool
  regionPins : Option RegionPinManager

/-- The published root. -/
def WorldInstance.root (world : WorldInstance) : PublishedStateRoot := world.authority.root

def WorldInstance.generationGuard (world : WorldInstance) : InstanceGenerationGuard :=
  ⟨world.worldContextId, world.generation⟩

/-! ## 5. Admission -/

inductive WorldCommand where
  | lifecycle (event target : String) (origin : OriginToken)
  | query (origin : OriginToken) (request : VoxelQueryRequest)
  | mutation (origin : OriginToken) (request : MutationRequest)

inductive AdmittedCommand where
  | lifecycle (source : SessionState) (event : SessionEvent) (target : SessionState)
  | query
  | mutation
  deriving DecidableEq, Repr

/-- Only a lifecycle command changes the instance. -/
def WorldEndpoint.admit (world : WorldInstance) :
    WorldCommand → Except WorldError (AdmittedCommand × WorldInstance)
  | .lifecycle event target origin => do
    world.generationGuard.checkOrigin origin
    let event ← someOr (internSessionEvent event) .invalidHandle
    let target ← someOr (internSessionState target) .invalidHandle
    let state ← world.state.apply event target
    return (.lifecycle world.state event target, { world with state := state })
  | .query origin request => do
    world.generationGuard.checkOrigin origin
    require (request.queryId ≠ "" ∧ request.worldId ≠ "" ∧ request.context ≠ "") .invalidHandle
    require (request.worldId = world.worldId) .sessionMismatch
    require (request.context = world.worldContextId) .sessionMismatch
    require (queryAdmissible world.state = true) .claimNotGranted
    require (world.queryPlanner.snapshot.configHash = world.snapshot.configHash) .invalidHandle
    return (.query, world)
  | .mutation origin request => do
    world.generationGuard.checkOrigin origin
    require (request.txnId ≠ "" ∧ request.worldId ≠ "") .invalidHandle
    require (request.worldId = world.worldId) .sessionMismatch
    require (request.generation = world.generation) .staleEpoch
    require (writeAdmissible world.state = true) .claimNotGranted
    require (world.ledger.configHash = world.snapshot.configHash) .invalidHandle
    return (.mutation, world)

def originFor (world : WorldInstance) (requestId : String) : Except WorldError OriginToken :=
  OriginToken.tryNew world.worldContextId world.generation requestId 0 ∅ "VoxelCommit"

def reAdmitMutation (world : WorldInstance) (request : MutationRequest) :
    Except WorldError Unit := do
  let origin ← originFor world request.txnId
  let _ ← WorldEndpoint.admit world (.mutation origin request)
  return ()

def reAdmitQuery (world : WorldInstance) (request : VoxelQueryRequest) :
    Except WorldError Unit := do
  let origin ← originFor world request.queryId
  let _ ← WorldEndpoint.admit world (.query origin request)
  return ()

/-- A request of this world and generation, while the session is `Running`. -/
structure MutationAdmitted (world : WorldInstance) (request : MutationRequest) : Prop where
  contextId : world.worldContextId ≠ ""
  ids : request.txnId ≠ "" ∧ request.worldId ≠ ""
  worldId : request.worldId = world.worldId
  generation : request.generation = world.generation
  running : writeAdmissible world.state = true
  configHash : world.ledger.configHash = world.snapshot.configHash

theorem reAdmitMutation_eq_ok {world : WorldInstance} {request : MutationRequest} {u : Unit} :
    reAdmitMutation world request = .ok u ↔ MutationAdmitted world request := by
  have hphase : APPLY_PHASES.contains "VoxelCommit" = true := by decide
  simp only [reAdmitMutation, originFor, OriginToken.tryNew, WorldEndpoint.admit,
    InstanceGenerationGuard.checkOrigin_eq_ok, WorldInstance.generationGuard, bind_eq_ok,
    require_eq_ok, pure_eq_ok, exists_and_left, exists_const]
  constructor
  · rintro ⟨origin, ⟨⟨hcontext, -⟩, -, rfl⟩, -, ⟨-, hids, hworld, hgen, hrunning, hconfig, -⟩, -⟩
    exact ⟨hcontext, hids, hworld, hgen, hrunning, hconfig⟩
  · intro h
    exact ⟨_, ⟨⟨h.contextId, h.ids.1⟩, hphase, rfl⟩, _, ⟨⟨⟨h.contextId, h.ids.1⟩, rfl, rfl⟩, h.ids,
      h.worldId, h.generation, h.running, h.configHash, rfl⟩, trivial⟩

/-! ## 6. Barriers -/

inductive BarrierScope where
  | mutation
  | captureCut
  | durabilityAck
  | restore
  | streamingApply
  deriving DecidableEq, Repr

def BarrierScope.admissible (scope : BarrierScope) (state : SessionState) : Bool :=
  match scope with
  | .captureCut => queryAdmissible state
  | .mutation | .durabilityAck | .restore | .streamingApply => writeAdmissible state

def admitScope (world : WorldInstance) (scope : BarrierScope) : Except WorldError Unit :=
  require (scope.admissible world.state = true) .claimNotGranted

variable {α : Type}

/-- Acquire, enter, work, release.  The occupancy is given back on every path. -/
def WorldInstance.underBarrier (world : WorldInstance) (scope : BarrierScope)
    (work : WorldInstance → Except WorldError α × WorldInstance) :
    Except WorldError α × WorldInstance :=
  if world.writeOccupied then
    (.error .handleDoubleRelease, world)
  else
    match admitScope world scope with
    | .error err => (.error err, world)
    | .ok _ =>
      let done := work { world with writeOccupied := true }
      (done.1, { done.2 with writeOccupied := false })

/-- The scope is admitted and nobody holds the world. -/
def WorldInstance.Admits (world : WorldInstance) (scope : BarrierScope) : Prop :=
  world.writeOccupied = false ∧ admitScope world scope = .ok ()

/-- Either the barrier refuses and nothing happens, or the work is done. -/
theorem WorldInstance.underBarrier_cases (world : WorldInstance) (scope : BarrierScope)
    (work : WorldInstance → Except WorldError α × WorldInstance) :
    (∃ err, ¬ world.Admits scope ∧ world.underBarrier scope work = (.error err, world)) ∨
    world.Admits scope ∧ world.underBarrier scope work =
      ((work { world with writeOccupied := true }).1,
        { (work { world with writeOccupied := true }).2 with writeOccupied := false }) := by
  unfold underBarrier
  by_cases hfree : world.writeOccupied = true
  · rw [if_pos hfree]
    refine .inl ⟨_, ?_, rfl⟩
    rintro ⟨hno, -⟩
    rw [hfree] at hno
    cases hno
  · rw [if_neg hfree]
    cases hscope : admitScope world scope with
    | error err =>
      refine .inl ⟨err, ?_, rfl⟩
      rintro ⟨-, hyes⟩
      rw [hscope] at hyes
      cases hyes
    | ok u => exact .inr ⟨⟨Bool.eq_false_iff.mpr hfree, hscope⟩, rfl⟩

end LumioVoxel
