import LumioVoxel.WorldSessions

/-!
# The world port

The port routes enveloped requests to the write lane: it checks the configuration
hash and the origin, admits the request, and only then takes the lease.  Quiescing
is the pause edge and destroying is the ordered shutdown.  So every port operation
is a short sequence of world operations, and the port adds nothing a world session
cannot do.
-/

namespace LumioVoxel

open DebugText Fallible StepRuns

/-! ## 1. Envelopes -/

structure OriginEnvelope (α : Type) where
  origin : OriginToken
  configHash : String
  payload : α

inductive CompletionDisposition where
  | accept
  | stale
  | duplicate
  | late
  | cancelled
  | wrongWorld
  deriving DecidableEq, Repr

def validateCompletion (expected current : OriginToken) : CompletionDisposition :=
  if expected.worldContextId ≠ current.worldContextId then .wrongWorld
  else if current.instanceGeneration < expected.instanceGeneration then .stale
  else if current.instanceGeneration ≠ expected.instanceGeneration then .wrongWorld
  else if current.inputWorldRevision < expected.inputWorldRevision then .late
  else if expected.applyPhase ≠ current.applyPhase then .late
  else if expected.requestId = current.requestId then .duplicate
  else .accept

section Port

variable [UnicodeTables] {α β : Type}

/-! ## 2. Routing -/

namespace WorldRouter

omit [UnicodeTables] in
def checkConfigHash (world : WorldInstance) (hash : String) : Except WorldError Unit :=
  require (hash = world.snapshot.configHash) .sessionMismatch

omit [UnicodeTables] in
def expectedOrigin (world : WorldInstance) (phase : String) : Except WorldError OriginToken :=
  OriginToken.tryNew world.worldContextId world.generation "write-lane-basis" 0 ∅ phase

omit [UnicodeTables] in
def requireAccept : CompletionDisposition → Except WorldError Unit
  | .accept => .ok ()
  | .stale | .late => .error .staleEpoch
  | .wrongWorld => .error .sessionMismatch
  | .duplicate | .cancelled => .error .invalidHandle

omit [UnicodeTables] in
def complete (world : WorldInstance) (origin : OriginToken) (payload : β) : OriginEnvelope β :=
  ⟨origin, world.snapshot.configHash, payload⟩

omit [UnicodeTables] in
/-- The endpoint admits the command as what it was routed for. -/
def routedCommand (world : WorldInstance) (command : WorldCommand) (expected : AdmittedCommand) :
    Except WorldError Unit := do
  let (admitted, _) ← WorldEndpoint.admit world command
  require (admitted = expected) .invalidHandle

omit [UnicodeTables] in
/-- Checks done, the work runs on the lane; otherwise nothing does. -/
def onLane (world : WorldInstance) (origin : OriginToken) (checks : Except WorldError Unit)
    (work : Except WorldError β × WorldInstance) :
    Except WorldError (OriginEnvelope β) × WorldInstance :=
  match checks with
  | .error err => (.error err, world)
  | .ok _ => (work.1.map (complete work.2 origin), work.2)

omit [UnicodeTables] in
/-- The origin of a commit or an abort continues the write lane. -/
def continues (world : WorldInstance) (origin : OriginToken) : Except WorldError Unit := do
  let expected ← expectedOrigin world origin.applyPhase
  requireAccept (validateCompletion expected origin)

omit [UnicodeTables] in
def queryChecks (world : WorldInstance) (envelope : OriginEnvelope VoxelQueryRequest) :
    Except WorldError Unit := do
  checkConfigHash world envelope.configHash
  routedCommand world (.query envelope.origin envelope.payload) .query

omit [UnicodeTables] in
def prepareChecks (world : WorldInstance) (envelope : OriginEnvelope MutationRequest) :
    Except WorldError Unit := do
  checkConfigHash world envelope.configHash
  routedCommand world (.mutation envelope.origin envelope.payload) .mutation

omit [UnicodeTables] in
def commitChecks (world : WorldInstance) (envelope : OriginEnvelope PreparedMutation) :
    Except WorldError Unit := do
  checkConfigHash world envelope.configHash
  continues world envelope.origin
  routedCommand world (.mutation envelope.origin (WriteLease.commitRequest world envelope.payload))
    .mutation

omit [UnicodeTables] in
def abortChecks (world : WorldInstance) (envelope : OriginEnvelope MutationRequest) :
    Except WorldError Unit := do
  checkConfigHash world envelope.configHash
  continues world envelope.origin
  routedCommand world (.mutation envelope.origin envelope.payload) .mutation

omit [UnicodeTables] in
def query (world : WorldInstance) (envelope : OriginEnvelope VoxelQueryRequest) :
    Except WorldError (OriginEnvelope VoxelQueryOutcome) × WorldInstance :=
  onLane world envelope.origin (queryChecks world envelope) (WriteLease.query world envelope.payload)

def prepare (world : WorldInstance) (envelope : OriginEnvelope MutationRequest) :
    Except WorldError (OriginEnvelope PreparedMutation) × WorldInstance :=
  onLane world envelope.origin (prepareChecks world envelope)
    (WriteLease.prepare world envelope.payload)

def commit (world : WorldInstance) (envelope : OriginEnvelope PreparedMutation) :
    Except WorldError (OriginEnvelope MutationReceipt) × WorldInstance :=
  onLane world envelope.origin (commitChecks world envelope)
    (WriteLease.commit world envelope.payload)

omit [UnicodeTables] in
def abort (world : WorldInstance) (envelope : OriginEnvelope MutationRequest) :
    Except WorldError (OriginEnvelope Unit) × WorldInstance :=
  onLane world envelope.origin (abortChecks world envelope)
    (WriteLease.abort world envelope.payload)

end WorldRouter

/-! ## 3. The adapter -/

namespace VoxelWorldPortAdapter

omit [UnicodeTables] in
def quiesceOrigin (world : WorldInstance) (reason : String) : Except WorldError OriginToken :=
  OriginToken.tryNew world.worldContextId world.generation ("quiesce:" ++ reason) 0 ∅ "VoxelCommit"

omit [UnicodeTables] in
/-- The pause edge; a paused session stays as it is. -/
def quiesce (world : WorldInstance) (reason : String) : Except WorldError Unit × WorldInstance :=
  if reason = "" then
    (.error (.mapped "InvalidArgument"), world)
  else if world.state = .paused then
    (.ok (), world)
  else
    match quiesceOrigin world reason with
    | .error err => (.error err, world)
    | .ok origin =>
      match WorldEndpoint.admit world (.lifecycle "Pause" "Paused" origin) with
      | .error err => (.error err, world)
      | .ok (_, world) => (.ok (), world)

omit [UnicodeTables] in
/-- Drain, final snapshot, dispose, each only after the one before. -/
def shutdown (world : WorldInstance) : Except WorldError Unit × WorldInstance :=
  match WorldShutdown.begin world with
  | (.error err, world) => (.error err, world)
  | (.ok _, world) =>
    match WorldShutdown.drain world with
    | (.error err, world) => (.error err, world)
    | (.ok _, world) => WorldShutdown.finalize world

end VoxelWorldPortAdapter

/-! ## 4. Port runs -/

/-- What callers do through the port, or to the world itself. -/
inductive PortOp where
  | world (op : WorldOp)
  | query (envelope : OriginEnvelope VoxelQueryRequest)
  | prepare (envelope : OriginEnvelope MutationRequest)
  | commit (i : Nat) (origin : OriginToken) (configHash : String)
  | abort (envelope : OriginEnvelope MutationRequest)
  | quiesce (reason : String)
  | shutdown

namespace WorldSession

def portPrepare (s : WorldSession) (envelope : OriginEnvelope MutationRequest) : WorldSession :=
  let done := WorldRouter.prepare s.world envelope
  { s with world := done.2, tokens := s.tokens ++ (done.1.toOption.map (·.payload)).toList }

def portCommit (s : WorldSession) (i : Nat) (origin : OriginToken) (configHash : String) :
    WorldSession :=
  { s with
    world := match s.tokens[i]? with
      | none => s.world
      | some token => (WorldRouter.commit s.world ⟨origin, configHash, token⟩).2
    tokens := s.tokens.eraseIdx i }

def portStep (s : WorldSession) : PortOp → WorldSession
  | .world op => s.step op
  | .query envelope => { s with world := (WorldRouter.query s.world envelope).2 }
  | .prepare envelope => s.portPrepare envelope
  | .commit i origin configHash => s.portCommit i origin configHash
  | .abort envelope => { s with world := (WorldRouter.abort s.world envelope).2 }
  | .quiesce reason => { s with world := (VoxelWorldPortAdapter.quiesce s.world reason).2 }
  | .shutdown => { s with world := (VoxelWorldPortAdapter.shutdown s.world).2 }

variable (s : WorldSession)

/-- A port operation does nothing, one world operation, or a part of the shutdown. -/
theorem portStep_expands (op : PortOp) :
    s.portStep op = s ∨ (∃ op', s.portStep op = s.step op') ∨
      s.portStep op = run step s [.beginShutdown, .drain] ∨
      s.portStep op = run step s [.beginShutdown, .drain, .finalize] := by
  cases op with
  | world op => exact .inr (.inl ⟨op, rfl⟩)
  | query envelope =>
    cases hchecks : WorldRouter.queryChecks s.world envelope with
    | error err =>
      left
      simp only [portStep, WorldRouter.query, hchecks, WorldRouter.onLane]
    | ok _ =>
      refine .inr (.inl ⟨.query envelope.payload, ?_⟩)
      simp only [portStep, WorldRouter.query, hchecks, WorldRouter.onLane, step]
  | prepare envelope =>
    cases hchecks : WorldRouter.prepareChecks s.world envelope with
    | error err =>
      left
      simp only [portStep, portPrepare, WorldRouter.prepare, hchecks, WorldRouter.onLane,
        Except.toOption, Option.map_none, Option.toList_none, List.append_nil]
    | ok _ =>
      refine .inr (.inl ⟨.prepare envelope.payload, ?_⟩)
      simp only [portStep, portPrepare, WorldRouter.prepare, hchecks, WorldRouter.onLane, step,
        prepare]
      cases (WriteLease.prepare s.world envelope.payload).1 with
      | error err => rfl
      | ok token => rfl
  | commit i origin configHash =>
    cases htoken : s.tokens[i]? with
    | none =>
      refine .inr (.inl ⟨.discard i, ?_⟩)
      simp only [portStep, portCommit, htoken, step]
    | some token =>
      cases hchecks : WorldRouter.commitChecks s.world ⟨origin, configHash, token⟩ with
      | error err =>
        refine .inr (.inl ⟨.discard i, ?_⟩)
        simp only [portStep, portCommit, htoken, WorldRouter.commit, hchecks, WorldRouter.onLane,
          step]
      | ok _ =>
        refine .inr (.inl ⟨.commit i, ?_⟩)
        simp only [portStep, portCommit, htoken, WorldRouter.commit, hchecks, WorldRouter.onLane,
          step, commit]
  | abort envelope =>
    cases hchecks : WorldRouter.abortChecks s.world envelope with
    | error err =>
      left
      simp only [portStep, WorldRouter.abort, hchecks, WorldRouter.onLane]
    | ok _ =>
      refine .inr (.inl ⟨.abort envelope.payload, ?_⟩)
      simp only [portStep, WorldRouter.abort, hchecks, WorldRouter.onLane, step]
  | quiesce reason =>
    simp only [portStep, VoxelWorldPortAdapter.quiesce]
    by_cases hreason : reason = ""
    · left
      rw [if_pos hreason]
    rw [if_neg hreason]
    by_cases hpaused : s.world.state = .paused
    · left
      rw [if_pos hpaused]
    rw [if_neg hpaused]
    cases horigin : VoxelWorldPortAdapter.quiesceOrigin s.world reason with
    | error err => exact .inl rfl
    | ok origin =>
      refine .inr (.inl ⟨.lifecycle "Pause" "Paused" origin, ?_⟩)
      simp only [step, lifecycle]
      cases WorldEndpoint.admit s.world (.lifecycle "Pause" "Paused" origin) with
      | error err => rfl
      | ok done => rfl
  | shutdown =>
    simp only [portStep, VoxelWorldPortAdapter.shutdown]
    cases hbegin : WorldShutdown.begin s.world with
    | mk result world₁ =>
      have hfirst : s.step .beginShutdown = { s with world := world₁ } := by
        simp only [step, hbegin]
      cases result with
      | error err => exact .inr (.inl ⟨.beginShutdown, hfirst.symm⟩)
      | ok _ =>
        simp only
        cases hdrain : WorldShutdown.drain world₁ with
        | mk result' world₂ =>
          have hsecond : run step s [.beginShutdown, .drain] = { s with world := world₂ } := by
            rw [run_cons, run_cons, run_nil, hfirst]
            simp only [step, hdrain]
          cases result' with
          | error err => exact .inr (.inr (.inl hsecond.symm))
          | ok _ =>
            refine .inr (.inr (.inr ?_))
            have happend : run step s ([.beginShutdown, .drain] ++ [.finalize]) = _ :=
              run_append s _ _
            rw [hsecond] at happend
            exact happend.symm

end WorldSession

end Port

end LumioVoxel
