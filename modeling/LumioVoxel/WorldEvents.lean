import LumioVoxel.LifecycleGate

/-!
# World events

The ordered shutdown tells an external sink what it did.  The sink has a fixed capacity
and drops what does not fit; nothing the world does depends on it.  What is told over a
life is told in order and once, and a failure is told at most once, with every phase that
was left right behind it.
-/

namespace LumioVoxel

open DebugText Fallible StepRuns

/-! ## 1. The sink -/

def FAILURE_BUNDLE_SCHEMA : String := "failure-bundle"

def LOGGING_EVENT_SCHEMA : String := "logging-event"

def INCIDENT_SIMULATION : String := "Simulation"

structure FailureBundleFragment where
  schemaId : String
  incidentKind : String
  errorId : String
  worldId : String
  worldContextId : String
  generation : UInt64
  lifecycle : String
  lastWorldRevision : UInt64
  diagnosticName : String
  deriving DecidableEq

inductive WorldEvent where
  | logging (schemaId event lifecycle : String) (generation : UInt64)
  | failure (fragment : FailureBundleFragment)
  deriving DecidableEq

/-- An event of a session, not the report of a failure. -/
def WorldEvent.isLogging : WorldEvent → Bool
  | .logging _ _ _ _ => true
  | .failure _ => false

structure WorldEventSink where
  capacity : Nat
  events : List WorldEvent
  dropped : Nat

namespace WorldEventSink

def bounded (capacity : Nat) : WorldEventSink := ⟨capacity, [], 0⟩

/-- A full buffer drops the event; the count of dropped events saturates. -/
def emit (sink : WorldEventSink) (event : WorldEvent) : WorldEventSink :=
  if sink.capacity = 0 ∨ sink.events.length ≥ sink.capacity then
    { sink with dropped := min (sink.dropped + 1) (2 ^ 64 - 1) }
  else { sink with events := sink.events ++ [event] }

def emitAll (sink : WorldEventSink) (events : List WorldEvent) : WorldEventSink :=
  events.foldl emit sink

theorem emitAll_append (sink : WorldEventSink) (first second : List WorldEvent) :
    sink.emitAll (first ++ second) = (sink.emitAll first).emitAll second := List.foldl_append

/-- The sink after these events: the first that fit, and the number of the rest. -/
theorem emitAll_eq (sink : WorldEventSink) (h : sink.events.length ≤ sink.capacity)
    (hdropped : sink.dropped ≤ 2 ^ 64 - 1) (events : List WorldEvent) :
    sink.emitAll events =
      { capacity := sink.capacity
        events := (sink.events ++ events).take sink.capacity
        dropped := min (sink.dropped + ((sink.events ++ events).length - sink.capacity))
          (2 ^ 64 - 1) } := by
  induction events using List.reverseRecOn with
  | nil =>
    have hnone : (sink.events ++ []).length - sink.capacity = 0 := by
      rw [List.append_nil]
      omega
    rw [hnone, List.append_nil, List.take_of_length_le h, Nat.add_zero, Nat.min_eq_left hdropped]
    rfl
  | append_singleton events event ih =>
    rw [emitAll_append, ih]
    change emit _ event = _
    have hlength : (sink.events ++ (events ++ [event])).length =
        (sink.events ++ events).length + 1 := by
      simp only [List.length_append, List.length_singleton]
      omega
    by_cases hroom : (sink.events ++ events).length < sink.capacity
    · have htake : (sink.events ++ events).take sink.capacity = sink.events ++ events :=
        List.take_of_length_le hroom.le
      have htake' : (sink.events ++ (events ++ [event])).take sink.capacity =
          sink.events ++ (events ++ [event]) := List.take_of_length_le (by omega)
      rw [htake, htake', emit, if_neg (by simp only; omega), hlength]
      simp only [WorldEventSink.mk.injEq, List.append_assoc, true_and]
      omega
    · have hfull : sink.capacity ≤ (sink.events ++ events).length := Nat.not_lt.mp hroom
      have htake : (sink.events ++ (events ++ [event])).take sink.capacity =
          (sink.events ++ events).take sink.capacity := by
        rw [← List.append_assoc]
        exact List.take_append_of_le_length hfull
      have hout : ((sink.events ++ events).take sink.capacity).length = sink.capacity := by
        rw [List.length_take, Nat.min_eq_left hfull]
      rw [htake, emit, if_pos (.inr hout.ge), hlength]
      simp only [WorldEventSink.mk.injEq, true_and]
      omega

end WorldEventSink

/-! ## 2. The shutdown, observed -/

def loggingEvent (event : SessionEvent) (lifecycle : SessionState) (generation : UInt64) :
    WorldEvent :=
  .logging LOGGING_EVENT_SCHEMA event.name lifecycle.name generation

def bundle (world : WorldInstance) (cause diagnosticName : String) : FailureBundleFragment where
  schemaId := FAILURE_BUNDLE_SCHEMA
  incidentKind := INCIDENT_SIMULATION
  errorId := cause
  worldId := world.worldId
  worldContextId := world.worldContextId
  generation := world.generation
  lifecycle := world.state.name
  lastWorldRevision := world.authority.capture.1.root.stamp.worldRevision
  diagnosticName := diagnosticName

/-- What a step of the shutdown hands back: its result, the world and the sink. -/
abbrev Observed := Except WorldError Unit × WorldInstance × WorldEventSink

namespace ObservedShutdown

open WorldShutdown

def emitPhase (world : WorldInstance) (sink : WorldEventSink) (event : SessionEvent) :
    WorldEventSink :=
  sink.emit (loggingEvent event world.state world.generation)

def begin (world : WorldInstance) (sink : WorldEventSink) : Observed :=
  if sequenceReached world.state .draining then (.ok (), world, sink)
  else
    match world.state.apply .drain .draining with
    | .error err => (.error err, world, sink)
    | .ok state =>
      (.ok (), { world with state := state }, emitPhase { world with state := state } sink .drain)

def drain (world : WorldInstance) (sink : WorldEventSink) : Observed :=
  if sequenceReached world.state .snapshotted then (.ok (), world, sink)
  else if hasSessionEdge world.state .finalSnapshotTaken .snapshotted = false then
    (.error .invalidHandle, world, sink)
  else
    let world := { world with ledger := world.ledger.abortInFlight }
    match world.state.apply .finalSnapshotTaken .snapshotted with
    | .error err => (.error err, world, sink)
    | .ok state =>
      (.ok (), { world with state := state },
        emitPhase { world with state := state } sink .finalSnapshotTaken)

def finalize (world : WorldInstance) (sink : WorldEventSink) : Observed :=
  if sequenceReached world.state .disposed then (.ok (), world, sink)
  else if hasSessionEdge world.state .dispose .disposed = false then
    (.error .invalidHandle, world, sink)
  else
    let oldGeneration := world.generation
    match world.state.apply .dispose .disposed with
    | .error err => (.error err, world, sink)
    | .ok state =>
      (.ok (),
        { world with
          state := state
          writeOccupied := false
          generation := invalidateGeneration world.generation },
        sink.emit (loggingEvent .dispose state oldGeneration))

def trip (world : WorldInstance) (sink : WorldEventSink) (cause diagnosticName : String) :
    Observed :=
  if cause = "" ∨ diagnosticName = "" ∨ shutdownAdmissible world.state = false then
    (.error .invalidHandle, world, sink)
  else
    let sink := if world.state = .disposed then sink
      else sink.emit (.failure (bundle world cause diagnosticName))
    match begin world sink with
    | (.error err, world, sink) => (.error err, world, sink)
    | (.ok _, world, sink) =>
      match drain world sink with
      | (.error err, world, sink) => (.error err, world, sink)
      | (.ok _, world, sink) => finalize world sink

/-- The phases of the shutdown a session has not been through, with the state each ends in. -/
def remaining : SessionState → List (SessionEvent × SessionState)
  | .draining => [(.finalSnapshotTaken, .snapshotted), (.dispose, .disposed)]
  | .snapshotted => [(.dispose, .disposed)]
  | .disposed => []
  | _ => [(.drain, .draining), (.finalSnapshotTaken, .snapshotted), (.dispose, .disposed)]

/-- What a session tells that goes through all of them. -/
def closing (state : SessionState) (generation : UInt64) : List WorldEvent :=
  (remaining state).map fun phase => loggingEvent phase.1 phase.2 generation

/-- What `begin` tells. -/
def beginEvents (world : WorldInstance) : List WorldEvent :=
  if hasSessionEdge world.state .drain .draining then
    [loggingEvent .drain .draining world.generation]
  else []

def drainEvents (world : WorldInstance) : List WorldEvent :=
  if hasSessionEdge world.state .finalSnapshotTaken .snapshotted then
    [loggingEvent .finalSnapshotTaken .snapshotted world.generation]
  else []

def finalizeEvents (world : WorldInstance) : List WorldEvent :=
  if hasSessionEdge world.state .dispose .disposed then
    [loggingEvent .dispose .disposed world.generation]
  else []

/-- What a trip tells: the failure and every phase that is left, or nothing. -/
def tripEvents (world : WorldInstance) (cause diagnosticName : String) : List WorldEvent :=
  if cause = "" ∨ diagnosticName = "" ∨ shutdownAdmissible world.state = false ∨
      world.state = .disposed then []
  else .failure (bundle world cause diagnosticName) :: closing world.state world.generation

theorem begin_eq (world : WorldInstance) (sink : WorldEventSink) :
    begin world sink = ((WorldShutdown.begin world).1, (WorldShutdown.begin world).2,
      sink.emitAll (beginEvents world)) := by
  obtain ⟨worldId, worldContextId, generation, snapshot, state, authority, ledger, queryPlanner,
    writeOccupied, regionPins⟩ := world
  cases state <;> rfl

theorem drain_eq (world : WorldInstance) (sink : WorldEventSink) :
    drain world sink = ((WorldShutdown.drain world).1, (WorldShutdown.drain world).2,
      sink.emitAll (drainEvents world)) := by
  obtain ⟨worldId, worldContextId, generation, snapshot, state, authority, ledger, queryPlanner,
    writeOccupied, regionPins⟩ := world
  cases state <;> rfl

theorem finalize_eq (world : WorldInstance) (sink : WorldEventSink) :
    finalize world sink = ((WorldShutdown.finalize world).1, (WorldShutdown.finalize world).2,
      sink.emitAll (finalizeEvents world)) := by
  obtain ⟨worldId, worldContextId, generation, snapshot, state, authority, ledger, queryPlanner,
    writeOccupied, regionPins⟩ := world
  cases state <;> rfl

theorem trip_eq (world : WorldInstance) (sink : WorldEventSink) (cause diagnosticName : String) :
    trip world sink cause diagnosticName =
      ((WorldShutdown.trip world cause diagnosticName).1,
        (WorldShutdown.trip world cause diagnosticName).2,
        sink.emitAll (tripEvents world cause diagnosticName)) := by
  by_cases hblank : cause = "" ∨ diagnosticName = ""
  · have hrefused : cause = "" ∨ diagnosticName = "" ∨ shutdownAdmissible world.state = false :=
      hblank.imp_right .inl
    have hsilent : cause = "" ∨ diagnosticName = "" ∨ shutdownAdmissible world.state = false ∨
        world.state = .disposed := hblank.imp_right .inl
    rw [trip, if_pos hrefused, WorldShutdown.trip, if_pos hrefused, tripEvents, if_pos hsilent]
    rfl
  · obtain ⟨hcause, hname⟩ := not_or.mp hblank
    rw [trip, WorldShutdown.trip, tripEvents]
    simp only [hcause, hname, false_or]
    obtain ⟨worldId, worldContextId, generation, snapshot, state, authority, ledger, queryPlanner,
      writeOccupied, regionPins⟩ := world
    cases state <;> rfl

theorem begin_moves (world : WorldInstance) :
    (beginEvents world = [] ∧ (WorldShutdown.begin world).2 = world) ∨
    (beginEvents world = [loggingEvent .drain .draining world.generation] ∧
      remaining world.state = (.drain, .draining) :: remaining .draining ∧
      (WorldShutdown.begin world).2.state = .draining ∧
      (WorldShutdown.begin world).2.generation = world.generation) := by
  obtain ⟨worldId, worldContextId, generation, snapshot, state, authority, ledger, queryPlanner,
    writeOccupied, regionPins⟩ := world
  cases state with
  | running | paused => exact .inr ⟨rfl, rfl, rfl, rfl⟩
  | _ => exact .inl ⟨rfl, rfl⟩

theorem drain_moves (world : WorldInstance) :
    (drainEvents world = [] ∧ (WorldShutdown.drain world).2 = world) ∨
    (drainEvents world = [loggingEvent .finalSnapshotTaken .snapshotted world.generation] ∧
      remaining world.state = (.finalSnapshotTaken, .snapshotted) :: remaining .snapshotted ∧
      (WorldShutdown.drain world).2.state = .snapshotted ∧
      (WorldShutdown.drain world).2.generation = world.generation) := by
  obtain ⟨worldId, worldContextId, generation, snapshot, state, authority, ledger, queryPlanner,
    writeOccupied, regionPins⟩ := world
  cases state with
  | draining => exact .inr ⟨rfl, rfl, rfl, rfl⟩
  | _ => exact .inl ⟨rfl, rfl⟩

theorem finalize_moves (world : WorldInstance) :
    (finalizeEvents world = [] ∧ (WorldShutdown.finalize world).2 = world) ∨
    (finalizeEvents world = [loggingEvent .dispose .disposed world.generation] ∧
      remaining world.state = (.dispose, .disposed) :: remaining .disposed ∧
      (WorldShutdown.finalize world).2.state = .disposed) := by
  obtain ⟨worldId, worldContextId, generation, snapshot, state, authority, ledger, queryPlanner,
    writeOccupied, regionPins⟩ := world
  cases state with
  | snapshotted => exact .inr ⟨rfl, rfl, rfl⟩
  | _ => exact .inl ⟨rfl, rfl⟩

/-- A trip that goes through leaves the session disposed. -/
theorem trip_moves (world : WorldInstance) (cause diagnosticName : String) :
    (tripEvents world cause diagnosticName = [] ∧
      (WorldShutdown.trip world cause diagnosticName).2 = world) ∨
    (tripEvents world cause diagnosticName =
        .failure (bundle world cause diagnosticName) :: closing world.state world.generation ∧
      world.state ≠ .disposed ∧
      (WorldShutdown.trip world cause diagnosticName).2.state = .disposed) := by
  by_cases hblank : cause = "" ∨ diagnosticName = ""
  · rw [tripEvents, if_pos (hblank.imp_right .inl), WorldShutdown.trip,
      if_pos (hblank.imp_right .inl)]
    exact .inl ⟨rfl, rfl⟩
  · obtain ⟨hcause, hname⟩ := not_or.mp hblank
    rw [tripEvents, WorldShutdown.trip]
    simp only [hcause, hname, false_or]
    obtain ⟨worldId, worldContextId, generation, snapshot, state, authority, ledger, queryPlanner,
      writeOccupied, regionPins⟩ := world
    cases state with
    | created | initialized | ready | disposed => exact .inl ⟨rfl, rfl⟩
    | running | paused | draining | snapshotted => exact .inr ⟨rfl, by rintro ⟨⟩, rfl⟩

end ObservedShutdown

/-! ## 3. A session and its sink -/

section Sessions

variable [UnicodeTables] {s : WorldSession}

open ObservedShutdown

namespace WorldSession

/-- A step of the session with a sink at hand. -/
def observe (observed : WorldSession × WorldEventSink) (op : WorldOp) :
    WorldSession × WorldEventSink :=
  let (s, sink) := observed
  match op with
  | .beginShutdown =>
    let done := ObservedShutdown.begin s.world sink
    ({ s with world := done.2.1 }, done.2.2)
  | .drain =>
    let done := ObservedShutdown.drain s.world sink
    ({ s with world := done.2.1 }, done.2.2)
  | .finalize =>
    let done := ObservedShutdown.finalize s.world sink
    ({ s with world := done.2.1 }, done.2.2)
  | .trip cause diagnosticName =>
    let done := ObservedShutdown.trip s.world sink cause diagnosticName
    ({ s with world := done.2.1 }, done.2.2)
  | op => (s.step op, sink)

omit [UnicodeTables] in
/-- What a step tells. -/
def emits (s : WorldSession) : WorldOp → List WorldEvent
  | .beginShutdown => beginEvents s.world
  | .drain => drainEvents s.world
  | .finalize => finalizeEvents s.world
  | .trip cause diagnosticName => tripEvents s.world cause diagnosticName
  | _ => []

/-- What a run tells. -/
def told (s : WorldSession) : List WorldOp → List WorldEvent
  | [] => []
  | op :: rest => s.emits op ++ (s.step op).told rest

theorem observe_eq (s : WorldSession) (sink : WorldEventSink) (op : WorldOp) :
    observe (s, sink) op = (s.step op, sink.emitAll (s.emits op)) := by
  cases op with
  | beginShutdown => simp only [observe, begin_eq, step, emits]
  | drain => simp only [observe, drain_eq, step, emits]
  | finalize => simp only [observe, finalize_eq, step, emits]
  | trip cause diagnosticName => simp only [observe, trip_eq, step, emits]
  | _ => rfl

theorem run_observe (s : WorldSession) (sink : WorldEventSink) (ops : List WorldOp) :
    run observe (s, sink) ops = (run step s ops, sink.emitAll (s.told ops)) := by
  induction ops generalizing s sink with
  | nil => rfl
  | cons op rest ih =>
    rw [run_cons, observe_eq, ih, told, WorldEventSink.emitAll_append]
    rfl

/-- **The sink changes nothing.**  A session runs the same whatever the capacity of the
sink it tells; and the sink holds the first events told, up to its capacity, and counts the
others. -/
theorem sink_only_listens (s : WorldSession) (capacity : Nat) (ops : List WorldOp) :
    run observe (s, .bounded capacity) ops = (run step s ops,
      { capacity := capacity
        events := (s.told ops).take capacity
        dropped := min ((s.told ops).length - capacity) (2 ^ 64 - 1) }) := by
  rw [run_observe, WorldEventSink.emitAll_eq _ (Nat.zero_le _) (Nat.zero_le _)]
  simp only [WorldEventSink.bounded, List.nil_append, Nat.zero_add]

/-! ## 4. What is told over a life -/

/-- A step tells nothing, or the one phase it goes through, or a failure and all that was
left. -/
inductive Tells (s : WorldSession) (op : WorldOp) : Prop
  | nothing (hevents : s.emits op = [])
      (hgeneration : (s.step op).world.generation = s.world.generation)
      (hleft : (remaining (s.step op).world.state).Sublist (remaining s.world.state))
  | phase (event : SessionEvent) (target : SessionState)
      (hevents : s.emits op = [loggingEvent event target s.world.generation])
      (hleft : remaining s.world.state = (event, target) :: remaining target)
      (hstate : (s.step op).world.state = target)
      (hgeneration : target ≠ .disposed → (s.step op).world.generation = s.world.generation)
  | failure (cause diagnosticName : String)
      (hevents : s.emits op = .failure (bundle s.world cause diagnosticName) ::
        closing s.world.state s.world.generation)
      (hlive : s.world.state ≠ .disposed) (hstate : (s.step op).world.state = .disposed)

theorem tells_step (s : WorldSession) (op : WorldOp) : s.Tells op := by
  have hquiet : ∀ op, s.emits op = [] → SameSession s.world (s.step op).world → s.Tells op := by
    intro op hevents hsame
    refine .nothing hevents hsame.generation ?_
    rw [hsame.state]
  have hstill : ∀ op, s.emits op = [] → (s.step op).world = s.world → s.Tells op := by
    intro op hevents hworld
    apply hquiet op hevents
    rw [hworld]
    exact ⟨rfl, rfl, rfl⟩
  cases op with
  | beginShutdown =>
    rcases begin_moves s.world with ⟨hevents, hworld⟩ | ⟨hevents, hleft, hstate, hgeneration⟩
    · exact hstill _ hevents hworld
    · exact .phase _ _ hevents hleft hstate fun _ => hgeneration
  | drain =>
    rcases drain_moves s.world with ⟨hevents, hworld⟩ | ⟨hevents, hleft, hstate, hgeneration⟩
    · exact hstill _ hevents hworld
    · exact .phase _ _ hevents hleft hstate fun _ => hgeneration
  | finalize =>
    rcases finalize_moves s.world with ⟨hevents, hworld⟩ | ⟨hevents, hleft, hstate⟩
    · exact hstill _ hevents hworld
    · exact .phase _ _ hevents hleft hstate fun hopen => absurd rfl hopen
  | trip cause diagnosticName =>
    rcases trip_moves s.world cause diagnosticName with ⟨hevents, hworld⟩ | ⟨hevents, hlive, hstate⟩
    · exact hstill _ hevents hworld
    · exact .failure cause diagnosticName hevents hlive hstate
  | lifecycle event target origin =>
    rcases lifecycle_step s event target origin with hsame | ⟨e, t, htakes, hmoved⟩
    · exact hstill _ rfl (congrArg WorldSession.world hsame)
    · refine .nothing rfl (congrArg (·.world.generation) hmoved) ?_
      rw [hmoved]
      exact edge_induct (P := fun edge => (remaining edge.2.2).Sublist (remaining edge.1))
        (by decide) htakes.edge
  | _ => exact hquiet _ rfl (sameSession_step s _ id)

/-- What a session in this state, under this generation, may tell from here on. -/
structure Story (state : SessionState) (generation : UInt64) (events : List WorldEvent) : Prop where
  phases : (events.filter WorldEvent.isLogging).Sublist (closing state generation)
  failures : ∀ before fragment after, events = before ++ .failure fragment :: after →
    ∃ left, (remaining left).Sublist (remaining state) ∧ left ≠ .disposed ∧
      fragment.lifecycle = left.name ∧ fragment.generation = generation ∧
      after = closing left generation
  short : events.length ≤ (remaining state).length + if state = .disposed then 0 else 1

namespace Story

variable {state : SessionState} {generation : UInt64} {events : List WorldEvent}

omit [UnicodeTables]

theorem remaining_eq_nil (h : remaining state = []) : state = .disposed := by
  cases state with
  | disposed => rfl
  | _ => cases h

theorem nil (state : SessionState) (generation : UInt64) : Story state generation [] where
  phases := List.nil_sublist _
  failures := fun before _ _ h => by cases before <;> cases h
  short := Nat.zero_le _

/-- A disposed session tells nothing. -/
theorem eq_nil (h : Story .disposed generation events) : events = [] :=
  List.length_eq_zero_iff.mp (Nat.le_zero.mp h.short)

theorem mono {later : SessionState} (h : Story later generation events)
    (hleft : (remaining later).Sublist (remaining state)) : Story state generation events where
  phases := h.phases.trans (hleft.map _)
  failures := by
    intro before fragment after hsplit
    obtain ⟨left, hsub, hrest⟩ := h.failures before fragment after hsplit
    exact ⟨left, hsub.trans hleft, hrest⟩
  short := by
    have hlength := hleft.length_le
    have hshort := h.short
    by_cases hdisposed : state = .disposed
    · subst hdisposed
      have hlater : later = .disposed := remaining_eq_nil (List.sublist_nil.mp hleft)
      rwa [hlater] at hshort
    · rw [if_neg hdisposed]
      split at hshort <;> omega

theorem phase {event : SessionEvent} {target : SessionState} {later : UInt64}
    (h : Story target later events) (hleft : remaining state = (event, target) :: remaining target)
    (hgeneration : target ≠ .disposed → later = generation) :
    Story state generation (loggingEvent event target generation :: events) := by
  have hopen : state ≠ .disposed := by
    rintro rfl
    cases hleft
  have hstory : Story target generation events := by
    by_cases hdisposed : target = .disposed
    · subst hdisposed
      rw [h.eq_nil]
      exact nil _ _
    · rwa [← hgeneration hdisposed]
  constructor
  · rw [closing, hleft]
    exact hstory.phases.cons_cons _
  · intro before fragment after hsplit
    rcases List.cons_eq_append_iff.mp hsplit with ⟨rfl, hfirst⟩ | ⟨before', rfl, hrest⟩
    · cases hfirst
    · obtain ⟨left, hsub, hfacts⟩ := hstory.failures before' fragment after hrest
      rw [hleft]
      exact ⟨left, hsub.cons _, hfacts⟩
  · have hshort := hstory.short
    rw [hleft, if_neg hopen, List.length_cons, List.length_cons]
    split at hshort <;> omega

theorem failure {fragment : FailureBundleFragment} {later : UInt64}
    (h : Story .disposed later events) (hopen : state ≠ .disposed)
    (hlifecycle : fragment.lifecycle = state.name) (hgeneration : fragment.generation = generation) :
    Story state generation (.failure fragment :: closing state generation ++ events) := by
  have hlogging : ∀ event ∈ closing state generation, event.isLogging = true := by
    intro event hevent
    obtain ⟨phase, -, rfl⟩ := List.mem_map.mp hevent
    rfl
  rw [h.eq_nil, List.append_nil]
  constructor
  · rw [List.filter_cons_of_neg (by rintro ⟨⟩), List.filter_eq_self.mpr hlogging]
  · intro before fragment' after hsplit
    rcases List.cons_eq_append_iff.mp hsplit with ⟨rfl, hfirst⟩ | ⟨before', rfl, hrest⟩
    · obtain ⟨hfragment, rfl⟩ := List.cons.inj hfirst
      cases hfragment
      exact ⟨state, .refl _, hopen, hlifecycle, hgeneration, rfl⟩
    · have hmem : WorldEvent.failure fragment' ∈ closing state generation := by
        rw [hrest]
        exact List.mem_append_right _ List.mem_cons_self
      cases hlogging _ hmem
  · rw [if_neg hopen, List.length_cons, closing, List.length_map]

end Story

/-- **The story of a life.**  What any run of a session tells: the phases it goes through, each
once and in their order, under the generation the life began with; at most one failure, and
behind it exactly the phases that were left when it struck.  So four events are the most a
life can tell. -/
theorem story_of_life (s : WorldSession) (ops : List WorldOp) :
    Story s.world.state s.world.generation (s.told ops) ∧ (s.told ops).length ≤ 4 := by
  have hstory : ∀ s : WorldSession, Story s.world.state s.world.generation (s.told ops) := by
    induction ops with
    | nil => exact fun s => .nil _ _
    | cons op rest ih =>
      intro s
      have hrest := ih (s.step op)
      rw [told]
      cases tells_step s op with
      | nothing hevents hgeneration hleft =>
        rw [hevents, List.nil_append, ← hgeneration]
        exact hrest.mono hleft
      | phase event target hevents hleft hstate hgeneration =>
        rw [hevents, List.singleton_append]
        rw [hstate] at hrest
        exact hrest.phase hleft hgeneration
      | failure cause diagnosticName hevents hlive hstate =>
        rw [hevents]
        rw [hstate] at hrest
        exact hrest.failure hlive rfl rfl
  refine ⟨hstory s, (hstory s).short.trans ?_⟩
  cases s.world.state <;> decide

end WorldSession

end Sessions

end LumioVoxel
