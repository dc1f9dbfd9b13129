import LumioVoxel.WorldPort
import LumioVoxel.WorldProgress

/-!
# The lifecycle gate

Every publication runs under a barrier that only a running session admits, and the
session edges lead out of a drained state only to a drained state.  So the root
moves only while the session runs, and nothing prepared before a drain is
published after it.

What the shutdown cleans up on the way is another matter: the endpoint admits the
same two edges without dropping the reservations or leaving the generation behind.
-/

namespace LumioVoxel

open DebugText Fallible StepRuns

section Gate

variable [UnicodeTables] {s : WorldSession}

/-! ## 1. What does not touch the session -/

/-- The same session state under the same identity. -/
structure SameSession (old new : WorldInstance) : Prop where
  state : new.state = old.state
  generation : new.generation = old.generation
  contextId : new.worldContextId = old.worldContextId

namespace WorldInstance

omit [UnicodeTables] in
theorem underBarrier_sameSession {α : Type} (world : WorldInstance) (scope : BarrierScope)
    {work : WorldInstance → Except WorldError α × WorldInstance}
    (hwork : ∀ world, SameSession world (work world).2) :
    SameSession world (world.underBarrier scope work).2 := by
  rcases world.underBarrier_cases scope work with ⟨err, -, hrun⟩ | ⟨-, hrun⟩
  · rw [hrun]
    exact ⟨rfl, rfl, rfl⟩
  · rw [hrun]
    obtain ⟨hstate, hgeneration, hcontext⟩ := hwork { world with writeOccupied := true }
    exact ⟨hstate, hgeneration, hcontext⟩

omit [UnicodeTables] in
/-- Only a running session admits a write. -/
theorem underBarrier_of_not_running {α : Type} {world : WorldInstance}
    (hstate : world.state ≠ .running) {scope : BarrierScope} (hscope : scope ≠ .captureCut)
    (work : WorldInstance → Except WorldError α × WorldInstance) :
    ∃ err, world.underBarrier scope work = (.error err, world) := by
  rcases world.underBarrier_cases scope work with ⟨err, -, hrun⟩ | ⟨⟨-, hadmit⟩, -⟩
  · exact ⟨err, hrun⟩
  · have hwrite : writeAdmissible world.state = true := by
      cases scope with
      | captureCut => exact absurd rfl hscope
      | _ => exact require_eq_ok.mp hadmit
    exact absurd (of_decide_eq_true hwrite) hstate

end WorldInstance

/-- The operations that drive the session along its edges. -/
def WorldOp.Drives : WorldOp → Prop
  | .lifecycle _ _ _ | .beginShutdown | .drain | .finalize | .trip _ _ => True
  | _ => False

namespace WorldSession

theorem sameSession_step (s : WorldSession) (op : WorldOp) (hop : ¬ op.Drives) :
    SameSession s.world (s.step op).world := by
  cases op with
  | prepare request =>
    apply WorldInstance.underBarrier_sameSession
    intro world
    split
    · exact ⟨rfl, rfl, rfl⟩
    · exact ⟨rfl, rfl, rfl⟩
  | commit i =>
    simp only [step, commit]
    split
    · exact ⟨rfl, rfl, rfl⟩
    · apply WorldInstance.underBarrier_sameSession
      intro world
      split
      · exact ⟨rfl, rfl, rfl⟩
      · exact ⟨rfl, rfl, rfl⟩
  | abort request =>
    apply WorldInstance.underBarrier_sameSession
    intro world
    split
    · exact ⟨rfl, rfl, rfl⟩
    · split
      · exact ⟨rfl, rfl, rfl⟩
      · exact ⟨rfl, rfl, rfl⟩
  | query request =>
    apply WorldInstance.underBarrier_sameSession
    intro world
    split
    · exact ⟨rfl, rfl, rfl⟩
    · exact ⟨rfl, rfl, rfl⟩
  | ack evidence =>
    simp only [step, applyDurabilityAck]
    split
    · exact ⟨rfl, rfl, rfl⟩
    · apply WorldInstance.underBarrier_sameSession
      intro world
      unfold DurabilityAckBarrier.apply
      split
      · exact ⟨rfl, rfl, rfl⟩
      · exact ⟨rfl, rfl, rfl⟩
  | unload sectionId hook =>
    apply WorldInstance.underBarrier_sameSession
    intro world
    exact ⟨rfl, rfl, rfl⟩
  | capture cut =>
    simp only [step, capture, LumioVoxel.capture]
    split
    · exact ⟨rfl, rfl, rfl⟩
    · rcases WorldInstance.underBarrier_cases
        { s.world with authority := s.world.authority.capture.2 } .captureCut _ with
        ⟨err, -, hrun⟩ | ⟨-, hrun⟩
      · rw [hrun]
        exact ⟨rfl, rfl, rfl⟩
      · rw [hrun]
        simp only
        split
        · exact ⟨rfl, rfl, rfl⟩
        · exact ⟨rfl, rfl, rfl⟩
  | release k =>
    simp only [step, release]
    split
    · exact ⟨rfl, rfl, rfl⟩
    · exact ⟨rfl, rfl, rfl⟩
  | restore j expectedWorldId expectedGeneration config =>
    simp only [step, restore]
    split
    · exact ⟨rfl, rfl, rfl⟩
    · apply WorldInstance.underBarrier_sameSession
      intro world
      unfold RestoreBarrier.publish
      split
      · exact ⟨rfl, rfl, rfl⟩
      · split
        · exact ⟨rfl, rfl, rfl⟩
        · exact ⟨rfl, rfl, rfl⟩
  | lifecycle event target origin => exact absurd trivial hop
  | beginShutdown => exact absurd trivial hop
  | drain => exact absurd trivial hop
  | finalize => exact absurd trivial hop
  | trip cause diagnosticName => exact absurd trivial hop
  | _ => exact ⟨rfl, rfl, rfl⟩

/-! ## 2. A session that does not run -/

/-- Nothing is published and no transaction opened, closed or completed. -/
theorem frozen_step (hstate : s.world.state ≠ .running) {op : WorldOp} (hop : ¬ op.Drives) :
    (s.step op).root = s.root ∧ (s.step op).world.ledger = s.world.ledger := by
  have hrefused : ∀ {α : Type} {scope : BarrierScope}
      (work : WorldInstance → Except WorldError α × WorldInstance), scope ≠ .captureCut →
      (s.world.underBarrier scope work).2 = s.world := by
    intro α scope work hscope
    obtain ⟨err, hrun⟩ := WorldInstance.underBarrier_of_not_running hstate hscope work
    rw [hrun]
  cases op with
  | prepare request =>
    have hworld : (s.step (.prepare request)).world = s.world := hrefused _ (by decide)
    exact ⟨congrArg WorldInstance.root hworld, congrArg (·.ledger) hworld⟩
  | commit i =>
    have hworld : (s.step (.commit i)).world = s.world := by
      simp only [step, commit]
      split
      · rfl
      · exact hrefused _ (by decide)
    exact ⟨congrArg WorldInstance.root hworld, congrArg (·.ledger) hworld⟩
  | abort request =>
    have hworld : (s.step (.abort request)).world = s.world := hrefused _ (by decide)
    exact ⟨congrArg WorldInstance.root hworld, congrArg (·.ledger) hworld⟩
  | query request =>
    refine ⟨(WriteLease.query_outcome s.world request).root, ?_⟩
    simp only [step, WriteLease.query]
    rcases s.world.underBarrier_cases .captureCut _ with ⟨err, -, hrun⟩ | ⟨-, hrun⟩
    · rw [hrun]
    · rw [hrun]
      simp only
      split
      · rfl
      · rfl
  | ack evidence =>
    have hworld : (s.step (.ack evidence)).world = s.world := by
      simp only [step, applyDurabilityAck]
      split
      · rfl
      · exact hrefused _ (by decide)
    exact ⟨congrArg WorldInstance.root hworld, congrArg (·.ledger) hworld⟩
  | unload sectionId hook =>
    have hworld : (s.step (.unload sectionId hook)).world = s.world := hrefused _ (by decide)
    exact ⟨congrArg WorldInstance.root hworld, congrArg (·.ledger) hworld⟩
  | capture cut =>
    refine ⟨(capture_outcome s.world cut).1.root, ?_⟩
    simp only [step, capture, LumioVoxel.capture]
    split
    · rfl
    · rcases WorldInstance.underBarrier_cases
        { s.world with authority := s.world.authority.capture.2 } .captureCut _ with
        ⟨err, -, hrun⟩ | ⟨-, hrun⟩
      · rw [hrun]
      · rw [hrun]
        simp only
        split
        · rfl
        · rfl
  | release k =>
    simp only [step, release]
    split
    · exact ⟨rfl, rfl⟩
    · exact ⟨rfl, rfl⟩
  | restore j expectedWorldId expectedGeneration config =>
    have hworld : (s.step (.restore j expectedWorldId expectedGeneration config)).world =
        s.world := by
      simp only [step, restore]
      split
      · rfl
      · exact hrefused _ (by decide)
    exact ⟨congrArg WorldInstance.root hworld, congrArg (·.ledger) hworld⟩
  | lifecycle event target origin => exact absurd trivial hop
  | beginShutdown => exact absurd trivial hop
  | drain => exact absurd trivial hop
  | finalize => exact absurd trivial hop
  | trip cause diagnosticName => exact absurd trivial hop
  | _ => exact ⟨rfl, rfl⟩

/-- Driving the session publishes nothing. -/
theorem kept_of_drives (s : WorldSession) (op : WorldOp) (hop : op.Drives) :
    Kept s.world (s.step op).world := by
  cases op with
  | lifecycle event target origin =>
    simp only [step, lifecycle]
    split
    · rename_i hadmit
      exact admit_outcome hadmit
    · exact .refl s.world
  | beginShutdown => exact WorldShutdown.begin_outcome s.world
  | drain => exact WorldShutdown.drain_outcome s.world
  | finalize => exact WorldShutdown.finalize_outcome s.world
  | trip cause diagnosticName => exact WorldShutdown.trip_outcome s.world _ _
  | _ => exact absurd hop id

theorem kept_step (hstate : s.world.state ≠ .running) (op : WorldOp) :
    (s.step op).root = s.root ∧ s.world.ledger.SameApplied (s.step op).world.ledger := by
  by_cases hop : op.Drives
  · have hkept := kept_of_drives s op hop
    exact ⟨hkept.root, hkept.applied⟩
  · obtain ⟨hroot, hledger⟩ := frozen_step hstate hop
    refine ⟨hroot, ?_⟩
    rw [hledger]
    exact .refl _

end WorldSession

/-! ## 3. Session edges -/

omit [UnicodeTables] in
theorem SessionState.apply_eq_ok {current target state : SessionState} {event : SessionEvent} :
    current.apply event target = .ok state ↔
      hasSessionEdge current event target = true ∧ target = state := by
  simp only [apply, bind_eq_ok, require_eq_ok, pure_eq_ok, exists_const]

omit [UnicodeTables] in
theorem internSessionEvent_eq_some {name : String} {event : SessionEvent} :
    internSessionEvent name = some event ↔ name = event.name := by
  constructor
  · intro h
    obtain ⟨edge, -, hedge⟩ := List.exists_of_findSome?_eq_some h
    split at hedge
    · rename_i hname
      obtain rfl := Option.some.inj hedge
      exact hname.symm
    · cases hedge
  · rintro rfl
    cases event <;> decide

omit [UnicodeTables] in
theorem internSessionState_eq_some {name : String} {state : SessionState} :
    internSessionState name = some state ↔ name = state.name := by
  constructor
  · intro h
    obtain ⟨edge, -, hedge⟩ := List.exists_of_findSome?_eq_some h
    split at hedge
    · rename_i hname
      obtain rfl := Option.some.inj hedge
      exact hname.symm
    · split at hedge
      · rename_i hname
        obtain rfl := Option.some.inj hedge
        exact hname.symm
      · cases hedge
  · rintro rfl
    cases state <;> decide

/-- The session has been drained. -/
def Drained (state : SessionState) : Prop :=
  state = .draining ∨ state = .snapshotted ∨ state = .disposed

instance (state : SessionState) : Decidable (Drained state) :=
  inferInstanceAs (Decidable (_ ∨ _ ∨ _))

omit [UnicodeTables] in
theorem Drained.not_running {state : SessionState} (h : Drained state) : state ≠ .running := by
  rintro rfl
  revert h
  decide

omit [UnicodeTables] in
theorem hasSessionEdge_iff {source target : SessionState} {event : SessionEvent} :
    hasSessionEdge source event target = true ↔ (source, event, target) ∈ SESSION_TRANSITIONS := by
  simp only [hasSessionEdge, List.any_eq_true, decide_eq_true_eq]
  constructor
  · rintro ⟨edge, hmem, rfl, rfl, rfl⟩
    exact hmem
  · intro hmem
    exact ⟨_, hmem, rfl, rfl, rfl⟩

omit [UnicodeTables] in
/-- What holds of the nine edges of the table holds of every edge. -/
theorem edge_induct {P : SessionState × SessionEvent × SessionState → Prop}
    (h : ∀ edge ∈ SESSION_TRANSITIONS, P edge) {source target : SessionState}
    {event : SessionEvent} (hedge : hasSessionEdge source event target = true) :
    P (source, event, target) :=
  h _ (hasSessionEdge_iff.mp hedge)

omit [UnicodeTables] in
/-- No edge leads back. -/
theorem Drained.edge {source target : SessionState} {event : SessionEvent} (h : Drained source)
    (hedge : hasSessionEdge source event target = true) : Drained target :=
  edge_induct (P := fun edge => Drained edge.1 → Drained edge.2.2) (by decide) hedge h

/-- The endpoint takes the edge a lifecycle command names. -/
structure WorldInstance.TakesEdge (world : WorldInstance) (event target : String)
    (origin : OriginToken) (e : SessionEvent) (t : SessionState) : Prop where
  event : event = e.name
  target : target = t.name
  origin : world.generationGuard.checkOrigin origin = .ok ()
  edge : hasSessionEdge world.state e t = true

omit [UnicodeTables] in
theorem admit_lifecycle_eq_ok {world world' : WorldInstance} {event target : String}
    {origin : OriginToken} {admitted : AdmittedCommand} :
    WorldEndpoint.admit world (.lifecycle event target origin) = .ok (admitted, world') ↔
      ∃ e t, world.TakesEdge event target origin e t ∧
        admitted = .lifecycle world.state e t ∧ world' = { world with state := t } := by
  simp only [bind_eq_ok, WorldEndpoint.admit, SessionState.apply_eq_ok, pure_eq_ok, someOr_eq_ok,
    internSessionEvent_eq_some, internSessionState_eq_some]
  constructor
  · rintro ⟨u, horigin, e, he, t, ht, state, ⟨hedge, rfl⟩, hout⟩
    obtain ⟨rfl, rfl⟩ := Prod.mk.inj hout
    exact ⟨e, t, ⟨he, ht, horigin, hedge⟩, rfl, rfl⟩
  · rintro ⟨e, t, ⟨he, ht, horigin, hedge⟩, rfl, rfl⟩
    exact ⟨(), horigin, e, he, t, ht, t, ⟨hedge, rfl⟩, rfl⟩

namespace WorldSession

/-- An admitted lifecycle command takes one edge and nothing else. -/
theorem lifecycle_step (s : WorldSession) (event target : String) (origin : OriginToken) :
    s.step (.lifecycle event target origin) = s ∨
    ∃ e t, s.world.TakesEdge event target origin e t ∧
      s.step (.lifecycle event target origin) = { s with world := { s.world with state := t } } := by
  simp only [step, lifecycle]
  split
  · rename_i hadmit
    obtain ⟨e, t, htakes, -, rfl⟩ := admit_lifecycle_eq_ok.mp hadmit
    exact .inr ⟨e, t, htakes, rfl⟩
  · exact .inl rfl

theorem step_of_takesEdge {event target : String} {origin : OriginToken} {e : SessionEvent}
    {t : SessionState} (h : s.world.TakesEdge event target origin e t) :
    s.step (.lifecycle event target origin) = { s with world := { s.world with state := t } } := by
  have hadmit := admit_lifecycle_eq_ok.mpr ⟨e, t, h, rfl, rfl⟩
  simp only [step, lifecycle, hadmit]

end WorldSession

/-! ## 4. The ordered shutdown -/

namespace WorldShutdown

variable {world : WorldInstance}

omit [UnicodeTables] in
theorem begin_cases (world : WorldInstance) :
    (begin world).2 = world ∨
    hasSessionEdge world.state .drain .draining = true ∧
      (begin world).2 = { world with state := .draining } := by
  unfold begin
  split
  · exact .inl rfl
  · split
    · exact .inl rfl
    · rename_i happly
      obtain ⟨hedge, rfl⟩ := SessionState.apply_eq_ok.mp happly
      exact .inr ⟨hedge, rfl⟩

omit [UnicodeTables] in
theorem drain_cases (world : WorldInstance) :
    (drain world).2 = world ∨
    hasSessionEdge world.state .finalSnapshotTaken .snapshotted = true ∧
      (drain world).2 =
        { world with state := .snapshotted, ledger := world.ledger.abortInFlight } := by
  unfold drain
  split
  · exact .inl rfl
  · split
    · exact .inl rfl
    · rename_i happly
      obtain ⟨hedge, rfl⟩ := SessionState.apply_eq_ok.mp happly
      exact .inr ⟨hedge, rfl⟩

omit [UnicodeTables] in
theorem finalize_cases (world : WorldInstance) :
    (finalize world).2 = world ∨
    hasSessionEdge world.state .dispose .disposed = true ∧
      (finalize world).2 = { world with
        state := .disposed
        writeOccupied := false
        generation := invalidateGeneration world.generation } := by
  unfold finalize
  split
  · exact .inl rfl
  · split
    · exact .inl rfl
    · rename_i happly
      obtain ⟨hedge, rfl⟩ := SessionState.apply_eq_ok.mp happly
      exact .inr ⟨hedge, rfl⟩

omit [UnicodeTables] in
/-- What the three steps preserve, a trip preserves. -/
theorem trip_induct {P : WorldInstance → Prop} (hbegin : ∀ world, P world → P (begin world).2)
    (hdrain : ∀ world, P world → P (drain world).2)
    (hfinalize : ∀ world, P world → P (finalize world).2) (h : P world)
    (cause diagnosticName : String) : P (trip world cause diagnosticName).2 := by
  unfold trip
  split
  · exact h
  · have h₁ := hbegin world h
    split
    · rename_i hrun
      rw [hrun] at h₁
      exact h₁
    · rename_i world₁ hrun
      rw [hrun] at h₁
      have h₂ := hdrain world₁ h₁
      split
      · rename_i hrun'
        rw [hrun'] at h₂
        exact h₂
      · rename_i world₂ hrun'
        rw [hrun'] at h₂
        exact hfinalize world₂ h₂

end WorldShutdown

/-! ## 5. The gate -/

namespace WorldSession

theorem drained_step (h : Drained s.world.state) (op : WorldOp) :
    Drained (s.step op).world.state := by
  have hbegin : ∀ world : WorldInstance, Drained world.state →
      Drained (WorldShutdown.begin world).2.state := by
    intro world hworld
    rcases WorldShutdown.begin_cases world with hsame | ⟨hedge, hmoved⟩
    · rwa [hsame]
    · rw [hmoved]
      exact hworld.edge hedge
  have hdrain : ∀ world : WorldInstance, Drained world.state →
      Drained (WorldShutdown.drain world).2.state := by
    intro world hworld
    rcases WorldShutdown.drain_cases world with hsame | ⟨hedge, hmoved⟩
    · rwa [hsame]
    · rw [hmoved]
      exact hworld.edge hedge
  have hfinalize : ∀ world : WorldInstance, Drained world.state →
      Drained (WorldShutdown.finalize world).2.state := by
    intro world hworld
    rcases WorldShutdown.finalize_cases world with hsame | ⟨hedge, hmoved⟩
    · rwa [hsame]
    · rw [hmoved]
      exact hworld.edge hedge
  cases op with
  | lifecycle event target origin =>
    rcases lifecycle_step s event target origin with hsame | ⟨e, t, htakes, hmoved⟩
    · rwa [hsame]
    · rw [hmoved]
      exact h.edge htakes.edge
  | beginShutdown => exact hbegin _ h
  | drain => exact hdrain _ h
  | finalize => exact hfinalize _ h
  | trip cause diagnosticName =>
    exact WorldShutdown.trip_induct (P := fun world => Drained world.state) hbegin hdrain
      hfinalize h cause diagnosticName
  | _ =>
    rw [(sameSession_step s _ id).state]
    exact h

/-- What every world operation preserves, every port operation preserves. -/
theorem portStep_induct {P : WorldSession → Prop} (hstep : ∀ s op, P s → P (step s op))
    (h : P s) (op : PortOp) : P (s.portStep op) := by
  rcases s.portStep_expands op with hsame | ⟨op', hone⟩ | htwo | hthree
  · rwa [hsame]
  · rw [hone]
    exact hstep s op' h
  · rw [htwo]
    exact run_invariant hstep h _
  · rw [hthree]
    exact run_invariant hstep h _

/-- Only a running session publishes. -/
theorem running_of_portStep {op : PortOp} (h : (s.portStep op).root ≠ s.root) :
    s.world.state = .running := by
  by_contra hstate
  have hshutdown : ∀ s : WorldSession, (s.step .beginShutdown).root = s.root ∧
      (s.step .drain).root = s.root ∧ (s.step .finalize).root = s.root := by
    intro s
    exact ⟨(kept_of_drives s .beginShutdown trivial).root, (kept_of_drives s .drain trivial).root,
      (kept_of_drives s .finalize trivial).root⟩
  apply h
  rcases s.portStep_expands op with hsame | ⟨op', hone⟩ | htwo | hthree
  · rw [hsame]
  · rw [hone]
    exact (kept_step hstate op').1
  · rw [htwo]
    exact (hshutdown _).2.1.trans (hshutdown s).1
  · rw [hthree]
    exact (hshutdown _).2.2.trans ((hshutdown _).2.1.trans (hshutdown s).1)

/-- As the drain left it: nothing published, nothing newly applied. -/
structure Sealed (s t : WorldSession) : Prop where
  drained : Drained t.world.state
  root : t.root = s.root
  applied : s.world.ledger.SameApplied t.world.ledger

theorem sealed_step {t : WorldSession} (h : s.Sealed t) (op : WorldOp) : s.Sealed (t.step op) := by
  obtain ⟨hroot, happlied⟩ := kept_step h.drained.not_running op
  exact ⟨drained_step h.drained op, hroot.trans h.root, h.applied.trans happlied⟩

/-- **The lifecycle gate.** In every run through the port the root changes only in a
step that starts while the session runs; and from a drain on, nothing is published,
no transaction becomes applied, and the commit of any prepared mutation is refused. -/
theorem lifecycle_gate (world : WorldInstance) (before after : List PortOp) :
    Along portStep (fun s op => (s.portStep op).root ≠ s.root → s.world.state = .running)
      (.start world) (before ++ after) ∧
    (Drained (run portStep (.start world) before).world.state →
      ∀ t ∈ visited portStep (run portStep (.start world) before) after,
        t.root = (run portStep (.start world) before).root ∧
        (∀ txnId, t.Applied txnId → (run portStep (.start world) before).Applied txnId) ∧
        ∀ token, ∃ err, (WriteLease.commit t.world token).1 = .error err) := by
  constructor
  · exact along_of_forall (fun s op => running_of_portStep) _ _
  · intro hdrained t ht
    have hstep : ∀ (t : WorldSession) (op : PortOp),
        (run portStep (.start world) before).Sealed t →
        (run portStep (.start world) before).Sealed (t.portStep op) := by
      intro t op h
      exact portStep_induct (P := (run portStep (.start world) before).Sealed)
        (fun t op h => sealed_step h op) h op
    have hsealed : (run portStep (.start world) before).Sealed t :=
      visited_invariant_along (C := fun _ _ => True) (fun t op h _ => hstep t op h)
        ⟨hdrained, rfl, .refl _⟩ (along_of_forall (fun _ _ => trivial) _ _) t ht
    refine ⟨hsealed.root, fun txnId => (hsealed.applied txnId).mp, fun token => ?_⟩
    obtain ⟨err, hrun⟩ := WorldInstance.underBarrier_of_not_running hsealed.drained.not_running
      (show BarrierScope.mutation ≠ .captureCut by decide) _
    exact ⟨err, congrArg Prod.fst hrun⟩

omit [UnicodeTables] in
/-- A mutation prepared before the drain stays unpublished. -/
theorem lifecycle_gate_prepared : letI := asciiOnly
    ∃ authority,
      let s := run portStep (start (runningWorld authority none))
        [.world (.prepare (originRequest "txn" [])), .world .beginShutdown]
      s.tokens ≠ [] ∧ (s.portStep (.world (.commit 0))).root = bareRoot := by
  let _ := asciiOnly
  obtain ⟨authority, hroot, hserves⟩ := exists_runningWorld bareRoot ⟨rfl, rfl, rfl, rfl⟩ none
  let s := start (runningWorld authority none)
  obtain ⟨token, htokens, -, -, -, hsame, hserves'⟩ := bare_prepare_step (s := s) hserves hroot rfl
  let prepared := s.step (.prepare (originRequest "txn" []))
  have hstate : prepared.world.state = .running :=
    (sameSession_step s (.prepare (originRequest "txn" [])) id).state
  have hbegin : (prepared.step .beginShutdown).world.state = .draining := by
    simp only [step, WorldShutdown.begin]
    rw [hstate]
    rfl
  obtain ⟨-, hgate⟩ := lifecycle_gate (runningWorld authority none)
    [.world (.prepare (originRequest "txn" [])), .world .beginShutdown] [.world (.commit 0)]
  refine ⟨authority, ?_, ?_⟩
  · show prepared.tokens ≠ []
    rw [htokens]
    exact List.cons_ne_nil _ _
  · refine ((hgate (.inl hbegin) _ (run_mem_visited _ _)).1).trans ?_
    exact (kept_of_drives prepared .beginShutdown trivial).root.trans hsame

/-! ## 6. Nothing left live -/

/-- The endpoint takes an edge on which the ordered shutdown would clean up: the
final snapshot with transactions in flight, or the disposal. -/
def SkipsCleanup (s : WorldSession) (op : WorldOp) : Prop :=
  ∃ event target origin, op = .lifecycle event target origin ∧
    (s.world.TakesEdge event target origin .finalSnapshotTaken .snapshotted ∧
        s.world.ledger.inFlightCount ≠ 0 ∨
      s.world.TakesEdge event target origin .dispose .disposed)

/-- Past the final snapshot no transaction is in flight, and a disposed session has
left every generation behind under which anything was stamped. -/
structure LeavesNothingLive (s : WorldSession) (ops : List WorldOp) : Prop where
  reservations : ∀ t ∈ visited step s ops,
    t.world.state = .snapshotted ∨ t.world.state = .disposed → t.world.ledger.inFlightCount = 0
  generations : ∀ before after, ops = before ++ after →
    (run step s before).world.state ≠ .disposed →
    ∀ t ∈ visited step (run step s before) after, t.world.state = .disposed →
      t.world.generation ≠ (run step s before).world.generation

end WorldSession

namespace ReceiptLedger

omit [UnicodeTables] in
theorem inFlightCount_eq_zero {ledger : ReceiptLedger} :
    ledger.inFlightCount = 0 ↔
      ∀ (txnId : String) (entry : LedgerEntry), ledger.entries[txnId]? = some entry →
        entry.receipt ≠ none := by
  unfold inFlightCount
  rw [← Std.ExtTreeMap.eq_empty_iff_size_eq_zero]
  constructor
  · intro hempty txnId entry hentry hnone
    have hkept := BTreeMap.getElem?_filter_value ledger.entries (·.receipt.isNone) txnId
    rw [hempty, BTreeMap.getElem?_empty, hentry, Option.filter_some, hnone] at hkept
    cases hkept
  · intro hcompleted
    apply Std.ExtTreeMap.ext_getElem?
    intro txnId
    rw [BTreeMap.getElem?_filter_value, BTreeMap.getElem?_empty, Option.filter_eq_none_iff]
    intro entry hentry hnone
    exact hcompleted txnId entry hentry (Option.isNone_iff_eq_none.mp hnone)

omit [UnicodeTables] in
theorem inFlightCount_abortInFlight (ledger : ReceiptLedger) :
    ledger.abortInFlight.inFlightCount = 0 := by
  rw [inFlightCount_eq_zero]
  intro txnId entry hentry hnone
  rw [getElem?_abortInFlight, Option.filter_eq_some_iff, hnone] at hentry
  cases hentry.2

end ReceiptLedger

omit [UnicodeTables] in
/-- The last two states are entered by one edge each, and the last is never left. -/
theorem edge_ends {source target : SessionState} {event : SessionEvent}
    (h : hasSessionEdge source event target = true) :
    source ≠ .disposed ∧ (target = .snapshotted → event = .finalSnapshotTaken) ∧
      (target = .disposed → event = .dispose ∧ source = .snapshotted) := by
  exact edge_induct (P := fun edge => edge.1 ≠ .disposed ∧
    (edge.2.2 = .snapshotted → edge.2.1 = .finalSnapshotTaken) ∧
      (edge.2.2 = .disposed → edge.2.1 = .dispose ∧ edge.1 = .snapshotted)) (by decide) h

omit [UnicodeTables] in
theorem WorldShutdown.invalidateGeneration_ne (generation : UInt64) :
    invalidateGeneration generation ≠ generation := by
  unfold invalidateGeneration
  split
  · rename_i hwrap
    rintro rfl
    exact absurd hwrap (by decide)
  · intro h
    have hnat := congrArg UInt64.toNat h
    rw [UInt64.toNat_add] at hnat
    have hlt := generation.toNat_lt
    have hone : (1 : UInt64).toNat = 1 := rfl
    omega

/-- Nothing is live past the end, and only the end leaves the generation. -/
structure Clean (generation : UInt64) (world : WorldInstance) : Prop where
  reservations : world.state = .snapshotted ∨ world.state = .disposed →
    world.ledger.inFlightCount = 0
  live : world.state ≠ .disposed → world.generation = generation
  left : world.state = .disposed → world.generation ≠ generation

namespace Clean

variable {generation : UInt64} {world : WorldInstance}

omit [UnicodeTables] in
theorem begin (h : Clean generation world) : Clean generation (WorldShutdown.begin world).2 := by
  rcases WorldShutdown.begin_cases world with hsame | ⟨hedge, hmoved⟩
  · rwa [hsame]
  · rw [hmoved]
    refine ⟨fun hend => ?_, fun _ => h.live (edge_ends hedge).1, fun hend => ?_⟩
    · rcases hend with hend | hend
      · cases hend
      · cases hend
    · cases hend

omit [UnicodeTables] in
theorem drain (h : Clean generation world) : Clean generation (WorldShutdown.drain world).2 := by
  rcases WorldShutdown.drain_cases world with hsame | ⟨hedge, hmoved⟩
  · rwa [hsame]
  · rw [hmoved]
    refine ⟨fun _ => world.ledger.inFlightCount_abortInFlight,
      fun _ => h.live (edge_ends hedge).1, fun hend => ?_⟩
    cases hend

omit [UnicodeTables] in
theorem finalize (h : Clean generation world) :
    Clean generation (WorldShutdown.finalize world).2 := by
  rcases WorldShutdown.finalize_cases world with hsame | ⟨hedge, hmoved⟩
  · rwa [hsame]
  · rw [hmoved]
    refine ⟨fun _ => h.reservations (.inl ((edge_ends hedge).2.2 rfl).2), fun hend => absurd rfl hend,
      fun _ => ?_⟩
    rw [← h.live (edge_ends hedge).1]
    exact WorldShutdown.invalidateGeneration_ne _

/-- A session that does not run keeps its ledger. -/
theorem of_not_drives (h : Clean generation s.world) {op : WorldOp} (hop : ¬ op.Drives) :
    Clean generation (s.step op).world := by
  have hsame := WorldSession.sameSession_step s op hop
  constructor
  · intro hend
    rw [hsame.state] at hend
    have hstate : s.world.state ≠ .running := by
      intro hrunning
      rw [hrunning] at hend
      revert hend
      decide
    rw [(WorldSession.frozen_step hstate hop).2]
    exact h.reservations hend
  · intro hlive
    rw [hsame.state] at hlive
    exact hsame.generation.trans (h.live hlive)
  · intro hdisposed
    rw [hsame.state] at hdisposed
    rw [hsame.generation]
    exact h.left hdisposed

end Clean

namespace WorldSession

theorem clean_step {generation : UInt64} (h : Clean generation s.world) {op : WorldOp}
    (hno : ¬ s.SkipsCleanup op) : Clean generation (s.step op).world := by
  cases op with
  | lifecycle event target origin =>
    rcases lifecycle_step s event target origin with hsame | ⟨e, t, htakes, hmoved⟩
    · rwa [hsame]
    · obtain ⟨hsource, hsnapshotted, hdisposed⟩ := edge_ends htakes.edge
      have hopen : t ≠ .disposed := by
        rintro rfl
        obtain ⟨rfl, -⟩ := hdisposed rfl
        exact hno ⟨event, target, origin, rfl, .inr htakes⟩
      rw [hmoved]
      refine ⟨fun hend => ?_, fun _ => h.live hsource, fun hend => absurd hend hopen⟩
      rcases hend with rfl | hend
      · obtain rfl := hsnapshotted rfl
        by_contra hflight
        exact hno ⟨event, target, origin, rfl, .inl ⟨htakes, hflight⟩⟩
      · exact absurd hend hopen
  | beginShutdown => exact h.begin
  | drain => exact h.drain
  | finalize => exact h.finalize
  | trip cause diagnosticName =>
    exact WorldShutdown.trip_induct (fun _ h => h.begin) (fun _ h => h.drain)
      (fun _ h => h.finalize) h cause diagnosticName
  | _ => exact h.of_not_drives id

/-- **What the shutdown leaves.** In a run that starts before the final snapshot, no
transaction is in flight past it and no generation survives the disposal, exactly
when the endpoint never takes one of the two edges without the cleanup. -/
theorem leaves_nothing_live_iff (world : WorldInstance)
    (hopen : world.state ≠ .snapshotted ∧ world.state ≠ .disposed) (ops : List WorldOp) :
    LeavesNothingLive (.start world) ops ↔
      Along step (fun s op => ¬ s.SkipsCleanup op) (.start world) ops := by
  constructor
  · intro hnothing
    apply along_of_splits
    rintro first op rest rfl ⟨event, target, origin, rfl, hskips⟩
    have hvisited : step (run step (.start world) first) (.lifecycle event target origin) ∈
        visited step (run step (.start world) first) (.lifecycle event target origin :: rest) :=
      List.mem_cons_of_mem _ (start_mem_visited _ _)
    rcases hskips with ⟨htakes, hflight⟩ | htakes
    · have hstep := step_of_takesEdge htakes
      refine hflight ?_
      have hzero := hnothing.reservations _ (mem_visited_append_right hvisited)
        (.inl (by rw [hstep]))
      rwa [hstep] at hzero
    · have hstep := step_of_takesEdge htakes
      have hsource := (edge_ends htakes.edge).1
      refine hnothing.generations first _ rfl hsource _ hvisited (by rw [hstep]) ?_
      rw [hstep]
  · intro halong
    have hstart : Clean world.generation world := by
      refine ⟨fun hend => ?_, fun _ => rfl, fun hend => absurd hend hopen.2⟩
      rcases hend with hend | hend
      · exact absurd hend hopen.1
      · exact absurd hend hopen.2
    have hstep : ∀ (t : WorldSession) (op : WorldOp), Clean world.generation t.world →
        ¬ t.SkipsCleanup op → Clean world.generation (t.step op).world :=
      fun t op h hno => clean_step h hno
    have hclean : ∀ t ∈ visited step (.start world) ops, Clean world.generation t.world :=
      visited_invariant_along hstep hstart halong
    refine ⟨fun t ht => (hclean t ht).reservations, ?_⟩
    rintro before after rfl hlive t ht hdisposed
    rw [(hclean _ (mem_visited_append_left after (run_mem_visited _ _))).live hlive]
    exact (hclean t (mem_visited_append_right ht)).left hdisposed

omit [UnicodeTables] in
/-- The ordered shutdown, with a transaction open when it begins. -/
theorem leaves_nothing_live_ordered : letI := asciiOnly
    ∃ authority, LeavesNothingLive (start (runningWorld authority none))
      [.prepare (originRequest "txn" []), .beginShutdown, .drain, .finalize] := by
  let _ := asciiOnly
  obtain ⟨authority, -, -⟩ := exists_runningWorld bareRoot ⟨rfl, rfl, rfl, rfl⟩ none
  refine ⟨authority, (leaves_nothing_live_iff (runningWorld authority none)
    ⟨SessionState.noConfusion, SessionState.noConfusion⟩ _).mpr ?_⟩
  refine ⟨?_, ?_, ?_, ?_, trivial⟩ <;>
  · rintro ⟨event, target, origin, hop, -⟩
    cases hop

end WorldSession

omit [UnicodeTables] in
theorem ReceiptLedger.inFlightCount_of_inFlight {ledger : ReceiptLedger}
    {request : MutationRequest} (h : ledger.lookup request = .ok .inFlight) :
    ledger.inFlightCount ≠ 0 := by
  obtain ⟨-, entry, hentry, -, hnone⟩ := lookup_inFlight.mp h
  exact fun hzero => inFlightCount_eq_zero.mp hzero _ _ hentry hnone

namespace WorldSession

/-- An origin of the world that just started. -/
def driverOrigin : OriginToken := ⟨"context", 1, "driver", 0, ∅, "VoxelCommit"⟩

omit [UnicodeTables] in
theorem driverOrigin_accepted {world : WorldInstance} (hcontext : world.worldContextId = "context")
    (hgeneration : world.generation = 1) :
    world.generationGuard.checkOrigin driverOrigin = .ok () := by
  rw [InstanceGenerationGuard.checkOrigin_eq_ok]
  exact ⟨by decide, hcontext.symm, hgeneration.symm⟩

/-- One edge, taken through the endpoint. -/
def drive (event : SessionEvent) (target : SessionState) : WorldOp :=
  .lifecycle event.name target.name driverOrigin

def inState (s : WorldSession) (state : SessionState) : WorldSession :=
  { s with world := { s.world with state } }

theorem inState_inState (s : WorldSession) (first second : SessionState) :
    (s.inState first).inState second = s.inState second := rfl

theorem inState_self {state : SessionState} (h : s.world.state = state) : s.inState state = s := by
  subst h
  rfl

theorem drive_step {event : SessionEvent} {target : SessionState}
    (hcontext : s.world.worldContextId = "context") (hgeneration : s.world.generation = 1)
    (hedge : hasSessionEdge s.world.state event target = true) :
    s.step (drive event target) = s.inState target :=
  step_of_takesEdge ⟨rfl, rfl, driverOrigin_accepted hcontext hgeneration, hedge⟩

/-- To the running session through the endpoint, and from it to the disposed one. -/
def endpointStart : List WorldOp :=
  [drive .initialise .initialized, drive .prime .ready, drive .start .running]

def endpointShutdown : List WorldOp :=
  [drive .drain .draining, drive .finalSnapshotTaken .snapshotted, drive .dispose .disposed]

theorem run_endpointStart (hcontext : s.world.worldContextId = "context")
    (hgeneration : s.world.generation = 1) (hstate : s.world.state = .created) :
    run step s endpointStart = s.inState .running := by
  have h₁ : s.step (drive .initialise .initialized) = s.inState .initialized :=
    drive_step hcontext hgeneration (by rw [hstate]; rfl)
  have h₂ : (s.inState .initialized).step (drive .prime .ready) = s.inState .ready :=
    drive_step hcontext hgeneration rfl
  have h₃ : (s.inState .ready).step (drive .start .running) = s.inState .running :=
    drive_step hcontext hgeneration rfl
  rw [endpointStart, run_cons, h₁, run_cons, h₂, run_cons, h₃, run_nil]

theorem run_endpointShutdown (hcontext : s.world.worldContextId = "context")
    (hgeneration : s.world.generation = 1) (hstate : s.world.state = .running) :
    run step s endpointShutdown = s.inState .disposed := by
  have h₁ : s.step (drive .drain .draining) = s.inState .draining :=
    drive_step hcontext hgeneration (by rw [hstate]; rfl)
  have h₂ : (s.inState .draining).step (drive .finalSnapshotTaken .snapshotted) =
      s.inState .snapshotted := drive_step hcontext hgeneration rfl
  have h₃ : (s.inState .snapshotted).step (drive .dispose .disposed) = s.inState .disposed :=
    drive_step hcontext hgeneration rfl
  rw [endpointShutdown, run_cons, h₁, run_cons, h₂, run_cons, h₃, run_nil]

/-- From creation to disposal, with a transaction left open. -/
def endpointLife : List WorldOp :=
  endpointStart ++ .prepare (originRequest "txn" []) :: endpointShutdown

/-- Disposed, still in flight, and under the generation it was created with. -/
theorem run_endpointLife {n : Nat} (hserves : s.world.Serves n) (hroot : s.root = bareRoot)
    (hledger : s.world.ledger = approvedLedger) (hcontext : s.world.worldContextId = "context")
    (hgeneration : s.world.generation = 1) :
    (run step (s.inState .created) endpointLife).world.state = .disposed ∧
      (run step (s.inState .created) endpointLife).world.ledger.inFlightCount ≠ 0 ∧
      (run step (s.inState .created) endpointLife).world.generation = 1 ∧
      ¬ LeavesNothingLive (s.inState .created) endpointLife := by
  have hstart : run step (s.inState .created) endpointStart = s := by
    rw [run_endpointStart (s := s.inState .created) hcontext hgeneration rfl, inState_inState,
      inState_self hserves.running]
  obtain ⟨token, -, -, hflight, -⟩ := bare_prepare_step hserves hroot hledger
  have hsame := sameSession_step s (.prepare (originRequest "txn" [])) id
  have hend : run step (s.inState .created) endpointLife =
      (s.step (.prepare (originRequest "txn" []))).inState .disposed := by
    rw [endpointLife, run_append, hstart, run_cons]
    exact run_endpointShutdown (hsame.contextId.trans hcontext) (hsame.generation.trans hgeneration)
      (hsame.state.trans hserves.running)
  have hdisposed := congrArg (·.world.state) hend
  have hopen : (run step (s.inState .created) endpointLife).world.ledger.inFlightCount ≠ 0 := by
    rw [hend]
    exact ReceiptLedger.inFlightCount_of_inFlight hflight
  refine ⟨hdisposed, hopen, ?_, fun hnothing => ?_⟩
  · rw [hend]
    exact hsame.generation.trans hgeneration
  · exact hopen (hnothing.reservations _ (run_mem_visited _ _) (.inr hdisposed))

omit [UnicodeTables] in
theorem endpoint_leaves_live : letI := asciiOnly
    ∃ authority, let s := (start (runningWorld authority none)).inState .created
      (run step s endpointLife).world.state = .disposed ∧
        (run step s endpointLife).world.ledger.inFlightCount ≠ 0 ∧
        (run step s endpointLife).world.generation = 1 ∧ ¬ LeavesNothingLive s endpointLife := by
  obtain ⟨authority, hroot, hserves⟩ := exists_runningWorld bareRoot ⟨rfl, rfl, rfl, rfl⟩ none
  exact ⟨authority, @run_endpointLife asciiOnly _ _ hserves hroot rfl rfl rfl⟩

end WorldSession

end Gate

end LumioVoxel
