import LumioVoxel.StepRuns
import LumioVoxel.WorldEffects

/-!
# World sessions

One world under any order of its operations, with what its callers keep between
calls: prepared tokens, captures, and the bytes captures were written to.  Every
step is one of five things to the published root, and every property of whole
runs is derived from that.
-/

namespace LumioVoxel

open DebugText Fallible StepRuns

section Session

variable [UnicodeTables]

/-! ## 1. What callers keep -/

/-- The bytes one capture was written to. -/
structure SavedSnapshot where
  capture : VoxelCaptureRef
  bytes : Bytes
  written : ∃ object, ManifestAdapter.object capture = .ok object ∧ bytes = object.encodeBytes

/-- Writes a capture to a fresh writer. -/
def VoxelCaptureRef.save (capture : VoxelCaptureRef) (cap : Nat) : Option SavedSnapshot :=
  match h : encodeCapture capture (.new cap) with
  | .error _ => none
  | .ok (_, writer) => some ⟨capture, writer.buf, encodeCapture_new h⟩

theorem VoxelCaptureRef.capture_of_save {capture : VoxelCaptureRef} {cap : Nat}
    {snapshot : SavedSnapshot} (h : capture.save cap = some snapshot) :
    snapshot.capture = capture := by
  unfold save at h
  split at h
  · cases h
  · obtain rfl := Option.some.inj h
    rfl

/-- Preflight and shadow build.  Both are pure, so it does not matter when they
ran. -/
def SavedSnapshot.candidate (snapshot : SavedSnapshot) (expectedWorldId : String)
    (expectedGeneration : UInt64) (config : VoxelConfigSnapshot) :
    Except RestoreError SealedRestoreCandidate := do
  let decoded ← RestorePreflight.validate snapshot.bytes expectedWorldId expectedGeneration config
  RestoreShadowBuilder.build decoded

structure WorldSession where
  world : WorldInstance
  tokens : List PreparedMutation
  captures : List VoxelCaptureRef
  snapshots : List SavedSnapshot

/-- Nothing kept yet. -/
def WorldSession.start (world : WorldInstance) : WorldSession := ⟨world, [], [], []⟩

/-! ## 2. Operations -/

/-- What the owner of a pin manager does to it; readiness may be signalled from the
directory any world publishes. -/
inductive PinOp where
  | declare (sectionIds : List String)
  | declareWithBudget (sectionIds : List String) (budget : PinBudget)
  | markReady (pinId : UInt64)
  | markReadyFromWorld (pinId : UInt64) (directory : SectionDirectoryRoot)
  | release (pinId : UInt64)

omit [UnicodeTables] in
/-- A refused operation leaves the manager as it was. -/
def RegionPinManager.perform (manager : RegionPinManager) : PinOp → RegionPinManager
  | .declare sectionIds =>
    match manager.declarePin sectionIds with
    | .ok (_, manager) => manager
    | .error _ => manager
  | .declareWithBudget sectionIds budget =>
    match manager.declarePinWithBudget sectionIds budget with
    | .ok (_, manager) => manager
    | .error _ => manager
  | .markReady pinId =>
    match manager.markReady pinId with
    | .ok manager => manager
    | .error _ => manager
  | .markReadyFromWorld pinId directory =>
    match manager.markReadyFromWorld pinId directory with
    | .ok manager => manager
    | .error _ => manager
  | .release pinId =>
    match manager.releasePin pinId with
    | .ok manager => manager
    | .error _ => manager

omit [UnicodeTables] in
def WorldInstance.setRegionPinManager (world : WorldInstance) (manager : RegionPinManager) :
    WorldInstance :=
  { world with regionPins := some manager }

/-- Tokens, captures and snapshots are named by position; commit and discard use
up a token, release drops a capture. -/
inductive WorldOp where
  | prepare (request : MutationRequest)
  | commit (i : Nat)
  | discard (i : Nat)
  | abort (request : MutationRequest)
  | query (request : VoxelQueryRequest)
  | ack (evidence : DurabilityAckEvidence)
  | unload (sectionId : String) (hook : PinExemptionHook)
  | capture (cut : RuntimeSnapshotCut)
  | release (k : Nat)
  | encode (k : Nat) (cap : Nat)
  | restore (j : Nat) (expectedWorldId : String) (expectedGeneration : UInt64)
      (config : VoxelConfigSnapshot)
  | lifecycle (event target : String) (origin : OriginToken)
  | beginShutdown
  | drain
  | finalize
  | trip (cause diagnosticName : String)
  | attach (manager : RegionPinManager)
  | pins (op : PinOp)

namespace WorldSession

def prepare (s : WorldSession) (request : MutationRequest) : WorldSession :=
  let done := WriteLease.prepare s.world request
  { s with world := done.2, tokens := s.tokens ++ done.1.toOption.toList }

def commit (s : WorldSession) (i : Nat) : WorldSession :=
  { s with
    world := match s.tokens[i]? with
      | none => s.world
      | some token => (WriteLease.commit s.world token).2
    tokens := s.tokens.eraseIdx i }

def capture (s : WorldSession) (cut : RuntimeSnapshotCut) : WorldSession :=
  let done := LumioVoxel.capture s.world cut
  { s with world := done.2, captures := s.captures ++ (done.1.toOption.map (·.1)).toList }

def release (s : WorldSession) (k : Nat) : WorldSession :=
  { s with
    world := match s.captures[k]? with
      | none => s.world
      | some captured =>
        { s.world with authority := s.world.authority.dropPin captured.pin }
    captures := s.captures.eraseIdx k }

def encode (s : WorldSession) (k cap : Nat) : WorldSession :=
  { s with snapshots := s.snapshots ++ (s.captures[k]?.bind (·.save cap)).toList }

/-- The candidate a restore of the `j`-th snapshot publishes. -/
def candidate (s : WorldSession) (j : Nat) (expectedWorldId : String) (expectedGeneration : UInt64)
    (config : VoxelConfigSnapshot) : Option SealedRestoreCandidate :=
  s.snapshots[j]?.bind fun snapshot =>
    (snapshot.candidate expectedWorldId expectedGeneration config).toOption

def restore (s : WorldSession) (j : Nat) (expectedWorldId : String) (expectedGeneration : UInt64)
    (config : VoxelConfigSnapshot) : WorldSession :=
  { s with
    world := match s.candidate j expectedWorldId expectedGeneration config with
      | none => s.world
      | some candidate => (LumioVoxel.restore s.world candidate).2 }

def lifecycle (s : WorldSession) (event target : String) (origin : OriginToken) : WorldSession :=
  { s with
    world := match WorldEndpoint.admit s.world (.lifecycle event target origin) with
      | .ok (_, world) => world
      | .error _ => s.world }

def step (s : WorldSession) : WorldOp → WorldSession
  | .prepare request => s.prepare request
  | .commit i => s.commit i
  | .discard i => { s with tokens := s.tokens.eraseIdx i }
  | .abort request => { s with world := (WriteLease.abort s.world request).2 }
  | .query request => { s with world := (WriteLease.query s.world request).2 }
  | .ack evidence => { s with world := (applyDurabilityAck s.world evidence).2 }
  | .unload sectionId hook => { s with world := (unloadSection s.world sectionId hook).2 }
  | .capture cut => s.capture cut
  | .release k => s.release k
  | .encode k cap => s.encode k cap
  | .restore j expectedWorldId expectedGeneration config =>
    s.restore j expectedWorldId expectedGeneration config
  | .lifecycle event target origin => s.lifecycle event target origin
  | .beginShutdown => { s with world := (WorldShutdown.begin s.world).2 }
  | .drain => { s with world := (WorldShutdown.drain s.world).2 }
  | .finalize => { s with world := (WorldShutdown.finalize s.world).2 }
  | .trip cause diagnosticName =>
    { s with world := (WorldShutdown.trip s.world cause diagnosticName).2 }
  | .attach manager => { s with world := s.world.setRegionPinManager manager }
  | .pins op =>
    { s with world := { s.world with regionPins := s.world.regionPins.map (·.perform op) } }

/-- The published root. -/
def root (s : WorldSession) : PublishedStateRoot := s.world.root

/-- The ledger reports the transaction as applied. -/
def Applied (s : WorldSession) (txnId : String) : Prop := s.world.ledger.status txnId = .applied

/-! ## 3. The five things a step does -/

/-- The step publishes the `i`-th token. -/
structure Commits (s : WorldSession) (op : WorldOp) (token : PreparedMutation) (d : CommitDraft)
    (receipt : MutationReceipt) : Prop where
  named : ∃ i, op = .commit i ∧ s.tokens[i]? = some token
  inFlight : s.world.ledger.lookup token.request = .ok .inFlight
  committed : Committed token s.world.authority.capture.1 s.world.authority s.world.ledger d receipt
    (s.step op).world.authority (s.step op).world.ledger

/-- The step has the world take a snapshot's candidate. -/
structure Restores (s : WorldSession) (op : WorldOp) (snapshot : SavedSnapshot)
    (candidate : SealedRestoreCandidate) : Prop where
  named : ∃ j expectedWorldId expectedGeneration config,
    op = .restore j expectedWorldId expectedGeneration config ∧ s.snapshots[j]? = some snapshot ∧
      snapshot.candidate expectedWorldId expectedGeneration config = .ok candidate
  accepted : RestoreAccepted s.world candidate

inductive Effect (s : WorldSession) (op : WorldOp) : Prop
  | kept (hroot : (s.step op).root = s.root)
      (happlied : s.world.ledger.SameApplied (s.step op).world.ledger)
  | committed (token : PreparedMutation) (d : CommitDraft) (receipt : MutationReceipt)
      (hcommits : s.Commits op token d receipt)
  | acked (evidence : DurabilityAckEvidence) (coverage : DirtyCoverage) (hop : op = .ack evidence)
      (hacked : Acked evidence coverage s.root (s.step op).root)
      (happlied : s.world.ledger.SameApplied (s.step op).world.ledger)
  | unloaded (hook : PinExemptionHook) (id : SectionId) (hop : op = .unload id.key hook)
      (hunloaded : Unloaded id s.root (s.step op).root)
      (hpolicy : UnloadBarrier.checkAttachedPolicy s.world.regionPins id.key = .ok ())
      (happlied : s.world.ledger.SameApplied (s.step op).world.ledger)
  | restored (snapshot : SavedSnapshot) (candidate : SealedRestoreCandidate)
      (hrestores : s.Restores op snapshot candidate)
      (happlied : s.world.ledger.SameApplied (s.step op).world.ledger)

variable {s : WorldSession}

private theorem Effect.of_kept {op : WorldOp} (h : Kept s.world (s.step op).world) :
    s.Effect op := .kept h.root h.applied

/-- **One step.** Whatever the operation and its outcome, it is one of the five. -/
theorem effect_step (s : WorldSession) (op : WorldOp) : s.Effect op := by
  cases op with
  | prepare request => exact .of_kept (WriteLease.prepare_outcome s.world request).1
  | commit i =>
    cases htoken : s.tokens[i]? with
    | none =>
      apply Effect.of_kept
      simp only [step, commit, htoken]
      exact .refl s.world
    | some token =>
      have hstep : (s.step (.commit i)).world = (WriteLease.commit s.world token).2 := by
        simp only [step, commit, htoken]
      rcases WriteLease.commit_outcome s.world token with hkept |
        ⟨d, receipt, hflight, -, hdone, -⟩
      · exact .of_kept (hstep ▸ hkept)
      · exact .committed token d receipt ⟨⟨i, rfl, htoken⟩, hflight, hstep ▸ hdone⟩
  | discard i => exact .of_kept (.refl s.world)
  | abort request => exact .of_kept (WriteLease.abort_outcome s.world request)
  | query request => exact .of_kept (WriteLease.query_outcome s.world request)
  | ack evidence =>
    rcases ack_outcome s.world evidence with ⟨err, -, hkept⟩ | ⟨receipt, coverage, -, hacked, hsame⟩
    · exact .of_kept hkept
    · exact .acked evidence coverage rfl hacked hsame.applied
  | unload sectionId hook =>
    rcases unload_outcome s.world sectionId hook with ⟨hkept, -⟩ |
      ⟨receipt, id, rfl, -, hunloaded, hpolicy, hsame⟩
    · exact .of_kept hkept
    · exact .unloaded hook id rfl hunloaded hpolicy hsame.applied
  | capture cut => exact .of_kept (capture_outcome s.world cut).1
  | release k =>
    apply Effect.of_kept
    simp only [step, release]
    split
    · exact .refl s.world
    · exact ⟨⟨.refl _, rfl⟩, rfl⟩
  | encode k cap => exact .of_kept (.refl s.world)
  | restore j expectedWorldId expectedGeneration config =>
    cases hcandidate : s.candidate j expectedWorldId expectedGeneration config with
    | none =>
      apply Effect.of_kept
      simp only [step, restore, hcandidate]
      exact .refl s.world
    | some candidate =>
      have hstep : (s.step (.restore j expectedWorldId expectedGeneration config)).world =
          (LumioVoxel.restore s.world candidate).2 := by
        simp only [step, restore, hcandidate]
      rcases restore_outcome s.world candidate with ⟨err, -, -, hkept⟩ |
        ⟨receipt, -, haccepted, -, hsame⟩
      · exact .of_kept (hstep ▸ hkept)
      · obtain ⟨snapshot, hsnapshot, hmade⟩ := Option.bind_eq_some_iff.mp hcandidate
        exact .restored snapshot candidate ⟨⟨j, expectedWorldId, expectedGeneration, config, rfl,
          hsnapshot, toOption_eq_some.mp hmade⟩, haccepted⟩ (hstep ▸ hsame.applied)
  | lifecycle event target origin =>
    apply Effect.of_kept
    simp only [step, lifecycle]
    split
    · rename_i hadmit
      exact admit_outcome hadmit
    · exact .refl s.world
  | beginShutdown => exact .of_kept (WorldShutdown.begin_outcome s.world)
  | drain => exact .of_kept (WorldShutdown.drain_outcome s.world)
  | finalize => exact .of_kept (WorldShutdown.finalize_outcome s.world)
  | trip cause diagnosticName => exact .of_kept (WorldShutdown.trip_outcome s.world _ _)
  | attach manager => exact .kept rfl (.refl _)
  | pins op => exact .kept rfl (.refl _)

/-! ## 4. What is kept comes from the run -/

/-- An applied transaction stays applied. -/
theorem applied_step {txnId : String} (h : s.Applied txnId) (op : WorldOp) :
    (s.step op).Applied txnId := by
  cases effect_step s op with
  | kept _ happlied => exact (happlied txnId).mpr h
  | committed token d receipt hcommits =>
    exact (hcommits.committed.applied_iff txnId).mpr (.inl h)
  | acked _ _ _ _ happlied => exact (happlied txnId).mpr h
  | unloaded _ _ _ _ _ happlied => exact (happlied txnId).mpr h
  | restored _ _ _ happlied => exact (happlied txnId).mpr h

/-- A new token was prepared in this step, over the published root. -/
theorem tokens_step {op : WorldOp} {token : PreparedMutation} (h : token ∈ (s.step op).tokens) :
    token ∈ s.tokens ∨ ∃ request ledger', op = .prepare request ∧
      LumioVoxel.prepare request s.world.authority.capture.1 s.world.ledger =
        (.ok token, ledger') := by
  cases op with
  | prepare request =>
    rcases List.mem_append.mp h with hold | hnew
    · exact .inl hold
    · obtain ⟨-, hmade⟩ := WriteLease.prepare_outcome s.world request
      obtain ⟨ledger', hprepare, -⟩ :=
        hmade token (toOption_eq_some.mp (Option.mem_toList.mp hnew))
      exact .inr ⟨request, ledger', rfl, hprepare⟩
  | commit i => exact .inl (List.mem_of_mem_eraseIdx h)
  | discard i => exact .inl (List.mem_of_mem_eraseIdx h)
  | _ => exact .inl h

/-- A new capture holds the published root. -/
theorem captures_step {op : WorldOp} {captured : VoxelCaptureRef}
    (h : captured ∈ (s.step op).captures) :
    captured ∈ s.captures ∨ captured.root = s.root := by
  cases op with
  | capture cut =>
    rcases List.mem_append.mp h with hold | hnew
    · exact .inl hold
    · obtain ⟨-, hmade⟩ := capture_outcome s.world cut
      obtain ⟨⟨made, evidence⟩, hrun, rfl⟩ :=
        Option.map_eq_some_iff.mp (Option.mem_toList.mp hnew)
      exact .inr (hmade made evidence (toOption_eq_some.mp hrun)).1
  | release k => exact .inl (List.mem_of_mem_eraseIdx h)
  | _ => exact .inl h

/-- A new snapshot is of a capture still held. -/
theorem snapshots_step {op : WorldOp} {snapshot : SavedSnapshot}
    (h : snapshot ∈ (s.step op).snapshots) :
    snapshot ∈ s.snapshots ∨ snapshot.capture ∈ s.captures := by
  cases op with
  | encode k cap =>
    rcases List.mem_append.mp h with hold | hnew
    · exact .inl hold
    · obtain ⟨captured, hcaptured, hsave⟩ :=
        Option.bind_eq_some_iff.mp (Option.mem_toList.mp hnew)
      right
      rw [VoxelCaptureRef.capture_of_save hsave]
      exact List.mem_of_getElem? hcaptured
  | _ => exact .inl h

/-- Only its owner changes the attached pin policy. -/
theorem pins_step (s : WorldSession) (op : WorldOp) :
    (s.step op).world.regionPins =
      match op with
      | .attach manager => some manager
      | .pins change => s.world.regionPins.map (·.perform change)
      | _ => s.world.regionPins := by
  cases op with
  | prepare request => exact (WriteLease.prepare_outcome s.world request).1.pins
  | commit i =>
    simp only [step, commit]
    split
    · rfl
    · rename_i token _
      rcases WriteLease.commit_outcome s.world token with hkept | ⟨d, receipt, -, -, -, hpins⟩
      · exact hkept.pins
      · exact hpins
  | discard i => rfl
  | abort request => exact (WriteLease.abort_outcome s.world request).pins
  | query request => exact (WriteLease.query_outcome s.world request).pins
  | ack evidence =>
    rcases ack_outcome s.world evidence with ⟨err, -, hkept⟩ | ⟨receipt, coverage, -, -, hsame⟩
    · exact hkept.pins
    · exact hsame.pins
  | unload sectionId hook =>
    rcases unload_outcome s.world sectionId hook with ⟨hkept, -⟩ |
      ⟨receipt, id, -, -, -, -, hsame⟩
    · exact hkept.pins
    · exact hsame.pins
  | capture cut => exact (capture_outcome s.world cut).1.pins
  | release k =>
    simp only [step, release]
    split
    · rfl
    · rfl
  | encode k cap => rfl
  | restore j expectedWorldId expectedGeneration config =>
    simp only [step, restore]
    split
    · rfl
    · rename_i candidate _
      rcases restore_outcome s.world candidate with ⟨err, -, -, hkept⟩ | ⟨receipt, -, -, -, hsame⟩
      · exact hkept.pins
      · exact hsame.pins
  | lifecycle event target origin =>
    simp only [step, lifecycle]
    split
    · rename_i hadmit
      exact (admit_outcome hadmit).pins
    · rfl
  | beginShutdown => exact (WorldShutdown.begin_outcome s.world).pins
  | drain => exact (WorldShutdown.drain_outcome s.world).pins
  | finalize => exact (WorldShutdown.finalize_outcome s.world).pins
  | trip cause diagnosticName => exact (WorldShutdown.trip_outcome s.world _ _).pins
  | attach manager => rfl
  | pins change => rfl

/-! ## 5. What is kept was published -/

section Known

variable {roots : PublishedStateRoot → Prop}

/-- A token of a completed transaction, or one built over a known root. -/
def TokenKnown (roots : PublishedStateRoot → Prop) (s : WorldSession) (token : PreparedMutation) :
    Prop :=
  s.Applied token.txnId ∨
    ∃ base configHash, roots base.root ∧ SealedFrom token.request base configHash token

/-- The published root and every root that something kept refers to are known. -/
structure Known (roots : PublishedStateRoot → Prop) (s : WorldSession) : Prop where
  root : roots s.root
  tokens : ∀ token ∈ s.tokens, TokenKnown roots s token
  captures : ∀ captured ∈ s.captures, roots captured.root
  snapshots : ∀ snapshot ∈ s.snapshots, roots snapshot.capture.root

theorem known_start {world : WorldInstance} (h : roots world.root) : Known roots (.start world) :=
  ⟨h, (fun _ h => nomatch h), (fun _ h => nomatch h), (fun _ h => nomatch h)⟩

theorem known_step (h : Known roots s) {op : WorldOp} (hroot : roots (s.step op).root) :
    Known roots (s.step op) := by
  refine ⟨hroot, fun token htoken => ?_, fun captured hcaptured => ?_, fun snapshot hsnapshot => ?_⟩
  · rcases tokens_step htoken with hold | ⟨request, ledger', -, hprepare⟩
    · rcases h.tokens token hold with happlied | hsealed
      · exact .inl (applied_step happlied op)
      · exact .inr hsealed
    · rcases prepare_cases request s.world.authority.capture.1 s.world.ledger with ⟨err, herr, -⟩ |
        ⟨receipt, made, hdup, hmade, hrequest, -⟩ | ⟨made, ledger₁, -, -, hmade, -, hsealed⟩
      · rw [hprepare] at herr
        cases herr
      · obtain rfl := Except.ok.inj (Prod.mk.inj (hprepare.symm.trans hmade)).1
        left
        apply applied_step
        obtain ⟨-, entry, hentry, -, hreceipt⟩ := ReceiptLedger.lookup_duplicate.mp hdup
        refine ReceiptLedger.status_applied_iff.mpr ⟨entry, ?_, ?_⟩
        · rw [PreparedMutation.txnId, hrequest, hentry]
        · rw [hreceipt]
          rfl
      · obtain rfl := Except.ok.inj (Prod.mk.inj (hprepare.symm.trans hmade)).1
        exact .inr ⟨_, _, h.root, hsealed.request_eq.symm ▸ hsealed⟩
  · rcases captures_step hcaptured with hold | hnew
    · exact h.captures captured hold
    · rw [hnew]
      exact h.root
  · rcases snapshots_step hsnapshot with hold | hnew
    · exact h.snapshots snapshot hold
    · exact h.captures _ hnew

/-- Along a run from a fresh session everything kept was published in the run. -/
theorem known_visited {world : WorldInstance} {ops : List WorldOp}
    (hroots : ∀ t ∈ visited step (.start world) ops, roots t.root) :
    ∀ t ∈ visited step (.start world) ops, Known roots t := by
  refine visited_invariant_along (C := fun s op => roots (s.step op).root) ?_
    (known_start (hroots _ (start_mem_visited _ _))) (along_of_visited hroots)
  exact fun t op h hroot => known_step h hroot

theorem known_run (h : Known roots s) {ops : List WorldOp}
    (hroots : ∀ t ∈ visited step s ops, roots t.root) : Known roots (run step s ops) := by
  have hstep : ∀ (t : WorldSession) op, Known roots t → roots (t.step op).root →
      Known roots (t.step op) := fun t op ht hroot => known_step ht hroot
  exact run_invariant_along hstep h (along_of_visited hroots)

/-- What a step publishes was built over a known root, with the identity of the
one it replaces. -/
theorem Commits.sealed (h : Known roots s) {op : WorldOp} {token : PreparedMutation}
    {d : CommitDraft} {receipt : MutationReceipt} (hcommits : s.Commits op token d receipt) :
    ∃ base configHash, roots base.root ∧ SealedFrom token.request base configHash token ∧
      base.root.identity = s.root.identity := by
  obtain ⟨i, -, htoken⟩ := hcommits.named
  rcases h.tokens token (List.mem_of_getElem? htoken) with
    happlied | ⟨base, configHash, hbase, hsealed⟩
  · -- a completed transaction is not in flight
    obtain ⟨entry, hentry, hsome⟩ := ReceiptLedger.status_applied_iff.mp happlied
    obtain ⟨-, open', hopen, -, hnone⟩ := ReceiptLedger.lookup_inFlight.mp hcommits.inFlight
    obtain rfl := Option.some.inj (hentry.symm.trans hopen)
    rw [hnone] at hsome
    cases hsome
  · exact ⟨base, configHash, hbase, hsealed,
      hsealed.baseIdentity_eq.symm.trans hcommits.committed.draftOf.baseIdentity⟩

/-- Among known roots without collisions every commit has the effect of its request. -/
theorem Commits.effect (hfree : PublishedStateRoot.CollisionFree roots) (h : Known roots s)
    {op : WorldOp} {token : PreparedMutation} {d : CommitDraft} {receipt : MutationReceipt}
    (hcommits : s.Commits op token d receipt) :
    CommitEffect token.request s.root (s.step op).root receipt := by
  obtain ⟨base, configHash, hbase, hsealed, hidentity⟩ := hcommits.sealed h
  have hsame : PublishedStateRoot.SameCut s.world.authority.capture.1.root base.root :=
    hfree _ _ h.root hbase hidentity.symm
  exact commitEffect_of_committed hsealed hsame hcommits.committed

end Known

/-! ## 6. Ready sections -/

/-- Each section a commit writes was ready and is ready again. -/
theorem Commits.slots {roots : PublishedStateRoot → Prop} (h : Known roots s) {op : WorldOp}
    {token : PreparedMutation} {d : CommitDraft} {receipt : MutationReceipt}
    (hcommits : s.Commits op token d receipt) (id : SectionId) :
    (token.request.Names id ∧ (∃ payload, s.root.directory.entries[id]? = some (.ready payload)) ∧
      ∃ payload, (s.step op).root.directory.entries[id]? = some (.ready payload)) ∨
    ¬ token.request.Names id ∧
      (s.step op).root.directory.entries[id]? = s.root.directory.entries[id]? := by
  have hdraft := hcommits.committed.draftOf
  have hnew : (s.step op).root.directory = d.newRoot.directory := by
    rw [root, WorldInstance.root, hcommits.committed.root]
    rfl
  rw [hnew]
  by_cases hname : token.request.Names id
  · obtain ⟨base, configHash, -, hsealed, -⟩ := hcommits.sealed h
    obtain ⟨-, -, payload, -, -, hslot, -⟩ := hsealed.edited id hname
    exact .inl ⟨hname, hdraft.resident id hname, payload, (hdraft.changed id hname).2.trans hslot⟩
  · exact .inr ⟨hname, hdraft.unchanged id hname⟩

/-- What a restore makes of the captured cut. -/
structure CutRestored (cut new : PublishedStateRoot) : Prop where
  world : new.stamp.worldRevision = cut.stamp.worldRevision
  revisions : new.stamp.sectionRevisionSet = cut.stamp.sectionRevisionSet
  slots : ∀ id : SectionId, new.directory.entries[id]? =
    cut.stamp.sectionRevisionSet[id.key]?.map fun _ => SectionSlot.unchanged
  clean : new.dirtyFrontier.entries = ∅

theorem SavedSnapshot.shadow {snapshot : SavedSnapshot} {expectedWorldId : String}
    {expectedGeneration : UInt64} {config : VoxelConfigSnapshot}
    {candidate : SealedRestoreCandidate}
    (h : snapshot.candidate expectedWorldId expectedGeneration config = .ok candidate) :
    ShadowOf snapshot.capture.decoded candidate := by
  obtain ⟨decoded, hvalidate, hbuild⟩ := bind_eq_ok.mp h
  obtain ⟨object, hobject, hbytes⟩ := snapshot.written
  rw [hbytes] at hvalidate
  obtain ⟨-, -, rfl⟩ := (validate_manifest_eq_ok hobject).mp hvalidate
  exact shadow_of_build hbuild

/-- An accepted restore publishes its candidate. -/
theorem Restores.published {op : WorldOp} {snapshot : SavedSnapshot}
    {candidate : SealedRestoreCandidate} (h : s.Restores op snapshot candidate) :
    (s.step op).root = candidate.root.incorporateReplacement candidate.replacement := by
  obtain ⟨j, expectedWorldId, expectedGeneration, config, rfl, hsnapshot, hmade⟩ := h.named
  have hcandidate : s.candidate j expectedWorldId expectedGeneration config = some candidate := by
    rw [WorldSession.candidate, hsnapshot]
    exact toOption_eq_some.mpr hmade
  have hstep : (s.step (.restore j expectedWorldId expectedGeneration config)).root =
      (LumioVoxel.restore s.world candidate).2.root := by
    simp only [step, restore, hcandidate, root]
  rcases restore_outcome s.world candidate with ⟨err, -, hno, -⟩ | ⟨receipt, -, -, hroot, -⟩
  · exact absurd h.accepted hno
  · exact hstep.trans hroot

theorem Restores.cut {op : WorldOp} {snapshot : SavedSnapshot} {candidate : SealedRestoreCandidate}
    (h : s.Restores op snapshot candidate) :
    CutRestored snapshot.capture.root (s.step op).root := by
  rw [h.published]
  obtain ⟨j, expectedWorldId, expectedGeneration, config, -, -, hmade⟩ := h.named
  have hshadow := SavedSnapshot.shadow hmade
  refine ⟨?_, ?_, hshadow.directory, ?_⟩
  · rw [PublishedStateRoot.stamp_incorporateReplacement, hshadow.stamp]
    rfl
  · rw [PublishedStateRoot.stamp_incorporateReplacement, hshadow.stamp]
    rfl
  · rw [PublishedStateRoot.dirtyFrontier_incorporateReplacement, hshadow.dirtyFrontier]

/-- No section is ready. -/
def Cold (root : PublishedStateRoot) : Prop :=
  ∀ (id : SectionId) (payload : SectionPayload), root.directory.entries[id]? ≠ some (.ready payload)

omit [UnicodeTables] in
theorem CutRestored.cold {cut new : PublishedStateRoot} (h : CutRestored cut new) : Cold new := by
  intro id payload hready
  rw [h.slots] at hready
  cases hrevision : cut.stamp.sectionRevisionSet[id.key]? with
  | none =>
    rw [hrevision] at hready
    cases hready
  | some revision =>
    rw [hrevision] at hready
    cases hready

/-- The step has the world take a snapshot. -/
def TakesRestore (s : WorldSession) (op : WorldOp) : Prop :=
  ∃ snapshot candidate, s.Restores op snapshot candidate

/-- A restore that goes through leaves no section ready. -/
theorem cold_of_takesRestore {op : WorldOp} (h : s.TakesRestore op) : Cold (s.step op).root := by
  obtain ⟨snapshot, candidate, hrestores⟩ := h
  exact hrestores.cut.cold

/-- No operation makes a section ready again. -/
theorem cold_step {roots : PublishedStateRoot → Prop} (h : Known roots s) (hcold : Cold s.root)
    (op : WorldOp) : Cold (s.step op).root := by
  intro id payload hready
  cases effect_step s op with
  | kept hroot _ =>
    rw [hroot] at hready
    exact hcold id payload hready
  | committed token d receipt hcommits =>
    rcases hcommits.slots h id with ⟨-, ⟨old, hold⟩, -⟩ | ⟨-, hsame⟩
    · exact hcold id old hold
    · rw [hsame] at hready
      exact hcold id payload hready
  | acked evidence coverage _ hacked _ =>
    rw [hacked.directory] at hready
    exact hcold id payload hready
  | unloaded hook named _ hunloaded _ _ =>
    obtain ⟨old, hold⟩ := hunloaded.resident
    exact hcold named old hold
  | restored snapshot candidate hrestores _ => exact hrestores.cut.cold id payload hready

end WorldSession

end Session

end LumioVoxel
