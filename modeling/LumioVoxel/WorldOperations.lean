import LumioVoxel.SnapshotRoundTrip
import LumioVoxel.WorldInstance

/-!
# World operations

Everything a world does to its published root or its ledger: the write lane
(prepare, commit, abort, query), durability acknowledgements, section unloads,
captures and restores.  Each runs under its own barrier.  Acknowledge, unload
and restore publish the same way, in one step nothing can interleave with.
-/

namespace LumioVoxel

open DebugText Fallible

section Operations

variable [UnicodeTables]

/-! ## 1. Publishing in one step -/

namespace PublicationAuthority

/-- Prepare, seal and publish back to back, then drop the view of the new root.
Returns the published identity. -/
def publishRoot (authority : PublicationAuthority) (target : UInt64)
    (newRoot : PublishedStateRoot) (replacement : SectionReplacement) :
    Except PublishError Digest × PublicationAuthority :=
  match authority.prepare target newRoot replacement with
  | .error err => (.error err, authority)
  | .ok (prepared, authority) =>
    match authority.sealPublication prepared with
    | .error err => (.error err, authority)
    | .ok (token, _, authority) =>
      match authority.publishOnce token with
      | (.error err, authority) => (.error err, authority)
      | (.ok published, authority) => (.ok published.root.identity, authority.dropPin published.lease)

/-- One publication either changes no root, or publishes the given one with the
replacement folded in. -/
theorem publishRoot_cases (authority : PublicationAuthority) (target : UInt64)
    (newRoot : PublishedStateRoot) (replacement : SectionReplacement) :
    (∃ err authority', authority.publishRoot target newRoot replacement = (.error err, authority') ∧
      authority'.root = authority.root ∧ authority.SameWorld authority') ∨
    ∃ authority', authority.publishRoot target newRoot replacement =
        (.ok authority'.root.identity, authority') ∧
      target = newRoot.stamp.worldRevision ∧
      authority'.root = newRoot.incorporateReplacement replacement ∧
      authority.SameWorld authority' := by
  unfold publishRoot
  cases hprepare : authority.prepare target newRoot replacement with
  | error err => exact .inl ⟨err, authority, rfl, rfl, .refl _⟩
  | ok result =>
    obtain ⟨prepared, authority₁⟩ := result
    obtain ⟨htarget, -, hnew, -, -, -, next, rfl⟩ := prepare_eq_ok hprepare
    simp only
    cases hseal : sealPublication { authority with nextTokenId := next } prepared with
    | error err => exact .inl ⟨err, _, rfl, rfl, rfl, rfl, rfl⟩
    | ok result =>
      obtain ⟨token, prepared', authority₂⟩ := result
      obtain ⟨-, htoken, -, -, -, pins, rfl⟩ := sealPublication_eq_ok hseal
      simp only
      cases hpublish : publishOnce { authority with nextTokenId := next, pins := pins } token with
      | mk outcome authority₃ =>
        cases outcome with
        | error err =>
          have hdrop := publishOnce_error (congrArg Prod.fst hpublish)
          rw [hpublish] at hdrop
          obtain rfl : authority₃ = _ := hdrop
          exact .inl ⟨err, _, rfl, rfl, rfl, rfl, rfl⟩
        | ok view =>
          obtain ⟨-, hview, hroot, hsame, -⟩ := publishOnce_ok (congrArg Prod.fst hpublish)
          rw [hpublish] at hroot hsame
          have hpublished : authority₃.root = token.newRoot := hroot
          refine .inr ⟨authority₃.dropPin view.lease, ?_, htarget, ?_, hsame⟩
          · simp only [dropPin_root, hpublished, hview]
          · rw [dropPin_root, hpublished, htoken, hnew]

/-- With room left, publishing a root of the authority's own world succeeds. -/
theorem publishRoot_of {authority : PublicationAuthority} {n : Nat}
    (h : authority.CanPublish (n + 1)) {newRoot : PublishedStateRoot}
    (replacement : SectionReplacement)
    (hstamp : newRoot.stamp.BelongsTo authority.worldId authority.contextId authority.generation) :
    ∃ authority', authority.publishRoot newRoot.stamp.worldRevision newRoot replacement =
        (.ok authority'.root.identity, authority') ∧
      authority'.root = newRoot.incorporateReplacement replacement ∧
      authority.SameWorld authority' ∧ authority'.CanPublish n := by
  obtain ⟨publication, authority₁, token, publication', authority₂, view, authority₃, hprepare,
    hseal, hpublish, -, hroot, hsame, hroom⟩ := publish_of h replacement hstamp
  obtain ⟨-, hview, htoken, -⟩ := publishOnce_ok (congrArg Prod.fst hpublish)
  rw [hpublish] at htoken
  have hpublished : authority₃.root = token.newRoot := htoken
  refine ⟨authority₃.dropPin view.lease, ?_, hroot, hsame, dropPin_canPublish hroom _⟩
  simp only [publishRoot, hprepare, hseal, hpublish, dropPin_root, hview, hpublished]

/-- The root is the authority's to publish, and a token number and a pin are left
for it. -/
structure Accepts (authority : PublicationAuthority) (target : UInt64)
    (newRoot : PublishedStateRoot) : Prop where
  belongs : newRoot.stamp.BelongsTo authority.worldId authority.contextId authority.generation
  target : target = newRoot.stamp.worldRevision
  token : (checkedSucc authority.nextTokenId).isSome = true
  pin : (authority.pins.tryPin newRoot.stamp).isOk = true

private theorem token_of_prepare {authority authority' : PublicationAuthority} {target : UInt64}
    {newRoot : PublishedStateRoot} {replacement : SectionReplacement}
    {prepared : PreparedPublication}
    (h : authority.prepare target newRoot replacement = .ok (prepared, authority')) :
    (checkedSucc authority.nextTokenId).isSome = true := by
  unfold prepare at h
  split at h
  · cases h
  split at h
  · cases h
  split at h
  · cases h
  · rename_i hnext
    rw [hnext]
    rfl

private theorem unsealed_of_prepare {authority authority' : PublicationAuthority}
    {target : UInt64} {newRoot : PublishedStateRoot} {replacement : SectionReplacement}
    {prepared : PreparedPublication}
    (h : authority.prepare target newRoot replacement = .ok (prepared, authority')) :
    prepared.isSealed = false := by
  unfold prepare at h
  split at h
  · cases h
  split at h
  · cases h
  split at h
  · cases h
  · obtain ⟨rfl, -⟩ := Prod.mk.inj (Except.ok.inj h)
    rfl

omit [UnicodeTables] in
/-- A fresh publication is sealed when there is a pin for its stamp. -/
private theorem exists_seal_iff (authority : PublicationAuthority)
    {prepared : PreparedPublication} (hunsealed : prepared.isSealed = false) :
    (∃ result, authority.sealPublication prepared = .ok result) ↔
      (authority.pins.tryPin prepared.newRoot.stamp).isOk = true := by
  rw [sealPublication, hunsealed, if_neg Bool.false_ne_true]
  cases authority.pins.tryPin prepared.newRoot.stamp with
  | error err => exact iff_of_false (not_exists.mpr fun _ => error_ne_ok) Bool.false_ne_true
  | ok pinned => exact iff_of_true ⟨_, rfl⟩ rfl

/-- Nothing interleaves, so acceptance alone decides. -/
theorem publishRoot_ok_iff {authority : PublicationAuthority} {target : UInt64}
    {newRoot : PublishedStateRoot} {replacement : SectionReplacement} :
    (∃ published, (authority.publishRoot target newRoot replacement).1 = .ok published) ↔
      authority.Accepts target newRoot := by
  constructor
  · rintro ⟨published, h⟩
    unfold publishRoot at h
    cases hprepare : authority.prepare target newRoot replacement with
    | error err =>
      rw [hprepare] at h
      cases h
    | ok result =>
      obtain ⟨prepared, authority₁⟩ := result
      have htoken := token_of_prepare hprepare
      have hunsealed := unsealed_of_prepare hprepare
      obtain ⟨htarget, -, hnew, hworld, hcontext, hgen, next, rfl⟩ := prepare_eq_ok hprepare
      have hbelongs := prepared.newRoot_belongs
      rw [hworld, hcontext, hgen, hnew] at hbelongs
      refine ⟨hbelongs, htarget, htoken, ?_⟩
      have hstamp : prepared.newRoot.stamp = newRoot.stamp := by rw [hnew]; rfl
      rw [← hstamp]
      apply (exists_seal_iff { authority with nextTokenId := next } hunsealed).mp
      rw [hprepare] at h
      simp only at h
      cases hseal : sealPublication { authority with nextTokenId := next } prepared with
      | error err =>
        rw [hseal] at h
        cases h
      | ok result => exact ⟨result, rfl⟩
  · rintro ⟨hbelongs, rfl, htoken, hpin⟩
    obtain ⟨next, hnext⟩ := Option.isSome_iff_exists.mp htoken
    obtain ⟨prepared, hprepare, hunsealed⟩ := prepare_of replacement hbelongs hnext
    obtain ⟨-, hbase, hnew, hworld, hcontext, hgen, -⟩ := prepare_eq_ok hprepare
    have hstamp : prepared.newRoot.stamp = newRoot.stamp := by rw [hnew]; rfl
    rw [← hstamp] at hpin
    obtain ⟨⟨token, prepared', authority₂⟩, hseal⟩ :=
      (exists_seal_iff { authority with nextTokenId := next } hunsealed).mpr hpin
    obtain ⟨htokenBase, -, htokenWorld, htokenContext, htokenGen, pins, rfl⟩ :=
      sealPublication_eq_ok hseal
    have hpublish := publishOnce_of { authority with nextTokenId := next, pins := pins } token
      (htokenWorld.trans hworld) (htokenContext.trans hcontext) (htokenGen.trans hgen)
      (htokenBase.trans hbase)
    obtain ⟨published, authority₃, hdone⟩ : ∃ published authority₃,
        publishOnce { authority with nextTokenId := next, pins := pins } token =
          (.ok published, authority₃) := ⟨_, _, Prod.ext hpublish rfl⟩
    refine ⟨published.root.identity, ?_⟩
    simp only [publishRoot, hprepare, hseal, hdone]

omit [UnicodeTables] in
/-- A lease being cloned. -/
def clonePin (authority : PublicationAuthority) (pin : RevisionPin) : PublicationAuthority :=
  { authority with pins := authority.pins.clonePin pin }

omit [UnicodeTables] in
@[simp] theorem clonePin_root (authority : PublicationAuthority) (pin : RevisionPin) :
    (authority.clonePin pin).root = authority.root := rfl

omit [UnicodeTables] in
theorem clonePin_canPublish {authority : PublicationAuthority} {n : Nat}
    (h : authority.CanPublish n) (pin : RevisionPin) : (authority.clonePin pin).CanPublish n :=
  ⟨RegistryState.clonePin_hasRoom h.pins _, (RegistryState.contextId_clonePin _ _).trans h.contextId,
    (RegistryState.generation_clonePin _ _).trans h.generation, h.tokens⟩

omit [UnicodeTables] in
/-- Captures the published view and drops it again. -/
def glance (authority : PublicationAuthority) : PublicationAuthority :=
  authority.capture.2.dropPin authority.capture.1.lease

omit [UnicodeTables] in
@[simp] theorem glance_root (authority : PublicationAuthority) :
    authority.glance.root = authority.root := rfl

omit [UnicodeTables] in
theorem glance_canPublish {authority : PublicationAuthority} {n : Nat}
    (h : authority.CanPublish n) : authority.glance.CanPublish n :=
  dropPin_canPublish (capture_canPublish h) _

end PublicationAuthority

/-! ## 2. The write lane -/

/-! Each operation takes a lease of its own; under one lease they run one after
another just the same. -/

namespace WriteLease

def prepare (world : WorldInstance) (request : MutationRequest) :
    Except WorldError PreparedMutation × WorldInstance :=
  world.underBarrier .mutation fun world =>
    match reAdmitMutation world request with
    | .error err => (.error err, world)
    | .ok _ =>
      let captured := world.authority.capture
      let done := LumioVoxel.prepare request captured.1 world.ledger
      (done.1.mapError WorldError.fromMutation,
        { world with authority := captured.2.dropPin captured.1.lease, ledger := done.2 })

/-- The request a commit is admitted as: the token's transaction in this world. -/
def commitRequest (world : WorldInstance) (prepared : PreparedMutation) : MutationRequest :=
  ⟨prepared.txnId, world.worldId, world.generation, []⟩

def commit (world : WorldInstance) (prepared : PreparedMutation) :
    Except WorldError MutationReceipt × WorldInstance :=
  world.underBarrier .mutation fun world =>
    match reAdmitMutation world (commitRequest world prepared) with
    | .error err => (.error err, world)
    | .ok _ =>
      let done := LumioVoxel.commit prepared world.authority world.ledger
      (done.1.mapError WorldError.fromMutation,
        { world with authority := done.2.1, ledger := done.2.2 })

omit [UnicodeTables] in
def abort (world : WorldInstance) (request : MutationRequest) :
    Except WorldError Unit × WorldInstance :=
  world.underBarrier .mutation fun world =>
    match reAdmitMutation world request with
    | .error err => (.error err, world)
    | .ok _ =>
      match world.ledger.abort request with
      | .error err => (.error (.fromLedger err), world)
      | .ok ledger => (.ok (), { world with ledger := ledger })

omit [UnicodeTables] in
def runQuery (world : WorldInstance) (request : VoxelQueryRequest) (view : PublishedReadView) :
    Except QueryError VoxelQueryOutcome := do
  let plan ← world.queryPlanner.plan request view world.snapshot
  match world.regionPins with
  | some pins => QueryExecutor.executeWithPresenceGuard plan view pins.presenceGuard
  | none => QueryExecutor.execute plan view

omit [UnicodeTables] in
def query (world : WorldInstance) (request : VoxelQueryRequest) :
    Except WorldError VoxelQueryOutcome × WorldInstance :=
  world.underBarrier .captureCut fun world =>
    match reAdmitQuery world request with
    | .error err => (.error err, world)
    | .ok _ =>
      ((runQuery world request world.authority.capture.1).mapError WorldError.fromQuery,
        { world with authority := world.authority.glance })

end WriteLease

/-! ## 3. Durability acknowledgements -/

structure DurabilityReceipt where
  coverageLen : Nat
  oldRoot : Digest
  newRoot : Digest
  deriving DecidableEq

namespace DurabilityAckBarrier

omit [UnicodeTables] in
/-- An older covered world revision is a prior cut; coverage decides what to clear. -/
def validateBeforeOccupancy (world : WorldInstance) (ack : DurabilityAckEvidence) :
    Except WorldError Unit := do
  require (ack.kind = ACK_KIND) .invalidHandle
  require (ack.worldId = world.worldId) .sessionMismatch
  require (ack.context.contextId = world.worldContextId) .sessionMismatch
  require (ack.context.generation = world.generation) .staleEpoch
  require (ack.coveredWorldRevision ≤ world.root.stamp.worldRevision)
    (.mapped "EvidenceDigestMismatch")

/-- Clears what the acknowledgement covers of a captured view.  An empty coverage
publishes nothing. -/
def applyView (view : PublishedReadView) (authority : PublicationAuthority)
    (ack : DurabilityAckEvidence) : Except WorldError DurabilityReceipt × PublicationAuthority :=
  let frontier := view.root.dirtyFrontier
  match frontier.coveredBy ack with
  | .error err => (.error (.fromDirty err), authority)
  | .ok coverage =>
    let newDirty := frontier.exceptCovered coverage
    if coverage.covered.isEmpty ∧ newDirty = frontier then
      (.ok ⟨0, view.root.identity, view.root.identity⟩, authority)
    else
      match (SectionDeltaBuilder.new view.root.directory).freeze with
      | .error err => (.error (.fromSection err), authority)
      | .ok replacement =>
        let stamp := view.root.stamp
        let done := authority.publishRoot stamp.worldRevision
          (.new stamp view.root.directory newDirty) replacement
        ((done.1.map fun newRoot => ⟨coverage.covered.size, view.root.identity, newRoot⟩).mapError
          WorldError.fromPublish, done.2)

def apply (world : WorldInstance) (ack : DurabilityAckEvidence) :
    Except WorldError DurabilityReceipt × WorldInstance :=
  match validateBeforeOccupancy world ack with
  | .error err => (.error err, world)
  | .ok _ =>
    let captured := world.authority.capture
    let done := applyView captured.1 captured.2 ack
    (done.1, { world with authority := done.2.dropPin captured.1.lease })

end DurabilityAckBarrier

/-- Validated once before and once under the barrier. -/
def applyDurabilityAck (world : WorldInstance) (ack : DurabilityAckEvidence) :
    Except WorldError DurabilityReceipt × WorldInstance :=
  match DurabilityAckBarrier.validateBeforeOccupancy world ack with
  | .error err => (.error err, world)
  | .ok _ => world.underBarrier .durabilityAck fun world => DurabilityAckBarrier.apply world ack

/-! ## 4. Unloading a section -/

structure UnloadReceipt where
  sectionId : String
  oldRoot : Digest
  newRoot : Digest
  pinExemptionChecked : Bool
  deriving DecidableEq

/-- A caller's own verdict on whether a section may leave the resident set. -/
abbrev PinExemptionHook : Type := String → Except PinExemptionError Unit

/-- For callers without a region pin manager. -/
def NoPinExemption : PinExemptionHook := fun _ => .error .pinnedSectionEvicted

namespace UnloadBarrier

omit [UnicodeTables] in
def lookupSlot (directory : SectionDirectoryRoot) (sectionId : String) :
    Except WorldError SectionSlot := do
  let slot ← (directory.lookup sectionId).mapError WorldError.fromSection
  someOr slot (.mapped SECTION_UNAVAILABLE)

omit [UnicodeTables] in
def checkDurable (frontier : DirtyFrontier) (sectionId : String) : Except WorldError Unit := do
  let latest ← (frontier.latestRevision sectionId).mapError WorldError.fromDirty
  require (latest = none) (.mapped DIRTY_SECTION_NOT_DURABLE)

omit [UnicodeTables] in
/-- One slot of the new directory, and whether the unloaded section was seen. -/
def carrySlot (sectionId : String) (progress : SectionDirectoryBuilder × Bool)
    (entry : SectionId × SectionSlot) : Except WorldError (SectionDirectoryBuilder × Bool) :=
  if entry.1.key = sectionId then do
    let builder ← (progress.1.insert entry.1.key .unchanged).mapError WorldError.fromSection
    return (builder, true)
  else do
    let builder ← (progress.1.insert entry.1.key entry.2).mapError WorldError.fromSection
    return (builder, progress.2)

omit [UnicodeTables] in
def directoryWithUnloadedSection (directory : SectionDirectoryRoot) (sectionId : String) :
    Except WorldError SectionDirectoryRoot := do
  let (builder, sawTarget) ← foldSteps (carrySlot sectionId) (.new, false) directory.entries.toList
  if sawTarget then
    return builder.freeze
  else
    let builder ← (builder.insert sectionId .unchanged).mapError WorldError.fromSection
    return builder.freeze

/-- What the unload publishes, from the view it was checked on and the current one. -/
def draft (sectionId : String) (before current : PublishedReadView) :
    Except WorldError (PublishedStateRoot × SectionReplacement) := do
  require (current.root.identity = before.root.identity) (.mapped "SnapshotBaseMismatch")
  checkDurable current.root.dirtyFrontier sectionId
  let slot ← lookupSlot current.root.directory sectionId
  require (slot.presence = .ready) (.mapped SECTION_UNAVAILABLE)
  let builder ← ((SectionDeltaBuilder.new current.root.directory).stage
    ⟨sectionId, [], .unchanged⟩).mapError WorldError.fromSection
  let replacement ← builder.freeze.mapError WorldError.fromSection
  let directory ← directoryWithUnloadedSection current.root.directory sectionId
  return (.new current.root.stamp directory current.root.dirtyFrontier, replacement)

def publish (sectionId : String) (before : PublishedReadView) (authority : PublicationAuthority) :
    Except WorldError UnloadReceipt × PublicationAuthority :=
  let captured := authority.capture
  match draft sectionId before captured.1 with
  | .error err => (.error err, captured.2.dropPin captured.1.lease)
  | .ok (newRoot, replacement) =>
    let done := captured.2.publishRoot captured.1.root.stamp.worldRevision newRoot replacement
    ((done.1.map fun published => ⟨sectionId, captured.1.root.identity, published, true⟩).mapError
      WorldError.fromPublish, done.2.dropPin captured.1.lease)

omit [UnicodeTables] in
def checkAttachedPolicy (pins : Option RegionPinManager) (sectionId : String) :
    Except WorldError Unit :=
  match pins with
  | some manager => (manager.checkPinExemption sectionId).mapError WorldError.fromPin
  | none => .ok ()

omit [UnicodeTables] in
/-- The attached policy is authoritative; a caller's hook can only refuse more. -/
def checkExemptions (pins : Option RegionPinManager) (hook : PinExemptionHook)
    (sectionId : String) : Except WorldError Unit := do
  checkAttachedPolicy pins sectionId
  (hook sectionId).mapError WorldError.fromPin

def unloadView (pins : Option RegionPinManager) (hook : PinExemptionHook) (sectionId : String)
    (before : PublishedReadView) (authority : PublicationAuthority) :
    Except WorldError UnloadReceipt × PublicationAuthority :=
  match lookupSlot before.root.directory sectionId with
  | .error err => (.error err, authority)
  | .ok slot =>
    match checkDurable before.root.dirtyFrontier sectionId with
    | .error err => (.error err, authority)
    | .ok _ =>
      match slot.presence with
      | .ready =>
        match checkExemptions pins hook sectionId with
        | .error err => (.error err, authority)
        | .ok _ => publish sectionId before authority
      | .unchanged =>
        (.ok ⟨sectionId, before.root.identity, before.root.identity, false⟩, authority)
      | .pending | .unavailable => (.error (.mapped SECTION_UNAVAILABLE), authority)

end UnloadBarrier

/-- Unloads one clean, ready section.  A dirty one is refused before any hook is
asked, and stays resident. -/
def unloadSection (world : WorldInstance) (sectionId : String) (hook : PinExemptionHook) :
    Except WorldError UnloadReceipt × WorldInstance :=
  world.underBarrier .streamingApply fun world =>
    let captured := world.authority.capture
    let done := UnloadBarrier.unloadView world.regionPins hook sectionId captured.1 captured.2
    (done.1, { world with authority := done.2.dropPin captured.1.lease })

/-! ## 5. Capturing a cut -/

structure RuntimeSnapshotCut where
  cutId : String
  worldId : String
  contextId : String
  generation : UInt64
  worldRevision : UInt64
  configHash : String
  artifactHash : Digest
  deriving DecidableEq

/-- The live world's identity as a cut. -/
def RuntimeSnapshotCut.fromLive (world : WorldInstance) (cutId : String) : RuntimeSnapshotCut :=
  let stamp := world.root.stamp
  ⟨cutId, stamp.worldId, stamp.contextId, stamp.generation, stamp.worldRevision,
    world.snapshot.configHash, world.root.identity⟩

omit [UnicodeTables] in
def admitCut (world : WorldInstance) (cut : RuntimeSnapshotCut) : Except WorldError Unit := do
  require (cut.cutId ≠ "" ∧ cut.worldId ≠ "" ∧ cut.contextId ≠ "") .invalidHandle
  require (isHash256 cut.configHash = true) .invalidHandle
  require (cut.worldId = world.worldId) .sessionMismatch
  require (cut.contextId = world.worldContextId) .sessionMismatch
  require (cut.generation = world.generation) .staleEpoch
  require (queryAdmissible world.state = true) .claimNotGranted
  require (cut.configHash = world.snapshot.configHash) .invalidHandle

def validateAgainstView (cut : RuntimeSnapshotCut) (view : PublishedReadView) :
    Except WorldError Unit := do
  let stamp := view.root.stamp
  require (cut.worldId = stamp.worldId ∧ cut.contextId = stamp.contextId) .sessionMismatch
  require (cut.generation = stamp.generation) .staleEpoch
  require (cut.worldRevision = stamp.worldRevision) .invalidHandle
  require (cut.artifactHash = view.root.identity) .invalidHandle
  require (view.lease.stamp = stamp) .invalidHandle

structure CaptureEvidence where
  cutId : String
  voxelStamp : RevisionStamp
  rootHash : Digest
  barrierReleased : Bool
  deriving DecidableEq

def captureView (cut : RuntimeSnapshotCut) (view : PublishedReadView) :
    Except WorldError (VoxelCaptureRef × CaptureEvidence) := do
  validateAgainstView cut view
  let captureRef ← (VoxelCaptureRef.new view view.lease ⟨cut.worldId, cut.contextId,
    cut.generation, cut.worldRevision, cut.configHash, cut.artifactHash⟩).mapError
      fun err => WorldError.mapped err.errorId
  return (captureRef, ⟨cut.cutId, captureRef.root.stamp, captureRef.root.identity, true⟩)

/-- The capture keeps a clone of the view's lease; the view itself is dropped. -/
def capture (world : WorldInstance) (cut : RuntimeSnapshotCut) :
    Except WorldError (VoxelCaptureRef × CaptureEvidence) × WorldInstance :=
  match admitCut world cut with
  | .error err => (.error err, world)
  | .ok _ =>
    let captured := world.authority.capture
    let occupied := { world with authority := captured.2 }
    let done := occupied.underBarrier .captureCut fun world =>
      match captureView cut captured.1 with
      | .error err => (.error err, world)
      | .ok done => (.ok done, { world with authority := world.authority.clonePin done.1.pin })
    (done.1, { done.2 with authority := done.2.authority.dropPin captured.1.lease })

/-! ## 6. Restoring a candidate -/

structure RestoreReceipt where
  oldRoot : Digest
  newRoot : Digest
  deriving DecidableEq

namespace RestoreBarrier

def recheck (world : WorldInstance) (candidate : SealedRestoreCandidate) :
    Except WorldError Unit := do
  require (candidate.root.stamp.worldId = world.worldId) .sessionMismatch
  require (candidate.root.stamp.generation = world.generation) .staleEpoch
  require (candidate.root.stamp.contextId = world.worldContextId) .sessionMismatch
  require (candidate.configHash = world.snapshot.configHash) (.mapped "EvidenceDigestMismatch")
  require (candidate.hashMatches = true) (.mapped "ArtifactDigestMismatch")

/-- Publishes the candidate's root and drops every transaction in flight.
Completed transactions stay in the ledger. -/
def publish (world : WorldInstance) (candidate : SealedRestoreCandidate) :
    Except WorldError RestoreReceipt × WorldInstance :=
  match recheck world candidate with
  | .error err => (.error err, world)
  | .ok _ =>
    let oldRoot := world.root.identity
    match world.authority.glance.publishRoot candidate.worldRevision candidate.root
        candidate.replacement with
    | (.error err, authority) => (.error (.fromPublish err), { world with authority := authority })
    | (.ok newRoot, authority) =>
      (.ok ⟨oldRoot, newRoot⟩,
        { world with authority := authority, ledger := world.ledger.abortInFlight })

end RestoreBarrier

def restore (world : WorldInstance) (candidate : SealedRestoreCandidate) :
    Except WorldError RestoreReceipt × WorldInstance :=
  world.underBarrier .restore fun world => RestoreBarrier.publish world candidate

/-! ## 7. Shutting down -/

namespace WorldShutdown

omit [UnicodeTables] in
/-- The session is in the target state or past it. -/
def sequenceReached (current target : SessionState) : Bool :=
  current = target ||
    match target with
    | .draining => current = .snapshotted || current = .disposed
    | .snapshotted => current = .disposed
    | _ => false

omit [UnicodeTables] in
/-- Closes ingress. -/
def begin (world : WorldInstance) : Except WorldError Unit × WorldInstance :=
  if sequenceReached world.state .draining then
    (.ok (), world)
  else
    match world.state.apply .drain .draining with
    | .error err => (.error err, world)
    | .ok state => (.ok (), { world with state := state })

omit [UnicodeTables] in
/-- Drops every transaction in flight and takes the final snapshot. -/
def drain (world : WorldInstance) : Except WorldError Unit × WorldInstance :=
  if sequenceReached world.state .snapshotted then
    (.ok (), world)
  else
    match world.state.apply .finalSnapshotTaken .snapshotted with
    | .error err => (.error err, world)
    | .ok state => (.ok (), { world with state := state, ledger := world.ledger.abortInFlight })

omit [UnicodeTables] in
/-- The generation after this one; zero is skipped. -/
def invalidateGeneration (generation : UInt64) : UInt64 :=
  if generation + 1 = 0 then 1 else generation + 1

omit [UnicodeTables] in
/-- Releases occupancy, disposes the session and leaves the old generation behind. -/
def finalize (world : WorldInstance) : Except WorldError Unit × WorldInstance :=
  if sequenceReached world.state .disposed then
    (.ok (), world)
  else
    match world.state.apply .dispose .disposed with
    | .error err => (.error err, world)
    | .ok state => (.ok (), { world with
        state := state
        writeOccupied := false
        generation := invalidateGeneration world.generation })

omit [UnicodeTables] in
def shutdownAdmissible (state : SessionState) : Bool :=
  state = .draining || state = .snapshotted || state = .disposed ||
    hasSessionEdge state .drain .draining

omit [UnicodeTables] in
/-- A severe fault runs the whole sequence. -/
def trip (world : WorldInstance) (cause diagnosticName : String) :
    Except WorldError Unit × WorldInstance :=
  if cause = "" ∨ diagnosticName = "" ∨ shutdownAdmissible world.state = false then
    (.error .invalidHandle, world)
  else
    match begin world with
    | (.error err, world) => (.error err, world)
    | (.ok _, world) =>
      match drain world with
      | (.error err, world) => (.error err, world)
      | (.ok _, world) => finalize world

end WorldShutdown

end Operations

end LumioVoxel
