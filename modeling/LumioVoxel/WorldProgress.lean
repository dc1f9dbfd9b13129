import LumioVoxel.WorldSessions

/-!
# When world operations succeed

A running world whose write lane is free and whose authority has room serves every
well-formed operation: each of them goes through and leaves the world serving,
with room for one publication less if it publishes.
-/

namespace LumioVoxel

open DebugText Fallible

section Progress

variable [UnicodeTables]

/-! ## 1. The lease of the published root -/

/-- The authority's pin is on the stamp of its root. -/
def PublicationAuthority.Pinned (authority : PublicationAuthority) : Prop :=
  authority.pin.stamp = authority.root.stamp

namespace PublicationAuthority

variable {authority authority' : PublicationAuthority}

omit [UnicodeTables] in
theorem sealPublication_pin {prepared prepared' : PreparedPublication} {token : PublicationToken}
    (h : authority.sealPublication prepared = .ok (token, prepared', authority')) :
    token.pin.stamp = token.newRoot.stamp := by
  unfold sealPublication at h
  split at h
  · cases h
  split at h
  · cases h
  rename_i hpin
  obtain ⟨rfl, -⟩ := Prod.mk.inj (Except.ok.inj h)
  exact (RegistryState.tryPin_eq_ok (mapError_eq_ok.mp hpin)).1

omit [UnicodeTables] in
theorem new_pinned {worldId contextId : String} {generation : UInt64} {pins : RegistryState}
    {initial : PublishedStateRoot}
    (h : new worldId contextId generation pins initial = .ok authority) : authority.Pinned := by
  unfold new at h
  split at h
  · cases h
  split at h
  · cases h
  split at h
  · cases h
  rename_i hpin
  obtain rfl := Except.ok.inj h
  exact (RegistryState.tryPin_eq_ok (mapError_eq_ok.mp hpin)).1

theorem publishOnce_pinned (h : authority.Pinned) {token : PublicationToken}
    (htoken : token.pin.stamp = token.newRoot.stamp) : (authority.publishOnce token).2.Pinned := by
  unfold publishOnce
  split
  · split
    · split
      · exact htoken
      · exact h
    · exact h
  · exact h

theorem publishRoot_pinned (h : authority.Pinned) (target : UInt64) (newRoot : PublishedStateRoot)
    (replacement : SectionReplacement) :
    (authority.publishRoot target newRoot replacement).2.Pinned := by
  unfold publishRoot
  split
  · exact h
  · rename_i prepared authority₁ hprepare
    obtain ⟨-, -, -, -, -, -, next, rfl⟩ := prepare_eq_ok hprepare
    split
    · exact h
    · rename_i token prepared' authority₂ hseal
      obtain ⟨-, -, -, -, -, pins, rfl⟩ := sealPublication_eq_ok hseal
      have hnow : Pinned { authority with nextTokenId := next, pins := pins } := h
      have hpinned := publishOnce_pinned hnow (sealPublication_pin hseal)
      split
      all_goals
        rename_i hpublish
        rw [hpublish] at hpinned
        exact hpinned

/-- A root of the authority's world is published, under its own stamp. -/
theorem publishRoot_of_pinned {n : Nat} (h : authority.CanPublish (n + 1))
    (hpinned : authority.Pinned) {newRoot : PublishedStateRoot} (replacement : SectionReplacement)
    (hstamp : newRoot.stamp.BelongsTo authority.worldId authority.contextId authority.generation) :
    ∃ authority', authority.publishRoot newRoot.stamp.worldRevision newRoot replacement =
        (.ok authority'.root.identity, authority') ∧
      authority.SameWorld authority' ∧ authority'.CanPublish n ∧ authority'.Pinned := by
  obtain ⟨authority', hpublish, -, hsame, hroom⟩ := publishRoot_of h replacement hstamp
  have hstill := publishRoot_pinned hpinned newRoot.stamp.worldRevision newRoot replacement
  rw [hpublish] at hstill
  exact ⟨authority', hpublish, hsame, hroom, hstill⟩

end PublicationAuthority

theorem commit_pinned {authority : PublicationAuthority} (h : authority.Pinned)
    (token : PreparedMutation) (ledger : ReceiptLedger) :
    (LumioVoxel.commit token authority ledger).2.1.Pinned := by
  unfold LumioVoxel.commit
  split
  · exact h
  · exact h
  · exact h
  · simp only [commitView]
    split
    · exact h
    · split
      · exact h
      · rename_i publication authority₁ hprepare
        obtain ⟨-, -, -, -, -, -, next, rfl⟩ := PublicationAuthority.prepare_eq_ok hprepare
        split
        · exact h
        · split
          · exact h
          · rename_i token' publication' authority₂ hseal
            obtain ⟨-, -, -, -, -, pins, rfl⟩ := PublicationAuthority.sealPublication_eq_ok hseal
            have hnow : PublicationAuthority.Pinned
                { authority.capture.2 with nextTokenId := next, pins := pins } := h
            have hpinned := PublicationAuthority.publishOnce_pinned hnow
              (PublicationAuthority.sealPublication_pin hseal)
            unfold publishAndFinalize
            split
            all_goals
              rename_i hpublish
              rw [hpublish] at hpinned
              exact hpinned

/-! ## 2. A serving world -/

/-- Running, idle, consistent, and with room for `n` more publications. -/
structure WorldInstance.Serves (world : WorldInstance) (n : Nat) : Prop where
  worldId_ne : world.worldId ≠ ""
  contextId_ne : world.worldContextId ≠ ""
  running : world.state = .running
  free : world.writeOccupied = false
  owner : world.authority.worldId = world.worldId ∧
    world.authority.contextId = world.worldContextId ∧
    world.authority.generation = world.generation
  configHash : world.ledger.configHash = world.snapshot.configHash
  pinned : world.authority.Pinned
  room : world.authority.CanPublish n

namespace WorldInstance.Serves

variable {world : WorldInstance} {n : Nat}

omit [UnicodeTables] in
theorem admits (h : world.Serves n) (scope : BarrierScope) : world.Admits scope := by
  refine ⟨h.free, require_of ?_ _⟩
  rw [h.running]
  cases scope <;> decide

omit [UnicodeTables] in
/-- The published root belongs to the world. -/
theorem belongs (h : world.Serves n) :
    world.root.stamp.BelongsTo world.worldId world.worldContextId world.generation := by
  have hroot := world.authority.root_belongs
  rw [h.owner.1, h.owner.2.1, h.owner.2.2] at hroot
  exact hroot

omit [UnicodeTables] in
/-- A serving world after a step that only changed authority and ledger. -/
theorem changed (h : world.Serves n) {authority : PublicationAuthority} {ledger : ReceiptLedger}
    {m : Nat} (hworld : world.authority.SameWorld authority)
    (hconfig : ledger.configHash = world.ledger.configHash) (hpinned : authority.Pinned)
    (hroom : authority.CanPublish m) :
    WorldInstance.Serves { world with authority, ledger, writeOccupied := false } m where
  worldId_ne := h.worldId_ne
  contextId_ne := h.contextId_ne
  running := h.running
  free := rfl
  owner := ⟨hworld.1.symm.trans h.owner.1, hworld.2.1.symm.trans h.owner.2.1,
    hworld.2.2.symm.trans h.owner.2.2⟩
  configHash := hconfig.trans h.configHash
  pinned := hpinned
  room := hroom

omit [UnicodeTables] in
theorem admitted (h : world.Serves n) {request : MutationRequest}
    (hids : request.txnId ≠ "" ∧ request.worldId ≠ "") (hworld : request.worldId = world.worldId)
    (hgen : request.generation = world.generation) :
    reAdmitMutation { world with writeOccupied := true } request = .ok () :=
  reAdmitMutation_eq_ok.mpr ⟨h.contextId_ne, hids, hworld, hgen, by
    rw [show ({ world with writeOccupied := true } : WorldInstance).state = world.state from rfl,
      h.running]
    rfl, h.configHash⟩

end WorldInstance.Serves

omit [UnicodeTables] in
/-- What runs under a barrier that lets it in. -/
theorem WorldInstance.underBarrier_of_admits {α : Type} {world : WorldInstance}
    {scope : BarrierScope} (h : world.Admits scope)
    (work : WorldInstance → Except WorldError α × WorldInstance) :
    world.underBarrier scope work =
      ((work { world with writeOccupied := true }).1,
        { (work { world with writeOccupied := true }).2 with writeOccupied := false }) := by
  rcases world.underBarrier_cases scope work with ⟨err, hno, -⟩ | ⟨-, hrun⟩
  · exact absurd h hno
  · exact hrun

namespace WorldSession

variable {s : WorldSession} {n : Nat}

/-! ## 3. Prepare and commit -/

/-- A preparable request gets a token that drafts over the root it saw. -/
theorem prepare_step (h : s.world.Serves n) {request : MutationRequest}
    (hprep : Preparable request s.world.authority.capture.1 s.world.ledger)
    (hkeys : ∀ key : String, s.root.stamp.sectionRevisionSet[key]? ≠ none →
      ∃ id : SectionId, key = id.key) :
    ∃ token, (s.step (.prepare request)).tokens = s.tokens ++ [token] ∧
      SealedFrom request s.world.authority.capture.1 s.world.ledger.configHash token ∧
      (s.step (.prepare request)).world.ledger.lookup token.request = .ok .inFlight ∧
      (∀ view : PublishedReadView, view.root = s.root →
        ∃ d, draft token view (s.step (.prepare request)).world.ledger = .ok d) ∧
      (s.step (.prepare request)).root = s.root ∧
      (s.step (.prepare request)).world.Serves n := by
  obtain ⟨token, ledger', hprepare, hsealed, hflight, hdraft⟩ := prepare_draft_of hprep hkeys
  obtain ⟨hids, -⟩ := (ReceiptLedger.lookup_vacant.mp hprep.vacant).1
  have hbelongs := h.belongs
  have hworld : request.worldId = s.world.worldId := hprep.worldId.trans hbelongs.2.1
  have hgen : request.generation = s.world.generation := hprep.generation.trans hbelongs.2.2.2
  have hconfig : ledger'.configHash = s.world.ledger.configHash := by
    rcases prepare_cases request s.world.authority.capture.1 s.world.ledger with ⟨err, herr, -⟩ |
      ⟨receipt, made, hdup, -⟩ | ⟨made, ledger₁, -, hreserve, hmade, -⟩
    · rw [hprepare] at herr
      cases herr
    · cases hprep.vacant.symm.trans hdup
    · obtain ⟨-, rfl⟩ := Prod.mk.inj (hprepare.symm.trans hmade)
      exact (ReceiptLedger.reserve_of_vacant
        (ReceiptLedger.lookup_vacant.mp hprep.vacant).2 hreserve).2.2.1
  have hrun : WriteLease.prepare s.world request = (.ok token, { s.world with
      authority := s.world.authority.glance, ledger := ledger', writeOccupied := false }) := by
    rw [WriteLease.prepare, WorldInstance.underBarrier_of_admits (h.admits .mutation)]
    simp only [h.admitted hids hworld hgen, hprepare]
    rfl
  have hworld' : (s.step (.prepare request)).world = { s.world with
      authority := s.world.authority.glance, ledger := ledger', writeOccupied := false } :=
    congrArg Prod.snd hrun
  refine ⟨token, ?_, hsealed, ?_, fun view hview => ?_, ?_, ?_⟩
  · simp only [step, prepare, hrun]
    rfl
  · rw [hworld']
    exact hflight
  · rw [hworld']
    exact hdraft view hview
  · rw [root, hworld']
    rfl
  · rw [hworld']
    exact h.changed ⟨rfl, rfl, rfl⟩ hconfig h.pinned (PublicationAuthority.glance_canPublish h.room)

/-- A token in flight that drafts over the published root is committed. -/
theorem commit_step (h : s.world.Serves (n + 1)) {i : Nat} {token : PreparedMutation}
    {d : CommitDraft} (htoken : s.tokens[i]? = some token)
    (hflight : s.world.ledger.lookup token.request = .ok .inFlight)
    (hdraft : draft token s.world.authority.capture.1 s.world.ledger = .ok d) :
    ∃ receipt, s.Commits (.commit i) token d receipt ∧ (s.step (.commit i)).world.Serves n := by
  obtain ⟨receipt, authority', ledger', hcommit, hdone, hroom⟩ := commit_of hflight hdraft h.room
  obtain ⟨⟨hids, -⟩, -⟩ := ReceiptLedger.lookup_inFlight.mp hflight
  have hreadmitted : reAdmitMutation { s.world with writeOccupied := true }
      (WriteLease.commitRequest { s.world with writeOccupied := true } token) = .ok () :=
    h.admitted ⟨hids.1, h.worldId_ne⟩ rfl rfl
  have hrun : (WriteLease.commit s.world token).2 = { s.world with
      authority := authority', ledger := ledger', writeOccupied := false } := by
    rw [WriteLease.commit, WorldInstance.underBarrier_of_admits (h.admits .mutation)]
    simp only [hreadmitted, hcommit]
  have hworld' : (s.step (.commit i)).world = { s.world with
      authority := authority', ledger := ledger', writeOccupied := false } := by
    simp only [step, commit, htoken, hrun]
  refine ⟨receipt, ⟨⟨i, rfl, htoken⟩, hflight, ?_⟩, ?_⟩
  · rw [hworld']
    exact hdone
  · rw [hworld']
    have hpinned := commit_pinned h.pinned token s.world.ledger
    rw [hcommit] at hpinned
    exact h.changed hdone.sameWorld hdone.configHash hpinned hroom

/-- A commit leaves the authority's owner, and with it the world's. -/
theorem Commits.sameOwner {op : WorldOp} {token : PreparedMutation} {d : CommitDraft}
    {receipt : MutationReceipt} (hcommits : s.Commits op token d receipt) (h : s.world.Serves n)
    {m : Nat} (hnext : (s.step op).world.Serves m) :
    (s.step op).world.worldId = s.world.worldId ∧
      (s.step op).world.worldContextId = s.world.worldContextId ∧
      (s.step op).world.generation = s.world.generation := by
  have hsame := hcommits.committed.sameWorld
  refine ⟨?_, ?_, ?_⟩
  · rw [← hnext.owner.1, ← hsame.1, h.owner.1]
  · rw [← hnext.owner.2.1, ← hsame.2.1, h.owner.2.1]
  · rw [← hnext.owner.2.2, ← hsame.2.2, h.owner.2.2]

/-! ## 4. Acknowledgements and unloads -/

private theorem applyView_of {view : PublishedReadView}
    {authority authority' : PublicationAuthority} {ack : DurabilityAckEvidence}
    {coverage : DirtyCoverage} {published : Digest}
    (hcoverage : view.root.dirtyFrontier.coveredBy ack = .ok coverage)
    (hsome : coverage.covered ≠ ∅)
    (hdone : authority.publishRoot view.root.stamp.worldRevision (.new view.root.stamp
        view.root.directory (view.root.dirtyFrontier.exceptCovered coverage)) ⟨∅⟩ =
      (.ok published, authority')) :
    DurabilityAckBarrier.applyView view authority ack =
      (.ok ⟨coverage.covered.size, view.root.identity, published⟩, authority') := by
  have hnot : ¬ (coverage.covered.isEmpty = true ∧
      view.root.dirtyFrontier.exceptCovered coverage = view.root.dirtyFrontier) :=
    fun hempty => hsome (Std.ExtTreeMap.isEmpty_iff.mp hempty.1)
  simp only [DurabilityAckBarrier.applyView, hcoverage]
  rw [if_neg hnot, SectionDeltaBuilder.freeze_new]
  simp only [hdone]
  rfl

/-- An acknowledgement of something dirty is applied. -/
theorem ack_step (h : s.world.Serves (n + 1)) {ack : DurabilityAckEvidence}
    {coverage : DirtyCoverage}
    (hvalid : DurabilityAckBarrier.validateBeforeOccupancy s.world ack = .ok ())
    (hcoverage : s.root.dirtyFrontier.coveredBy ack = .ok coverage)
    (hsome : coverage.covered ≠ ∅) :
    (∃ receipt, (applyDurabilityAck s.world ack).1 = .ok receipt) ∧
      (s.step (.ack ack)).world.Serves n := by
  let newRoot : PublishedStateRoot :=
    .new s.root.stamp s.root.directory (s.root.dirtyFrontier.exceptCovered coverage)
  have hbelongs : newRoot.stamp.BelongsTo s.world.authority.worldId s.world.authority.contextId
      s.world.authority.generation := by
    rw [h.owner.1, h.owner.2.1, h.owner.2.2]
    exact h.belongs
  have hnow : s.world.authority.capture.2.Pinned := h.pinned
  obtain ⟨authority', hpublish, hsame, hroom, hpinned⟩ := PublicationAuthority.publishRoot_of_pinned
    (PublicationAuthority.capture_canPublish h.room) hnow ⟨∅⟩ hbelongs
  have hview : DurabilityAckBarrier.applyView s.world.authority.capture.1
      s.world.authority.capture.2 ack = (.ok ⟨coverage.covered.size, s.root.identity,
        authority'.root.identity⟩, authority') := applyView_of hcoverage hsome hpublish
  have hrun : applyDurabilityAck s.world ack = (.ok ⟨coverage.covered.size, s.root.identity,
      authority'.root.identity⟩, { s.world with
        authority := authority'.dropPin s.world.authority.capture.1.lease
        writeOccupied := false }) := by
    rw [applyDurabilityAck, hvalid]
    dsimp only
    rw [WorldInstance.underBarrier_of_admits (h.admits .durabilityAck)]
    simp only [DurabilityAckBarrier.apply]
    have hagain : DurabilityAckBarrier.validateBeforeOccupancy
        { s.world with writeOccupied := true } ack = .ok () := hvalid
    rw [hagain]
    dsimp only
    rw [hview]
  refine ⟨⟨_, congrArg Prod.fst hrun⟩, ?_⟩
  rw [show (s.step (.ack ack)).world = (applyDurabilityAck s.world ack).2 from rfl, hrun]
  exact h.changed hsame rfl hpinned (PublicationAuthority.dropPin_canPublish hroom _)

/-- One that the frontier refuses leaves the world serving. -/
theorem refused_ack_step (h : s.world.Serves n) {ack : DurabilityAckEvidence} {err : DirtyError}
    (hvalid : DurabilityAckBarrier.validateBeforeOccupancy s.world ack = .ok ())
    (hrefused : s.root.dirtyFrontier.coveredBy ack = .error err) :
    (∃ err, (applyDurabilityAck s.world ack).1 = .error err) ∧
      (s.step (.ack ack)).world.Serves n := by
  have hview : DurabilityAckBarrier.applyView s.world.authority.capture.1
      s.world.authority.capture.2 ack = (.error (.fromDirty err), s.world.authority.capture.2) := by
    have hview : s.world.authority.capture.1.root.dirtyFrontier.coveredBy ack = .error err :=
      hrefused
    simp only [DurabilityAckBarrier.applyView, hview]
  have hrun : applyDurabilityAck s.world ack = (.error (.fromDirty err), { s.world with
      authority := s.world.authority.glance
      writeOccupied := false }) := by
    rw [applyDurabilityAck, hvalid]
    dsimp only
    rw [WorldInstance.underBarrier_of_admits (h.admits .durabilityAck)]
    simp only [DurabilityAckBarrier.apply]
    have hagain : DurabilityAckBarrier.validateBeforeOccupancy
        { s.world with writeOccupied := true } ack = .ok () := hvalid
    rw [hagain]
    dsimp only
    rw [hview]
    rfl
  refine ⟨⟨_, congrArg Prod.fst hrun⟩, ?_⟩
  rw [show (s.step (.ack ack)).world = (applyDurabilityAck s.world ack).2 from rfl, hrun]
  exact h.changed ⟨rfl, rfl, rfl⟩ rfl h.pinned (PublicationAuthority.glance_canPublish h.room)

omit [UnicodeTables] in
private theorem exists_directoryWithUnloadedSection (directory : SectionDirectoryRoot)
    (id : SectionId) : ∃ unloaded,
      UnloadBarrier.directoryWithUnloadedSection directory id.key = .ok unloaded := by
  have hstep : ∀ (progress : SectionDirectoryBuilder × Bool) (entry : SectionId × SectionSlot)
      (_ : List (SectionId × SectionSlot)), True →
      ∃ next, UnloadBarrier.carrySlot id.key progress entry = .ok next ∧ True := by
    intro progress entry _ _
    unfold UnloadBarrier.carrySlot
    split
    all_goals
      rw [SectionDirectoryBuilder.insert_key]
      exact ⟨_, rfl, trivial⟩
  obtain ⟨⟨builder, sawTarget⟩, hfold, -⟩ : ∃ built, foldSteps (UnloadBarrier.carrySlot id.key)
      (.new, false) directory.entries.toList = .ok built ∧ True :=
    foldSteps_progress (P := fun _ _ => True) hstep trivial
  simp only [UnloadBarrier.directoryWithUnloadedSection, hfold, ok_bind]
  cases sawTarget with
  | true => exact ⟨_, rfl⟩
  | false =>
    rw [SectionDirectoryBuilder.insert_key]
    exact ⟨_, rfl⟩

/-- A clean, ready section can be dropped from the cut it was checked on. -/
private theorem exists_unloadDraft (view : PublishedReadView) {id : SectionId}
    {payload : SectionPayload} (hready : view.root.directory.entries[id]? = some (.ready payload))
    (hclean : view.root.dirtyFrontier.entries[id]? = none) :
    ∃ newRoot replacement, UnloadBarrier.draft id.key view view = .ok (newRoot, replacement) ∧
      newRoot.stamp = view.root.stamp := by
  have hdurable : UnloadBarrier.checkDurable view.root.dirtyFrontier id.key = .ok () :=
    UnloadBarrier.checkDurable_key.mpr hclean
  have hslot : UnloadBarrier.lookupSlot view.root.directory id.key = .ok (.ready payload) :=
    UnloadBarrier.lookupSlot_eq_ok.mpr ⟨id, rfl, hready⟩
  have hstage : (SectionDeltaBuilder.new view.root.directory).stage ⟨id.key, [], .unchanged⟩ =
      .ok { SectionDeltaBuilder.new view.root.directory with
        staged := (SectionDeltaBuilder.new view.root.directory).staged.insert id .unchanged } :=
    SectionDeltaBuilder.stage_eq_ok.mpr
      ⟨id, rfl, ⟨List.not_mem_nil, List.nodup_nil⟩, BTreeMap.getElem?_empty id, rfl⟩
  have hchecked : ∀ entry ∈ ((∅ : BTreeMap SectionId SectionSlot).insert id .unchanged).toList,
      SectionDeltaBuilder.checkStaged view.root.directory entry = .ok () := by
    rintro ⟨named, slot⟩ hentry
    have hget := BTreeMap.mem_toList.mp hentry
    rw [BTreeMap.getElem?_insert] at hget
    split at hget
    · rename_i hname
      obtain rfl := hname
      obtain rfl := Option.some.inj hget
      simp only [SectionDeltaBuilder.checkStaged, SectionDirectoryRoot.lookup_key, hready, ok_bind]
      exact congrArg (· >>= fun _ => pure ()) (SectionSlot.tryConvert_unload payload)
    · rw [BTreeMap.getElem?_empty] at hget
      cases hget
  have hfreeze : SectionDeltaBuilder.freeze { SectionDeltaBuilder.new view.root.directory with
      staged := (SectionDeltaBuilder.new view.root.directory).staged.insert id .unchanged } =
      .ok ⟨(SectionDeltaBuilder.new view.root.directory).staged.insert id .unchanged⟩ :=
    SectionDeltaBuilder.freeze_of_checked hchecked
  obtain ⟨directory, hdirectory⟩ := exists_directoryWithUnloadedSection view.root.directory id
  refine ⟨.new view.root.stamp directory view.root.dirtyFrontier,
    ⟨(SectionDeltaBuilder.new view.root.directory).staged.insert id .unchanged⟩, ?_, rfl⟩
  rw [UnloadBarrier.draft, require_of rfl, ok_bind, hdurable, ok_bind, hslot, ok_bind,
    require_of (show (SectionSlot.ready payload).presence = .ready from rfl), ok_bind, hstage,
    mapError_ok, ok_bind, hfreeze, mapError_ok, ok_bind, hdirectory, ok_bind]
  rfl

private theorem publish_of_draft {sectionId : String} {before : PublishedReadView}
    (authority : PublicationAuthority) {authority' : PublicationAuthority}
    {newRoot : PublishedStateRoot}
    {replacement : SectionReplacement} {published : Digest}
    (hdraft : UnloadBarrier.draft sectionId before authority.capture.1 =
      .ok (newRoot, replacement))
    (hdone : authority.capture.2.publishRoot authority.capture.1.root.stamp.worldRevision newRoot
      replacement = (.ok published, authority')) :
    UnloadBarrier.publish sectionId before authority =
      (.ok ⟨sectionId, authority.capture.1.root.identity, published, true⟩,
        authority'.dropPin authority.capture.1.lease) := by
  unfold UnloadBarrier.publish
  generalize authority.capture = captured at *
  simp only [hdraft, hdone]
  rfl

private theorem unloadView_of {pins : Option RegionPinManager} {hook : PinExemptionHook}
    {before : PublishedReadView} {authority : PublicationAuthority} {id : SectionId}
    {payload : SectionPayload} (hready : before.root.directory.entries[id]? = some (.ready payload))
    (hclean : before.root.dirtyFrontier.entries[id]? = none)
    (hexempt : UnloadBarrier.checkExemptions pins hook id.key = .ok ())
    {done : Except WorldError UnloadReceipt × PublicationAuthority}
    (hdone : UnloadBarrier.publish id.key before authority = done) :
    UnloadBarrier.unloadView pins hook id.key before authority = done := by
  have hslot : UnloadBarrier.lookupSlot before.root.directory id.key = .ok (.ready payload) :=
    UnloadBarrier.lookupSlot_eq_ok.mpr ⟨id, rfl, hready⟩
  have hdurable : UnloadBarrier.checkDurable before.root.dirtyFrontier id.key = .ok () :=
    UnloadBarrier.checkDurable_key.mpr hclean
  have hpresence : (SectionSlot.ready payload).presence = .ready := rfl
  simp only [UnloadBarrier.unloadView, hslot, hdurable, hpresence, hexempt]
  exact hdone

/-- A clean, ready section that policy and hook let go is unloaded. -/
theorem unload_step (h : s.world.Serves (n + 1)) {id : SectionId} {payload : SectionPayload}
    {hook : PinExemptionHook} (hready : s.root.directory.entries[id]? = some (.ready payload))
    (hclean : s.root.dirtyFrontier.entries[id]? = none)
    (hpolicy : UnloadBarrier.checkAttachedPolicy s.world.regionPins id.key = .ok ())
    (hhook : hook id.key = .ok ()) :
    Unloaded id s.root (s.step (.unload id.key hook)).root ∧
      (s.step (.unload id.key hook)).world.Serves n := by
  obtain ⟨newRoot, replacement, hdraft, hstamp⟩ :=
    exists_unloadDraft s.world.authority.capture.1 hready hclean
  have hexempt : UnloadBarrier.checkExemptions s.world.regionPins hook id.key = .ok () := by
    rw [UnloadBarrier.checkExemptions, hpolicy, ok_bind, hhook]
    rfl
  have hbelongs : newRoot.stamp.BelongsTo s.world.authority.worldId s.world.authority.contextId
      s.world.authority.generation := by
    rw [hstamp, h.owner.1, h.owner.2.1, h.owner.2.2]
    exact h.belongs
  have hnow : s.world.authority.capture.2.capture.2.Pinned := h.pinned
  obtain ⟨authority', hpublish, hsame, hroom, hpinned⟩ := PublicationAuthority.publishRoot_of_pinned
    (PublicationAuthority.capture_canPublish (PublicationAuthority.capture_canPublish h.room))
    hnow replacement hbelongs
  have hview := unloadView_of hready hclean hexempt
    (publish_of_draft s.world.authority.capture.2 hdraft (hstamp ▸ hpublish))
  have hrun : unloadSection s.world id.key hook = (.ok ⟨id.key, s.root.identity,
      authority'.root.identity, true⟩, { s.world with
        authority := (authority'.dropPin s.world.authority.capture.2.capture.1.lease).dropPin
          s.world.authority.capture.1.lease
        writeOccupied := false }) := by
    rw [unloadSection, WorldInstance.underBarrier_of_admits (h.admits .streamingApply)]
    dsimp only
    rw [hview]
    rfl
  have hworld : (s.step (.unload id.key hook)).world = (unloadSection s.world id.key hook).2 := rfl
  constructor
  · rcases unload_outcome s.world id.key hook with ⟨-, hticket⟩ |
      ⟨receipt, other, hkey, -, hunloaded, -⟩
    · obtain ⟨other, hkey, -, hentry⟩ := hticket _ (congrArg Prod.fst hrun)
      obtain rfl := SectionId.key_injective hkey
      cases hentry.symm.trans hready
    · obtain rfl := SectionId.key_injective hkey
      exact hunloaded
  · rw [hworld, hrun]
    exact h.changed hsame rfl hpinned
      (PublicationAuthority.dropPin_canPublish (PublicationAuthority.dropPin_canPublish hroom _) _)

/-! ## 5. Capture, encode and restore -/

/-- The world after a capture: its authority holds one more lease. -/
def afterCapture (world : WorldInstance) (captured : VoxelCaptureRef) : WorldInstance :=
  { world with
    authority := (world.authority.capture.2.clonePin captured.pin).dropPin
      world.authority.capture.1.lease
    writeOccupied := false }

private theorem capture_of {world : WorldInstance} (h : world.Serves n) {cutId : String}
    (hcut : cutId ≠ "") :
    ∃ captured evidence, LumioVoxel.capture world (.fromLive world cutId) =
        (.ok (captured, evidence), afterCapture world captured) ∧
      captured.root = world.root ∧ captured.configHash = world.snapshot.configHash := by
  obtain ⟨-, hworld, hcontext, hgen⟩ := h.belongs
  have hhash := world.snapshot.configHash_isHash
  have hworldNe : world.root.stamp.worldId ≠ "" := hworld ▸ h.worldId_ne
  have hcontextNe : world.root.stamp.contextId ≠ "" := hcontext ▸ h.contextId_ne
  have hquery : queryAdmissible world.state = true := by
    rw [h.running]
    decide
  have hadmit : admitCut world (.fromLive world cutId) = .ok () :=
    admitCut_eq_ok.mpr ⟨⟨hcut, hworldNe, hcontextNe⟩, hhash, hworld, hcontext, hgen, hquery, rfl⟩
  have hadmits : WorldInstance.Admits { world with authority := world.authority.capture.2 }
      .captureCut := h.admits .captureCut
  have hvalid : validateAgainstView (.fromLive world cutId) world.authority.capture.1 = .ok () :=
    validateAgainstView_eq_ok.mpr ⟨⟨rfl, rfl⟩, rfl, rfl, rfl, h.pinned⟩
  obtain ⟨captured, hmade⟩ : ∃ captured, VoxelCaptureRef.new world.authority.capture.1
      world.authority.capture.1.lease ⟨world.root.stamp.worldId, world.root.stamp.contextId,
        world.root.stamp.generation, world.root.stamp.worldRevision, world.snapshot.configHash,
        world.root.identity⟩ = .ok captured := by
    unfold VoxelCaptureRef.new
    rw [dif_pos ⟨hworldNe, hcontextNe, hhash, rfl, rfl, rfl, rfl, rfl, h.pinned, h.pinned⟩]
    exact ⟨_, rfl⟩
  obtain ⟨hroot, hconfig⟩ := VoxelCaptureRef.root_of_new hmade
  have hview : captureView (.fromLive world cutId) world.authority.capture.1 =
      .ok (captured, ⟨cutId, captured.root.stamp, captured.root.identity, true⟩) := by
    simp only [captureView, hvalid, ok_bind]
    simp only [RuntimeSnapshotCut.fromLive, hmade, mapError_ok, ok_bind]
    rfl
  refine ⟨captured, ⟨cutId, captured.root.stamp, captured.root.identity, true⟩, ?_, hroot, hconfig⟩
  simp only [LumioVoxel.capture, hadmit]
  rw [WorldInstance.underBarrier_of_admits hadmits]
  simp only [hview]
  rfl

theorem capture_step (h : s.world.Serves n) {cutId : String} (hcut : cutId ≠ "") :
    ∃ captured, s.step (.capture (.fromLive s.world cutId)) =
        { s with world := afterCapture s.world captured, captures := s.captures ++ [captured] } ∧
      captured.root = s.root ∧ captured.configHash = s.world.snapshot.configHash ∧
      (afterCapture s.world captured).Serves n := by
  obtain ⟨captured, evidence, hrun, hroot, hconfig⟩ := capture_of h hcut
  refine ⟨captured, ?_, hroot, hconfig, ?_⟩
  · simp only [step, capture, hrun]
    rfl
  · exact h.changed ⟨rfl, rfl, rfl⟩ rfl h.pinned (PublicationAuthority.dropPin_canPublish
      (PublicationAuthority.clonePin_canPublish
        (PublicationAuthority.capture_canPublish h.room) _) _)

/-- A capture can be written to a writer with room for it. -/
theorem exists_save (captured : VoxelCaptureRef) :
    ∃ cap snapshot, captured.save cap = some snapshot ∧ snapshot.capture = captured := by
  obtain ⟨cap, metadata, writer, hencode⟩ := exists_encode captured
  obtain ⟨snapshot, hsave⟩ : ∃ snapshot, captured.save cap = some snapshot := by
    unfold VoxelCaptureRef.save
    split
    · rename_i err herr
      rw [hencode] at herr
      cases herr
    · exact ⟨_, rfl⟩
  exact ⟨_, snapshot, hsave, VoxelCaptureRef.capture_of_save hsave⟩

theorem encode_step {k : Nat} {captured : VoxelCaptureRef} (h : s.captures[k]? = some captured) :
    ∃ cap snapshot, s.step (.encode k cap) = { s with snapshots := s.snapshots ++ [snapshot] } ∧
      snapshot.capture = captured := by
  obtain ⟨cap, snapshot, hsave, hcapture⟩ := exists_save captured
  refine ⟨cap, snapshot, ?_, hcapture⟩
  simp only [step, encode, h, Option.bind_some, hsave, Option.toList_some]

/-- A capture encoded right away leaves a snapshot of the root it saw. -/
theorem save_step (h : s.world.Serves n) {cutId : String} (hcut : cutId ≠ "") :
    ∃ captured cap snapshot, (s.step (.capture (.fromLive s.world cutId))).step
          (.encode s.captures.length cap) = { s with
        world := afterCapture s.world captured, captures := s.captures ++ [captured],
        snapshots := s.snapshots ++ [snapshot] } ∧
      snapshot.capture.root = s.root ∧ snapshot.capture.configHash = s.world.snapshot.configHash ∧
      (afterCapture s.world captured).Serves n := by
  obtain ⟨captured, hstep, hroot, hconfig, hserves⟩ := capture_step h hcut
  have hlast : (s.step (.capture (.fromLive s.world cutId))).captures[s.captures.length]? =
      some captured := by
    rw [hstep]
    exact List.getElem?_concat_length
  obtain ⟨cap, snapshot, hencode, rfl⟩ := encode_step hlast
  refine ⟨_, cap, snapshot, ?_, hroot, hconfig, hserves⟩
  rw [hencode, hstep]

/-- The candidate of a snapshot of this world. -/
private theorem exists_candidate {snapshot : SavedSnapshot} {worldId : String}
    {generation : UInt64} {config : VoxelConfigSnapshot}
    (hworld : snapshot.capture.root.stamp.worldId = worldId)
    (hgen : snapshot.capture.root.stamp.generation = generation)
    (hconfig : snapshot.capture.configHash = config.configHash)
    (hkeys : ∀ key revision, snapshot.capture.root.stamp.sectionRevisionSet[key]? = some revision →
      ∃ id : SectionId, key = id.key) :
    ∃ candidate, snapshot.candidate worldId generation config = .ok candidate := by
  obtain ⟨object, hobject, hbytes⟩ := snapshot.written
  have hne : ∀ key revision, snapshot.capture.root.stamp.sectionRevisionSet[key]? = some revision →
      key ≠ "" := by
    rintro key revision hkey rfl
    obtain ⟨id, hid⟩ := hkeys _ _ hkey
    exact id.key_ne_empty hid.symm
  have hvalidate : RestorePreflight.validate snapshot.bytes worldId generation config =
      .ok snapshot.capture.decoded := by
    rw [hbytes]
    exact (validate_manifest_eq_ok hobject).mpr
      ⟨⟨hworld, hgen, hconfig⟩, exists_collect_manifest hobject hne, rfl⟩
  obtain ⟨candidate, hbuild⟩ : ∃ candidate,
      RestoreShadowBuilder.build snapshot.capture.decoded = .ok candidate :=
    exists_shadow snapshot.capture.worldId_ne hkeys
  exact ⟨candidate, bind_eq_ok.mpr ⟨_, hvalidate, hbuild⟩⟩

theorem restore_step (h : s.world.Serves (n + 1)) {j : Nat} {snapshot : SavedSnapshot}
    (hsnapshot : s.snapshots[j]? = some snapshot)
    (hbelongs : snapshot.capture.root.stamp.BelongsTo s.world.worldId s.world.worldContextId
      s.world.generation)
    (hconfig : snapshot.capture.configHash = s.world.snapshot.configHash)
    (hkeys : ∀ key revision, snapshot.capture.root.stamp.sectionRevisionSet[key]? = some revision →
      ∃ id : SectionId, key = id.key) :
    ∃ candidate, s.Restores (.restore j s.world.worldId s.world.generation s.world.snapshot)
      snapshot candidate := by
  obtain ⟨hschema, hworld, hcontext, hgen⟩ := hbelongs
  obtain ⟨candidate, hmade⟩ := exists_candidate hworld hgen hconfig hkeys
  have hshadow := SavedSnapshot.shadow hmade
  have hstamp : candidate.root.stamp.BelongsTo s.world.worldId s.world.worldContextId
      s.world.generation := by
    rw [hshadow.stamp]
    exact ⟨rfl, hworld, hcontext, hgen⟩
  have htarget : candidate.worldRevision = candidate.root.stamp.worldRevision := by
    rw [hshadow.worldRevision, hshadow.stamp]
  have hrecheck : RestoreBarrier.recheck s.world candidate = .ok () := by
    simp only [RestoreBarrier.recheck]
    rw [require_of hstamp.2.1, ok_bind, require_of hstamp.2.2.2, ok_bind,
      require_of hstamp.2.2.1, ok_bind, require_of (hshadow.configHash.trans hconfig), ok_bind]
    exact require_of hshadow.hashMatches _
  have haccepts : s.world.authority.glance.Accepts candidate.worldRevision candidate.root := by
    have hown : candidate.root.stamp.BelongsTo s.world.authority.worldId
        s.world.authority.contextId s.world.authority.generation := by
      rw [h.owner.1, h.owner.2.1, h.owner.2.2]
      exact hstamp
    obtain ⟨authority', hpublish, -⟩ := PublicationAuthority.publishRoot_of
      (PublicationAuthority.glance_canPublish h.room) candidate.replacement hown
    rw [← htarget] at hpublish
    exact PublicationAuthority.publishRoot_ok_iff.mp ⟨_, congrArg Prod.fst hpublish⟩
  exact ⟨candidate, ⟨j, _, _, _, rfl, hsnapshot, hmade⟩, h.admits .restore, hrecheck, haccepts⟩

/-- A serving world takes back the snapshot it just wrote. -/
theorem save_restore_step (h : s.world.Serves (n + 1)) {cutId : String} (hcut : cutId ≠ "")
    (hkeys : ∀ key revision, s.root.stamp.sectionRevisionSet[key]? = some revision →
      ∃ id : SectionId, key = id.key) :
    ∃ cap snapshot candidate,
      ((s.step (.capture (.fromLive s.world cutId))).step (.encode s.captures.length cap)).Restores
        (.restore s.snapshots.length s.world.worldId s.world.generation s.world.snapshot)
        snapshot candidate ∧ snapshot.capture.root = s.root := by
  obtain ⟨captured, cap, snapshot, hsave, hroot, hconfig, hserves⟩ := save_step h hcut
  obtain ⟨candidate, hrestores⟩ := restore_step (s := { s with
      world := afterCapture s.world captured, captures := s.captures ++ [captured],
      snapshots := s.snapshots ++ [snapshot] }) hserves List.getElem?_concat_length
    (by rw [hroot]; exact h.belongs) hconfig (by rw [hroot]; exact hkeys)
  refine ⟨cap, snapshot, candidate, ?_, hroot⟩
  rw [hsave]
  exact hrestores

/-- What a snapshot holds is put back after a commit made over it. -/
theorem commit_restore_step (h : s.world.Serves n) {op : WorldOp} {token : PreparedMutation}
    {d : CommitDraft} {receipt : MutationReceipt} (hcommits : s.Commits op token d receipt)
    {m : Nat} (hnext : (s.step op).world.Serves (m + 1)) {j : Nat} {snapshot : SavedSnapshot}
    (hsnapshot : s.snapshots[j]? = some snapshot) (hroot : snapshot.capture.root = s.root)
    (hconfig : snapshot.capture.configHash = s.world.snapshot.configHash)
    (hkeys : ∀ key revision, s.root.stamp.sectionRevisionSet[key]? = some revision →
      ∃ id : SectionId, key = id.key) :
    ∃ candidate, (s.step op).Restores (.restore j (s.step op).world.worldId
      (s.step op).world.generation (s.step op).world.snapshot) snapshot candidate := by
  obtain ⟨hworld, hcontext, hgen⟩ := hcommits.sameOwner h hnext
  have hhash := hnext.configHash.symm.trans (hcommits.committed.configHash.trans h.configHash)
  obtain ⟨i, rfl, -⟩ := hcommits.named
  apply restore_step hnext hsnapshot
  · rw [hroot, hworld, hcontext, hgen]
    exact h.belongs
  · exact hconfig.trans hhash.symm
  · rw [hroot]
    exact hkeys

end WorldSession

/-! ## 6. A world that just started -/

def approvedConfig : VoxelConfigSnapshot := ⟨zeroHash, [], by decide⟩

def nativeConfig : VoxelConfigSnapshot := { approvedConfig with capabilities := ["Native"] }

def approvedLedger : ReceiptLedger := ⟨zeroHash, 8, ∅, 0, none, none⟩

def runningWorld (authority : PublicationAuthority) (pins : Option RegionPinManager) :
    WorldInstance :=
  ⟨"world", "context", 1, approvedConfig, .running, authority, approvedLedger,
    ⟨approvedConfig, 8⟩, false, pins⟩

omit [UnicodeTables] in
theorem exists_newWorld (root : PublishedStateRoot)
    (hstamp : root.stamp.BelongsTo "world" "context" 1) (pins : Option RegionPinManager) :
    ∃ authority, PublicationAuthority.new "world" "context" 1 (.new 8 "context" 1) root =
        .ok authority ∧
      authority.root = root ∧ (runningWorld authority pins).Serves 7 := by
  obtain ⟨authority, hnew, hroot, hworld, hcontext, hgen, hroom⟩ :=
    PublicationAuthority.new_of (show "world" ≠ "" ∧ "context" ≠ "" by decide) hstamp
      (show 7 + 1 ≤ 8 by decide) (by decide)
  exact ⟨authority, hnew, hroot, show "world" ≠ "" by decide, show "context" ≠ "" by decide, rfl,
    rfl, ⟨hworld, hcontext, hgen⟩, rfl, PublicationAuthority.new_pinned hnew, hroom⟩

omit [UnicodeTables] in
theorem exists_runningWorld (root : PublishedStateRoot)
    (hstamp : root.stamp.BelongsTo "world" "context" 1) (pins : Option RegionPinManager) :
    ∃ authority, authority.root = root ∧ (runningWorld authority pins).Serves 7 := by
  obtain ⟨authority, -, hroot, hserves⟩ := exists_newWorld root hstamp pins
  exact ⟨authority, hroot, hserves⟩

/-! ## 7. A world without sections -/

namespace WorldSession

/-- The empty request, prepared over the bare root. -/
theorem bare_prepare_step {s : WorldSession} {n : Nat} (h : s.world.Serves n)
    (hroot : s.root = bareRoot) (hledger : s.world.ledger = approvedLedger) :
    ∃ token, (s.step (.prepare (originRequest "txn" []))).tokens = s.tokens ++ [token] ∧
      SealedFrom (originRequest "txn" []) s.world.authority.capture.1 s.world.ledger.configHash
        token ∧
      (s.step (.prepare (originRequest "txn" []))).world.ledger.lookup token.request =
        .ok .inFlight ∧
      (∀ view : PublishedReadView, view.root = s.root →
        ∃ d, draft token view (s.step (.prepare (originRequest "txn" []))).world.ledger = .ok d) ∧
      (s.step (.prepare (originRequest "txn" []))).root = bareRoot ∧
      (s.step (.prepare (originRequest "txn" []))).world.Serves n := by
  have hvacant : s.world.ledger.lookup (originRequest "txn" []) = .ok .vacant := by
    rw [hledger]
    exact ReceiptLedger.lookup_vacant.mpr ⟨⟨by decide, (fun _ hw => nomatch hw),
      (fun _ hg => nomatch hg)⟩, BTreeMap.getElem?_empty _⟩
  have hprep : Preparable (originRequest "txn" []) s.world.authority.capture.1 s.world.ledger :=
    bareRoot_preparable hroot hvacant (by rw [hledger]; decide)
  have hkeys : ∀ key : String, s.root.stamp.sectionRevisionSet[key]? ≠ none →
      ∃ id : SectionId, key = id.key := by
    intro key hkey
    rw [hroot] at hkey
    exact absurd (BTreeMap.getElem?_empty key) hkey
  obtain ⟨token, htokens, hsealed, hflight, hdraft, hsame, hserves⟩ := prepare_step h hprep hkeys
  exact ⟨token, htokens, hsealed, hflight, hdraft, hsame.trans hroot, hserves⟩

/-! ## 8. A world with one section -/

/-- Writes to the section at the origin, prepared over the first cut. -/
theorem first_prepare_step {s : WorldSession} {n : Nat} (h : s.world.Serves n) {block : BlockId}
    (hroot : s.root = oneSectionRoot block) (hledger : s.world.ledger = approvedLedger)
    (writes : List (CellOffset × BlockId)) (hsize : writes.length ≤ MAX_ENTRIES_PER_WRITE_BATCH) :
    ∃ token, (s.step (.prepare (originRequest "txn" writes))).tokens = s.tokens ++ [token] ∧
      SealedFrom (originRequest "txn" writes) s.world.authority.capture.1 s.world.ledger.configHash
        token ∧
      (s.step (.prepare (originRequest "txn" writes))).world.ledger.lookup token.request =
        .ok .inFlight ∧
      (∀ view : PublishedReadView, view.root = s.root →
        ∃ d, draft token view (s.step (.prepare (originRequest "txn" writes))).world.ledger =
          .ok d) ∧
      (s.step (.prepare (originRequest "txn" writes))).root = s.root ∧
      (s.step (.prepare (originRequest "txn" writes))).world.Serves n := by
  have hview : s.world.authority.capture.1.root = oneSectionRoot block := hroot
  have hvacant : s.world.ledger.lookup (originRequest "txn" writes) = .ok .vacant := by
    rw [hledger]
    have hids : ("txn" : String) ≠ "" ∧ ("world" : String) ≠ "" := by decide
    exact ReceiptLedger.lookup_vacant.mpr ⟨⟨hids, (fun _ hw => nomatch hw),
      (fun _ hg => nomatch hg)⟩, BTreeMap.getElem?_empty _⟩
  have hentry : s.world.authority.capture.1.root.directory.entries[originSection]? =
      some (.ready (.ofStorage (.uniform block))) := by
    rw [hview]
    exact Std.ExtTreeMap.getElem?_insert_self
  have hstamp : s.world.authority.capture.1.root.stamp =
      toRevisionStamp "world" "context" 1 0 [] := by
    rw [hview]
    rfl
  have hroom : s.world.ledger.entries.size < s.world.ledger.maxEntries := by
    rw [hledger]
    decide
  apply prepare_step h (preparable_of_firstStamp hstamp hentry hvacant hroom hsize)
  intro key hkey
  rw [hroot] at hkey
  exact oneSectionRoot_keys block key hkey

omit [UnicodeTables] in
/-- Writes committed over the first cut. -/
theorem exists_firstCommit (writes : List (CellOffset × BlockId))
    (hsize : writes.length ≤ MAX_ENTRIES_PER_WRITE_BATCH) : letI := asciiOnly
    ∃ (authority : PublicationAuthority) (token : PreparedMutation) (d : CommitDraft)
      (receipt : MutationReceipt),
      let s := (start (runningWorld authority none)).step (.prepare (originRequest "txn" writes))
      authority.root = oneSectionRoot ⟨0⟩ ∧ s.Commits (.commit 0) token d receipt ∧
      CommitEffect (originRequest "txn" writes) authority.root (s.step (.commit 0)).root receipt ∧
      (s.step (.commit 0)).world.Serves 6 ∧ (s.step (.commit 0)).world.worldId = "world" ∧
      (s.step (.commit 0)).world.worldContextId = "context" ∧
      (s.step (.commit 0)).world.generation = 1 := by
  let _ := asciiOnly
  obtain ⟨authority, hroot, hserves⟩ := exists_runningWorld (oneSectionRoot ⟨0⟩)
    ⟨rfl, rfl, rfl, rfl⟩ none
  let s₀ : WorldSession := start (runningWorld authority none)
  obtain ⟨token, htokens, hsealed, hflight, hdraft, hsame, hserves₁⟩ :=
    first_prepare_step (s := s₀) hserves hroot rfl writes hsize
  let s₁ := s₀.step (.prepare (originRequest "txn" writes))
  have hroot₁ : s₁.world.authority.capture.1.root = authority.root := hsame
  obtain ⟨d, hd⟩ := hdraft s₁.world.authority.capture.1 hroot₁
  obtain ⟨receipt, hcommits, hserves₂⟩ :=
    commit_step (i := 0) hserves₁ (congrArg (·[0]?) htokens) hflight hd
  have heffect := commitEffect_of_committed hsealed (hroot₁ ▸ .refl _) hcommits.committed
  rw [hroot₁] at heffect
  obtain ⟨hworld, hcontext, hgen⟩ := hcommits.sameOwner hserves₁ hserves₂
  obtain ⟨-, hworld₁, hcontext₁, hgen₁⟩ := hserves₁.belongs
  rw [show s₁.world.root = oneSectionRoot ⟨0⟩ from hroot₁.trans hroot] at hworld₁ hcontext₁ hgen₁
  exact ⟨authority, token, d, receipt, hroot, hcommits, heffect, hserves₂,
    hworld.trans hworld₁.symm, hcontext.trans hcontext₁.symm, hgen.trans hgen₁.symm⟩

/-! ## 9. A snapshot overtaken by a commit -/

omit [UnicodeTables] in
/-- Writes committed after a snapshot was written, and the snapshot put back. -/
theorem exists_overtaken (writes : List (CellOffset × BlockId))
    (hsize : writes.length ≤ MAX_ENTRIES_PER_WRITE_BATCH) : letI := asciiOnly
    ∃ (authority : PublicationAuthority) (cut : RuntimeSnapshotCut) (cap : Nat) (worldId : String)
      (generation : UInt64) (config : VoxelConfigSnapshot) (token : PreparedMutation)
      (d : CommitDraft) (receipt : MutationReceipt) (snapshot : SavedSnapshot)
      (candidate : SealedRestoreCandidate),
      let s := (((start (runningWorld authority none)).step
        (.prepare (originRequest "txn" writes))).step (.capture cut)).step (.encode 0 cap)
      (authority.root = oneSectionRoot ⟨0⟩ ∧ s.root = authority.root) ∧
      s.Commits (.commit 0) token d receipt ∧ token.txnId = "txn" ∧
      CommitEffect (originRequest "txn" writes) s.root (s.step (.commit 0)).root receipt ∧
      (s.step (.commit 0)).Restores (.restore 0 worldId generation config) snapshot candidate ∧
      snapshot.capture.root = s.root := by
  let _ := asciiOnly
  obtain ⟨authority, hroot, hserves⟩ := exists_runningWorld (oneSectionRoot ⟨0⟩)
    ⟨rfl, rfl, rfl, rfl⟩ none
  let s₀ : WorldSession := start (runningWorld authority none)
  obtain ⟨token, htokens, hsealed, hflight, hdraft, hsame, hserves₁⟩ :=
    first_prepare_step (s := s₀) hserves hroot rfl writes hsize
  let s₁ := s₀.step (.prepare (originRequest "txn" writes))
  obtain ⟨captured, cap, snapshot, hsave, hsnapshot, hconfig, hsaved⟩ :=
    save_step (s := s₁) hserves₁ (show "cut" ≠ "" by decide)
  let s₃ := (s₁.step (.capture (.fromLive s₁.world "cut"))).step (.encode 0 cap)
  have hsession : s₃ = { s₁ with
      world := afterCapture s₁.world captured
      captures := s₁.captures ++ [captured]
      snapshots := s₁.snapshots ++ [snapshot] } := hsave
  have htoken : s₃.tokens[0]? = some token := by
    rw [hsession]
    exact congrArg (·[0]?) htokens
  have hflight₃ : s₃.world.ledger.lookup token.request = .ok .inFlight := by
    rw [hsession]
    exact hflight
  have hroot₃ : s₃.root = authority.root := by
    rw [hsession]
    exact hsame
  obtain ⟨d, hd⟩ := hdraft s₃.world.authority.capture.1 hroot₃
  have hd₃ : draft token s₃.world.authority.capture.1 s₃.world.ledger = .ok d := by
    rw [hsession] at hd ⊢
    exact hd
  have hserves₃ : s₃.world.Serves 7 := by
    rw [hsession]
    exact hsaved
  obtain ⟨receipt, hcommits, hserves₄⟩ := commit_step (i := 0) hserves₃ htoken hflight₃ hd₃
  have hsnapshot₃ : s₃.snapshots[0]? = some snapshot := by
    rw [hsession]
    rfl
  have hcut : snapshot.capture.root = s₃.root := hsnapshot.trans (by rw [hsession]; rfl)
  have hkeys : ∀ key revision, s₃.root.stamp.sectionRevisionSet[key]? = some revision →
      ∃ id : SectionId, key = id.key := by
    intro key revision hkey
    apply oneSectionRoot_keys ⟨0⟩ key
    rw [← hroot, ← hroot₃, hkey]
    exact Option.some_ne_none revision
  obtain ⟨candidate, hrestores⟩ := commit_restore_step hserves₃ hcommits hserves₄ hsnapshot₃ hcut
    (by rw [hconfig, hsession]; rfl) hkeys
  have heffect : CommitEffect (originRequest "txn" writes) s₃.root (s₃.step (.commit 0)).root
      receipt := by
    refine commitEffect_of_committed hsealed ?_ hcommits.committed
    rw [show s₃.world.authority.capture.1.root = authority.root from hroot₃]
    exact .refl _
  exact ⟨authority, _, cap, _, _, _, token, d, receipt, snapshot, candidate, ⟨hroot, hroot₃⟩,
    hcommits, congrArg MutationRequest.txnId hsealed.request_eq, heffect, hrestores, hcut⟩

end WorldSession

end Progress

end LumioVoxel
