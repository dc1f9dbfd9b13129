import LumioVoxel.PersistedContents
import LumioVoxel.VersionedStores

/-!
# A session is a versioned store

Whatever a world is asked to do, in any order, what it publishes is what a versioned store
becomes by the commits, settlements, unloads and rewinds that went through, in that order.
Tokens, captures, pins, reservations, budgets and lifecycle states decide which operations
go through, and leave no other trace.
-/

namespace LumioVoxel

open DebugText Fallible StepRuns VersionedStores

section Refinement

variable [UnicodeTables]

/-! ## 1. What a root shows -/

def SectionSlot.shelf : SectionSlot → Shelf CellOffset BlockId
  | .ready payload => .resident fun offset => payload.storage.map (·.read offset)
  | .unchanged => .ticket
  | .pending => .pending
  | .unavailable => .unavailable

def DirtyEntry.asMark (entry : DirtyEntry) : Mark := ⟨entry.first.toNat, entry.latest.toNat⟩

/-- The published root as a versioned store. -/
def PublishedStateRoot.store (root : PublishedStateRoot) : Store SectionId CellOffset BlockId where
  clock := root.stamp.worldRevision.toNat
  version := fun id => root.stamp.sectionRevisionSet[id.key]?.map (·.toNat)
  shelf := fun id => (root.directory.entries[id]?.map SectionSlot.shelf).getD .absent
  mark := fun id => root.dirtyFrontier.entries[id]?.map DirtyEntry.asMark

omit [UnicodeTables] in
theorem current_store (root : PublishedStateRoot) (id : SectionId) :
    root.store.current id = (root.stamp.effectiveRevision id.key).toNat := by
  simp only [Store.current, PublishedStateRoot.store, RevisionStamp.effectiveRevision]
  cases root.stamp.sectionRevisionSet[id.key]? with
  | none => rfl
  | some revision => rfl

omit [UnicodeTables] in
theorem read_store (root : PublishedStateRoot) (id : SectionId) (offset : CellOffset) :
    (root.store.shelf id).read offset = root.readCell id offset := by
  simp only [PublishedStateRoot.store, PublishedStateRoot.readCell]
  cases root.directory.entries[id]? with
  | none => rfl
  | some slot =>
    cases slot with
    | ready payload => rfl
    | unchanged => rfl
    | pending => rfl
    | unavailable => rfl

omit [UnicodeTables] in
theorem asMark_recordEntry (prev : Option DirtyEntry) (revision : UInt64) (reason : String) :
    (DirtyFrontier.recordEntry prev revision reason).asMark =
      Mark.record (prev.map DirtyEntry.asMark) revision.toNat := by
  cases prev with
  | none => rfl
  | some prev =>
    simp only [DirtyFrontier.recordEntry, DirtyEntry.asMark, Option.map_some, Mark.record,
      Mark.mk.injEq]
    constructor
    · split
      · rename_i hlt
        exact (Nat.min_eq_left (Nat.le_of_lt (UInt64.lt_iff_toNat_lt.mp hlt))).symm
      · rename_i hge
        exact (Nat.min_eq_right (UInt64.le_iff_toNat_le.mp (UInt64.not_lt.mp hge))).symm
    · split
      · rename_i hlt
        exact (Nat.max_eq_right (Nat.le_of_lt (UInt64.lt_iff_toNat_lt.mp hlt))).symm
      · rename_i hge
        exact (Nat.max_eq_left (UInt64.le_iff_toNat_le.mp (UInt64.not_lt.mp hge))).symm

/-! ## 2. The event of a step -/

def MutationRequest.names (request : MutationRequest) (id : SectionId) : Bool :=
  !(request.entriesFor id.key).isEmpty

omit [UnicodeTables] in
theorem MutationRequest.names_iff {request : MutationRequest} {id : SectionId} :
    request.names id = true ↔ request.Names id := by
  rw [names, Names, Bool.not_eq_true', List.isEmpty_eq_false_iff]

/-- The bound the acknowledgement declares for a section. -/
def DurabilityAckEvidence.bound (ack : DurabilityAckEvidence) (id : SectionId) : Option Nat :=
  (ack.coveredSections.find? fun covered => covered.sectionId = id.key).map
    (·.upToSectionRevision.toNat)

omit [UnicodeTables] in
theorem DurabilityAckEvidence.mem_of_bound {ack : DurabilityAckEvidence} {id : SectionId} {b : Nat}
    (h : ack.bound id = some b) :
    ∃ revision : UInt64, revision.toNat = b ∧ ⟨id.key, revision⟩ ∈ ack.coveredSections := by
  obtain ⟨⟨raw, revision⟩, hfind, rfl⟩ := Option.map_eq_some_iff.mp h
  obtain rfl : raw = id.key := of_decide_eq_true (List.find?_some hfind :)
  exact ⟨revision, rfl, List.mem_of_find?_eq_some hfind⟩

omit [UnicodeTables] in
theorem DurabilityAckEvidence.not_mem_of_bound {ack : DurabilityAckEvidence} {id : SectionId}
    (h : ack.bound id = none) (revision : UInt64) : ⟨id.key, revision⟩ ∉ ack.coveredSections := by
  intro hmem
  have hfind := List.find?_eq_none.mp (Option.map_eq_none_iff.mp h) _ hmem
  exact hfind (decide_eq_true rfl)

namespace WorldSession

variable {s : WorldSession} {roots : PublishedStateRoot → Prop}

/-- What the store sees of a step.  A commit counts when the ledger reports its transaction
as applied for the first time. -/
def event (s : WorldSession) : WorldOp → Option (Event SectionId CellOffset BlockId)
  | .commit i =>
    match s.tokens[i]? with
    | none => none
    | some token =>
      if s.world.ledger.status token.txnId ≠ .applied ∧
          (WriteLease.commit s.world token).2.ledger.status token.txnId = .applied then
        some (.commit token.request.names token.request.lastWrite)
      else none
  | .ack ack =>
    match (applyDurabilityAck s.world ack).1 with
    | .ok _ => some (.settle ack.bound)
    | .error _ => none
  | .unload sectionId hook =>
    match (unloadSection s.world sectionId hook).1 with
    | .ok _ => (SectionId.parse sectionId).toOption.map .unload
    | .error _ => none
  | .restore j expectedWorldId expectedGeneration config =>
    match s.snapshots[j]?, s.candidate j expectedWorldId expectedGeneration config with
    | some snapshot, some candidate =>
      match (LumioVoxel.restore s.world candidate).1 with
      | .ok _ => some (.rewind snapshot.capture.root.store.clock snapshot.capture.root.store.version)
      | .error _ => none
    | _, _ => none
  | _ => none

/-- The step moves the store by its event, and the store lets the event in. -/
structure Simulates (s : WorldSession) (op : WorldOp) : Prop where
  moves : (s.step op).root.store = run Store.apply s.root.store (s.event op).toList
  allows : ∀ event, s.event op = some event → s.root.store.Allows event

theorem Simulates.of_none {op : WorldOp} (hevent : s.event op = none)
    (hroot : (s.step op).root = s.root) : s.Simulates op := by
  refine ⟨?_, fun event h => ?_⟩
  · rw [hevent, hroot]
    rfl
  · cases hevent.symm.trans h

theorem Simulates.of_some {op : WorldOp} {event : Event SectionId CellOffset BlockId}
    (hevent : s.event op = some event) (hstep : (s.step op).root.store = s.root.store.apply event)
    (hallows : s.root.store.Allows event) : s.Simulates op := by
  refine ⟨?_, fun other h => ?_⟩
  · rw [hevent]
    exact hstep
  · obtain rfl := Option.some.inj (hevent.symm.trans h)
    exact hallows

/-! ## 3. Step by step -/

/-- A commit edits the store. -/
theorem store_of_commits (hfree : PublishedStateRoot.CollisionFree roots) (h : Known roots s)
    {op : WorldOp} {token : PreparedMutation} {d : CommitDraft} {receipt : MutationReceipt}
    (hcommits : s.Commits op token d receipt) :
    (s.step op).root.store =
      s.root.store.apply (.commit token.request.names token.request.lastWrite) := by
  have heffect := hcommits.effect hfree h
  have hunnamed : ∀ id, ¬ token.request.Names id → ∀ other, token.request.Names other →
      id.key ≠ other.key := by
    rintro id hno other hother hkey
    exact hno (SectionId.key_injective hkey ▸ hother)
  refine Store.ext heffect.world (funext fun id => ?_) (funext fun id => ?_) (funext fun id => ?_)
  · by_cases hname : token.request.Names id
    · obtain ⟨revision, hrevision, hnext⟩ := heffect.named id hname
      simp only [Store.apply, if_pos (MutationRequest.names_iff.mpr hname), current_store, ← hnext]
      simp only [PublishedStateRoot.store, hrevision, Option.map_some]
    · simp only [Store.apply, if_neg (mt MutationRequest.names_iff.mp hname)]
      simp only [PublishedStateRoot.store, heffect.unnamed id.key (hunnamed id hname)]
  · rcases hcommits.slots h id with ⟨hname, -, payload, hready⟩ | ⟨hname, hsame⟩
    · simp only [Store.apply, if_pos (MutationRequest.names_iff.mpr hname), read_store,
        ← heffect.cells]
      simp only [PublishedStateRoot.store, PublishedStateRoot.readCell, hready]
      rfl
    · simp only [Store.apply, if_neg (mt MutationRequest.names_iff.mp hname)]
      simp only [PublishedStateRoot.store, hsame]
  · by_cases hname : token.request.Names id
    · obtain ⟨revision, hrevision, hnext⟩ := heffect.named id hname
      simp only [Store.apply, if_pos (MutationRequest.names_iff.mpr hname), current_store, ← hnext]
      simp only [PublishedStateRoot.store, heffect.dirtyNamed id hname revision hrevision,
        Option.map_some, asMark_recordEntry]
    · simp only [Store.apply, if_neg (mt MutationRequest.names_iff.mp hname)]
      simp only [PublishedStateRoot.store, heffect.dirtyUnnamed id hname]

/-- What the store sees of a commit that goes through. -/
theorem Commits.event {i : Nat} {token : PreparedMutation} {d : CommitDraft}
    {receipt : MutationReceipt} (hcommits : s.Commits (.commit i) token d receipt) :
    s.event (.commit i) = some (.commit token.request.names token.request.lastWrite) := by
  obtain ⟨i', hop, htoken⟩ := hcommits.named
  obtain rfl := WorldOp.commit.inj hop
  have hledger : (s.step (.commit i)).world.ledger = (WriteLease.commit s.world token).2.ledger := by
    simp only [step, commit, htoken]
  have hnew : s.world.ledger.status token.txnId ≠ .applied := by
    intro hold
    obtain ⟨entry, hentry, hsome⟩ := ReceiptLedger.status_applied_iff.mp hold
    obtain ⟨-, open', hopen, -, hnone⟩ := ReceiptLedger.lookup_inFlight.mp hcommits.inFlight
    obtain rfl := Option.some.inj (hentry.symm.trans hopen)
    rw [hnone] at hsome
    cases hsome
  have hnow := (hcommits.committed.applied_iff token.txnId).mpr (.inr rfl)
  rw [hledger] at hnow
  simp only [WorldSession.event, htoken]
  exact if_pos ⟨hnew, hnow⟩

theorem simulates_commit (hfree : PublishedStateRoot.CollisionFree roots) (h : Known roots s)
    (i : Nat) : s.Simulates (.commit i) := by
  cases htoken : s.tokens[i]? with
  | none =>
    apply Simulates.of_none
    · simp only [event, htoken]
    · simp only [step, commit, htoken, root]
  | some token =>
    have hledger : (s.step (.commit i)).world.ledger = (WriteLease.commit s.world token).2.ledger := by
      simp only [step, commit, htoken]
    cases effect_step s (.commit i) with
    | kept hroot happlied =>
      refine Simulates.of_none ?_ hroot
      have hsame := happlied token.txnId
      rw [hledger] at hsame
      simp only [event, htoken]
      exact if_neg fun hnew => hnew.1 (hsame.mp hnew.2)
    | committed other d receipt hcommits =>
      refine .of_some hcommits.event (store_of_commits hfree h hcommits) fun id hname => ?_
      obtain ⟨payload, hready⟩ :=
        hcommits.committed.draftOf.resident id (MutationRequest.names_iff.mp hname)
      refine ⟨fun offset => payload.storage.map (·.read offset), ?_⟩
      have hslot : s.root.directory.entries[id]? = some (.ready payload) := hready
      simp only [PublishedStateRoot.store, hslot]
      rfl
    | acked _ _ hop _ _ => cases hop
    | unloaded _ _ hop _ _ _ => cases hop
    | restored snapshot candidate hrestores _ =>
      obtain ⟨j, worldId, generation, config, hop, -⟩ := hrestores.named
      cases hop

theorem simulates_ack (s : WorldSession) (ack : DurabilityAckEvidence) : s.Simulates (.ack ack) := by
  rcases ack_outcome s.world ack with ⟨err, herr, hkept⟩ | ⟨receipt, coverage, hok, hacked, -⟩
  · refine .of_none ?_ hkept.root
    simp only [event, herr]
  · obtain ⟨hnamed, hother, hreaches⟩ : (∀ id, (∃ bound, ⟨id.key, bound⟩ ∈ ack.coveredSections) →
        (s.step (.ack ack)).mark id = none) ∧ (∀ id, (∀ bound, ⟨id.key, bound⟩ ∉ ack.coveredSections) →
        (s.step (.ack ack)).mark id = s.mark id) ∧ ∀ id entry bound, s.mark id = some entry →
        ⟨id.key, bound⟩ ∈ ack.coveredSections → entry.latest ≤ bound :=
      ⟨fun id => (mark_ack hok id).1, fun id => (mark_ack hok id).2.1,
        fun id => (mark_ack hok id).2.2⟩
    have hstamp : (s.step (.ack ack)).root.stamp = s.root.stamp := hacked.stamp
    have hdirectory : (s.step (.ack ack)).root.directory = s.root.directory := hacked.directory
    have hevent : s.event (.ack ack) = some (.settle ack.bound) := by
      simp only [event, hok]
    refine .of_some hevent ?_ ?_
    · refine Store.ext ?_ ?_ ?_ (funext fun id => ?_)
      · simp only [PublishedStateRoot.store, hstamp, Store.apply]
      · simp only [PublishedStateRoot.store, hstamp, Store.apply]
      · simp only [PublishedStateRoot.store, hdirectory, Store.apply]
      · simp only [PublishedStateRoot.store, Store.apply]
        cases hbound : ack.bound id with
        | none =>
          exact congrArg (Option.map DirtyEntry.asMark)
            (hother id (DurabilityAckEvidence.not_mem_of_bound hbound))
        | some b =>
          obtain ⟨revision, -, hin⟩ := DurabilityAckEvidence.mem_of_bound hbound
          exact congrArg (Option.map DirtyEntry.asMark) (hnamed id ⟨revision, hin⟩)
    · intro id mark b hmark hbound
      obtain ⟨entry, hentry, rfl⟩ := Option.map_eq_some_iff.mp hmark
      obtain ⟨revision, rfl, hin⟩ := DurabilityAckEvidence.mem_of_bound hbound
      exact UInt64.le_iff_toNat_le.mp (hreaches id entry revision hentry hin)

theorem simulates_unload (s : WorldSession) (sectionId : String) (hook : PinExemptionHook) :
    s.Simulates (.unload sectionId hook) := by
  have hevent : ∀ {id : SectionId} {receipt : UnloadReceipt}, sectionId = id.key →
      (unloadSection s.world sectionId hook).1 = .ok receipt →
      s.event (.unload sectionId hook) = some (.unload id) := by
    rintro id receipt rfl hok
    simp only [event, hok, SectionId.parse_eq_ok.mpr rfl]
    rfl
  rcases unload_outcome s.world sectionId hook with ⟨hkept, hclean⟩ |
    ⟨receipt, id, hkey, hok, hunloaded, -, -⟩
  · have hroot : (s.step (.unload sectionId hook)).root = s.root := hkept.root
    cases hresult : (unloadSection s.world sectionId hook).1 with
    | error err =>
      refine .of_none ?_ hroot
      simp only [event, hresult]
    | ok receipt =>
      -- an unloaded section is unloaded again
      obtain ⟨id, hkey, hunmarked, hticket⟩ := hclean receipt hresult
      have hmark : s.root.store.mark id = none := congrArg (Option.map DirtyEntry.asMark) hunmarked
      have hshelf : s.root.store.shelf id = .ticket :=
        congrArg (fun slot => (slot.map SectionSlot.shelf).getD .absent) hticket
      refine .of_some (hevent hkey hresult) ?_ ⟨hmark, .inr hshelf⟩
      rw [hroot]
      refine Store.ext rfl rfl (funext fun other => ?_) rfl
      simp only [Store.apply]
      split
      · rename_i hother
        rw [hother, hshelf]
      · rfl
  · have hstamp : (s.step (.unload sectionId hook)).root.stamp = s.root.stamp := hunloaded.stamp
    have hfrontier : (s.step (.unload sectionId hook)).root.dirtyFrontier = s.root.dirtyFrontier :=
      hunloaded.dirtyFrontier
    obtain ⟨payload, hready⟩ := hunloaded.resident
    have hmark : s.root.store.mark id = none :=
      congrArg (Option.map DirtyEntry.asMark) hunloaded.clean
    have hshelf : (s.root.store.shelf id).IsResident :=
      ⟨_, congrArg (fun slot => (slot.map SectionSlot.shelf).getD .absent) hready⟩
    refine .of_some (hevent hkey hok) ?_ ⟨hmark, .inl hshelf⟩
    refine Store.ext ?_ ?_ (funext fun other => ?_) ?_
    · simp only [PublishedStateRoot.store, hstamp, Store.apply]
    · simp only [PublishedStateRoot.store, hstamp, Store.apply]
    · have hslot : (s.step (.unload sectionId hook)).root.directory.entries[other]? =
          if other = id then some .unchanged else s.root.directory.entries[other]? := by
        split
        · rename_i hother
          rw [hother]
          exact hunloaded.ticket
        · rename_i hother
          exact hunloaded.others other hother
      simp only [PublishedStateRoot.store, Store.apply, hslot]
      split
      · rfl
      · rfl
    · simp only [PublishedStateRoot.store, hfrontier, Store.apply]

omit [UnicodeTables] in
/-- What a restore publishes is the captured cut with a ticket for each listed section. -/
theorem CutRestored.store {cut new : PublishedStateRoot} (h : CutRestored cut new)
    (old : Store SectionId CellOffset BlockId) :
    new.store = old.apply (.rewind cut.store.clock cut.store.version) := by
  refine Store.ext ?_ (funext fun id => ?_) (funext fun id => ?_) (funext fun id => ?_)
  · simp only [PublishedStateRoot.store, h.world, Store.apply]
  · simp only [PublishedStateRoot.store, h.revisions, Store.apply]
  · have hrewound : (old.apply (.rewind cut.store.clock cut.store.version)).shelf id =
        if (cut.store.version id).isSome then .ticket else .absent := rfl
    rw [hrewound]
    cases hlisted : cut.stamp.sectionRevisionSet[id.key]? with
    | none =>
      have hversion : cut.store.version id = none := congrArg (Option.map UInt64.toNat) hlisted
      rw [hversion]
      simp only [PublishedStateRoot.store, h.slots, hlisted]
      rfl
    | some revision =>
      have hversion : cut.store.version id = some revision.toNat :=
        congrArg (Option.map UInt64.toNat) hlisted
      rw [hversion]
      simp only [PublishedStateRoot.store, h.slots, hlisted]
      rfl
  · simp only [PublishedStateRoot.store, h.clean, BTreeMap.getElem?_empty, Store.apply]
    rfl

theorem simulates_restore (s : WorldSession) (j : Nat) (expectedWorldId : String)
    (expectedGeneration : UInt64) (config : VoxelConfigSnapshot) :
    s.Simulates (.restore j expectedWorldId expectedGeneration config) := by
  cases hcandidate : s.candidate j expectedWorldId expectedGeneration config with
  | none =>
    apply Simulates.of_none
    · simp only [event, hcandidate]
      cases s.snapshots[j]? with
      | none => rfl
      | some snapshot => rfl
    · simp only [step, restore, hcandidate, root]
  | some candidate =>
    obtain ⟨snapshot, hsnapshot, hmade⟩ := Option.bind_eq_some_iff.mp hcandidate
    have hstep : (s.step (.restore j expectedWorldId expectedGeneration config)).root =
        (LumioVoxel.restore s.world candidate).2.root := by
      simp only [step, restore, hcandidate, root]
    rcases restore_outcome s.world candidate with ⟨err, herr, -, hkept⟩ |
      ⟨receipt, hok, haccepted, -, -⟩
    · refine .of_none ?_ (hstep.trans hkept.root)
      simp only [event, hsnapshot, hcandidate, herr]
    · have hrestores : s.Restores (.restore j expectedWorldId expectedGeneration config) snapshot
          candidate := ⟨⟨j, _, _, _, rfl, hsnapshot, toOption_eq_some.mp hmade⟩, haccepted⟩
      refine .of_some ?_ (hrestores.cut.store s.root.store) trivial
      simp only [event, hsnapshot, hcandidate, hok]

/-- The operations that can publish a root. -/
def MayPublish : WorldOp → Prop
  | .commit _ => True
  | .ack _ => True
  | .unload _ _ => True
  | .restore _ _ _ _ => True
  | _ => False

/-- The others publish nothing, whatever becomes of them. -/
theorem simulates_quiet {op : WorldOp} (hquiet : ¬ MayPublish op) (hevent : s.event op = none) :
    s.Simulates op := by
  refine .of_none hevent ?_
  cases effect_step s op with
  | kept hroot _ => exact hroot
  | committed token d receipt hcommits =>
    obtain ⟨i, rfl, -⟩ := hcommits.named
    exact absurd trivial hquiet
  | acked ack _ hop _ _ =>
    subst hop
    exact absurd trivial hquiet
  | unloaded hook id hop _ _ _ =>
    subst hop
    exact absurd trivial hquiet
  | restored snapshot candidate hrestores _ =>
    obtain ⟨j, worldId, generation, config, rfl, -⟩ := hrestores.named
    exact absurd trivial hquiet

/-- **One step of the store.** -/
theorem simulates_step (hfree : PublishedStateRoot.CollisionFree roots) (h : Known roots s)
    (op : WorldOp) : s.Simulates op := by
  cases op with
  | commit i => exact simulates_commit hfree h i
  | ack evidence => exact simulates_ack s evidence
  | unload sectionId hook => exact simulates_unload s sectionId hook
  | restore j expectedWorldId expectedGeneration config => exact simulates_restore s _ _ _ _
  | _ => exact simulates_quiet id rfl

/-! ## 4. Whole runs -/

/-- The events of a run, in order. -/
def events (s : WorldSession) (ops : List WorldOp) : List (Event SectionId CellOffset BlockId) :=
  trace step event s ops

/-- The run does to the root what its events do to the store, and the store lets each of
them in. -/
structure Refines (s : WorldSession) (ops : List WorldOp) : Prop where
  store : (run step s ops).root.store = run Store.apply s.root.store (s.events ops)
  allows : Along Store.apply Store.Allows s.root.store (s.events ops)

theorem refines_of_known (hfree : PublishedStateRoot.CollisionFree roots) (h : Known roots s)
    {ops : List WorldOp} (hroots : ∀ t ∈ visited step s ops, roots t.root) : s.Refines ops := by
  have hkept : ∀ (t : WorldSession) op, Known roots t → roots (t.step op).root →
      Known roots (t.step op) := fun t op ht hroot => known_step ht hroot
  have halong : Along step (fun t op => roots (t.step op).root) s ops := along_of_visited hroots
  refine ⟨?_, ?_⟩
  · exact run_trace_along (fun t : WorldSession => t.root.store) hkept
      (fun t op ht _ => (simulates_step hfree ht op).moves) h halong
  · exact along_trace_along (fun t : WorldSession => t.root.store) hkept
      (fun t op ht _ => (simulates_step hfree ht op).moves)
      (fun t op event ht _ => (simulates_step hfree ht op).allows event) h halong

/-- **Sessions refine versioned stores.** -/
theorem session_refines_store (roots : PublishedStateRoot → Prop)
    (hfree : PublishedStateRoot.CollisionFree roots) (world : WorldInstance) (ops : List WorldOp)
    (hroots : ∀ s ∈ visited step (.start world) ops, roots s.root) :
    (start world).Refines ops :=
  refines_of_known hfree (known_start (hroots _ (start_mem_visited _ _))) hroots

/-- What the store sees of a restore that goes through. -/
theorem Restores.event {op : WorldOp} {snapshot : SavedSnapshot}
    {candidate : SealedRestoreCandidate} (h : s.Restores op snapshot candidate) :
    s.event op =
      some (.rewind snapshot.capture.root.store.clock snapshot.capture.root.store.version) := by
  obtain ⟨j, worldId, generation, config, rfl, hsnapshot, hmade⟩ := h.named
  have hcandidate : s.candidate j worldId generation config = some candidate := by
    rw [WorldSession.candidate, hsnapshot]
    exact toOption_eq_some.mpr hmade
  rcases restore_outcome s.world candidate with ⟨err, -, hno, -⟩ | ⟨receipt, hok, -⟩
  · exact absurd h.accepted hno
  · simp only [WorldSession.event, hsnapshot, hcandidate, hok]

/-- The two commits of a section's life, as the store sees them. -/
theorem Life.events_written {cut : RuntimeSnapshotCut} {cap : Nat} (h : s.Life cut cap) :
    s.events (written cut cap) =
      [.commit (fillRequest "first" originSection ⟨1⟩ 0).names
          (fillRequest "first" originSection ⟨1⟩ 0).lastWrite,
        .commit (fillRequest "second" originSection ⟨0⟩ 1).names
          (fillRequest "second" originSection ⟨0⟩ 1).lastWrite] := by
  obtain ⟨token, d, receipt, hcommits, hrequest⟩ := h.fills
  obtain ⟨token', d', receipt', hcommits', hrequest'⟩ := h.refills
  have hevents : s.events (written cut cap) =
      ((s.step (.prepare (fillRequest "first" originSection ⟨1⟩ 0))).event (.commit 0)).toList ++
        ((((run step s (firstFill ++ saving cut cap)).step
          (.prepare (fillRequest "second" originSection ⟨0⟩ 1))).event (.commit 0)).toList ++ []) :=
    rfl
  rw [hevents, hcommits.event, hcommits'.event, hrequest, hrequest']
  rfl

theorem events_append {first second : List WorldOp} :
    s.events (first ++ second) = s.events first ++ (run step s first).events second := by
  induction first generalizing s with
  | nil => rfl
  | cons op rest ih =>
    show (s.event op).toList ++ (s.step op).events (rest ++ second) = _
    rw [ih, ← List.append_assoc]
    rfl

/-- What the store sees of a section's life. -/
theorem Life.events_life {cut : RuntimeSnapshotCut} {cap : Nat} (h : s.Life cut cap) :
    s.events (lifeOps cut cap) = s.events (written cut cap) ++
      [.settle fullAck.bound, .unload originSection,
        .rewind filledRoot.store.clock filledRoot.store.version] := by
  obtain ⟨err, hlate⟩ := h.late
  obtain ⟨receipt, hsettles⟩ := h.settles
  obtain ⟨dropped, hdrops⟩ := h.drops
  obtain ⟨snapshot, candidate, hrestores, hsnapshot⟩ := h.restores
  have hevents : (run step s (written cut cap)).events (settling ++
      [.release 0, .restore 0 "world" 1 approvedConfig]) =
      ((run step s (written cut cap)).event (.ack lateAck)).toList ++
        (((run step s (written cut cap ++ [.ack lateAck])).event (.ack fullAck)).toList ++
        (((run step s (written cut cap ++ [.ack lateAck, .ack fullAck])).event
          (.unload originSection.key fun _ => .ok ())).toList ++
        (((run step s (written cut cap ++ (settling ++ [.release 0]))).event
          (.restore 0 "world" 1 approvedConfig)).toList ++ []))) := by
    simp only [run_append]
    rfl
  have hlateEvent : (run step s (written cut cap)).event (.ack lateAck) = none := by
    simp only [event, hlate]
  have hsettleEvent : (run step s (written cut cap ++ [.ack lateAck])).event (.ack fullAck) =
      some (.settle fullAck.bound) := by
    simp only [event, hsettles]
  have hdropEvent : (run step s (written cut cap ++ [.ack lateAck, .ack fullAck])).event
      (.unload originSection.key fun _ => .ok ()) = some (.unload originSection) := by
    simp only [event, hdrops, SectionId.parse_eq_ok.mpr rfl]
    rfl
  have hclock : snapshot.capture.root.store.clock = filledRoot.store.clock :=
    congrArg (·.worldRevision.toNat) hsnapshot.stamp
  have hversion : snapshot.capture.root.store.version = filledRoot.store.version :=
    congrArg (fun (stamp : RevisionStamp) (id : SectionId) =>
      stamp.sectionRevisionSet[id.key]?.map (·.toNat)) hsnapshot.stamp
  rw [lifeOps, events_append, hevents, hlateEvent, hsettleEvent, hdropEvent, hrestores.event, hclock,
    hversion]
  rfl

omit [UnicodeTables] in
/-- A section's life is two commits, a settlement, an unload and a rewind of the store. -/
theorem session_refines_store_life : letI := asciiOnly
    ∃ authority cut cap, let s := start (runningWorld authority none)
      s.Refines (lifeOps cut cap) ∧
      s.events (lifeOps cut cap) =
        [.commit (fillRequest "first" originSection ⟨1⟩ 0).names
            (fillRequest "first" originSection ⟨1⟩ 0).lastWrite,
          .commit (fillRequest "second" originSection ⟨0⟩ 1).names
            (fillRequest "second" originSection ⟨0⟩ 1).lastWrite,
          .settle fullAck.bound, .unload originSection,
          .rewind filledRoot.store.clock filledRoot.store.version] ∧
      (run step s (written cut cap)).root.store.clock = 2 ∧
      (run step s (written cut cap)).root.store.version originSection = some 2 ∧
      (run step s (written cut cap)).root.store.mark originSection = some ⟨1, 2⟩ ∧
      ∀ offset, (s.root.store.shelf originSection).read offset = some ⟨0⟩ ∧
        ((run step s firstFill).root.store.shelf originSection).read offset = some ⟨1⟩ ∧
        ((run step s (written cut cap)).root.store.shelf originSection).read offset = some ⟨0⟩ := by
  let _ := asciiOnly
  obtain ⟨authority, cut, cap, -, -, hlife⟩ := exists_lived
  have hrefines := session_refines_store OfLife collisionFree_ofLife (runningWorld authority none)
    (lifeOps cut cap) (hlife.roots [] (List.append_nil _).symm)
  refine ⟨authority, cut, cap, hrefines, ?_, ?_, ?_, ?_, fun offset => ?_⟩
  · rw [hlife.events_life, hlife.events_written]
    rfl
  · exact congrArg (·.worldRevision.toNat) hlife.refilled.alike.stamp
  · exact congrArg (Option.map UInt64.toNat) hlife.revision_refilled
  · exact congrArg (Option.map DirtyEntry.asMark) hlife.mark_refilled
  · simp only [read_store]
    exact ⟨(hlife.cells offset).1, (hlife.cells offset).2.1, (hlife.cells offset).2.2.1⟩

/-- What the run did to a section that is resident in the end, told by its events. -/
structure History (s : WorldSession) (ops : List WorldOp) (id : SectionId) : Prop where
  world : (run step s ops).root.stamp.worldRevision.toNat =
    s.root.stamp.worldRevision.toNat + commits (s.events ops)
  revision : (run step s ops).root.stamp.sectionRevisionSet[id.key]?.map UInt64.toNat =
    if commitsTo id (s.events ops) = 0 then
      s.root.stamp.sectionRevisionSet[id.key]?.map UInt64.toNat
    else some ((s.root.stamp.sectionRevisionSet[id.key]?.map UInt64.toNat).getD
      (s.root.stamp.worldRevision.toNat + commitsBefore id (s.events ops)) +
        commitsTo id (s.events ops))
  cells : ∀ offset, (run step s ops).root.readCell id offset =
    (lastWrite id offset (s.events ops)).or (s.root.readCell id offset)

/-- **What a resident section has seen.** The world revision counts the commits of the run,
the section's revision those that name the section, from where it counted when the first of
them came, and each cell holds the last block written into it. -/
theorem history_of_resident (roots : PublishedStateRoot → Prop)
    (hfree : PublishedStateRoot.CollisionFree roots) (world : WorldInstance) (ops : List WorldOp)
    (hroots : ∀ s ∈ visited step (.start world) ops, roots s.root) (id : SectionId)
    (payload : SectionPayload) (hready : (run step (.start world) ops).Holds id payload) :
    (start world).History ops id := by
  have hknown : Known roots (start world) := known_start (hroots _ (start_mem_visited _ _))
  have hrefines : (start world).Refines ops := refines_of_known hfree hknown hroots
  have hstore := hrefines.store
  have hresident : ((run Store.apply (start world).root.store
      ((start world).events ops)).shelf id).IsResident := by
    rw [← hstore]
    exact ⟨_, congrArg (fun slot => (slot.map SectionSlot.shelf).getD .absent) hready⟩
  obtain ⟨-, hrewind, hcells⟩ := VersionedStores.resident_run hrefines.allows hresident
  refine ⟨?_, ?_, fun offset => ?_⟩
  · exact (congrArg Store.clock hstore).trans (clock_run hrewind)
  · exact (congrFun (congrArg Store.version hstore) id).trans (version_run hrewind id)
  · have hcell := hcells offset
    rw [← hstore, read_store, read_store] at hcell
    exact hcell

omit [UnicodeTables] in
/-- The history of a section that two commits have filled. -/
theorem history_of_resident_life : letI := asciiOnly
    ∃ authority cut cap, let s := start (runningWorld authority none)
      let filled := run step s (written cut cap)
      let events := s.events (written cut cap)
      s.History (written cut cap) originSection ∧
      commits events = 2 ∧ commitsTo originSection events = 2 ∧
      filled.root.stamp.worldRevision = 2 ∧
      filled.root.stamp.sectionRevisionSet[originSection.key]? = some 2 ∧
      ∀ offset, lastWrite originSection offset events = some ⟨0⟩ ∧
        (run step s firstFill).root.readCell originSection offset = some ⟨1⟩ ∧
        filled.root.readCell originSection offset = some ⟨0⟩ := by
  let _ := asciiOnly
  obtain ⟨authority, cut, cap, -, -, hlife⟩ := exists_lived
  let s : WorldSession := start (runningWorld authority none)
  have hresident : ∃ payload, (run step s (written cut cap)).Holds originSection payload := by
    obtain ⟨payload, -, hready, -⟩ := hlife.refilled.alike.resident (slot_filled ..) rfl
    exact ⟨payload, hready⟩
  obtain ⟨payload, hholds⟩ := hresident
  have hhistory := history_of_resident OfLife collisionFree_ofLife (runningWorld authority none)
    (written cut cap) (hlife.roots _ rfl) originSection payload hholds
  have hnames : ∀ {txnId : String} {block : BlockId} {revision : UInt64},
      (fillRequest txnId originSection block revision).names originSection = true :=
    MutationRequest.names_iff.mpr ((fillRequest_fills.names originSection).mpr rfl)
  refine ⟨authority, cut, cap, hhistory, ?_, ?_, congrArg (·.worldRevision)
    hlife.refilled.alike.stamp, hlife.revision_refilled, fun offset => ⟨?_,
    (hlife.cells offset).2.1, (hlife.cells offset).2.2.1⟩⟩
  · rw [hlife.events_written]
    rfl
  · rw [hlife.events_written]
    simp only [commitsTo, List.countP_cons, List.countP_nil, Event.commitsTo, hnames]
    rfl
  · rw [hlife.events_written]
    simp only [lastWrite, Event.write, hnames, if_true, fillRequest_fills.writes, Option.none_or,
      Option.some_or]

end WorldSession

end Refinement

end LumioVoxel
