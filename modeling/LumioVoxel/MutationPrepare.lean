import LumioVoxel.ReceiptLedger
import Mathlib.Data.List.Sort

/-!
# Preparing a mutation

Prepare checks a request against a captured view, reserves its transaction and
builds the replacement slots and the dirty frontier privately.  Nothing is
published.  A transaction that already has a receipt yields a token that only
replays it.
-/

namespace LumioVoxel

open DebugText Fallible

/-! ## 1. Preconditions -/

namespace MutationPreconditions

/-- The first entry's revision, then every entry's, against the section's. -/
def checkRevisions (stamp : RevisionStamp) (item : String × List MutationEntry) :
    Except MutationError Unit := do
  let first ← someOr item.2.head? .unstructuredMutationEntry
  let current := stamp.effectiveRevision item.1
  require (first.expectedSectionRevision = current ∧
    ∀ entry ∈ item.2, entry.expectedSectionRevision = current) .staleSectionRevision

/-- Only a resident section can be written.  Keys that are not section keys are
left to the private staging. -/
def checkReady (directory : SectionDirectoryRoot) (sectionId : String) :
    Except MutationError Unit :=
  match directory.lookup sectionId with
  | .ok (some slot) =>
    match slot.presence with
    | .ready => .ok ()
    | .unchanged | .pending | .unavailable => .error .sectionUnavailable
  | .ok none => .error .sectionUnavailable
  | .error (.key _) => .ok ()
  | .error err => .error (.fromSection err)

def check (request : MutationRequest) (base : PublishedReadView) (ledger : ReceiptLedger) :
    Except MutationError Unit := do
  require (request.txnId ≠ "" ∧ request.worldId ≠ "") .invalidHandle
  require (request.worldId = base.root.stamp.worldId) .sessionMismatch
  require (request.generation = base.root.stamp.generation) .staleEpoch
  match ← (ledger.lookup request).mapError MutationError.fromLedger with
  | .duplicate _ => return ()
  | .inFlight => throw .invalidHandle
  | .vacant =>
    let plan ← MutationPlanner.build request
    foldSteps (fun _ item => checkRevisions base.root.stamp item) () plan.sectionEdits.toList
    foldSteps (fun _ sectionId => checkReady base.root.directory sectionId) () plan.sectionIds

theorem checkReady_key {directory : SectionDirectoryRoot} {id : SectionId} {u : Unit} :
    checkReady directory id.key = .ok u ↔
      ∃ payload, directory.entries[id]? = some (.ready payload) := by
  unfold checkReady
  rw [SectionDirectoryRoot.lookup_key]
  cases hslot : directory.entries[id]? with
  | none => simp
  | some slot => cases slot <;> simp [SectionSlot.presence]

end MutationPreconditions

/-! ## 2. Last write wins -/

/-- Each cell's last write with its position in the batch. -/
def collapse (entries : List MutationEntry) : BTreeMap CellOffset (Nat × BlockId) :=
  entries.zipIdx.foldl (fun m item => m.insert item.1.cellOffset (item.2, item.1.blockId)) ∅

/-- One write for each cell, in the order of the last writes. -/
def finalWrites (entries : List MutationEntry) : List (CellOffset × Nat × BlockId) :=
  (collapse entries).toList.insertionSort fun a b => a.2.1 ≤ b.2.1

def writeAll (storage : SectionStorage) (writes : List (CellOffset × Nat × BlockId)) :
    SectionStorage :=
  writes.foldl (fun s w => (s.write w.1 w.2.2).1) storage

/-- A section's storage after one request's writes to it. -/
def editedStorage (storage : SectionStorage) (entries : List MutationEntry) : SectionStorage :=
  writeAll storage (finalWrites entries)

/-- The block of the last entry that targets a cell. -/
def lastBlock (entries : List MutationEntry) (offset : CellOffset) : Option BlockId :=
  (entries.filter fun entry => entry.cellOffset = offset).getLast?.map (·.blockId)

section LastWrite

private theorem collapse_concat (entries : List MutationEntry) (entry : MutationEntry) :
    collapse (entries ++ [entry]) =
      (collapse entries).insert entry.cellOffset (entries.length, entry.blockId) := by
  simp [collapse, List.zipIdx_append, List.foldl_append]

theorem getElem?_collapse (entries : List MutationEntry) (offset : CellOffset) :
    (collapse entries)[offset]?.map (·.2) = lastBlock entries offset := by
  induction entries using List.reverseRecOn with
  | nil => simp [collapse, lastBlock]
  | append_singleton entries entry ih =>
    rw [collapse_concat, BTreeMap.getElem?_insert, lastBlock, List.filter_append]
    by_cases ho : entry.cellOffset = offset
    · rw [if_pos ho, List.filter_cons_of_pos (by simpa using ho)]
      simp
    · rw [if_neg ho, List.filter_cons_of_neg (by simpa using ho), List.filter_nil,
        List.append_nil, ih, lastBlock]

private theorem finalWrites_perm (entries : List MutationEntry) :
    List.Perm (finalWrites entries) (collapse entries).toList :=
  List.perm_insertionSort _ _

private theorem read_writeAll_other {writes : List (CellOffset × Nat × BlockId)}
    {offset : CellOffset} (h : ∀ w ∈ writes, w.1 ≠ offset) (storage : SectionStorage) :
    (writeAll storage writes).read offset = storage.read offset := by
  induction writes generalizing storage with
  | nil => rfl
  | cons w rest ih =>
    have hrest := ih (fun w' hw' => h w' (List.mem_cons_of_mem _ hw')) (storage.write w.1 w.2.2).1
    rw [SectionStorage.read_write, if_neg fun heq => h w List.mem_cons_self heq.symm] at hrest
    exact hrest

private theorem read_writeAll_named {writes : List (CellOffset × Nat × BlockId)}
    {w : CellOffset × Nat × BlockId}
    (hpair : writes.Pairwise fun a b => ¬ (a.1 = w.1 ∧ b.1 = w.1)) (hw : w ∈ writes)
    (storage : SectionStorage) : (writeAll storage writes).read w.1 = w.2.2 := by
  induction writes generalizing storage with
  | nil => exact absurd hw List.not_mem_nil
  | cons first rest ih =>
    obtain ⟨hhead, htail⟩ := List.pairwise_cons.mp hpair
    rcases List.mem_cons.mp hw with rfl | hw
    · have hrest := read_writeAll_other (fun w' hw' heq => hhead w' hw' ⟨rfl, heq⟩)
        (storage.write w.1 w.2.2).1
      rw [SectionStorage.read_write, if_pos rfl] at hrest
      exact hrest
    · exact ih htail hw (storage.write first.1 first.2.2).1

/-- **Last write wins.** After a batch every cell reads the block of the last
entry that targets it, and otherwise what it read before. -/
theorem read_editedStorage (storage : SectionStorage) (entries : List MutationEntry)
    (offset : CellOffset) :
    (editedStorage storage entries).read offset =
      (lastBlock entries offset).getD (storage.read offset) := by
  have hperm := finalWrites_perm entries
  rw [← getElem?_collapse]
  cases hlast : (collapse entries)[offset]? with
  | none =>
    refine read_writeAll_other (fun w hw heq => ?_) storage
    rw [← heq, BTreeMap.mem_toList.mp (hperm.mem_iff.mp hw)] at hlast
    cases hlast
  | some last =>
    have hmem : (offset, last) ∈ finalWrites entries :=
      hperm.mem_iff.mpr (BTreeMap.mem_toList.mpr hlast)
    have hpair := (BTreeMap.pairwise_names (collapse entries) offset).perm hperm.symm
      (fun h hh => h hh.symm)
    exact read_writeAll_named hpair hmem storage

end LastWrite

/-! ## 3. The prepared token -/

/-- Prepared but unpublished.  Only `prepare` builds one; commit consumes it. -/
structure PreparedMutation where
  fingerprint : RequestFingerprint
  baseIdentity : Digest
  generation : UInt64
  configHash : String
  reservation : MutationReservation
  request : MutationRequest
  replacement : SectionReplacement
  dirty : DirtyFrontier
  targetWorldRevision : UInt64
  replayReceipt : Option Bytes
  replayEvidence : Option ReceiptEvidence
  deriving DecidableEq

def PreparedMutation.txnId (prepared : PreparedMutation) : String := prepared.request.txnId

def baseStorage (base : PublishedReadView) (sectionId : String) :
    Except MutationError SectionStorage := do
  let slot ← (base.root.directory.lookup sectionId).mapError MutationError.fromSection
  let payload ← someOr (slot.bind SectionSlot.payload) .sectionUnavailable
  someOr payload.storage .unstructuredMutationEntry

/-- The replacement slot of one section and the cells it occupies. -/
def payloadForEntries (sectionId : String) (base : PublishedReadView)
    (entries : List MutationEntry) : Except MutationError (SectionSlot × List String) := do
  let _ ← (SectionId.parse sectionId).mapError fun _ => MutationError.unstructuredMutationEntry
  let storage ← baseStorage base sectionId
  let payload ← (SectionPayload.fromStorage (editedStorage storage entries)).mapError
    MutationError.fromSection
  return (.ready payload, (finalWrites entries).map fun w => toString w.1.raw.toNat)

def stageSection (base : PublishedReadView) (builder : SectionDeltaBuilder)
    (item : String × List MutationEntry) : Except MutationError SectionDeltaBuilder := do
  let _ ← someOr (checkedSucc (base.root.stamp.effectiveRevision item.1)) .invalidHandle
  let (slot, cells) ← payloadForEntries item.1 base item.2
  (builder.stage ⟨item.1, cells, slot⟩).mapError MutationError.fromSection

def recordDirty (stamp : RevisionStamp) (dirty : DirtyFrontier) (sectionId : String) :
    Except MutationError DirtyFrontier := do
  let next ← someOr (checkedSucc (stamp.effectiveRevision sectionId)) .invalidHandle
  (dirty.record sectionId next "mutation").mapError MutationError.fromDirty

def sealPrivate (request : MutationRequest) (base : PublishedReadView) (ledger : ReceiptLedger)
    (plan : MutationPlan) (baseIdentity : Digest) (reservation : MutationReservation) :
    Except MutationError PreparedMutation := do
  let builder ← foldSteps (stageSection base) (.new base.root.directory) plan.sectionEdits.toList
  let replacement ← builder.freeze.mapError MutationError.fromSection
  let dirty ← foldSteps (recordDirty base.root.stamp) base.root.dirtyFrontier plan.sectionIds
  let target ← someOr (checkedSucc base.root.stamp.worldRevision) .invalidHandle
  let fingerprint ← (canonicalFingerprint request).mapError fun _ => MutationError.invalidHandle
  return {
    fingerprint := fingerprint
    baseIdentity := baseIdentity
    generation := request.generation
    configHash := ledger.configHash
    reservation := reservation
    request := request
    replacement := replacement
    dirty := dirty
    targetWorldRevision := target
    replayReceipt := none
    replayEvidence := none }

/-- The token of a completed transaction carries its stored receipt. -/
def bindReplay (request : MutationRequest) (base : PublishedReadView) (ledger : ReceiptLedger)
    (baseIdentity : Digest) (reservation : MutationReservation) (receipt : Bytes) :
    Except MutationError PreparedMutation := do
  let evidence ← (ledger.evidence request).mapError MutationError.fromLedger
  let replacement ← (SectionDeltaBuilder.new base.root.directory).freeze.mapError
    MutationError.fromSection
  return {
    fingerprint := reservation.fingerprint
    baseIdentity := baseIdentity
    generation := request.generation
    configHash := ledger.configHash
    reservation := reservation
    request := request
    replacement := replacement
    dirty := base.root.dirtyFrontier
    targetWorldRevision := base.root.stamp.worldRevision
    replayReceipt := some receipt
    replayEvidence := evidence }

/-- Check, reserve, build.  A failed build gives the reservation back. -/
def prepare [UnicodeTables] (request : MutationRequest) (base : PublishedReadView)
    (ledger : ReceiptLedger) : Except MutationError PreparedMutation × ReceiptLedger :=
  let baseIdentity := base.root.identity
  match MutationPreconditions.check request base ledger with
  | .error err => (.error err, ledger)
  | .ok _ =>
    match ledger.lookup request with
    | .error err => (.error (.fromLedger err), ledger)
    | .ok (.duplicate receipt) =>
      match ledger.reserve request with
      | .error err => (.error (.fromLedger err), ledger)
      | .ok (reservation, ledger) =>
        (bindReplay request base ledger baseIdentity reservation receipt, ledger)
    | .ok _ =>
      match MutationPlanner.build request with
      | .error err => (.error err, ledger)
      | .ok plan =>
        match ledger.reserve request with
        | .error err => (.error (.fromLedger err), ledger)
        | .ok (reservation, ledger) =>
          match sealPrivate request base ledger plan baseIdentity reservation with
          | .ok token => (.ok token, ledger)
          | .error err =>
            match ledger.abort request with
            | .ok ledger => (.error err, ledger)
            | .error _ => (.error err, ledger)

/-! ## 4. What a fresh token contains -/

/-- The request writes to the section. -/
def MutationRequest.Names (request : MutationRequest) (id : SectionId) : Prop :=
  request.entriesFor id.key ≠ []

/-- The section was resident with a storage, and its replacement is that storage
after the request's writes, with its page. -/
def EditedSlot (directory : SectionDirectoryRoot) (replacement : SectionReplacement)
    (entries : List MutationEntry) (id : SectionId) : Prop :=
  ∃ old storage payload, directory.entries[id]? = some (.ready old) ∧ old.storage = some storage ∧
    replacement.entries[id]? = some (.ready payload) ∧
    payload = .ofStorage (editedStorage storage entries)

/-- The frontier after one more write to each named section, at its next revision. -/
structure Recorded (stamp : RevisionStamp) (request : MutationRequest)
    (old new : DirtyFrontier) : Prop where
  worldId : new.worldId = old.worldId
  generation : new.generation = old.generation
  named : ∀ id, request.Names id → ∃ next, checkedSucc (stamp.effectiveRevision id.key) = some next ∧
    new.entries[id]? = some (DirtyFrontier.recordEntry old.entries[id]? next "mutation")
  other : ∀ id, ¬ request.Names id → new.entries[id]? = old.entries[id]?

/-- A token that will publish: what it was built from and what it holds. -/
structure SealedFrom [UnicodeTables] (request : MutationRequest) (base : PublishedReadView)
    (configHash : String) (token : PreparedMutation) : Prop where
  request_eq : token.request = request
  planned : ∃ plan, PlanOf request plan
  baseIdentity_eq : token.baseIdentity = base.root.identity
  generation_eq : token.generation = request.generation
  configHash_eq : token.configHash = configHash
  reservation_ok : MutationReservation.fromRequest request = .ok token.reservation
  fingerprint_ok : canonicalFingerprint request = .ok token.fingerprint
  fresh : token.replayReceipt = none
  freshEvidence : token.replayEvidence = none
  edited : ∀ id, request.Names id →
    EditedSlot base.root.directory token.replacement (request.entriesFor id.key) id
  untouched : ∀ id, ¬ request.Names id → token.replacement.entries[id]? = none
  recorded : Recorded base.root.stamp request base.root.dirtyFrontier token.dirty
  target : checkedSucc base.root.stamp.worldRevision = some token.targetWorldRevision

section Sealing

variable {request : MutationRequest} {base : PublishedReadView} {plan : MutationPlan}

namespace PlanOf

theorem names_iff (h : PlanOf request plan) (id : SectionId) :
    request.Names id ↔ (id.key, request.entriesFor id.key) ∈ plan.sections.toList := by
  rw [BTreeMap.mem_toList, h.sections, MutationRequest.Names]
  by_cases hnil : request.entriesFor id.key = []
  · simp [hnil]
  · simp [hnil]

theorem not_names (h : PlanOf request plan) {id : SectionId} (hid : ¬ request.Names id) :
    ∀ item ∈ plan.sections.toList, item.1 ≠ id.key := by
  intro item hitem heq
  obtain ⟨-, hedits, hne⟩ := h.mem_toList hitem
  rw [hedits, heq] at hne
  exact hid hne

theorem pairwise_sectionIds (plan : MutationPlan) (key : String) :
    plan.sectionIds.Pairwise fun a b => ¬ (a = key ∧ b = key) :=
  List.pairwise_map.mpr (BTreeMap.pairwise_names plan.sections key)

end PlanOf

private theorem baseStorage_eq_ok {id : SectionId} {storage : SectionStorage} :
    baseStorage base id.key = .ok storage ↔ ∃ payload,
      base.root.directory.entries[id]? = some (.ready payload) ∧ payload.storage = some storage := by
  simp only [baseStorage, SectionDirectoryRoot.lookup_key, mapError_ok, ok_bind, bind_eq_ok,
    someOr_eq_ok]
  constructor
  · rintro ⟨payload, hslot, hstorage⟩
    obtain ⟨slot, hentry, hpayload⟩ := Option.bind_eq_some_iff.mp hslot
    cases slot with
    | ready p => exact ⟨p, hentry, Option.some.inj hpayload ▸ hstorage⟩
    | unchanged => cases hpayload
    | pending => cases hpayload
    | unavailable => cases hpayload
  · rintro ⟨payload, hentry, hstorage⟩
    exact ⟨payload, by rw [hentry]; rfl, hstorage⟩

/-- Staging a section adds its edited slot. -/
private theorem stageSection_eq_ok {builder next : SectionDeltaBuilder}
    {item : String × List MutationEntry} (h : stageSection base builder item = .ok next) :
    ∃ (id : SectionId) (old : SectionPayload) (storage : SectionStorage) (payload : SectionPayload),
      item.1 = id.key ∧ base.root.directory.entries[id]? = some (.ready old) ∧
      old.storage = some storage ∧ payload = .ofStorage (editedStorage storage item.2) ∧
      next = { builder with staged := builder.staged.insert id (.ready payload) } := by
  simp only [stageSection, payloadForEntries, bind_eq_ok, someOr_eq_ok, mapError_eq_ok,
    SectionId.parse_eq_ok, SectionPayload.fromStorage_ok, Except.ok.injEq, pure_eq_ok,
    SectionDeltaBuilder.stage_eq_ok] at h
  obtain ⟨-, -, slot, ⟨id, hid, storage, hstorage, payload, rfl, rfl⟩, id', hid', -, -, rfl⟩ := h
  obtain rfl := SectionId.key_injective (hid.symm.trans hid')
  rw [hid] at hstorage
  obtain ⟨old, hentry, hold⟩ := baseStorage_eq_ok.mp hstorage
  exact ⟨id, old, storage, _, hid, hentry, hold, rfl, rfl⟩

private theorem recordDirty_eq_ok {stamp : RevisionStamp} {dirty next : DirtyFrontier}
    {sectionId : String} (h : recordDirty stamp dirty sectionId = .ok next) :
    ∃ (id : SectionId) (revision : UInt64), sectionId = id.key ∧
      checkedSucc (stamp.effectiveRevision id.key) = some revision ∧
      next = { dirty with
        entries := dirty.entries.insert id
          (DirtyFrontier.recordEntry dirty.entries[id]? revision "mutation") } := by
  simp only [recordDirty, bind_eq_ok, someOr_eq_ok, mapError_eq_ok,
    DirtyFrontier.record_eq_ok] at h
  obtain ⟨revision, hrev, -, id, rfl, rfl⟩ := h
  exact ⟨id, revision, rfl, hrev, rfl⟩

private theorem recorded_of_fold {stamp : RevisionStamp} (hplan : PlanOf request plan)
    {old new : DirtyFrontier}
    (h : foldSteps (recordDirty stamp) old plan.sectionIds = .ok new) :
    Recorded stamp request old new := by
  have hother : ∀ (id : SectionId) dirty sectionId next, ¬ sectionId = id.key →
      recordDirty stamp dirty sectionId = .ok next → next.entries[id]? = dirty.entries[id]? := by
    intro id dirty sectionId next hne hstep
    obtain ⟨id', revision, rfl, -, rfl⟩ := recordDirty_eq_ok hstep
    exact BTreeMap.getElem?_insert_ne _ (fun heq => hne (congrArg SectionId.key heq)) _
  have hsame : new.worldId = old.worldId ∧ new.generation = old.generation := by
    refine foldSteps_invariant (P := fun d => d.worldId = old.worldId ∧ d.generation = old.generation)
      (fun dirty sectionId next _ hdirty hstep => ?_) ⟨rfl, rfl⟩ h
    obtain ⟨id, revision, -, -, rfl⟩ := recordDirty_eq_ok hstep
    exact hdirty
  refine ⟨hsame.1, hsame.2, fun id hid => ?_, fun id hid => ?_⟩
  · have hmem : id.key ∈ plan.sectionIds :=
      List.mem_map.mpr ⟨_, (hplan.names_iff id).mp hid, rfl⟩
    obtain ⟨d₁, d₂, hstep, hd₁, hd₂⟩ := foldSteps_named
      (fun d : DirtyFrontier => d.entries[id]?) (hother id)
      (PlanOf.pairwise_sectionIds plan id.key) h hmem rfl
    obtain ⟨id', revision, hkey, hrev, rfl⟩ := recordDirty_eq_ok hstep
    obtain rfl := SectionId.key_injective hkey
    refine ⟨revision, hrev, ?_⟩
    rw [hd₂, ← hd₁, BTreeMap.getElem?_insert, if_pos rfl]
  · refine foldSteps_other (fun d : DirtyFrontier => d.entries[id]?) (hother id) h ?_
    intro sectionId hmem heq
    obtain ⟨item, hitem, rfl⟩ := List.mem_map.mp hmem
    exact hplan.not_names hid item hitem heq

private theorem staged_of_fold (hplan : PlanOf request plan) {builder : SectionDeltaBuilder}
    (h : foldSteps (stageSection base) (.new base.root.directory) plan.sections.toList =
      .ok builder) (id : SectionId) :
    (request.Names id →
      EditedSlot base.root.directory ⟨builder.staged⟩ (request.entriesFor id.key) id) ∧
    (¬ request.Names id → builder.staged[id]? = none) := by
  have hother : ∀ b item next, ¬ item.1 = id.key → stageSection base b item = .ok next →
      next.staged[id]? = b.staged[id]? := by
    intro b item next hne hstep
    obtain ⟨id', -, -, -, hid', -, -, -, rfl⟩ := stageSection_eq_ok hstep
    exact BTreeMap.getElem?_insert_ne _
      (fun heq => hne (hid'.trans (congrArg SectionId.key heq))) _
  refine ⟨fun hid => ?_, fun hid => ?_⟩
  · obtain ⟨b₁, b₂, hstep, -, hb₂⟩ := foldSteps_named
      (fun b : SectionDeltaBuilder => b.staged[id]?) hother
      (BTreeMap.pairwise_names plan.sections id.key) h ((hplan.names_iff id).mp hid) rfl
    obtain ⟨id', old, storage, payload, hkey, hentry, hold, hpayload, rfl⟩ :=
      stageSection_eq_ok hstep
    obtain rfl := SectionId.key_injective hkey
    refine ⟨old, storage, payload, hentry, hold, ?_, hpayload⟩
    rw [hb₂, BTreeMap.getElem?_insert, if_pos rfl]
  · have hnone := foldSteps_other (fun b : SectionDeltaBuilder => b.staged[id]?) hother h
      (hplan.not_names hid)
    rw [hnone]
    exact BTreeMap.getElem?_empty id

theorem sealPrivate_eq_ok [UnicodeTables] {ledger : ReceiptLedger}
    {reservation : MutationReservation} {token : PreparedMutation} (hplan : PlanOf request plan)
    (hres : MutationReservation.fromRequest request = .ok reservation)
    (h : sealPrivate request base ledger plan base.root.identity reservation = .ok token) :
    SealedFrom request base ledger.configHash token := by
  simp only [sealPrivate, MutationPlan.sectionEdits, bind_eq_ok, mapError_eq_ok, someOr_eq_ok,
    pure_eq_ok] at h
  obtain ⟨builder, hstaged, replacement, hfreeze, dirty, hdirty, target, htarget, fingerprint,
    hfingerprint, rfl⟩ := h
  obtain rfl := SectionDeltaBuilder.freeze_eq_ok hfreeze
  exact {
    request_eq := rfl
    planned := ⟨plan, hplan⟩
    baseIdentity_eq := rfl
    generation_eq := rfl
    configHash_eq := rfl
    reservation_ok := hres
    fingerprint_ok := hfingerprint
    fresh := rfl
    freshEvidence := rfl
    edited := fun id => (staged_of_fold hplan hstaged id).1
    untouched := fun id => (staged_of_fold hplan hstaged id).2
    recorded := recorded_of_fold hplan hdirty
    target := htarget }

end Sealing

/-! ## 5. The outcomes of prepare -/

section Outcomes

variable [UnicodeTables] {request : MutationRequest} {base : PublishedReadView}
  {ledger : ReceiptLedger}

/-- **Prepare.** An error leaves every ledger entry as it was.  A token either
replays the stored receipt of a completed transaction, over an unchanged ledger,
or is freshly built over a ledger with one new in-flight entry. -/
theorem prepare_cases (request : MutationRequest) (base : PublishedReadView)
    (ledger : ReceiptLedger) :
    (∃ err, (prepare request base ledger).1 = .error err ∧
      (prepare request base ledger).2.entries = ledger.entries ∧
      (prepare request base ledger).2.configHash = ledger.configHash) ∨
    (∃ receipt token, ledger.lookup request = .ok (.duplicate receipt) ∧
      prepare request base ledger = (.ok token, ledger) ∧
      token.request = request ∧ token.replayReceipt = some receipt ∧
      token.replacement = ⟨∅⟩ ∧
      token.replayEvidence = ledger.entries[request.txnId]?.bind (·.evidence)) ∨
    (∃ token ledger', ledger.lookup request = .ok .vacant ∧
      ledger.reserve request = .ok (token.reservation, ledger') ∧
      prepare request base ledger = (.ok token, ledger') ∧
      MutationPreconditions.check request base ledger = .ok () ∧
      SealedFrom request base ledger.configHash token) := by
  unfold prepare
  cases hcheck : MutationPreconditions.check request base ledger with
  | error err => exact .inl ⟨err, rfl, rfl, rfl⟩
  | ok _ =>
    cases hlookup : ledger.lookup request with
    | error err => exact .inl ⟨_, rfl, rfl, rfl⟩
    | ok outcome =>
      cases outcome with
      | duplicate receipt =>
        obtain ⟨hadmits, entry, hentry, hmatches, -⟩ := ReceiptLedger.lookup_duplicate.mp hlookup
        cases hreserve : ledger.reserve request with
        | error err => exact .inl ⟨_, rfl, rfl, rfl⟩
        | ok reserved =>
          obtain ⟨reservation, ledger'⟩ := reserved
          obtain ⟨-, hledger⟩ := ReceiptLedger.reserve_of_present hentry hreserve
          cases hbind : bindReplay request base ledger' base.root.identity reservation receipt with
          | error err => exact .inl ⟨err, hbind, congrArg _ hledger, congrArg _ hledger⟩
          | ok token =>
            refine .inr (.inl ⟨receipt, token, rfl, Prod.ext hbind hledger, ?_⟩)
            simp only [bindReplay, bind_eq_ok, mapError_eq_ok, pure_eq_ok,
              SectionDeltaBuilder.freeze_new] at hbind
            obtain ⟨evidence, hevidence, replacement, hfreeze, rfl⟩ := hbind
            obtain rfl := hledger
            rw [ReceiptLedger.evidence_of_present hadmits hentry hmatches] at hevidence
            refine ⟨rfl, rfl, (Except.ok.inj hfreeze).symm, ?_⟩
            rw [hentry]
            exact (Except.ok.inj hevidence).symm
      | inFlight =>
        -- the precondition has already refused this
        simp only [MutationPreconditions.check, bind_eq_ok, mapError_eq_ok, hlookup] at hcheck
        obtain ⟨-, -, -, -, -, -, outcome, houtcome, hcheck⟩ := hcheck
        obtain rfl := Except.ok.inj houtcome
        cases hcheck
      | vacant =>
        obtain ⟨hadmits, hvacant⟩ := ReceiptLedger.lookup_vacant.mp hlookup
        cases hbuild : MutationPlanner.build request with
        | error err => exact .inl ⟨err, rfl, rfl, rfl⟩
        | ok plan =>
          cases hreserve : ledger.reserve request with
          | error err => exact .inl ⟨_, rfl, rfl, rfl⟩
          | ok reserved =>
            obtain ⟨reservation, ledger'⟩ := reserved
            obtain ⟨hres, -, hconfig, -, -⟩ :=
              ReceiptLedger.reserve_of_vacant hvacant hreserve
            cases hseal : sealPrivate request base ledger' plan base.root.identity reservation with
            | ok token =>
              have hsealed := sealPrivate_eq_ok (build_eq_ok.mp hbuild) hres hseal
              have hsame : token.reservation = reservation :=
                Except.ok.inj (hsealed.reservation_ok.symm.trans hres)
              refine .inr (.inr ⟨token, ledger', rfl, ?_, by simp only [hseal], rfl,
                hconfig ▸ hsealed⟩)
              rw [hsame]
            | error err =>
              -- the reservation is given back
              obtain ⟨back, habort, -, hback, hbackConfig, -⟩ :=
                ReceiptLedger.abort_of_reserved hadmits hvacant hreserve
              refine .inl ⟨err, by simp only [hseal, habort], ?_, ?_⟩
              · simp only [hseal, habort, hback]
              · simp only [hseal, habort, hbackConfig]

end Outcomes

/-! ## 6. When prepare succeeds -/

/-- A fresh request that nothing refuses. -/
structure Preparable (request : MutationRequest) (base : PublishedReadView)
    (ledger : ReceiptLedger) : Prop where
  worldId : request.worldId = base.root.stamp.worldId
  generation : request.generation = base.root.stamp.generation
  vacant : ledger.lookup request = .ok .vacant
  room : ledger.entries.size < ledger.maxEntries
  size : request.entries.length ≤ MAX_ENTRIES_PER_WRITE_BATCH
  canonical : ∀ entry ∈ request.entries, ∃ id : SectionId, entry.sectionKey = id.key
  expected : ∀ entry ∈ request.entries,
    entry.expectedSectionRevision = base.root.stamp.effectiveRevision entry.sectionKey
  resident : ∀ id, request.Names id → ∃ payload storage,
    base.root.directory.entries[id]? = some (.ready payload) ∧ payload.storage = some storage
  revisions : ∀ id, request.Names id →
    ∃ next, checkedSucc (base.root.stamp.effectiveRevision id.key) = some next
  world : ∃ target, checkedSucc base.root.stamp.worldRevision = some target

section Success

variable {request : MutationRequest} {base : PublishedReadView} {plan : MutationPlan}

private theorem nodup_cells (entries : List MutationEntry) :
    "" ∉ (finalWrites entries).map (fun w => toString w.1.raw.toNat) ∧
      ((finalWrites entries).map fun w => toString w.1.raw.toNat).Nodup := by
  have htext : ∀ n : Nat, toString n = String.ofList (DecimalText.digits n) := fun n => rfl
  refine ⟨fun h => ?_, ?_⟩
  · obtain ⟨w, -, hw⟩ := List.mem_map.mp h
    rw [htext, ← String.ofList_nil, String.ofList_inj] at hw
    exact (DecimalText.canonical_digits _).1 hw
  · have hpair := (BTreeMap.pairwise_toList (collapse entries)).perm
      (List.perm_insertionSort (fun a b => a.2.1 ≤ b.2.1) _).symm (fun h => Ne.symm h)
    refine List.pairwise_map.mpr (hpair.imp fun hne heq => hne ?_)
    rw [htext, htext, String.ofList_inj] at heq
    exact CellOffset.index_injective (DecimalText.digits_injective heq)

private theorem stageSection_of (builder : SectionDeltaBuilder) (entries : List MutationEntry)
    {id : SectionId} {payload : SectionPayload} {storage : SectionStorage}
    {next : UInt64} (hentry : base.root.directory.entries[id]? = some (.ready payload))
    (hstorage : payload.storage = some storage)
    (hnext : checkedSucc (base.root.stamp.effectiveRevision id.key) = some next)
    (hfree : builder.staged[id]? = none) :
    ∃ slot, stageSection base builder (id.key, entries) =
      .ok { builder with staged := builder.staged.insert id slot } := by
  have hbase := baseStorage_eq_ok.mpr ⟨payload, hentry, hstorage⟩
  refine ⟨.ready (.ofStorage (editedStorage storage entries)), ?_⟩
  simp only [stageSection, payloadForEntries, hnext, someOr, ok_bind, SectionId.parse_key,
    mapError_ok, hbase, SectionPayload.fromStorage_ok]
  refine mapError_eq_ok.mpr (SectionDeltaBuilder.stage_eq_ok.mpr
    ⟨id, rfl, nodup_cells entries, hfree, rfl⟩)

private theorem stage_progress (hplan : PlanOf request plan)
    (hresident : ∀ id, request.Names id → ∃ payload storage,
      base.root.directory.entries[id]? = some (.ready payload) ∧ payload.storage = some storage)
    (hrevisions : ∀ id, request.Names id →
      ∃ next, checkedSucc (base.root.stamp.effectiveRevision id.key) = some next) :
    ∃ builder, foldSteps (stageSection base) (.new base.root.directory) plan.sections.toList =
      .ok builder := by
  -- what is left has distinct planned keys, none of them staged yet
  let P (builder : SectionDeltaBuilder) (rest : List (String × List MutationEntry)) : Prop :=
    (∀ item ∈ rest, item ∈ plan.sections.toList) ∧
      rest.Pairwise (fun a b => a.1 ≠ b.1) ∧
      ∀ item ∈ rest, ∀ id : SectionId, item.1 = id.key → builder.staged[id]? = none
  have hstart : P (.new base.root.directory) plan.sections.toList :=
    ⟨fun _ h => h, BTreeMap.pairwise_toList plan.sections,
      fun _ _ id _ => BTreeMap.getElem?_empty id⟩
  have hstep : ∀ builder item rest, P builder (item :: rest) →
      ∃ next, stageSection base builder item = .ok next ∧ P next rest := by
    intro builder item rest hP
    obtain ⟨hin, hdistinct, hfree⟩ := hP
    obtain ⟨hkey, hedits, hne⟩ := hplan.mem_toList (hin item List.mem_cons_self)
    obtain ⟨id, hid⟩ := hplan.exists_key hkey
    have hname : request.Names id := by
      rw [MutationRequest.Names, ← hid, ← hedits]
      exact hne
    obtain ⟨payload, storage, hentry, hstorage⟩ := hresident id hname
    obtain ⟨next, hnext⟩ := hrevisions id hname
    obtain ⟨slot, hstage⟩ := stageSection_of builder item.2 hentry
      hstorage hnext (hfree item List.mem_cons_self id hid)
    rw [← hid] at hstage
    obtain ⟨hhead, htail⟩ := List.pairwise_cons.mp hdistinct
    refine ⟨_, hstage, fun item' h => hin item' (List.mem_cons_of_mem _ h), htail,
      fun item' h id' hid' => ?_⟩
    have hother : id ≠ id' := fun heq => hhead item' h (hid.trans (heq ▸ hid'.symm))
    exact (BTreeMap.getElem?_insert_ne _ hother _).trans
      (hfree item' (List.mem_cons_of_mem _ h) id' hid')
  obtain ⟨builder, hbuilder, -⟩ := foldSteps_progress hstep hstart
  exact ⟨builder, hbuilder⟩

private theorem freeze_of_fold (hplan : PlanOf request plan) {builder : SectionDeltaBuilder}
    (h : foldSteps (stageSection base) (.new base.root.directory) plan.sections.toList =
      .ok builder) : builder.freeze = .ok ⟨builder.staged⟩ := by
  have hbase : builder.base = base.root.directory :=
    foldSteps_invariant (P := fun b : SectionDeltaBuilder => b.base = base.root.directory)
      (fun b item next _ hb hstep => by
        obtain ⟨-, -, -, -, -, -, -, -, rfl⟩ := stageSection_eq_ok hstep
        exact hb) rfl h
  refine SectionDeltaBuilder.freeze_of_checked fun entry hentry => ?_
  have hstaged := BTreeMap.mem_toList.mp (show (entry.1, entry.2) ∈ _ from hentry)
  have hname : request.Names entry.1 := by
    by_contra hno
    rw [(staged_of_fold hplan h entry.1).2 hno] at hstaged
    cases hstaged
  obtain ⟨old, storage, payload, hold, -, hnew, -⟩ := (staged_of_fold hplan h entry.1).1 hname
  have hslot : entry.2 = .ready payload := Option.some.inj (hstaged.symm.trans hnew)
  simp only [SectionDeltaBuilder.checkStaged, hbase, SectionDirectoryRoot.lookup_key, hold, ok_bind,
    hslot, SectionSlot.presence, Presence.name, SectionSlot.payload, SectionSlot.tryConvert_ready]
  rfl

private theorem dirty_progress {stamp : RevisionStamp} (hplan : PlanOf request plan)
    (hrevisions : ∀ id, request.Names id →
      ∃ next, checkedSucc (stamp.effectiveRevision id.key) = some next) (dirty : DirtyFrontier) :
    ∃ new, foldSteps (recordDirty stamp) dirty plan.sectionIds = .ok new := by
  let P (_ : DirtyFrontier) (rest : List String) : Prop := ∀ key ∈ rest, key ∈ plan.sectionIds
  have hstep : ∀ dirty key rest, P dirty (key :: rest) →
      ∃ next, recordDirty stamp dirty key = .ok next ∧ P next rest := by
    intro dirty key rest hP
    have hkey := hP key List.mem_cons_self
    obtain ⟨item, hitem, hsame⟩ := List.mem_map.mp hkey
    obtain ⟨id, hid⟩ := hplan.exists_key hkey
    obtain ⟨-, hedits, hne⟩ := hplan.mem_toList (show (item.1, item.2) ∈ _ from hitem)
    rw [hedits, hsame, hid] at hne
    obtain ⟨next, hnext⟩ := hrevisions id hne
    have hrecord : recordDirty stamp dirty key = .ok { dirty with
        entries := dirty.entries.insert id
          (DirtyFrontier.recordEntry dirty.entries[id]? next "mutation") } := by
      rw [recordDirty, hid, hnext]
      exact mapError_eq_ok.mpr (DirtyFrontier.record_eq_ok.mpr ⟨by decide, id, rfl, rfl⟩)
    exact ⟨_, hrecord, fun key' h => hP key' (List.mem_cons_of_mem _ h)⟩
  have hstart : P dirty plan.sectionIds := fun _ h => h
  obtain ⟨new, hnew, -⟩ := foldSteps_progress hstep hstart
  exact ⟨new, hnew⟩

theorem sealPrivate_of (hplan : PlanOf request plan) (ledger : ReceiptLedger)
    (hresident : ∀ id, request.Names id → ∃ payload storage,
      base.root.directory.entries[id]? = some (.ready payload) ∧ payload.storage = some storage)
    (hrevisions : ∀ id, request.Names id →
      ∃ next, checkedSucc (base.root.stamp.effectiveRevision id.key) = some next)
    (hworld : ∃ target, checkedSucc base.root.stamp.worldRevision = some target)
    (identity : Digest) (reservation : MutationReservation) :
    ∃ token, sealPrivate request base ledger plan identity reservation = .ok token := by
  obtain ⟨builder, hbuilder⟩ := stage_progress hplan hresident hrevisions
  obtain ⟨dirty, hdirty⟩ := dirty_progress hplan hrevisions base.root.dirtyFrontier
  obtain ⟨target, htarget⟩ := hworld
  obtain ⟨fingerprint, hfingerprint⟩ := exists_canonicalFingerprint request
  simp only [sealPrivate, MutationPlan.sectionEdits, hbuilder, ok_bind, freeze_of_fold hplan hbuilder,
    mapError_ok, hdirty, htarget, someOr, hfingerprint]
  exact ⟨_, rfl⟩

/-- A preparable request gets a fresh token. -/
theorem prepare_of [UnicodeTables] {ledger : ReceiptLedger} (h : Preparable request base ledger) :
    ∃ token ledger', prepare request base ledger = (.ok token, ledger') ∧
      ledger.reserve request = .ok (token.reservation, ledger') ∧
      SealedFrom request base ledger.configHash token := by
  obtain ⟨hadmits, hnone⟩ := ReceiptLedger.lookup_vacant.mp h.vacant
  have hids := hadmits.1
  obtain ⟨plan, hbuild⟩ : ∃ plan, MutationPlanner.build request = .ok plan :=
    exists_build hids h.size h.canonical
  have hplan := build_eq_ok.mp hbuild
  have hcheck : MutationPreconditions.check request base ledger = .ok () := by
    simp only [MutationPreconditions.check, require_of hids, require_of h.worldId,
      require_of h.generation, ok_bind, h.vacant, mapError_ok, hbuild, MutationPlan.sectionEdits]
    have hrevisions : foldSteps (fun _ item =>
        MutationPreconditions.checkRevisions base.root.stamp item) () plan.sections.toList =
          .ok () := by
      refine foldSteps_of_forall fun item hitem => ?_
      obtain ⟨-, hedits, hne⟩ := hplan.mem_toList (show (item.1, item.2) ∈ _ from hitem)
      have hall : ∀ entry ∈ item.2,
          entry.expectedSectionRevision = base.root.stamp.effectiveRevision item.1 := by
        intro entry hentry
        rw [hedits] at hentry
        obtain ⟨hin, hkey⟩ := List.mem_filter.mp hentry
        rw [h.expected entry hin, of_decide_eq_true hkey]
      obtain ⟨first, rest, hcons⟩ := List.exists_cons_of_ne_nil hne
      simp only [MutationPreconditions.checkRevisions, hcons, List.head?_cons, someOr, ok_bind]
      rw [hcons] at hall
      exact require_of ⟨hall first List.mem_cons_self, hall⟩ _
    have hready : foldSteps (fun _ sectionId =>
        MutationPreconditions.checkReady base.root.directory sectionId) () plan.sectionIds =
          .ok () := by
      refine foldSteps_of_forall fun key hkey => ?_
      obtain ⟨item, hitem, hsame⟩ := List.mem_map.mp hkey
      obtain ⟨id, hid⟩ := hplan.exists_key hkey
      obtain ⟨-, hedits, hne⟩ := hplan.mem_toList (show (item.1, item.2) ∈ _ from hitem)
      rw [hedits, hsame, hid] at hne
      obtain ⟨payload, -, hentry, -⟩ := h.resident id hne
      rw [hid]
      exact MutationPreconditions.checkReady_key.mpr ⟨payload, hentry⟩
    rw [hrevisions]
    exact hready
  obtain ⟨reservation, hres⟩ := ReceiptLedger.exists_reservation request
  have hreserve : ∃ ledger', ledger.reserve request = .ok (reservation, ledger') := by
    unfold ReceiptLedger.reserve
    rw [ReceiptLedger.checkRequest_eq_ok (u := ()) |>.mpr hadmits, ok_bind, hnone]
    simp only [require_of h.room, hres, ok_bind, mapError_ok]
    exact ⟨_, rfl⟩
  obtain ⟨ledger', hreserve⟩ := hreserve
  obtain ⟨token, htoken⟩ := sealPrivate_of hplan ledger' h.resident h.revisions h.world
    base.root.identity reservation
  have hprepare : prepare request base ledger = (.ok token, ledger') := by
    simp only [prepare, hcheck, h.vacant, hbuild, hreserve, htoken]
  rcases prepare_cases request base ledger with ⟨err, herr, -⟩ | ⟨receipt, token', hdup, -⟩ |
    ⟨token', ledger'', -, hreserve', hprepare', -, hsealed⟩
  · rw [hprepare] at herr
    cases herr
  · rw [h.vacant] at hdup
    cases hdup
  · rw [hprepare] at hprepare'
    obtain ⟨htok, rfl⟩ := Prod.mk.inj hprepare'
    obtain rfl := Except.ok.inj htok
    exact ⟨token, ledger', hprepare, hreserve', hsealed⟩

end Success

end LumioVoxel
