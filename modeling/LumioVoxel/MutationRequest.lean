import LumioVoxel.CanonicalObject
import LumioVoxel.DirtyFrontier
import LumioVoxel.Publication

/-!
# Mutation requests

A request names a transaction, its world and generation, and an ordered batch of
block writes.  Its fingerprint is the SHA-256 of a canonical object over all
four; its plan groups the writes by section and keeps their order.
-/

namespace LumioVoxel

open Fallible

/-! ## 1. Requests -/

structure MutationEntry where
  sectionKey : String
  cellOffset : CellOffset
  blockId : BlockId
  expectedSectionRevision : UInt64
  deriving DecidableEq

structure MutationRequest where
  txnId : String
  worldId : String
  generation : UInt64
  entries : List MutationEntry
  deriving DecidableEq

/-- The writes of a request that name one section, in request order. -/
def MutationRequest.entriesFor (request : MutationRequest) (sectionKey : String) :
    List MutationEntry :=
  request.entries.filter fun entry => entry.sectionKey = sectionKey

/-! ## 2. Errors -/

inductive ReplayDisposition where
  | original
  | duplicate
  | conflict
  deriving DecidableEq, Repr

structure MutationError where
  errorId : String
  disposition : Option ReplayDisposition
  deriving DecidableEq, Repr

namespace MutationError

def invalidHandle : MutationError := ⟨"InvalidHandle", none⟩
def sessionMismatch : MutationError := ⟨"SessionMismatch", none⟩
def staleEpoch : MutationError := ⟨"StaleEpoch", none⟩
def snapshotBaseMismatch : MutationError := ⟨"SnapshotBaseMismatch", none⟩
def staleSectionRevision : MutationError := ⟨STALE_SECTION_REVISION, none⟩
def writeBatchTooLarge : MutationError := ⟨WRITE_BATCH_TOO_LARGE, none⟩
def unstructuredMutationEntry : MutationError := ⟨UNSTRUCTURED_MUTATION_ENTRY, none⟩
def sectionUnavailable : MutationError := ⟨SECTION_UNAVAILABLE, none⟩
def fromSection (err : SectionError) : MutationError := ⟨err.errorId, none⟩
def fromDirty (err : DirtyError) : MutationError := ⟨err.errorId, none⟩
def fromPublish (err : PublishError) : MutationError := ⟨err.errorId, none⟩

end MutationError

/-! ## 3. The fingerprint -/

structure RequestFingerprint where
  hash : Digest
  deriving DecidableEq

def CANONICAL_FORM_FIELD : String := "canonicalForm"
def CANONICAL_FORM_ID : String := "VoxelCanonicalObjectV1"

def encodeEntries (entries : List MutationEntry) : String :=
  hex (u64LeBytes (UInt64.ofNat entries.length) ++ entries.flatMap fun entry =>
    u64LeBytes (UInt64.ofNat (utf8 entry.sectionKey).length) ++ utf8 entry.sectionKey ++
      u16LeBytes entry.cellOffset.raw ++ u32LeBytes entry.blockId.raw ++
      u64LeBytes entry.expectedSectionRevision)

def fingerprintMembers (request : MutationRequest) : List (String × CanonicalValue) :=
  [("entries", .text (encodeEntries request.entries)),
   (CANONICAL_FORM_FIELD, .text CANONICAL_FORM_ID),
   ("txn_id", .text request.txnId),
   ("world_id", .text request.worldId),
   ("generation", .uint request.generation)]

/-- Covers the ordered, typed entries as well as the request's identity. -/
def canonicalFingerprint (request : MutationRequest) :
    Except DuplicateMember RequestFingerprint := do
  let object ← CanonicalObject.new.insertAll (fingerprintMembers request)
  return ⟨sha256 object.encodeBytes⟩

/-- The member names are distinct. -/
theorem fingerprintMembers_distinct (request : MutationRequest) :
    (fingerprintMembers request).Pairwise fun a b => a.1 ≠ b.1 := by
  rw [← List.pairwise_map (f := Prod.fst) (R := (· ≠ ·))]
  change ["entries", CANONICAL_FORM_FIELD, "txn_id", "world_id", "generation"].Pairwise (· ≠ ·)
  decide

/-- Every request has a fingerprint. -/
theorem exists_canonicalFingerprint (request : MutationRequest) :
    ∃ fingerprint, canonicalFingerprint request = .ok fingerprint := by
  have hall := insertAll_of_fresh (fingerprintMembers_distinct request) (o := CanonicalObject.new)
    fun m _ => BTreeMap.getElem?_empty m.1
  rw [canonicalFingerprint, hall]
  exact ⟨_, rfl⟩

/-! ## 4. The plan -/

structure MutationPlan where
  sections : BTreeMap String (List MutationEntry)
  deriving DecidableEq

namespace MutationPlan

def sectionIds (plan : MutationPlan) : List String := plan.sections.toList.map (·.1)

def sectionEdits (plan : MutationPlan) : BTreeMap String (List MutationEntry) := plan.sections

end MutationPlan

namespace MutationPlanner

def addEntry (sections : BTreeMap String (List MutationEntry)) (entry : MutationEntry) :
    Except MutationError (BTreeMap String (List MutationEntry)) := do
  require (entry.sectionKey ≠ "") .unstructuredMutationEntry
  let _ ← (SectionId.parse entry.sectionKey).mapError fun err =>
    MutationError.fromSection (.key err)
  return sections.insert entry.sectionKey (sections[entry.sectionKey]?.getD [] ++ [entry])

def build (request : MutationRequest) : Except MutationError MutationPlan := do
  require (request.txnId ≠ "" ∧ request.worldId ≠ "") .invalidHandle
  require (request.entries.length ≤ MAX_ENTRIES_PER_WRITE_BATCH) .writeBatchTooLarge
  let sections ← foldSteps addEntry ∅ request.entries
  return ⟨sections⟩

end MutationPlanner

/-- What a plan is of its request: the request is within its limits, every entry
names a canonical section key, and each named section has its entries in order. -/
structure PlanOf (request : MutationRequest) (plan : MutationPlan) : Prop where
  ids : request.txnId ≠ "" ∧ request.worldId ≠ ""
  size : request.entries.length ≤ MAX_ENTRIES_PER_WRITE_BATCH
  canonical : ∀ entry ∈ request.entries, ∃ id : SectionId, entry.sectionKey = id.key
  sections : ∀ key : String, plan.sections[key]? =
    if request.entriesFor key = [] then none else some (request.entriesFor key)

section Grouping

/-- One section's edits after some more of its entries. -/
private def appended (old : Option (List MutationEntry)) (new : List MutationEntry) :
    Option (List MutationEntry) :=
  if new = [] then old else some (old.getD [] ++ new)

private theorem key_ne_empty (id : SectionId) : id.key ≠ "" := by
  intro h
  have hlist := congrArg String.toList h
  rw [SectionId.toList_key] at hlist
  simp at hlist

private theorem addEntry_eq_ok {m m' : BTreeMap String (List MutationEntry)}
    {entry : MutationEntry} :
    MutationPlanner.addEntry m entry = .ok m' ↔ (∃ id : SectionId, entry.sectionKey = id.key) ∧
      m' = m.insert entry.sectionKey (m[entry.sectionKey]?.getD [] ++ [entry]) := by
  simp only [MutationPlanner.addEntry, bind_eq_ok, require_eq_ok, mapError_eq_ok,
    SectionId.parse_eq_ok, pure_eq_ok, exists_and_left, exists_const]
  constructor
  · rintro ⟨-, id, hid, rfl⟩
    exact ⟨⟨id, hid⟩, rfl⟩
  · rintro ⟨⟨id, hid⟩, rfl⟩
    exact ⟨hid ▸ key_ne_empty id, id, hid, rfl⟩

private theorem getElem?_addEntry (m : BTreeMap String (List MutationEntry)) (entry : MutationEntry)
    (rest : List MutationEntry) (key : String) :
    appended (m.insert entry.sectionKey (m[entry.sectionKey]?.getD [] ++ [entry]))[key]?
        (rest.filter fun e => e.sectionKey = key) =
      appended m[key]? ((entry :: rest).filter fun e => e.sectionKey = key) := by
  rw [BTreeMap.getElem?_insert]
  by_cases hkey : entry.sectionKey = key
  · subst hkey
    rw [if_pos rfl, List.filter_cons_of_pos (by simp)]
    simp only [appended, reduceCtorEq, if_false, Option.getD_some, List.append_assoc,
      List.cons_append, List.nil_append]
    split
    · rename_i hnil
      rw [hnil]
    · rfl
  · rw [if_neg hkey, List.filter_cons_of_neg (by simpa using hkey)]

private theorem addEntries_eq_ok {entries : List MutationEntry}
    {m m' : BTreeMap String (List MutationEntry)} :
    foldSteps MutationPlanner.addEntry m entries = .ok m' ↔
      (∀ entry ∈ entries, ∃ id : SectionId, entry.sectionKey = id.key) ∧
      ∀ key : String, m'[key]? =
        appended m[key]? (entries.filter fun entry => entry.sectionKey = key) := by
  induction entries generalizing m with
  | nil =>
    simp only [foldSteps, Except.ok.injEq, List.not_mem_nil, false_implies, implies_true,
      true_and, List.filter_nil, appended, if_true]
    constructor
    · rintro rfl key
      rfl
    · intro h
      exact (Std.ExtTreeMap.ext_getElem? fun key => h key).symm
  | cons entry rest ih =>
    rw [foldSteps_cons_eq_ok]
    simp only [addEntry_eq_ok, List.forall_mem_cons, ← getElem?_addEntry]
    constructor
    · rintro ⟨m₁, ⟨hid, rfl⟩, hrest⟩
      obtain ⟨hcanonical, hlookup⟩ := ih.mp hrest
      exact ⟨⟨hid, hcanonical⟩, hlookup⟩
    · rintro ⟨⟨hid, hcanonical⟩, hlookup⟩
      exact ⟨_, ⟨hid, rfl⟩, ih.mpr ⟨hcanonical, hlookup⟩⟩

/-- **Planning.** Building succeeds exactly for requests within the limits that
name canonical keys only, and what it builds is determined by the request. -/
theorem build_eq_ok {request : MutationRequest} {plan : MutationPlan} :
    MutationPlanner.build request = .ok plan ↔ PlanOf request plan := by
  have happended : ∀ new : List MutationEntry,
      appended none new = if new = [] then none else some new := fun new => by simp [appended]
  simp only [MutationPlanner.build, bind_eq_ok, require_eq_ok, pure_eq_ok, addEntries_eq_ok,
    BTreeMap.getElem?_empty, happended, exists_and_left, exists_const]
  constructor
  · rintro ⟨hids, hsize, sections, ⟨hcanonical, hlookup⟩, rfl⟩
    exact ⟨hids, hsize, hcanonical, hlookup⟩
  · rintro ⟨hids, hsize, hcanonical, hlookup⟩
    exact ⟨hids, hsize, plan.sections, ⟨hcanonical, hlookup⟩, rfl⟩

theorem exists_build {request : MutationRequest}
    (hids : request.txnId ≠ "" ∧ request.worldId ≠ "")
    (hsize : request.entries.length ≤ MAX_ENTRIES_PER_WRITE_BATCH)
    (hcanonical : ∀ entry ∈ request.entries, ∃ id : SectionId, entry.sectionKey = id.key) :
    ∃ plan, MutationPlanner.build request = .ok plan := by
  obtain ⟨sections, hsections, -⟩ := foldSteps_progress (f := MutationPlanner.addEntry)
    (P := fun _ rest => ∀ entry ∈ rest, ∃ id : SectionId, entry.sectionKey = id.key)
    (fun m entry rest hP => ⟨_, addEntry_eq_ok.mpr ⟨hP entry List.mem_cons_self, rfl⟩,
      fun entry' h => hP entry' (List.mem_cons_of_mem _ h)⟩)
    (b := ∅) hcanonical
  rw [MutationPlanner.build, require_of hids, require_of hsize, hsections]
  exact ⟨_, rfl⟩

end Grouping

namespace PlanOf

variable {request : MutationRequest} {plan : MutationPlan}

theorem mem_sectionIds (h : PlanOf request plan) {key : String} :
    key ∈ plan.sectionIds ↔ ∃ entry ∈ request.entries, entry.sectionKey = key := by
  have hmem : key ∈ plan.sectionIds ↔ ∃ edits, plan.sections[key]? = some edits := by
    simp only [MutationPlan.sectionIds, List.mem_map]
    constructor
    · rintro ⟨⟨k, edits⟩, hitem, rfl⟩
      exact ⟨edits, BTreeMap.mem_toList.mp hitem⟩
    · rintro ⟨edits, hedits⟩
      exact ⟨(key, edits), BTreeMap.mem_toList.mpr hedits, rfl⟩
  rw [hmem, h.sections]
  constructor
  · rintro ⟨edits, hedits⟩
    split at hedits
    · cases hedits
    · rename_i hne
      obtain ⟨entry, hentry⟩ := List.exists_mem_of_ne_nil _ hne
      obtain ⟨hin, hkey⟩ := List.mem_filter.mp hentry
      exact ⟨entry, hin, of_decide_eq_true hkey⟩
  · rintro ⟨entry, hin, hkey⟩
    have hmem : entry ∈ request.entriesFor key :=
      List.mem_filter.mpr ⟨hin, decide_eq_true hkey⟩
    exact ⟨_, if_neg (List.ne_nil_of_mem hmem)⟩

/-- Every planned section is a canonical key. -/
theorem exists_key (h : PlanOf request plan) {key : String} (hkey : key ∈ plan.sectionIds) :
    ∃ id : SectionId, key = id.key := by
  obtain ⟨entry, hin, rfl⟩ := h.mem_sectionIds.mp hkey
  exact h.canonical entry hin

theorem mem_toList (h : PlanOf request plan) {key : String} {edits : List MutationEntry}
    (hitem : (key, edits) ∈ plan.sections.toList) :
    key ∈ plan.sectionIds ∧ edits = request.entriesFor key ∧ edits ≠ [] := by
  refine ⟨List.mem_map.mpr ⟨_, hitem, rfl⟩, ?_⟩
  have hlookup := BTreeMap.mem_toList.mp hitem
  rw [h.sections] at hlookup
  split at hlookup
  · cases hlookup
  · rename_i hne
    obtain rfl := Option.some.inj hlookup
    exact ⟨rfl, hne⟩

/-- Every entry is among the edits planned for its section. -/
theorem edits_of_entry (h : PlanOf request plan) {entry : MutationEntry}
    (hentry : entry ∈ request.entries) :
    (entry.sectionKey, request.entriesFor entry.sectionKey) ∈ plan.sections.toList ∧
      entry ∈ request.entriesFor entry.sectionKey := by
  have hmem : entry ∈ request.entriesFor entry.sectionKey :=
    List.mem_filter.mpr ⟨hentry, decide_eq_true rfl⟩
  refine ⟨BTreeMap.mem_toList.mpr ?_, hmem⟩
  rw [h.sections, if_neg (List.ne_nil_of_mem hmem)]

end PlanOf

end LumioVoxel
