import LumioVoxel.DebugText
import LumioVoxel.FallibleSteps
import LumioVoxel.SectionKey

/-!
# The dirty frontier

Which sections hold writes that no durability evidence covers yet, with the
first and the latest revision of those writes.  Coverage is a pure function of a
frontier and an acknowledgement: it names exactly the dirty sections the
acknowledgement names, and refuses when a declared bound is below what is still
dirty.
-/

namespace LumioVoxel

open DebugText Fallible

def ACK_KIND : String := "DurabilityAck"

structure DirtyEntry where
  first : UInt64
  latest : UInt64
  reason : String
  deriving DecidableEq, Repr

structure DurabilityAckContext where
  contextId : String
  generation : UInt64
  deriving DecidableEq, Repr

structure CoveredSectionAck where
  sectionId : String
  upToSectionRevision : UInt64
  deriving DecidableEq, Repr

structure DurabilityAckEvidence where
  kind : String
  worldId : String
  context : DurabilityAckContext
  coveredWorldRevision : UInt64
  coveredSections : List CoveredSectionAck
  deriving DecidableEq, Repr

structure DirtyCoverage where
  covered : BTreeMap SectionId UInt64
  deriving DecidableEq

inductive DirtyError where
  | invalidHandle
  | sessionMismatch
  | staleEpoch
  | unknownSectionKey
  | sectionYOutOfRange
  | coordinateOutOfBounds
  | staleSectionRevision
  | dirtySectionNotDurable
  deriving DecidableEq, Repr

def DirtyError.errorId : DirtyError → String
  | .invalidHandle => "InvalidHandle"
  | .sessionMismatch => "SessionMismatch"
  | .staleEpoch => "StaleEpoch"
  | .unknownSectionKey => UNKNOWN_SECTION_KEY
  | .sectionYOutOfRange => SECTION_Y_OUT_OF_RANGE
  | .coordinateOutOfBounds => COORDINATE_OUT_OF_BOUNDS
  | .staleSectionRevision => STALE_SECTION_REVISION
  | .dirtySectionNotDurable => DIRTY_SECTION_NOT_DURABLE

def DirtyError.fromKey (err : KeyError) : DirtyError :=
  match err.rejection with
  | .coordinateOutOfBounds => .coordinateOutOfBounds
  | .sectionYOutOfRange => .sectionYOutOfRange
  | _ => .unknownSectionKey

def parseSection (raw : String) : Except DirtyError SectionId :=
  (SectionId.parse raw).mapError DirtyError.fromKey

theorem parseSection_eq_ok {raw : String} {id : SectionId} :
    parseSection raw = .ok id ↔ raw = id.key :=
  mapError_eq_ok.trans SectionId.parse_eq_ok

@[simp] theorem parseSection_key (id : SectionId) : parseSection id.key = .ok id :=
  parseSection_eq_ok.mpr rfl

structure DirtyFrontier where
  worldId : String
  generation : UInt64
  entries : BTreeMap SectionId DirtyEntry
  deriving DecidableEq

namespace DirtyFrontier

/-! ## 1. Recording -/

def new (worldId : String) (generation : UInt64) : Except DirtyError DirtyFrontier := do
  require (worldId ≠ "") .invalidHandle
  return ⟨worldId, generation, ∅⟩

/-- The entry a section has after one more write at `revision`. -/
def recordEntry (prev : Option DirtyEntry) (revision : UInt64) (reason : String) : DirtyEntry :=
  match prev with
  | none => ⟨revision, revision, reason⟩
  | some prev =>
    ⟨if revision < prev.first then revision else prev.first,
     if prev.latest < revision then revision else prev.latest, reason⟩

def record (frontier : DirtyFrontier) (sectionId : String) (revision : UInt64)
    (reason : String) : Except DirtyError DirtyFrontier := do
  require (reason ≠ "") .invalidHandle
  let id ← parseSection sectionId
  return { frontier with
    entries := frontier.entries.insert id (recordEntry frontier.entries[id]? revision reason) }

def latestRevision (frontier : DirtyFrontier) (sectionId : String) :
    Except DirtyError (Option UInt64) := do
  let id ← parseSection sectionId
  return frontier.entries[id]?.map (·.latest)

def firstRevision (frontier : DirtyFrontier) (sectionId : String) :
    Except DirtyError (Option UInt64) := do
  let id ← parseSection sectionId
  return frontier.entries[id]?.map (·.first)

/-! ## 2. Coverage -/

/-- The declared bounds by section.  A section named twice is refused. -/
def upToStep (upTo : BTreeMap SectionId UInt64) (covered : CoveredSectionAck) :
    Except DirtyError (BTreeMap SectionId UInt64) := do
  let id ← parseSection covered.sectionId
  require (upTo[id]? = none) .invalidHandle
  return upTo.insert id covered.upToSectionRevision

/-- One dirty section against the declared bounds: not named, stays dirty;
named below its latest write, refused; otherwise covered. -/
def coverStep (upTo : BTreeMap SectionId UInt64) (covered : BTreeMap SectionId UInt64)
    (entry : SectionId × DirtyEntry) : Except DirtyError (BTreeMap SectionId UInt64) :=
  match upTo[entry.1]? with
  | none => .ok covered
  | some cut =>
    if cut < entry.2.latest then .error .staleSectionRevision
    else .ok (covered.insert entry.1 entry.2.latest)

def coveredBy (frontier : DirtyFrontier) (ack : DurabilityAckEvidence) :
    Except DirtyError DirtyCoverage := do
  require (ack.kind = ACK_KIND) .invalidHandle
  require (ack.worldId = frontier.worldId) .sessionMismatch
  require (ack.context.generation = frontier.generation) .staleEpoch
  let upTo ← foldSteps upToStep ∅ ack.coveredSections
  let covered ← foldSteps (coverStep upTo) ∅ frontier.entries.toList
  return ⟨covered⟩

/-- The frontier without the covered sections. -/
def exceptCovered (frontier : DirtyFrontier) (coverage : DirtyCoverage) : DirtyFrontier :=
  { frontier with
    entries := coverage.covered.toList.foldl (fun m entry => m.erase entry.1) frontier.entries }

def debug (frontier : DirtyFrontier) [UnicodeTables] : Text :=
  let revision (r : UInt64) : Text := variant "SchemaRevision" (nat r.toNat)
  DebugText.record "DirtyFrontier" [("world_id", str frontier.worldId),
    ("generation", nat frontier.generation.toNat),
    ("entries", map (frontier.entries.toList.map fun (id, entry) =>
      (DebugText.record "SectionId" [("x", int id.x), ("y", nat id.y), ("z", int id.z)],
        DebugText.record "DirtyEntry" [("first", revision entry.first),
          ("latest", revision entry.latest), ("reason", str entry.reason)])))]

/-! ## 3. What recording and coverage do -/

theorem record_eq_ok {frontier next : DirtyFrontier} {raw : String} {revision : UInt64}
    {reason : String} :
    frontier.record raw revision reason = .ok next ↔
      reason ≠ "" ∧ ∃ id : SectionId, raw = id.key ∧ next = { frontier with
        entries := frontier.entries.insert id
          (recordEntry frontier.entries[id]? revision reason) } := by
  simp only [record, bind_eq_ok, require_eq_ok, parseSection_eq_ok, pure_eq_ok, exists_and_left,
    exists_const]
  constructor
  · rintro ⟨hreason, id, hid, hnext⟩
    exact ⟨hreason, id, hid, hnext.symm⟩
  · rintro ⟨hreason, id, hid, hnext⟩
    exact ⟨hreason, id, hid, hnext.symm⟩

/-- Recording never lowers the latest revision, and reaches the recorded one. -/
theorem latest_recordEntry (prev : Option DirtyEntry) (revision : UInt64) (reason : String) :
    revision ≤ (recordEntry prev revision reason).latest ∧
      ∀ e ∈ prev, e.latest ≤ (recordEntry prev revision reason).latest := by
  cases prev with
  | none => exact ⟨UInt64.le_refl _, fun e he => nomatch he⟩
  | some prev =>
    simp only [recordEntry]
    split
    · rename_i hlt
      refine ⟨UInt64.le_refl _, fun e he => ?_⟩
      obtain rfl := Option.some.inj he
      exact UInt64.le_of_lt hlt
    · rename_i hge
      refine ⟨UInt64.not_lt.mp hge, fun e he => ?_⟩
      obtain rfl := Option.some.inj he
      exact UInt64.le_refl _

/-- A section is named with a bound exactly when the acknowledgement lists it. -/
theorem upTo_eq_some {upTo : BTreeMap SectionId UInt64} {sections : List CoveredSectionAck}
    {base : BTreeMap SectionId UInt64} (h : foldSteps upToStep base sections = .ok upTo)
    (id : SectionId) (cut : UInt64) :
    upTo[id]? = some cut ↔ base[id]? = some cut ∨ ⟨id.key, cut⟩ ∈ sections := by
  induction sections generalizing base with
  | nil =>
    rw [Except.ok.inj h]
    simp
  | cons covered rest ih =>
    obtain ⟨base', hstep, hrest⟩ := foldSteps_cons_eq_ok.mp h
    simp only [upToStep, bind_eq_ok, require_eq_ok, parseSection_eq_ok, pure_eq_ok,
      exists_and_left, exists_const] at hstep
    obtain ⟨named, hnamed, hfresh, rfl⟩ := hstep
    rw [ih hrest, BTreeMap.getElem?_insert, List.mem_cons]
    by_cases hid : named = id
    · subst hid
      rw [if_pos rfl, hfresh]
      have hself : some covered.upToSectionRevision = some cut ↔ ⟨named.key, cut⟩ = covered := by
        constructor
        · intro hcut
          obtain rfl := Option.some.inj hcut
          rw [← hnamed]
        · rintro rfl
          rfl
      rw [hself]
      simp
    · rw [if_neg hid]
      have hother : (⟨id.key, cut⟩ : CoveredSectionAck) ≠ covered := by
        intro heq
        have hkey : named.key = id.key := by rw [← hnamed, ← heq]
        exact hid (SectionId.key_injective hkey)
      simp [hother]

/-- What an accepted coverage says: the acknowledgement is for this frontier, it
covers exactly the dirty sections it names, and none of them below its latest
write. -/
structure Covers (frontier : DirtyFrontier) (ack : DurabilityAckEvidence)
    (coverage : DirtyCoverage) : Prop where
  kind : ack.kind = ACK_KIND
  worldId : ack.worldId = frontier.worldId
  generation : ack.context.generation = frontier.generation
  covered_iff : ∀ (id : SectionId) (v : UInt64), coverage.covered[id]? = some v ↔
    ∃ entry : DirtyEntry, frontier.entries[id]? = some entry ∧ v = entry.latest ∧
      ∃ cut, ⟨id.key, cut⟩ ∈ ack.coveredSections
  bound : ∀ (id : SectionId) (entry : DirtyEntry) (cut : UInt64),
    frontier.entries[id]? = some entry →
    ⟨id.key, cut⟩ ∈ ack.coveredSections → entry.latest ≤ cut

private theorem coverStep_eq_ok {upTo m m' : BTreeMap SectionId UInt64} {id : SectionId}
    {entry : DirtyEntry} (h : coverStep upTo m (id, entry) = .ok m') (k : SectionId) :
    m'[k]? = if id = k then (if upTo[id]?.isSome then some entry.latest else m[id]?)
      else m[k]? := by
  unfold coverStep at h
  simp only at h
  split at h
  · rename_i hnone
    obtain rfl := Except.ok.inj h
    by_cases hk : id = k
    · subst hk
      simp [hnone]
    · rw [if_neg hk]
  · rename_i cut hcut
    split at h
    · cases h
    · obtain rfl := Except.ok.inj h
      rw [BTreeMap.getElem?_insert, hcut]
      rfl

private theorem coverStep_bound {upTo m m' : BTreeMap SectionId UInt64}
    {items : List (SectionId × DirtyEntry)} (h : foldSteps (coverStep upTo) m items = .ok m')
    {id : SectionId} {entry : DirtyEntry} (hmem : (id, entry) ∈ items) {cut : UInt64}
    (hcut : upTo[id]? = some cut) : entry.latest ≤ cut := by
  induction items generalizing m with
  | nil => exact absurd hmem List.not_mem_nil
  | cons item rest ih =>
    obtain ⟨m₁, hstep, hrest⟩ := foldSteps_cons_eq_ok.mp h
    rcases List.mem_cons.mp hmem with rfl | hmem
    · unfold coverStep at hstep
      simp only [hcut] at hstep
      split at hstep
      · cases hstep
      · rename_i hlt
        exact UInt64.not_lt.mp hlt
    · exact ih hrest hmem

theorem covers_of_coveredBy {frontier : DirtyFrontier} {ack : DurabilityAckEvidence}
    {coverage : DirtyCoverage} (h : frontier.coveredBy ack = .ok coverage) :
    Covers frontier ack coverage := by
  simp only [coveredBy, bind_eq_ok, require_eq_ok, pure_eq_ok, exists_and_left, exists_const] at h
  obtain ⟨hkind, hworld, hgen, upTo, hupTo, covered, hcovered, rfl⟩ := h
  have hnames : ∀ (id : SectionId) (cut : UInt64),
      upTo[id]? = some cut ↔ ⟨id.key, cut⟩ ∈ ack.coveredSections := by
    intro id cut
    rw [upTo_eq_some hupTo, BTreeMap.getElem?_empty]
    simp
  refine ⟨hkind, hworld, hgen, fun id v => ?_, fun id entry cut hentry hcut => ?_⟩
  · have hother : ∀ m item m', ¬ item.1 = id → coverStep upTo m item = .ok m' →
        m'[id]? = m[id]? := fun m item m' hne hm => (coverStep_eq_ok hm id).trans (if_neg hne)
    cases hentry : frontier.entries[id]? with
    | none =>
      have hnone := foldSteps_other (fun m => m[id]?) hother hcovered fun item hitem heq => by
        rw [← heq, BTreeMap.mem_toList.mp hitem] at hentry
        cases hentry
      rw [hnone, BTreeMap.getElem?_empty]
      simp
    | some entry =>
      obtain ⟨m₁, m₂, hstep, hm₁, hm₂⟩ := foldSteps_named (fun m => m[id]?) hother
        (BTreeMap.pairwise_names frontier.entries id) hcovered (a := (id, entry))
        (BTreeMap.mem_toList.mpr hentry) rfl
      rw [hm₂, coverStep_eq_ok hstep id, if_pos rfl, hm₁, BTreeMap.getElem?_empty]
      cases hup : upTo[id]? with
      | none =>
        have hno : ∀ cut, ⟨id.key, cut⟩ ∉ ack.coveredSections := by
          intro cut hcut
          rw [← hnames, hup] at hcut
          cases hcut
        simp [hno]
      | some cut =>
        have hyes := (hnames id cut).mp hup
        simp only [Option.isSome_some, if_true, Option.some.injEq]
        constructor
        · rintro rfl
          exact ⟨entry, rfl, rfl, cut, hyes⟩
        · rintro ⟨e, he, rfl, -⟩
          rw [he]
  · exact coverStep_bound hcovered (BTreeMap.mem_toList.mpr hentry) ((hnames id cut).mpr hcut)

/-- Exactly the covered sections leave the frontier. -/
theorem getElem?_exceptCovered (frontier : DirtyFrontier) (coverage : DirtyCoverage)
    (id : SectionId) :
    (frontier.exceptCovered coverage).entries[id]? =
      if coverage.covered[id]?.isSome then none else frontier.entries[id]? := by
  simp only [exceptCovered, BTreeMap.getElem?_foldl_erase]
  have hiff : id ∈ coverage.covered.toList.map (·.1) ↔ coverage.covered[id]?.isSome = true := by
    rw [List.mem_map, Option.isSome_iff_exists]
    constructor
    · rintro ⟨⟨k, v⟩, hmem, rfl⟩
      exact ⟨v, BTreeMap.mem_toList.mp hmem⟩
    · rintro ⟨v, hv⟩
      exact ⟨(id, v), BTreeMap.mem_toList.mpr hv, rfl⟩
  by_cases h : coverage.covered[id]?.isSome = true
  · rw [if_pos (hiff.mpr h), if_pos h]
  · rw [if_neg (fun hm => h (hiff.mp hm)), if_neg h]

/-- Without its only mark a frontier is empty. -/
theorem exceptCovered_only {frontier : DirtyFrontier} {coverage : DirtyCoverage} {id : SectionId}
    {entry : DirtyEntry}
    (honly : frontier.entries = (∅ : BTreeMap SectionId DirtyEntry).insert id entry)
    (hcovered : coverage.covered[id]?.isSome) : (frontier.exceptCovered coverage).entries = ∅ := by
  apply Std.ExtTreeMap.ext_getElem?
  intro other
  rw [getElem?_exceptCovered, BTreeMap.getElem?_empty]
  split
  · rfl
  · rename_i hnot
    have hother : id ≠ other := fun hsame => hnot (hsame ▸ hcovered)
    rw [honly, BTreeMap.getElem?_insert_ne _ hother, BTreeMap.getElem?_empty]

/-- An acknowledgement of one section is accepted when its bound reaches the section's
latest write. -/
theorem exists_coverage {frontier : DirtyFrontier} {ack : DurabilityAckEvidence} {id : SectionId}
    {bound : UInt64} (hkind : ack.kind = ACK_KIND) (hworld : ack.worldId = frontier.worldId)
    (hgen : ack.context.generation = frontier.generation)
    (hsections : ack.coveredSections = [⟨id.key, bound⟩])
    (hbound : ∀ entry, frontier.entries[id]? = some entry → entry.latest ≤ bound) :
    ∃ coverage, frontier.coveredBy ack = .ok coverage := by
  have hupTo : foldSteps upToStep ∅ ack.coveredSections =
      .ok ((∅ : BTreeMap SectionId UInt64).insert id bound) := by
    have hfresh : (∅ : BTreeMap SectionId UInt64)[id]? = none := BTreeMap.getElem?_empty id
    rw [hsections, foldSteps_cons_eq_ok]
    refine ⟨_, ?_, rfl⟩
    simp only [upToStep, parseSection_key, ok_bind, require_of hfresh]
    rfl
  have hstep : ∀ (covered : BTreeMap SectionId UInt64) (item : SectionId × DirtyEntry)
      (rest : List (SectionId × DirtyEntry)),
      (∀ left ∈ item :: rest, frontier.entries[left.1]? = some left.2) →
      ∃ next, coverStep ((∅ : BTreeMap SectionId UInt64).insert id bound) covered item = .ok next ∧
        ∀ left ∈ rest, frontier.entries[left.1]? = some left.2 := by
    intro covered item rest hall
    have hrest := fun left hleft => hall left (List.mem_cons_of_mem item hleft)
    by_cases hname : id = item.1
    · have hentry := hall item List.mem_cons_self
      rw [← hname] at hentry
      refine ⟨covered.insert item.1 item.2.latest, ?_, hrest⟩
      rw [coverStep, BTreeMap.getElem?_insert, if_pos hname]
      exact if_neg (UInt64.not_lt.mpr (hbound item.2 hentry))
    · refine ⟨covered, ?_, hrest⟩
      rw [coverStep, BTreeMap.getElem?_insert_ne _ hname, BTreeMap.getElem?_empty]
  obtain ⟨covered, hcovered, -⟩ := foldSteps_progress (P := fun _ left =>
    ∀ item : SectionId × DirtyEntry, item ∈ left → frontier.entries[item.1]? = some item.2)
    hstep (b := ∅) fun item hitem => BTreeMap.mem_toList.mp hitem
  refine ⟨⟨covered⟩, ?_⟩
  simp only [coveredBy, require_of hkind, require_of hworld, require_of hgen, ok_bind, hupTo,
    hcovered]
  rfl

end DirtyFrontier

end LumioVoxel
