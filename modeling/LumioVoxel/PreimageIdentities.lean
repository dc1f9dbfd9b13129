import LumioVoxel.QueryOrder
import LumioVoxel.SnapshotRoundTrip

/-!
# What digests are taken of

A query plan, a receipt and a restore candidate are known by the hash of a canonical object.
The object always exists, since no two of its members share a name, and its bytes spell the
thing it is made from: two plans, receipts or candidates of one preimage agree.  So where
their hashes agree and they do not, the hash function itself has been collided at two
preimages that are at hand.
-/

namespace LumioVoxel

open Fallible DebugText

/-! ## 1. Objects and their members -/

/-- The bytes of an object of these members. -/
def preimageOf (members : List (String × CanonicalValue)) : Except DuplicateMember Bytes := do
  let object ← CanonicalObject.new.insertAll members
  return object.encodeBytes

/-- Members of distinct names have a preimage, and it spells them. -/
theorem exists_preimageOf {members : List (String × CanonicalValue)}
    (h : members.Pairwise fun a b => a.1 ≠ b.1) : ∃ bytes, preimageOf members = .ok bytes := by
  obtain ⟨object, hinsert, -⟩ := exists_insertAll h
  rw [preimageOf, hinsert]
  exact ⟨_, rfl⟩

theorem preimageOf_eq_iff {members members' : List (String × CanonicalValue)}
    (h : members.Pairwise fun a b => a.1 ≠ b.1) (h' : members'.Pairwise fun a b => a.1 ≠ b.1) :
    preimageOf members = preimageOf members' ↔ ∀ member, member ∈ members ↔ member ∈ members' := by
  obtain ⟨object, hinsert, hmembers⟩ := exists_insertAll h
  obtain ⟨object', hinsert', hmembers'⟩ := exists_insertAll h'
  rw [preimageOf, preimageOf, hinsert, hinsert', ok_bind, ok_bind]
  constructor
  · rintro heq ⟨name, v⟩
    obtain rfl : object = object' := encodeBytes_injective (Except.ok.inj heq)
    rw [← hmembers, hmembers']
  · intro hsame
    have hobject : object.members = object'.members := by
      apply Std.ExtTreeMap.ext_getElem?
      intro name
      apply Option.ext
      intro v
      rw [hmembers, hmembers', hsame]
    cases object
    cases object'
    cases hobject
    rfl

/-- A name has one value. -/
theorem value_unique {members : List (String × CanonicalValue)}
    (h : members.Pairwise fun a b => a.1 ≠ b.1) {name : String} {v v' : CanonicalValue}
    (hv : (name, v) ∈ members) (hv' : (name, v') ∈ members) : v = v' := by
  obtain ⟨object, -, hmembers⟩ := exists_insertAll h
  have hboth := ((hmembers name v).mpr hv).symm.trans ((hmembers name v').mpr hv')
  exact Option.some.inj hboth

/-- The revisions of a map, listed between members none of which is for a section. -/
theorem mem_around_sections {first last : List (String × CanonicalValue)}
    {sections : BTreeMap String UInt64}
    (hnone : ∀ name ∈ (first ++ last).map Prod.fst, sectionOfMember name = none) {key : String}
    {revision : UInt64} :
    (SECTION_REVISION ++ key, CanonicalValue.uint revision) ∈ first ++
        sections.toList.map (fun item => (SECTION_REVISION ++ item.1, .uint item.2)) ++ last ↔
      sections[key]? = some revision := by
  have hother : (SECTION_REVISION ++ key, CanonicalValue.uint revision) ∉ first ++ last := by
    intro hmem
    have hsection := hnone _ (List.mem_map_of_mem hmem)
    rw [sectionOfMember_section] at hsection
    cases hsection
  rw [← BTreeMap.mem_toList]
  constructor
  · intro hmem
    rcases List.mem_append.mp hmem with hmem | hmem
    · rcases List.mem_append.mp hmem with hmem | hmem
      · exact absurd (List.mem_append_left _ hmem) hother
      · obtain ⟨⟨key', revision'⟩, hitem, heq⟩ := List.mem_map.mp hmem
        obtain ⟨hname, hvalue⟩ := Prod.mk.inj heq
        obtain rfl := section_name_injective hname
        obtain rfl := CanonicalValue.uint.inj hvalue
        exact hitem
    · exact absurd (List.mem_append_right _ hmem) hother
  · intro hitem
    exact List.mem_append_left _ (List.mem_append_right _ (List.mem_map_of_mem hitem))

/-! ## 2. Query plans -/

theorem planMembers_distinct (request : VoxelQueryRequest) (stamp : RevisionStamp)
    (sections : List String) (configHash : String) (budget : Nat) :
    (planMembers request stamp sections configHash budget).Pairwise fun a b => a.1 ≠ b.1 := by
  have hnames : (["schemaId", "queryId", "worldId", "context", "canonicalSections",
      "stampWorldId", "stampContextId", "generation", "worldRevision"] ++
      (stamp.sectionRevisionSet.toList.map fun item => SECTION_REVISION ++ item.1) ++
      ["configHash", "maxSections"]).Pairwise (· ≠ ·) :=
    pairwise_around_sections _ (by decide) (by decide)
  rw [← List.pairwise_map (f := Prod.fst) (R := (· ≠ ·)), planMembers, List.map_append,
    List.map_append, List.map_map]
  exact hnames

theorem mem_planMembers_section {request : VoxelQueryRequest} {stamp : RevisionStamp}
    {sections : List String} {configHash : String} {budget : Nat} {key : String}
    {revision : UInt64} :
    (SECTION_REVISION ++ key, CanonicalValue.uint revision) ∈
        planMembers request stamp sections configHash budget ↔
      stamp.sectionRevisionSet[key]? = some revision := by
  have hnone : ∀ name ∈ ["schemaId", "queryId", "worldId", "context", "canonicalSections",
      "stampWorldId", "stampContextId", "generation", "worldRevision", "configHash",
      "maxSections"], sectionOfMember name = none := by decide
  refine mem_around_sections ?_
  exact hnone

/-- The bytes a plan hash is taken of. -/
def planPreimage (request : VoxelQueryRequest) (stamp : RevisionStamp) (sections : List String)
    (configHash : String) (budget : Nat) : Except DuplicateMember Bytes :=
  preimageOf (planMembers request stamp sections configHash budget)

theorem computePlanHash_eq (request : VoxelQueryRequest) (stamp : RevisionStamp)
    (sections : List String) (configHash : String) (budget : Nat) :
    ∃ bytes, planPreimage request stamp sections configHash budget = .ok bytes ∧
      computePlanHash request stamp sections configHash budget = .ok (sha256 bytes) := by
  obtain ⟨object, hinsert, -⟩ :=
    exists_insertAll (planMembers_distinct request stamp sections configHash budget)
  refine ⟨object.encodeBytes, ?_, ?_⟩
  · rw [planPreimage, preimageOf, hinsert]
    rfl
  · rw [computePlanHash, hinsert]
    rfl

/-- Two plans for the same read: one query, the same sections of the same published state,
under one configuration and budget. -/
structure QueryPlan.Agrees (plan plan' : QueryPlan) : Prop where
  queryId : plan.cancelToken = plan'.cancelToken
  sections : plan.canonicalSections = plan'.canonicalSections
  worldId : plan.readStamp.worldId = plan'.readStamp.worldId
  contextId : plan.readStamp.contextId = plan'.readStamp.contextId
  generation : plan.readStamp.generation = plan'.readStamp.generation
  worldRevision : plan.readStamp.worldRevision = plan'.readStamp.worldRevision
  revisions : plan.readStamp.sectionRevisionSet = plan'.readStamp.sectionRevisionSet
  configHash : plan.configHash = plan'.configHash
  budget : plan.budget = plan'.budget

/-- What a plan was made of. -/
structure PlannedFrom (plan : QueryPlan) (planner : QueryPlanner) (request : VoxelQueryRequest)
    (view : PublishedReadView) (config : VoxelConfigSnapshot) (bytes : Bytes) : Prop where
  stamp : plan.readStamp = view.root.stamp
  queryId : plan.cancelToken = request.queryId
  worldId : request.worldId = view.root.stamp.worldId
  contextId : request.context = view.root.stamp.contextId
  configHash : plan.configHash = config.configHash
  budget : plan.budget = planner.maxSections
  preimage : planPreimage request view.root.stamp plan.canonicalSections config.configHash
    planner.maxSections = .ok bytes
  planHash : plan.planHash = sha256 bytes

theorem plannedFrom_of_plan {planner : QueryPlanner} {request : VoxelQueryRequest}
    {view : PublishedReadView} {config : VoxelConfigSnapshot} {plan : QueryPlan}
    (h : planner.plan request view config = .ok plan) :
    ∃ bytes, PlannedFrom plan planner request view config bytes := by
  simp only [QueryPlanner.plan, validateRequest, bind_eq_ok, require_eq_ok, pure_eq_ok,
    exists_and_left, exists_const] at h
  obtain ⟨⟨-, -, hworld, hcontext⟩, -, -, sections, -, hash, hhash, rfl⟩ := h
  obtain ⟨bytes, hbytes, hcomputed⟩ := computePlanHash_eq request view.root.stamp sections
    config.configHash planner.maxSections
  rw [hcomputed] at hhash
  exact ⟨bytes, rfl, rfl, hworld, hcontext, rfl, rfl, hbytes, (Except.ok.inj hhash).symm⟩

/-- The members of a plan spell it. -/
theorem agrees_of_members {planner planner' : QueryPlanner} {request request' : VoxelQueryRequest}
    {view view' : PublishedReadView} {config config' : VoxelConfigSnapshot} {plan plan' : QueryPlan}
    {bytes bytes' : Bytes} (h : PlannedFrom plan planner request view config bytes)
    (h' : PlannedFrom plan' planner' request' view' config' bytes')
    (hbudget : planner.maxSections < 2 ^ 64) (hbudget' : planner'.maxSections < 2 ^ 64)
    (hsame : ∀ member, member ∈ planMembers request view.root.stamp plan.canonicalSections
        config.configHash planner.maxSections ↔
      member ∈ planMembers request' view'.root.stamp plan'.canonicalSections
        config'.configHash planner'.maxSections) : plan.Agrees plan' := by
  have hvalue : ∀ name v v', (name, v) ∈ planMembers request view.root.stamp
      plan.canonicalSections config.configHash planner.maxSections →
      (name, v') ∈ planMembers request' view'.root.stamp plan'.canonicalSections
        config'.configHash planner'.maxSections → v = v' := by
    intro name v v' hv hv'
    exact value_unique (planMembers_distinct ..) ((hsame _).mp hv) hv'
  have hqueryId := hvalue "queryId" (.text request.queryId) (.text request'.queryId)
    (by simp [planMembers]) (by simp [planMembers])
  have hworldId := hvalue "stampWorldId" (.text view.root.stamp.worldId)
    (.text view'.root.stamp.worldId) (by simp [planMembers]) (by simp [planMembers])
  have hcontextId := hvalue "stampContextId" (.text view.root.stamp.contextId)
    (.text view'.root.stamp.contextId) (by simp [planMembers]) (by simp [planMembers])
  have hsections := hvalue "canonicalSections" (.textArray plan.canonicalSections)
    (.textArray plan'.canonicalSections) (by simp [planMembers]) (by simp [planMembers])
  have hgeneration := hvalue "generation" (.uint view.root.stamp.generation)
    (.uint view'.root.stamp.generation) (by simp [planMembers]) (by simp [planMembers])
  have hrevision := hvalue "worldRevision" (.uint view.root.stamp.worldRevision)
    (.uint view'.root.stamp.worldRevision) (by simp [planMembers]) (by simp [planMembers])
  have hconfig := hvalue "configHash" (.text config.configHash) (.text config'.configHash)
    (by simp [planMembers]) (by simp [planMembers])
  have hmax := hvalue "maxSections" (.uint (UInt64.ofNat planner.maxSections))
    (.uint (UInt64.ofNat planner'.maxSections)) (by simp [planMembers]) (by simp [planMembers])
  have hrevisions : view.root.stamp.sectionRevisionSet = view'.root.stamp.sectionRevisionSet := by
    apply Std.ExtTreeMap.ext_getElem?
    intro key
    apply Option.ext
    intro revision
    exact mem_planMembers_section.symm.trans ((hsame _).trans mem_planMembers_section)
  constructor
  · rw [h.queryId, h'.queryId]
    exact CanonicalValue.text.inj hqueryId
  · exact CanonicalValue.textArray.inj hsections
  · rw [h.stamp, h'.stamp]
    exact CanonicalValue.text.inj hworldId
  · rw [h.stamp, h'.stamp]
    exact CanonicalValue.text.inj hcontextId
  · rw [h.stamp, h'.stamp]
    exact CanonicalValue.uint.inj hgeneration
  · rw [h.stamp, h'.stamp]
    exact CanonicalValue.uint.inj hrevision
  · rw [h.stamp, h'.stamp]
    exact hrevisions
  · rw [h.configHash, h'.configHash]
    exact CanonicalValue.text.inj hconfig
  · rw [h.budget, h'.budget]
    have hnat := congrArg UInt64.toNat (CanonicalValue.uint.inj hmax)
    rwa [UInt64.toNat_ofNat_of_lt' hbudget, UInt64.toNat_ofNat_of_lt' hbudget'] at hnat

theorem members_of_agrees {planner planner' : QueryPlanner} {request request' : VoxelQueryRequest}
    {view view' : PublishedReadView} {config config' : VoxelConfigSnapshot} {plan plan' : QueryPlan}
    {bytes bytes' : Bytes} (h : PlannedFrom plan planner request view config bytes)
    (h' : PlannedFrom plan' planner' request' view' config' bytes') (hagrees : plan.Agrees plan') :
    planMembers request view.root.stamp plan.canonicalSections config.configHash
        planner.maxSections =
      planMembers request' view'.root.stamp plan'.canonicalSections config'.configHash
        planner'.maxSections := by
  rw [planMembers, planMembers, ← h.queryId, ← h'.queryId, h.worldId, h'.worldId, h.contextId,
    h'.contextId, ← h.stamp, ← h'.stamp, ← h.configHash, ← h'.configHash, ← h.budget, ← h'.budget,
    hagrees.queryId, hagrees.sections, hagrees.worldId, hagrees.contextId, hagrees.generation,
    hagrees.worldRevision, hagrees.revisions, hagrees.configHash, hagrees.budget]

/-- **Plan hashes identify plans.**  A plan hash is the hash of the plan's preimage, and two
plans have one preimage exactly if they are for the same read. -/
theorem plan_hashes_identify {planner planner' : QueryPlanner}
    {request request' : VoxelQueryRequest} {view view' : PublishedReadView}
    {config config' : VoxelConfigSnapshot} {plan plan' : QueryPlan}
    (h : planner.plan request view config = .ok plan)
    (h' : planner'.plan request' view' config' = .ok plan')
    (hbudget : planner.maxSections < 2 ^ 64) (hbudget' : planner'.maxSections < 2 ^ 64) :
    ∃ bytes bytes',
      planPreimage request view.root.stamp plan.canonicalSections config.configHash
        planner.maxSections = .ok bytes ∧
      planPreimage request' view'.root.stamp plan'.canonicalSections config'.configHash
        planner'.maxSections = .ok bytes' ∧
      plan.planHash = sha256 bytes ∧ plan'.planHash = sha256 bytes' ∧
      (bytes = bytes' ↔ plan.Agrees plan') := by
  obtain ⟨bytes, hplanned⟩ := plannedFrom_of_plan h
  obtain ⟨bytes', hplanned'⟩ := plannedFrom_of_plan h'
  refine ⟨bytes, bytes', hplanned.preimage, hplanned'.preimage, hplanned.planHash,
    hplanned'.planHash, ?_, ?_⟩
  · rintro rfl
    have hpreimage := hplanned.preimage.trans hplanned'.preimage.symm
    rw [planPreimage, planPreimage, preimageOf_eq_iff (planMembers_distinct ..)
      (planMembers_distinct ..)] at hpreimage
    exact agrees_of_members hplanned hplanned' hbudget hbudget' hpreimage
  · intro hagrees
    have hpreimage := hplanned.preimage
    rw [planPreimage, members_of_agrees hplanned hplanned' hagrees] at hpreimage
    exact Except.ok.inj (hpreimage.symm.trans hplanned'.preimage)

/-- The same read under two query ids. -/
theorem plan_hashes_identify_queryId :
    ∃ plan plan' bytes bytes',
      plan.planHash = sha256 bytes ∧ plan'.planHash = sha256 bytes' ∧ bytes ≠ bytes' ∧
      QueryPlanner.plan ⟨nativeConfig, 8⟩ { repeatedQuery with sectionIds := [originSection.key] }
        ⟨twoSectionRoot, ⟨twoSectionRoot.stamp, 0⟩⟩ nativeConfig = .ok plan ∧
      QueryPlanner.plan ⟨nativeConfig, 8⟩
        { repeatedQuery with queryId := "other", sectionIds := [originSection.key] }
        ⟨twoSectionRoot, ⟨twoSectionRoot.stamp, 0⟩⟩ nativeConfig = .ok plan' := by
  have hsections : SectionsOf [originSection.key] [originSection] := by
    refine ⟨by decide, ?_⟩
    intro raw
    simp only [List.mem_cons, List.not_mem_nil, or_false, exists_eq_left]
  obtain ⟨plan, hplan⟩ : ∃ plan, QueryPlanner.plan ⟨nativeConfig, 8⟩
      { repeatedQuery with sectionIds := [originSection.key] }
      ⟨twoSectionRoot, ⟨twoSectionRoot.stamp, 0⟩⟩ nativeConfig = .ok plan := by
    apply QueryPlanner.exists_plan_iff.mpr
    exact ⟨⟨rfl, by decide, by decide⟩, _, hsections⟩
  obtain ⟨plan', hplan'⟩ : ∃ plan, QueryPlanner.plan ⟨nativeConfig, 8⟩
      { repeatedQuery with queryId := "other", sectionIds := [originSection.key] }
      ⟨twoSectionRoot, ⟨twoSectionRoot.stamp, 0⟩⟩ nativeConfig = .ok plan := by
    apply QueryPlanner.exists_plan_iff.mpr
    exact ⟨⟨rfl, by decide, by decide⟩, _, hsections⟩
  have hbudget : 8 < 2 ^ 64 := by decide
  obtain ⟨bytes, bytes', -, -, hhash, hhash', hidentify⟩ :=
    plan_hashes_identify hplan hplan' hbudget hbudget
  refine ⟨plan, plan', bytes, bytes', hhash, hhash', fun heq => ?_, hplan, hplan'⟩
  have hsame := (hidentify.mp heq).queryId
  obtain ⟨_, hplanned⟩ := plannedFrom_of_plan hplan
  obtain ⟨_, hplanned'⟩ := plannedFrom_of_plan hplan'
  rw [hplanned.queryId, hplanned'.queryId] at hsame
  exact absurd hsame (by decide)

/-! ## 3. Receipts -/

theorem hex32_injective {a b : Digest} (h : hex32 a = hex32 b) : a = b := by
  have hread := readHex32_hex32 a
  rw [h, readHex32_hex32] at hread
  exact (Option.some.inj hread).symm

/-- **Receipts spell commits.**  Every commit has a receipt, and two receipts have the same
bytes exactly if they are for one transaction, between the same roots, of one request. -/
theorem receipts_identify (txnId txnId' : String)
    (oldRoot oldRoot' newRoot newRoot' fingerprint fingerprint' : Digest) :
    ∃ bytes bytes', receiptBytes txnId oldRoot newRoot fingerprint = .ok bytes ∧
      receiptBytes txnId' oldRoot' newRoot' fingerprint' = .ok bytes' ∧
      (bytes = bytes' ↔ txnId = txnId' ∧ oldRoot = oldRoot' ∧ newRoot = newRoot' ∧
        fingerprint = fingerprint') := by
  have hdistinct := pairwise_receiptMembers txnId oldRoot newRoot fingerprint
  have hdistinct' := pairwise_receiptMembers txnId' oldRoot' newRoot' fingerprint'
  have hpreimage : ∀ txnId oldRoot newRoot fingerprint bytes,
      preimageOf (receiptMembers txnId oldRoot newRoot fingerprint) = .ok bytes →
      receiptBytes txnId oldRoot newRoot fingerprint = .ok bytes := by
    intro txnId oldRoot newRoot fingerprint bytes hbytes
    obtain ⟨object, hinsert, hobject⟩ := bind_eq_ok.mp hbytes
    rw [receiptBytes, hinsert, ← Except.ok.inj hobject]
    rfl
  obtain ⟨bytes, hbytes⟩ := exists_preimageOf hdistinct
  obtain ⟨bytes', hbytes'⟩ := exists_preimageOf hdistinct'
  refine ⟨bytes, bytes', hpreimage _ _ _ _ _ hbytes, hpreimage _ _ _ _ _ hbytes', ?_, ?_⟩
  · rintro rfl
    have hsame := (preimageOf_eq_iff hdistinct hdistinct').mp (hbytes.trans hbytes'.symm)
    have hvalue : ∀ name v v', (name, v) ∈ receiptMembers txnId oldRoot newRoot fingerprint →
        (name, v') ∈ receiptMembers txnId' oldRoot' newRoot' fingerprint' → v = v' :=
      fun name v v' hv hv' => value_unique hdistinct' ((hsame _).mp hv) hv'
    have htxn := hvalue "txn_id" (.text txnId) (.text txnId') (by simp [receiptMembers])
      (by simp [receiptMembers])
    have hold := hvalue "old_root" (.text (hex32 oldRoot)) (.text (hex32 oldRoot'))
      (by simp [receiptMembers]) (by simp [receiptMembers])
    have hnew := hvalue "new_root" (.text (hex32 newRoot)) (.text (hex32 newRoot'))
      (by simp [receiptMembers]) (by simp [receiptMembers])
    have hrequest := hvalue "fingerprint" (.text (hex32 fingerprint))
      (.text (hex32 fingerprint')) (by simp [receiptMembers]) (by simp [receiptMembers])
    exact ⟨CanonicalValue.text.inj htxn, hex32_injective (CanonicalValue.text.inj hold),
      hex32_injective (CanonicalValue.text.inj hnew),
      hex32_injective (CanonicalValue.text.inj hrequest)⟩
  · rintro ⟨rfl, rfl, rfl, rfl⟩
    exact Except.ok.inj (hbytes.symm.trans hbytes')

/-! ## 4. Restore candidates -/

section Restore

variable [UnicodeTables]

theorem candidateMembers_distinct (root : PublishedStateRoot) (replacement : SectionReplacement)
    (configHash : String) :
    (candidateMembers root replacement configHash).Pairwise fun a b => a.1 ≠ b.1 := by
  have hnames : ["configHash", "contextId", "generation", "replacement", "rootIdentity", "worldId",
      "worldRevision"].Pairwise (· ≠ ·) := by decide
  rw [← List.pairwise_map (f := Prod.fst) (R := (· ≠ ·))]
  exact hnames

/-- The bytes a candidate's hash is taken of. -/
def SealedRestoreCandidate.preimage (candidate : SealedRestoreCandidate) :
    Except DuplicateMember Bytes :=
  preimageOf (candidateMembers candidate.root candidate.replacement candidate.configHash)

/-- Two candidates under one configuration whose roots have one identity and one cut, and whose
replacements have one digest. -/
structure SealedRestoreCandidate.Agrees (candidate candidate' : SealedRestoreCandidate) :
    Prop where
  configHash : candidate.configHash = candidate'.configHash
  identity : candidate.root.identity = candidate'.root.identity
  replacement : candidate.replacement.digest = candidate'.replacement.digest
  worldId : candidate.root.stamp.worldId = candidate'.root.stamp.worldId
  contextId : candidate.root.stamp.contextId = candidate'.root.stamp.contextId
  generation : candidate.root.stamp.generation = candidate'.root.stamp.generation
  worldRevision : candidate.root.stamp.worldRevision = candidate'.root.stamp.worldRevision

theorem SealedRestoreCandidate.preimage_of_hashMatches {candidate : SealedRestoreCandidate}
    (h : candidate.hashMatches = true) :
    ∃ bytes, candidate.preimage = .ok bytes ∧ candidate.candidateHash = sha256 bytes := by
  obtain ⟨object, hinsert, -⟩ := exists_insertAll
    (candidateMembers_distinct candidate.root candidate.replacement candidate.configHash)
  refine ⟨object.encodeBytes, ?_, ?_⟩
  · rw [preimage, preimageOf, hinsert]
    rfl
  · rw [hashMatches, fingerprint, hinsert] at h
    exact (of_decide_eq_true h).symm

/-- **Candidate hashes identify candidates.**  The hash a restore checks is the hash of the
candidate's preimage, and two candidates that pass have one preimage exactly if they agree on
the configuration, the identity and the cut of the root, and the digest of the replacement. -/
theorem candidate_hashes_identify {candidate candidate' : SealedRestoreCandidate}
    (h : candidate.hashMatches = true) (h' : candidate'.hashMatches = true) :
    ∃ bytes bytes', candidate.preimage = .ok bytes ∧ candidate'.preimage = .ok bytes' ∧
      candidate.candidateHash = sha256 bytes ∧ candidate'.candidateHash = sha256 bytes' ∧
      (bytes = bytes' ↔ candidate.Agrees candidate') := by
  obtain ⟨bytes, hbytes, hhash⟩ := SealedRestoreCandidate.preimage_of_hashMatches h
  obtain ⟨bytes', hbytes', hhash'⟩ := SealedRestoreCandidate.preimage_of_hashMatches h'
  refine ⟨bytes, bytes', hbytes, hbytes', hhash, hhash', ?_, ?_⟩
  · rintro rfl
    have hsame := (preimageOf_eq_iff (candidateMembers_distinct ..)
      (candidateMembers_distinct ..)).mp (hbytes.trans hbytes'.symm)
    have hvalue : ∀ name v v', (name, v) ∈ candidateMembers candidate.root candidate.replacement
        candidate.configHash → (name, v') ∈ candidateMembers candidate'.root
        candidate'.replacement candidate'.configHash → v = v' := by
      intro name v v' hv hv'
      exact value_unique (candidateMembers_distinct ..) ((hsame _).mp hv) hv'
    have hconfig := hvalue "configHash" (.text candidate.configHash) (.text candidate'.configHash)
      (by simp [candidateMembers]) (by simp [candidateMembers])
    have hidentity := hvalue "rootIdentity" (.text (hex32 candidate.root.identity))
      (.text (hex32 candidate'.root.identity)) (by simp [candidateMembers])
      (by simp [candidateMembers])
    have hreplacement := hvalue "replacement" (.text (hex32 candidate.replacement.digest))
      (.text (hex32 candidate'.replacement.digest)) (by simp [candidateMembers])
      (by simp [candidateMembers])
    have hworld := hvalue "worldId" (.text candidate.root.stamp.worldId)
      (.text candidate'.root.stamp.worldId) (by simp [candidateMembers])
      (by simp [candidateMembers])
    have hcontext := hvalue "contextId" (.text candidate.root.stamp.contextId)
      (.text candidate'.root.stamp.contextId) (by simp [candidateMembers])
      (by simp [candidateMembers])
    have hgeneration := hvalue "generation" (.uint candidate.root.stamp.generation)
      (.uint candidate'.root.stamp.generation) (by simp [candidateMembers])
      (by simp [candidateMembers])
    have hrevision := hvalue "worldRevision" (.uint candidate.root.stamp.worldRevision)
      (.uint candidate'.root.stamp.worldRevision) (by simp [candidateMembers])
      (by simp [candidateMembers])
    exact ⟨CanonicalValue.text.inj hconfig, hex32_injective (CanonicalValue.text.inj hidentity),
      hex32_injective (CanonicalValue.text.inj hreplacement), CanonicalValue.text.inj hworld,
      CanonicalValue.text.inj hcontext, CanonicalValue.uint.inj hgeneration,
      CanonicalValue.uint.inj hrevision⟩
  · intro hagrees
    rw [SealedRestoreCandidate.preimage, candidateMembers, hagrees.configHash, hagrees.identity,
      hagrees.replacement, hagrees.worldId, hagrees.contextId, hagrees.generation,
      hagrees.worldRevision] at hbytes
    exact Except.ok.inj (hbytes.symm.trans hbytes')

end Restore

/-- One root under two configurations. -/
theorem candidate_hashes_identify_config : letI := asciiOnly
    ∃ candidate candidate' : SealedRestoreCandidate, ∃ bytes bytes',
      candidate.root = candidate'.root ∧ candidate.candidateHash = sha256 bytes ∧
        candidate'.candidateHash = sha256 bytes' ∧ bytes ≠ bytes' := by
  let _ := asciiOnly
  have hsealed : ∀ configHash, ∃ candidate : SealedRestoreCandidate, candidate.root = bareRoot ∧
      candidate.configHash = configHash ∧ candidate.hashMatches = true := by
    intro configHash
    obtain ⟨hash, hhash⟩ := exists_fingerprint bareRoot ⟨∅⟩ configHash
    refine ⟨⟨bareRoot, ⟨∅⟩, 0, configHash, hash⟩, rfl, rfl, ?_⟩
    rw [SealedRestoreCandidate.hashMatches, hhash]
    exact decide_eq_true rfl
  obtain ⟨candidate, hroot, hconfig, hmatches⟩ := hsealed "first"
  obtain ⟨candidate', hroot', hconfig', hmatches'⟩ := hsealed "second"
  obtain ⟨bytes, bytes', -, -, hhash, hhash', hidentify⟩ :=
    candidate_hashes_identify hmatches hmatches'
  refine ⟨candidate, candidate', bytes, bytes', hroot.trans hroot'.symm, hhash, hhash', ?_⟩
  intro heq
  have hsame := (hidentify.mp heq).configHash
  rw [hconfig, hconfig'] at hsame
  exact absurd hsame (by decide)

end LumioVoxel
