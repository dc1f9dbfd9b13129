import LumioVoxel.SnapshotManifest

/-!
# Reading a snapshot back

What a manifest's members are, what preflight returns for them, and what the
shadow builder makes of that.  Together they say that the only root a snapshot
can become is the one with the captured stamp, one `Unchanged` slot for each
section of its revision map and nothing dirty.
-/

namespace LumioVoxel

open DebugText Fallible

/-! ## 1. Member names -/

theorem sectionOfMember_section (key : String) :
    sectionOfMember (SECTION_REVISION ++ key) = some key := by
  have hlist : (SECTION_REVISION ++ key).toList = SECTION_REVISION.toList ++ key.toList :=
    String.toList_append
  have hstarts : SECTION_REVISION.toList.isPrefixOf (SECTION_REVISION ++ key).toList = true := by
    rw [hlist, List.isPrefixOf_iff_prefix]
    exact List.prefix_append _ _
  rw [sectionOfMember, if_pos hstarts, hlist, List.drop_left, String.ofList_toList]

theorem sectionOfMember_eq_some {name key : String} (h : sectionOfMember name = some key) :
    name = SECTION_REVISION ++ key := by
  unfold sectionOfMember at h
  split at h
  · rename_i hstarts
    obtain rfl := Option.some.inj h
    apply String.toList_inj.mp
    rw [String.toList_append, String.toList_ofList]
    exact (List.prefix_iff_eq_append.mp (List.isPrefixOf_iff_prefix.mp hstarts)).symm
  · cases h

theorem section_name_injective {key key' : String}
    (h : SECTION_REVISION ++ key = SECTION_REVISION ++ key') : key = key' := by
  have hsection := sectionOfMember_section key
  rw [h, sectionOfMember_section] at hsection
  exact (Option.some.inj hsection).symm

private theorem sectionOfMember_known {name : String} (h : isKnownField name = true) :
    sectionOfMember name = none := by
  have hall : ∀ known ∈ ["schemaId", "headerSchemaId", "magic", "schemaEpoch", "worldId",
      "contextId", "generation", "worldRevision", "configHash", "rootIdentity"],
      sectionOfMember known = none := by decide
  exact hall name (List.contains_iff_mem.mp h)

/-- A section's member never has the name of another member. -/
theorem section_name_unknown {name key : String} (h : isKnownField name = true) :
    name ≠ SECTION_REVISION ++ key := by
  rintro rfl
  have hnone := sectionOfMember_known h
  rw [sectionOfMember_section] at hnone
  cases hnone

/-- Section members between fixed ones, none of which is for a section. -/
theorem pairwise_around_sections {first last : List String} (sections : BTreeMap String UInt64)
    (hfixed : (first ++ last).Pairwise (· ≠ ·))
    (hnone : ∀ name ∈ first ++ last, sectionOfMember name = none) :
    (first ++ (sections.toList.map fun item => SECTION_REVISION ++ item.1) ++ last).Pairwise
      (· ≠ ·) := by
  obtain ⟨hfirst, hlast, hapart⟩ := List.pairwise_append.mp hfixed
  have hother : ∀ name ∈ first ++ last, ∀ key, name ≠ SECTION_REVISION ++ key := by
    rintro _ hname key rfl
    have hsection := hnone _ hname
    rw [sectionOfMember_section] at hsection
    cases hsection
  have hsections : (sections.toList.map fun item => SECTION_REVISION ++ item.1).Pairwise
      (· ≠ ·) := by
    refine List.pairwise_map.mpr ((BTreeMap.pairwise_toList _).imp ?_)
    intro a b hne heq
    exact hne (section_name_injective heq)
  rw [List.pairwise_append, List.pairwise_append]
  refine ⟨⟨hfirst, hsections, ?_⟩, hlast, ?_⟩
  · intro name hname member hmember
    obtain ⟨item, -, rfl⟩ := List.mem_map.mp hmember
    exact hother name (List.mem_append_left _ hname) item.1
  · intro name hname other hlast
    rcases List.mem_append.mp hname with hname | hname
    · exact hapart name hname other hlast
    · obtain ⟨item, -, rfl⟩ := List.mem_map.mp hname
      exact (hother other (List.mem_append_right _ hlast) item.1).symm

/-! ## 2. Collecting the revisions -/

private theorem collectMember_other {sections next : BTreeMap String UInt64}
    {member : String × CanonicalValue} {key : String} (hname : member.1 ≠ SECTION_REVISION ++ key)
    (h : collectMember sections member = .ok next) : next[key]? = sections[key]? := by
  unfold collectMember at h
  split at h
  · simp only [bind_eq_ok, require_eq_ok, pure_eq_ok, exists_and_left, exists_const] at h
    rw [h.2]
  · rename_i sectionId hsection
    simp only [bind_eq_ok, require_eq_ok, someOr_eq_ok, pure_eq_ok, exists_and_left,
      exists_const] at h
    obtain ⟨-, revision, -, -, rfl⟩ := h
    refine BTreeMap.getElem?_insert_ne _ ?_ _
    rintro rfl
    exact hname (sectionOfMember_eq_some hsection)

private theorem collectMember_section {sections next : BTreeMap String UInt64} {key : String}
    {v : CanonicalValue} (h : collectMember sections (SECTION_REVISION ++ key, v) = .ok next) :
    next[key]? = v.asUint := by
  unfold collectMember at h
  simp only [sectionOfMember_section, bind_eq_ok, require_eq_ok, someOr_eq_ok, pure_eq_ok,
    exists_and_left, exists_const] at h
  obtain ⟨-, revision, hrevision, -, rfl⟩ := h
  rw [hrevision]
  exact Std.ExtTreeMap.getElem?_insert_self

/-- The collected revision of a section is the integer in its member. -/
theorem getElem?_collectSectionRevisions {fields : CanonicalObject}
    {sections : BTreeMap String UInt64} (h : collectSectionRevisions fields = .ok sections)
    (key : String) :
    sections[key]? = fields.members[SECTION_REVISION ++ key]?.bind CanonicalValue.asUint := by
  have hother : ∀ (m : BTreeMap String UInt64) (member : String × CanonicalValue) m',
      ¬ member.1 = SECTION_REVISION ++ key → collectMember m member = .ok m' → m'[key]? = m[key]? :=
    fun m member m' hname hstep => collectMember_other hname hstep
  cases hmember : fields.members[SECTION_REVISION ++ key]? with
  | none =>
    have hnone := foldSteps_other (fun m => m[key]?) hother h fun member hmem heq => by
      rw [← heq, BTreeMap.mem_toList.mp hmem] at hmember
      cases hmember
    rw [hnone]
    exact BTreeMap.getElem?_empty key
  | some v =>
    obtain ⟨m₁, m₂, hstep, -, hm₂⟩ := foldSteps_named (fun m => m[key]?) hother
      (BTreeMap.pairwise_names fields.members (SECTION_REVISION ++ key)) h
      (a := (SECTION_REVISION ++ key, v)) (BTreeMap.mem_toList.mpr hmember) rfl
    rw [hm₂, collectMember_section hstep]
    rfl

/-- Collecting goes through when every member is known or is a section's integer. -/
theorem exists_collectSectionRevisions {fields : CanonicalObject}
    (h : ∀ name v, fields.members[name]? = some v → isKnownField name = true ∨
      ∃ key revision, key ≠ "" ∧ name = SECTION_REVISION ++ key ∧ v = .uint revision) :
    ∃ sections, collectSectionRevisions fields = .ok sections := by
  -- the sections still to come have no revision yet
  let P (sections : BTreeMap String UInt64) (rest : List (String × CanonicalValue)) : Prop :=
    (∀ member ∈ rest, fields.members[member.1]? = some member.2) ∧
      rest.Pairwise (fun a b => a.1 ≠ b.1) ∧
      ∀ member ∈ rest, ∀ key, member.1 = SECTION_REVISION ++ key → sections[key]? = none
  have hstart : P ∅ fields.members.toList :=
    ⟨fun member hmem => BTreeMap.mem_toList.mp hmem, BTreeMap.pairwise_toList _,
      fun _ _ key _ => BTreeMap.getElem?_empty key⟩
  have hstep : ∀ sections member rest, P sections (member :: rest) →
      ∃ next, collectMember sections member = .ok next ∧ P next rest := by
    intro sections member rest hP
    obtain ⟨hin, hdistinct, hfree⟩ := hP
    obtain ⟨hhead, htail⟩ := List.pairwise_cons.mp hdistinct
    have hin' : ∀ m ∈ rest, fields.members[m.1]? = some m.2 :=
      fun m hm => hin m (List.mem_cons_of_mem _ hm)
    rcases h member.1 member.2 (hin member List.mem_cons_self) with
      hknown | ⟨key, revision, hkey, hname, hvalue⟩
    · refine ⟨sections, ?_, hin', htail, fun m hm => hfree m (List.mem_cons_of_mem _ hm)⟩
      simp only [collectMember, sectionOfMember_known hknown, require_of hknown, ok_bind]
      rfl
    · refine ⟨sections.insert key revision, ?_, hin', htail, fun m hm key' hname' => ?_⟩
      · have hfresh := hfree member List.mem_cons_self key hname
        simp only [collectMember, hname, sectionOfMember_section, require_of hkey, hvalue,
          CanonicalValue.asUint, someOr, ok_bind, require_of hfresh]
        rfl
      · have hne : key ≠ key' := by
          rintro rfl
          exact hhead m hm (hname.trans hname'.symm)
        rw [BTreeMap.getElem?_insert_ne _ hne]
        exact hfree m (List.mem_cons_of_mem _ hm) key' hname'
  obtain ⟨sections, hsections, -⟩ := foldSteps_progress hstep hstart
  exact ⟨sections, hsections⟩

/-! ## 3. The members of a manifest -/

section Manifests

variable [UnicodeTables]

private theorem pairwise_manifestMembers (capture : VoxelCaptureRef) :
    (manifestMembers capture).Pairwise fun a b => a.1 ≠ b.1 := by
  rw [← List.pairwise_map (f := Prod.fst) (R := (· ≠ ·))]
  have hnames : (manifestMembers capture).map Prod.fst =
      ["schemaId", "headerSchemaId", "magic", "schemaEpoch", "worldId", "contextId", "generation",
        "worldRevision"] ++
      (capture.root.stamp.sectionRevisionSet.toList.map fun item => SECTION_REVISION ++ item.1) ++
      ["configHash", "rootIdentity"] := by
    simp [manifestMembers]
  rw [hnames]
  apply pairwise_around_sections
  · decide
  · decide

/-- Every capture has a manifest, and its members are exactly the listed ones. -/
theorem exists_manifest (capture : VoxelCaptureRef) :
    ∃ object, ManifestAdapter.object capture = .ok object ∧ ∀ name v,
      object.members[name]? = some v ↔ (name, v) ∈ manifestMembers capture := by
  obtain ⟨object, hall, hmembers⟩ := exists_insertAll (pairwise_manifestMembers capture)
  exact ⟨object, mapError_eq_ok.mpr hall, hmembers⟩

theorem manifest_getElem? {capture : VoxelCaptureRef} {object : CanonicalObject}
    (h : ManifestAdapter.object capture = .ok object) (name : String) (v : CanonicalValue) :
    object.members[name]? = some v ↔ (name, v) ∈ manifestMembers capture := by
  obtain ⟨object', hobject, hmembers⟩ := exists_manifest capture
  obtain rfl := Except.ok.inj (h.symm.trans hobject)
  exact hmembers name v

theorem manifest_section {capture : VoxelCaptureRef} {object : CanonicalObject}
    (h : ManifestAdapter.object capture = .ok object) (key : String) :
    object.members[SECTION_REVISION ++ key]?.bind CanonicalValue.asUint =
      capture.root.stamp.sectionRevisionSet[key]? := by
  have hmem : ∀ v, object.members[SECTION_REVISION ++ key]? = some v ↔
      ∃ revision, capture.root.stamp.sectionRevisionSet[key]? = some revision ∧
        v = .uint revision := by
    intro v
    have hfixed : ∀ name, isKnownField name = true → name ≠ SECTION_REVISION ++ key :=
      fun name hname => section_name_unknown hname
    rw [manifest_getElem? h]
    constructor
    · intro hin
      simp only [manifestMembers, List.mem_append, List.mem_cons, List.not_mem_nil, or_false,
        Prod.mk.injEq, List.mem_map] at hin
      rcases hin with (hin | ⟨item, hitem, hname, rfl⟩) | hin
      · rcases hin with ⟨hname, -⟩ | ⟨hname, -⟩ | ⟨hname, -⟩ | ⟨hname, -⟩ | ⟨hname, -⟩ |
          ⟨hname, -⟩ | ⟨hname, -⟩ | ⟨hname, -⟩
        all_goals exact absurd hname.symm (hfixed _ (by decide))
      · obtain rfl := section_name_injective hname
        exact ⟨item.2, BTreeMap.mem_toList.mp hitem, rfl⟩
      · rcases hin with ⟨hname, -⟩ | ⟨hname, -⟩
        all_goals exact absurd hname.symm (hfixed _ (by decide))
    · rintro ⟨revision, hrevision, rfl⟩
      refine List.mem_append.mpr (.inl (List.mem_append.mpr (.inr ?_)))
      exact List.mem_map.mpr ⟨(key, revision), BTreeMap.mem_toList.mpr hrevision, rfl⟩
  cases hrevision : capture.root.stamp.sectionRevisionSet[key]? with
  | none =>
    cases hv : object.members[SECTION_REVISION ++ key]? with
    | none => rfl
    | some v =>
      obtain ⟨revision, hsome, -⟩ := (hmem v).mp hv
      rw [hrevision] at hsome
      cases hsome
  | some revision =>
    rw [(hmem _).mpr ⟨revision, hrevision, rfl⟩]
    rfl

private theorem manifest_text {capture : VoxelCaptureRef} {object : CanonicalObject}
    (h : ManifestAdapter.object capture = .ok object) {name value : String}
    (hmem : (name, CanonicalValue.text value) ∈ manifestMembers capture) :
    requireText object name = .ok value := by
  rw [requireText, (manifest_getElem? h name _).mpr hmem]
  rfl

private theorem manifest_uint {capture : VoxelCaptureRef} {object : CanonicalObject}
    (h : ManifestAdapter.object capture = .ok object) {name : String} {value : UInt64}
    (hmem : (name, CanonicalValue.uint value) ∈ manifestMembers capture) :
    requireUint object name = .ok value := by
  rw [requireUint, (manifest_getElem? h name _).mpr hmem]
  rfl

/-! ## 4. Preflight of a manifest -/

/-- The captured fields, as preflight returns them. -/
def VoxelCaptureRef.decoded (capture : VoxelCaptureRef) : DecodedRestore :=
  ⟨capture.root.stamp.worldId, capture.root.stamp.contextId, capture.root.stamp.generation,
    capture.root.stamp.worldRevision, capture.root.stamp.sectionRevisionSet, capture.configHash,
    capture.root.identity⟩

omit [UnicodeTables] in
theorem encodeBytes_ne_nil (object : CanonicalObject) : object.encodeBytes ≠ [] := by
  intro hnil
  have hempty : object.encode = "" := utf8_injective (t := "") (hnil.trans (by decide))
  have hlist := congrArg String.toList hempty
  rw [CanonicalObject.encode, String.toList_ofList] at hlist
  cases hlist

/-- Preflight of a manifest: what it checks and what it returns. -/
theorem validate_manifest_eq_ok {capture : VoxelCaptureRef} {object : CanonicalObject}
    (h : ManifestAdapter.object capture = .ok object) {expectedWorldId : String}
    {expectedGeneration : UInt64} {snapshot : VoxelConfigSnapshot} {decoded : DecodedRestore} :
    RestorePreflight.validate object.encodeBytes expectedWorldId expectedGeneration snapshot =
        .ok decoded ↔
      (capture.root.stamp.worldId = expectedWorldId ∧
        capture.root.stamp.generation = expectedGeneration ∧
        capture.configHash = snapshot.configHash) ∧
      (∃ sections, collectSectionRevisions object = .ok sections) ∧ decoded = capture.decoded := by
  have hdecode : decodeCanonicalObject object.encodeBytes = .ok object := by
    simp only [decodeCanonicalObject, require_of (encodeBytes_ne_nil object), ok_bind,
      decode_encodeBytes, mapError_ok]
  have hhex : parseHex32 (hex32 capture.root.identity) = .ok capture.root.identity := by
    simp only [parseHex32, require_of (isHash256_hex32 _), ok_bind, readHex32_hex32, someOr]
  have hsections : ∀ sections, collectSectionRevisions object = .ok sections →
      sections = capture.root.stamp.sectionRevisionSet := by
    intro sections hcollect
    apply Std.ExtTreeMap.ext_getElem?
    intro key
    rw [getElem?_collectSectionRevisions hcollect, manifest_section h]
  have hschema : requireText object "schemaId" = .ok SNAPSHOT_PAYLOAD_SCHEMA :=
    manifest_text h (by simp [manifestMembers])
  have hheader : requireText object "headerSchemaId" = .ok SNAPSHOT_HEADER_SCHEMA :=
    manifest_text h (by simp [manifestMembers])
  have hmagic : requireText object "magic" = .ok SNAPSHOT_MAGIC :=
    manifest_text h (by simp [manifestMembers])
  have hepoch : requireUint object "schemaEpoch" = .ok SNAPSHOT_SCHEMA_EPOCH :=
    manifest_uint h (by simp [manifestMembers])
  have hworld : requireText object "worldId" = .ok capture.root.stamp.worldId :=
    manifest_text h (by simp [manifestMembers])
  have hcontext : requireText object "contextId" = .ok capture.root.stamp.contextId :=
    manifest_text h (by simp [manifestMembers])
  have hgen : requireUint object "generation" = .ok capture.root.stamp.generation :=
    manifest_uint h (by simp [manifestMembers])
  have hrevision : requireUint object "worldRevision" = .ok capture.root.stamp.worldRevision :=
    manifest_uint h (by simp [manifestMembers])
  have hconfig : requireText object "configHash" = .ok capture.configHash :=
    manifest_text h (by simp [manifestMembers])
  have hroot : requireText object "rootIdentity" = .ok (hex32 capture.root.identity) :=
    manifest_text h (by simp [manifestMembers])
  simp only [RestorePreflight.validate, hdecode, hschema, hheader, hmagic, hepoch, hworld, hcontext,
    hgen, hrevision, hconfig, hroot, hhex, ok_bind, bind_eq_ok, require_eq_ok, pure_eq_ok,
    exists_and_left, exists_const]
  constructor
  · rintro ⟨-, -, -, hw, hg, ⟨-, hc⟩, sections, hcollect, rfl⟩
    refine ⟨⟨hw, hg, hc⟩, ⟨sections, hcollect⟩, ?_⟩
    rw [hsections sections hcollect]
    rfl
  · rintro ⟨⟨hw, hg, hc⟩, ⟨sections, hcollect⟩, rfl⟩
    refine ⟨hw ▸ capture.worldId_ne, ⟨trivial, trivial, trivial, trivial⟩,
      ⟨capture.worldId_ne, capture.contextId_ne⟩, hw, hg, ⟨capture.configHash_isHash, hc⟩, sections,
      hcollect, ?_⟩
    rw [hsections sections hcollect]
    rfl

/-- With a non-empty key for every section nothing stops the collection. -/
theorem exists_collect_manifest {capture : VoxelCaptureRef} {object : CanonicalObject}
    (h : ManifestAdapter.object capture = .ok object)
    (hkeys : ∀ key revision, capture.root.stamp.sectionRevisionSet[key]? = some revision →
      key ≠ "") : ∃ sections, collectSectionRevisions object = .ok sections := by
  apply exists_collectSectionRevisions
  intro name v hmember
  have hin := (manifest_getElem? h name v).mp hmember
  simp only [manifestMembers, List.mem_append, List.mem_cons, List.not_mem_nil, or_false,
    Prod.mk.injEq, List.mem_map] at hin
  rcases hin with (hin | ⟨item, hitem, rfl, rfl⟩) | hin
  · rcases hin with ⟨rfl, -⟩ | ⟨rfl, -⟩ | ⟨rfl, -⟩ | ⟨rfl, -⟩ | ⟨rfl, -⟩ | ⟨rfl, -⟩ | ⟨rfl, -⟩ |
      ⟨rfl, -⟩
    all_goals exact .inl (by decide)
  · exact .inr ⟨item.1, item.2, hkeys _ _ (BTreeMap.mem_toList.mp hitem), rfl, rfl⟩
  · rcases hin with ⟨rfl, -⟩ | ⟨rfl, -⟩
    all_goals exact .inl (by decide)

/-! ## 5. The shadow root -/

/-- What the builder makes of decoded fields. -/
structure ShadowOf (decoded : DecodedRestore) (candidate : SealedRestoreCandidate) : Prop where
  stamp : candidate.root.stamp = ⟨REVISION_STAMP_SCHEMA, decoded.worldId, decoded.contextId,
    decoded.generation, decoded.worldRevision, decoded.sectionRevisionSet⟩
  canonical : ∀ key revision, decoded.sectionRevisionSet[key]? = some revision →
    ∃ id : SectionId, key = id.key
  directory : ∀ id : SectionId, candidate.root.directory.entries[id]? =
    decoded.sectionRevisionSet[id.key]?.map fun _ => SectionSlot.unchanged
  dirtyFrontier : candidate.root.dirtyFrontier = ⟨decoded.worldId, decoded.generation, ∅⟩
  replacement : candidate.replacement = ⟨∅⟩
  worldRevision : candidate.worldRevision = decoded.worldRevision
  configHash : candidate.configHash = decoded.configHash
  hashMatches : candidate.hashMatches = true

omit [UnicodeTables] in
private theorem shadowDirectory_eq_ok {sections : BTreeMap String UInt64}
    {directory : SectionDirectoryRoot} (h : shadowDirectory sections = .ok directory) :
    (∀ key revision, sections[key]? = some revision → ∃ id : SectionId, key = id.key) ∧
      ∀ id : SectionId, directory.entries[id]? =
        sections[id.key]?.map fun _ => SectionSlot.unchanged := by
  simp only [shadowDirectory, bind_eq_ok, pure_eq_ok] at h
  obtain ⟨builder, hfold, rfl⟩ := h
  have hother : ∀ id : SectionId, ∀ b (item : String × UInt64) b', ¬ item.1 = id.key →
      (SectionDirectoryBuilder.insert b item.1 .unchanged).mapError RestoreError.fromSection =
        .ok b' → b'.entries[id]? = b.entries[id]? := by
    intro id b item b' hne hstep
    obtain ⟨named, hname, rfl⟩ := SectionDirectoryBuilder.insert_eq_ok (mapError_eq_ok.mp hstep)
    refine BTreeMap.getElem?_insert_ne _ ?_ _
    rintro rfl
    exact hne hname
  constructor
  · intro key revision hkey
    obtain ⟨b₁, b₂, hstep, -⟩ := foldSteps_named (fun _ : SectionDirectoryBuilder => ())
      (N := fun item : String × UInt64 => item.1 = key) (fun _ _ _ _ _ => rfl)
      (BTreeMap.pairwise_names sections key) hfold (a := (key, revision))
      (BTreeMap.mem_toList.mpr hkey) rfl
    obtain ⟨id, hid, -⟩ := SectionDirectoryBuilder.insert_eq_ok (mapError_eq_ok.mp hstep)
    exact ⟨id, hid⟩
  · intro id
    cases hrevision : sections[id.key]? with
    | none =>
      have hnone := foldSteps_other (fun b : SectionDirectoryBuilder => b.entries[id]?) (hother id)
        hfold fun item hitem heq => by
          rw [← heq, BTreeMap.mem_toList.mp hitem] at hrevision
          cases hrevision
      exact hnone.trans (BTreeMap.getElem?_empty id)
    | some revision =>
      obtain ⟨b₁, b₂, hstep, -, hb₂⟩ := foldSteps_named
        (fun b : SectionDirectoryBuilder => b.entries[id]?) (hother id)
        (BTreeMap.pairwise_names sections id.key) hfold (a := (id.key, revision))
        (BTreeMap.mem_toList.mpr hrevision) rfl
      obtain ⟨named, hname, rfl⟩ := SectionDirectoryBuilder.insert_eq_ok (mapError_eq_ok.mp hstep)
      obtain rfl := SectionId.key_injective hname
      exact hb₂.trans Std.ExtTreeMap.getElem?_insert_self

omit [UnicodeTables] in
private theorem exists_shadowDirectory {sections : BTreeMap String UInt64}
    (hkeys : ∀ key revision, sections[key]? = some revision → ∃ id : SectionId, key = id.key) :
    ∃ directory, shadowDirectory sections = .ok directory := by
  let P (_ : SectionDirectoryBuilder) (rest : List (String × UInt64)) : Prop :=
    ∀ item ∈ rest, ∃ id : SectionId, item.1 = id.key
  have hstart : P .new sections.toList :=
    fun item hitem => hkeys item.1 item.2 (BTreeMap.mem_toList.mp hitem)
  have hstep : ∀ builder (item : String × UInt64) rest, P builder (item :: rest) → ∃ next,
      (SectionDirectoryBuilder.insert builder item.1 .unchanged).mapError RestoreError.fromSection =
        .ok next ∧ P next rest := by
    intro builder item rest hP
    obtain ⟨id, hid⟩ := hP item List.mem_cons_self
    have hrest : P ⟨builder.entries.insert id .unchanged⟩ rest :=
      fun other hother => hP other (List.mem_cons_of_mem _ hother)
    refine ⟨⟨builder.entries.insert id .unchanged⟩, ?_, hrest⟩
    rw [hid, SectionDirectoryBuilder.insert_key]
    rfl
  obtain ⟨builder, hbuilder, -⟩ := foldSteps_progress hstep hstart
  rw [shadowDirectory, hbuilder]
  exact ⟨_, rfl⟩

theorem exists_fingerprint (root : PublishedStateRoot) (replacement : SectionReplacement)
    (configHash : String) : ∃ hash, fingerprint root replacement configHash = .ok hash := by
  have hnames : (candidateMembers root replacement configHash).Pairwise fun a b => a.1 ≠ b.1 := by
    rw [← List.pairwise_map (f := Prod.fst) (R := (· ≠ ·))]
    show ["configHash", "contextId", "generation", "replacement", "rootIdentity", "worldId",
      "worldRevision"].Pairwise (· ≠ ·)
    decide
  obtain ⟨object, hall, -⟩ := exists_insertAll hnames
  rw [fingerprint, hall]
  exact ⟨_, rfl⟩

theorem shadow_of_build {decoded : DecodedRestore} {candidate : SealedRestoreCandidate}
    (h : RestoreShadowBuilder.build decoded = .ok candidate) : ShadowOf decoded candidate := by
  simp only [RestoreShadowBuilder.build, bind_eq_ok, mapError_eq_ok, pure_eq_ok,
    SectionDeltaBuilder.freeze_new, DirtyFrontier.new, require_eq_ok, exists_and_left,
    exists_const, Except.ok.injEq, exists_eq_left'] at h
  obtain ⟨directory, hdirectory, dirty, ⟨-, rfl⟩, hash, hhash, rfl⟩ := h
  obtain ⟨hcanonical, hslots⟩ := shadowDirectory_eq_ok hdirectory
  refine ⟨?_, hcanonical, hslots, rfl, rfl, rfl, rfl, ?_⟩
  · show toRevisionStamp _ _ _ _ _ = _
    rw [toRevisionStamp, BTreeMap.foldl_insert_toList]
  · rw [SealedRestoreCandidate.hashMatches, hhash]
    exact decide_eq_true rfl

theorem exists_shadow {decoded : DecodedRestore} (hworld : decoded.worldId ≠ "")
    (hkeys : ∀ key revision, decoded.sectionRevisionSet[key]? = some revision →
      ∃ id : SectionId, key = id.key) :
    ∃ candidate, RestoreShadowBuilder.build decoded = .ok candidate := by
  obtain ⟨directory, hdirectory⟩ := exists_shadowDirectory hkeys
  have hdirty : DirtyFrontier.new decoded.worldId decoded.generation =
      .ok ⟨decoded.worldId, decoded.generation, ∅⟩ := by
    rw [DirtyFrontier.new, require_of hworld]
    rfl
  simp only [RestoreShadowBuilder.build, hdirectory, hdirty, ok_bind, mapError_ok,
    SectionDeltaBuilder.freeze_new]
  obtain ⟨hash, hhash⟩ := exists_fingerprint (PublishedStateRoot.new
    (toRevisionStamp decoded.worldId decoded.contextId decoded.generation decoded.worldRevision
      decoded.sectionRevisionSet.toList) directory ⟨decoded.worldId, decoded.generation, ∅⟩)
    ⟨∅⟩ decoded.configHash
  rw [hhash]
  exact ⟨_, rfl⟩

/-! ## 6. The whole chain -/

/-- What a successful encoding appends to its writer. -/
theorem encodeCapture_eq_ok {capture : VoxelCaptureRef} {writer writer' : MemoryCaptureWriter}
    {metadata : CaptureMetadata} (h : encodeCapture capture writer = .ok (metadata, writer')) :
    ∃ object, ManifestAdapter.object capture = .ok object ∧
      writer'.buf = writer.buf ++ object.encodeBytes := by
  simp only [encodeCapture, MemoryCaptureWriter.write_eq_ok, bind_eq_ok, require_eq_ok,
    mapError_eq_ok, pure_eq_ok, exists_and_left, exists_const] at h
  obtain ⟨-, -, object, hobject, -, -, writer', ⟨-, -, rfl⟩, hout⟩ := h
  obtain ⟨-, rfl⟩ := Prod.mk.inj hout
  exact ⟨object, hobject, rfl⟩

theorem encodeCapture_new {capture : VoxelCaptureRef} {cap : Nat} {metadata : CaptureMetadata}
    {writer : MemoryCaptureWriter}
    (h : encodeCapture capture (.new cap) = .ok (metadata, writer)) :
    ∃ object, ManifestAdapter.object capture = .ok object ∧ writer.buf = object.encodeBytes :=
  encodeCapture_eq_ok h

/-- A fresh writer with room takes every capture. -/
theorem exists_encode (capture : VoxelCaptureRef) :
    ∃ cap metadata writer, encodeCapture capture (.new cap) = .ok (metadata, writer) := by
  obtain ⟨object, hobject, hmembers⟩ := exists_manifest capture
  have hconfig : capture.configHash ≠ "" := by
    intro hempty
    have hhash := capture.configHash_isHash
    rw [hempty] at hhash
    exact absurd hhash (by decide)
  have hnonempty : object.members.isEmpty = false := by
    rw [Std.ExtTreeMap.isEmpty_eq_false_iff]
    intro hempty
    have hschema := (hmembers "schemaId" (.text SNAPSHOT_PAYLOAD_SCHEMA)).mpr
      (by simp [manifestMembers])
    rw [hempty, BTreeMap.getElem?_empty] at hschema
    cases hschema
  have hwrite : (MemoryCaptureWriter.new object.encodeBytes.length).write object.encodeBytes =
      .ok ⟨[] ++ object.encodeBytes, object.encodeBytes.length, false⟩ :=
    MemoryCaptureWriter.write_eq_ok.mpr ⟨rfl, Nat.le_of_eq (Nat.zero_add _), rfl⟩
  refine ⟨object.encodeBytes.length, ?_⟩
  simp only [encodeCapture]
  rw [require_of (show (MemoryCaptureWriter.new _).cancelled = false from rfl), ok_bind,
    require_of ⟨hconfig, capture.worldId_ne⟩, ok_bind, hobject]
  simp only [mapError_ok, ok_bind, require_of hnonempty, require_of (encodeBytes_ne_nil object),
    hwrite]
  exact ⟨_, _, rfl⟩

theorem VoxelCaptureRef.root_of_new {view : PublishedReadView} {pin : RevisionPin}
    {evidence : CutEvidence} {capture : VoxelCaptureRef}
    (h : VoxelCaptureRef.new view pin evidence = .ok capture) :
    capture.root = view.root ∧ capture.configHash = evidence.configHash := by
  unfold VoxelCaptureRef.new at h
  split at h
  · obtain rfl := Except.ok.inj h
    exact ⟨rfl, rfl⟩
  · cases h

/-- **Snapshot round trip.** What one encoding of a capture writes is read back as the
captured cut, and rebuilt under the captured stamp. -/
theorem snapshot_round_trip (authority : PublicationAuthority) (view : PublishedReadView)
    (pin : RevisionPin) (evidence : CutEvidence) (capture : VoxelCaptureRef)
    (writer writer' : MemoryCaptureWriter) (metadata : CaptureMetadata)
    (snapshot : VoxelConfigSnapshot) (hview : view.root = authority.root)
    (hnew : VoxelCaptureRef.new view pin evidence = .ok capture)
    (hkeys : ∀ key revision, capture.root.stamp.sectionRevisionSet[key]? = some revision →
      ∃ id : SectionId, key = id.key)
    (hconfig : capture.configHash = snapshot.configHash)
    (hencode : encodeCapture capture writer = .ok (metadata, writer')) :
    ∃ bytes candidate, writer'.buf = writer.buf ++ bytes ∧
      RestorePreflight.validate bytes capture.root.stamp.worldId capture.root.stamp.generation
        snapshot = .ok capture.decoded ∧
      RestoreShadowBuilder.build capture.decoded = .ok candidate ∧
      candidate.root.stamp = capture.root.stamp ∧ candidate.hashMatches = true := by
  obtain ⟨object, hobject, hbytes⟩ := encodeCapture_eq_ok hencode
  have hne : ∀ key revision, capture.root.stamp.sectionRevisionSet[key]? = some revision →
      key ≠ "" := by
    rintro key revision hkey rfl
    obtain ⟨id, hid⟩ := hkeys _ _ hkey
    exact id.key_ne_empty hid.symm
  have hschema : capture.root.stamp.schemaId = REVISION_STAMP_SCHEMA := by
    rw [(VoxelCaptureRef.root_of_new hnew).1, hview]
    exact authority.root_belongs.1
  obtain ⟨candidate, hbuild⟩ : ∃ candidate,
      RestoreShadowBuilder.build capture.decoded = .ok candidate :=
    exists_shadow capture.worldId_ne hkeys
  have hshadow := shadow_of_build hbuild
  refine ⟨object.encodeBytes, candidate, hbytes, ?_, hbuild, ?_, hshadow.hashMatches⟩
  · exact (validate_manifest_eq_ok hobject).mpr
      ⟨⟨rfl, rfl, hconfig⟩, exists_collect_manifest hobject hne, rfl⟩
  · rw [hshadow.stamp, ← hschema]
    rfl

/-- A section west of the origin. -/
def westSection : SectionId := ⟨-1, 2, 3, by decide, by decide, by decide⟩

/-- A cut of a world whose names need escapes, with one section revision. -/
def quotedRoot : PublishedStateRoot :=
  .new (toRevisionStamp "w\".1" "c\\\n" 3 5 [(westSection.key, 4)]) ⟨∅⟩ ⟨"w\".1", 3, ∅⟩

def zeroHash : String := "0000000000000000000000000000000000000000000000000000000000000000"

omit [UnicodeTables] in
/-- The chain, end to end, for that cut. -/
theorem snapshot_round_trip_quoted : letI := asciiOnly
    ∃ (capture : VoxelCaptureRef) (bytes : Bytes) (candidate : SealedRestoreCandidate),
      capture.root = quotedRoot ∧
      RestorePreflight.validate bytes "w\".1" 3 ⟨zeroHash, [], by decide⟩ = .ok capture.decoded ∧
      RestoreShadowBuilder.build capture.decoded = .ok candidate ∧
      candidate.root.stamp = quotedRoot.stamp ∧ candidate.hashMatches = true := by
  let _ := asciiOnly
  obtain ⟨authority, -, hroot, -⟩ := PublicationAuthority.new_of
    (show "w\".1" ≠ "" ∧ "c\\\n" ≠ "" by decide)
    (show quotedRoot.stamp.BelongsTo "w\".1" "c\\\n" 3 from ⟨rfl, rfl, rfl, rfl⟩)
    (show 1 + 1 ≤ 8 by decide) (by decide)
  let view : PublishedReadView := ⟨quotedRoot, ⟨quotedRoot.stamp, 0⟩⟩
  let evidence : CutEvidence := ⟨"w\".1", "c\\\n", 3, 5, zeroHash, quotedRoot.identity⟩
  obtain ⟨capture, hnew⟩ : ∃ capture, VoxelCaptureRef.new view view.lease evidence = .ok capture := by
    unfold VoxelCaptureRef.new
    rw [dif_pos ⟨by decide, by decide, by decide, rfl, rfl, rfl, rfl, rfl, rfl, rfl⟩]
    exact ⟨_, rfl⟩
  obtain ⟨hcapture, hconfig⟩ := VoxelCaptureRef.root_of_new hnew
  have hcapture : capture.root = quotedRoot := hcapture
  obtain ⟨cap, metadata, writer, hencode⟩ := exists_encode capture
  have hkeys : ∀ key revision, capture.root.stamp.sectionRevisionSet[key]? = some revision →
      ∃ id : SectionId, key = id.key := by
    intro key revision hkey
    rw [hcapture] at hkey
    by_cases hsame : westSection.key = key
    · exact ⟨westSection, hsame.symm⟩
    · have hnone : quotedRoot.stamp.sectionRevisionSet[key]? = none :=
        (BTreeMap.getElem?_insert_ne _ hsame _).trans (BTreeMap.getElem?_empty key)
      cases hnone.symm.trans hkey
  obtain ⟨bytes, candidate, -, hvalidate, hbuild, hstamp, hmatches⟩ :=
    snapshot_round_trip authority view view.lease evidence capture (.new cap) writer metadata
      ⟨zeroHash, [], by decide⟩ hroot.symm hnew hkeys hconfig hencode
  rw [hcapture] at hvalidate hstamp
  exact ⟨capture, bytes, candidate, hcapture, hvalidate, hbuild, hstamp, hmatches⟩

end Manifests

end LumioVoxel
