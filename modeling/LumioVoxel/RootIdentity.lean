import LumioVoxel.CanonicalPayloads
import LumioVoxel.DigestEvaluation
import LumioVoxel.HexDigests
import LumioVoxel.Publication
import LumioVoxel.SectionDebugTexts

/-!
# Root identity

The bytes whose hash identifies a root spell what the root shows.  Their parts stand side by
side without lengths: each is either delimited by itself, or a list of records which what
follows cannot be taken for.
-/

namespace LumioVoxel

open DebugText

/-! ## 1. Texts as bytes -/

theorem selfDelimiting_utf8EncodeChar :
    SelfDelimiting (fun _ : Char => True) String.utf8EncodeChar := by
  intro c c' rest rest' _ _ _ _ heq
  have hbytes := congrArg List.toByteArray heq
  rw [List.toByteArray_append, List.toByteArray_append] at hbytes
  have hread := ByteArray.utf8DecodeChar?_utf8EncodeChar_append (b := rest.toByteArray) (c := c)
  rw [hbytes, ByteArray.utf8DecodeChar?_utf8EncodeChar_append] at hread
  obtain rfl := Option.some.inj hread
  exact ⟨rfl, List.append_cancel_left heq⟩

/-- A self-delimiting text is so in UTF-8. -/
theorem selfDelimiting_utf8 {β : Type} {P : β → Prop} {f : β → Text} (hf : SelfDelimiting P f) :
    SelfDelimiting P fun b => utf8 (String.ofList (f b)) := by
  simp only [utf8_ofList]
  exact SelfDelimiting.spelledIn selfDelimiting_utf8EncodeChar hf

/-- A canonical key and a zero byte. -/
theorem selfDelimiting_key :
    SelfDelimiting (fun _ : SectionId => True) fun id => utf8 id.key ++ [0] := by
  have hx := delimited_int.suffixed [':'] fun rest => ends_cons (by decide) rest
  have hy := delimited_nat.suffixed [':'] fun rest => ends_cons (by decide) rest
  have hz := delimited_int.suffixed ['\x00'] fun rest => ends_cons (by decide) rest
  have htext := ((hx.seq hy).seq hz).prefixed ['s', ':']
  have hspell : ∀ id : SectionId, utf8 id.key ++ [0] = utf8 (String.ofList (['s', ':'] ++
      (int id.x ++ [':'] ++ (nat id.y ++ [':']) ++ (int id.z ++ ['\x00'])))) := by
    intro id
    have hkey : ['s', ':'] ++ (int id.x ++ [':'] ++ (nat id.y ++ [':']) ++ (int id.z ++ ['\x00'])) =
        id.key.toList ++ ['\x00'] := by
      rw [SectionId.toList_key]
      simp only [int, nat, List.append_assoc, List.cons_append, List.nil_append]
    rw [hkey, utf8_ofList, List.flatMap_append, ← utf8_ofList, String.ofList_toList]
    rfl
  simp only [hspell]
  apply Delimited.comap (k := fun id : SectionId => ((id.x, id.y), id.z))
    (selfDelimiting_utf8 htext)
  · exact fun _ _ => ⟨⟨trivial, trivial⟩, trivial⟩
  · intro id id' _ _ h
    simp only [Prod.mk.injEq] at h
    exact SectionId.ext h.1.1 h.1.2 h.2

/-! ## 2. The lists of records -/

/-- The key of the entry is a section's. -/
def CanonicalEntry (entry : String × UInt64) : Prop := ∃ id : SectionId, entry.1 = id.key

/-- One entry of the revision set. -/
def revisionBytes (entry : String × UInt64) : Bytes :=
  utf8 entry.1 ++ ([0] ++ u64LeBytes entry.2)

theorem selfDelimiting_revision : SelfDelimiting CanonicalEntry revisionBytes := by
  have hpair := selfDelimiting_key.seq selfDelimiting_u64
  simp only [List.append_assoc] at hpair
  rintro ⟨_, revision⟩ ⟨_, revision'⟩ rest rest' ⟨id, rfl⟩ ⟨id', rfl⟩ _ _ heq
  have hboth : (id, revision) = (id', revision') ∧ rest = rest' :=
    hpair ⟨trivial, trivial⟩ ⟨trivial, trivial⟩ trivial trivial heq
  obtain ⟨hsame, hrest⟩ := hboth
  obtain ⟨rfl, rfl⟩ := Prod.mk.inj hsame
  exact ⟨rfl, hrest⟩

/-- Keys begin with a small letter, so the entries end where something else begins. -/
theorem delimited_revisions :
    Delimited (fun entries : List (String × UInt64) => ∀ entry ∈ entries, CanonicalEntry entry)
      (fun rest => rest.head? ≠ some 0x73) (·.flatMap revisionBytes) := by
  apply SelfDelimiting.upTo (B := fun rest => rest.head? = some 0x73) selfDelimiting_revision
  · rintro ⟨_, revision⟩ rest ⟨id, rfl⟩
    have hkey : ∃ more, utf8 id.key = 0x73 :: more := by
      rw [← String.ofList_toList (s := id.key), SectionId.toList_key, utf8_ofList]
      exact ⟨_, rfl⟩
    obtain ⟨more, hmore⟩ := hkey
    simp only [revisionBytes, hmore]
    rfl
  · exact fun _ hrest hhead => hrest hhead
  · exact fun _ _ => trivial

/-- One digest record of a storage sidecar. -/
def sidecarBytes (sidecar : SectionId × Digest) : Bytes :=
  [0] ++ utf8 "SectionStorageV1" ++ [0] ++ utf8 sidecar.1.key ++ [0] ++ sidecar.2.toList

theorem selfDelimiting_sidecar :
    SelfDelimiting (fun _ : SectionId × Digest => True) sidecarBytes := by
  have hdigest : SelfDelimiting (fun _ : Digest => True) fun digest => digest.toList :=
    Delimited.of_length (n := 32) (fun digest _ => digest.length_toList)
      fun _ _ _ _ h => Vector.toList_inj.mp h
  have hrecord := (selfDelimiting_key.seq hdigest).prefixed ([0] ++ utf8 "SectionStorageV1" ++ [0])
  have hspell : sidecarBytes = fun sidecar => [0] ++ utf8 "SectionStorageV1" ++ [0] ++
      (utf8 sidecar.1.key ++ [0] ++ sidecar.2.toList) := by
    funext sidecar
    simp only [sidecarBytes, List.append_assoc]
  rw [hspell]
  exact fun _ _ _ _ _ _ _ _ heq =>
    hrecord ⟨trivial, trivial⟩ ⟨trivial, trivial⟩ trivial trivial heq

/-- The sidecar records end at a zero byte that no such record begins with. -/
theorem delimited_sidecars :
    Delimited (fun sidecars : List (SectionId × Digest) => ∀ sidecar ∈ sidecars, True)
      (fun rest => rest.take 2 ≠ [0, 0x53]) (·.flatMap sidecarBytes) := by
  apply SelfDelimiting.upTo (B := fun rest => rest.take 2 = [0, 0x53]) selfDelimiting_sidecar
  · intro sidecar rest _
    have hname : utf8 "SectionStorageV1" = 0x53 :: utf8 "ectionStorageV1" := by decide
    simp only [sidecarBytes, hname]
    rfl
  · exact fun _ hrest htake => hrest htake
  · exact fun _ _ => trivial

namespace SectionDirectoryRoot

/-- The sections with a storage, and the digests of their pages. -/
def sidecars (directory : SectionDirectoryRoot) : List (SectionId × Digest) :=
  directory.entries.toList.filterMap fun entry =>
    (entry.2.payload.bind SectionPayload.storageIdentityDigest).map fun digest =>
      (entry.1, digest)

theorem flatMap_storageRecord (directory : SectionDirectoryRoot) :
    directory.entries.toList.flatMap storageRecord = directory.sidecars.flatMap sidecarBytes := by
  unfold sidecars
  induction directory.entries.toList with
  | nil => rfl
  | cons entry rest ih =>
    rw [List.flatMap_cons, ih, List.filterMap_cons]
    unfold storageRecord
    cases entry.2.payload.bind SectionPayload.storageIdentityDigest with
    | none => rfl
    | some digest => rfl

theorem mem_sidecars {directory : SectionDirectoryRoot} {id : SectionId} {digest : Digest} :
    (id, digest) ∈ directory.sidecars ↔ ∃ slot, directory.entries[id]? = some slot ∧
      slot.payload.bind SectionPayload.storageIdentityDigest = some digest := by
  simp only [sidecars, List.mem_filterMap, Option.map_eq_some_iff, Prod.mk.injEq]
  constructor
  · rintro ⟨⟨_, slot⟩, hentry, _, hdigest, rfl, rfl⟩
    exact ⟨slot, BTreeMap.mem_toList.mp hentry, hdigest⟩
  · rintro ⟨slot, hslot, hdigest⟩
    exact ⟨(id, slot), BTreeMap.mem_toList.mpr hslot, digest, hdigest, rfl, rfl⟩

end SectionDirectoryRoot

/-- A slot has a digest record when it has a storage. -/
theorem SectionSlot.exists_digest_iff (slot : SectionSlot) :
    (∃ digest, slot.payload.bind SectionPayload.storageIdentityDigest = some digest) ↔
      ∃ storage, slot.storage = some storage := by
  cases slot with
  | ready payload =>
    obtain ⟨pages, storage, hsidecar⟩ := payload
    cases storage with
    | none => exact iff_of_false (fun ⟨_, h⟩ => nomatch h) fun ⟨_, h⟩ => nomatch h
    | some storage =>
      obtain ⟨page, rfl, -⟩ := List.map_eq_singleton_iff.mp hsidecar
      exact iff_of_true ⟨page.digest, rfl⟩ ⟨storage, rfl⟩
  | unchanged => exact iff_of_false (fun ⟨_, h⟩ => nomatch h) fun ⟨_, h⟩ => nomatch h
  | pending => exact iff_of_false (fun ⟨_, h⟩ => nomatch h) fun ⟨_, h⟩ => nomatch h
  | unavailable => exact iff_of_false (fun ⟨_, h⟩ => nomatch h) fun ⟨_, h⟩ => nomatch h

/-- What a preimage tells of a slot: what its text shows, and whether it has a storage. -/
def SectionSlot.face (slot : SectionSlot) : (Presence × List SealedPage) × Bool :=
  (slot.shown, slot.storage.isSome)

/-- The record of a slot with this face. -/
def faceDigest (face : (Presence × List SealedPage) × Bool) : Option Digest :=
  if face.2 then face.1.2.head?.map (·.digest) else none

theorem SectionSlot.digest_eq_faceDigest (slot : SectionSlot) :
    slot.payload.bind SectionPayload.storageIdentityDigest = faceDigest slot.face := by
  cases slot with
  | ready payload =>
    obtain ⟨pages, storage, hsidecar⟩ := payload
    cases storage <;> rfl
  | unchanged => rfl
  | pending => rfl
  | unavailable => rfl

theorem SectionDirectoryRoot.sidecars_eq_faces (directory : SectionDirectoryRoot) :
    directory.sidecars = (directory.entries.toList.map fun entry =>
      (entry.1, entry.2.face)).filterMap fun entry =>
        (faceDigest entry.2).map fun digest => (entry.1, digest) := by
  simp only [sidecars, List.filterMap_map, Function.comp_def, SectionSlot.digest_eq_faceDigest]

/-- Two storages behind the same pages read the same. -/
theorem SectionSlot.read_eq_of_shown {slot slot' : SectionSlot} (h : slot.shown = slot'.shown)
    {storage storage' : SectionStorage} (hstorage : slot.storage = some storage)
    (hstorage' : slot'.storage = some storage') (offset : CellOffset) :
    storage.read offset = storage'.read offset := by
  have hpages : ∀ {slot : SectionSlot} {storage : SectionStorage}, slot.storage = some storage →
      slot.shown.2.map (·.bytes) = [storage.encodedPayload] := by
    intro slot storage hslot
    cases slot with
    | ready payload =>
      obtain ⟨pages, sidecar, hsidecar⟩ := payload
      obtain rfl : sidecar = some storage := hslot
      exact hsidecar
    | unchanged => cases hslot
    | pending => cases hslot
    | unavailable => cases hslot
  have hbytes := hpages hstorage
  rw [h, hpages hstorage'] at hbytes
  exact (SectionStorage.read_eq_of_encodedPayload (List.cons.inj hbytes).1 offset).symm

/-- Two storages that read the same show the same. -/
theorem SectionSlot.face_eq_of_read {s t : SectionStorage}
    (h : ∀ offset, s.read offset = t.read offset) :
    (SectionSlot.ready (.ofStorage s)).face = (SectionSlot.ready (.ofStorage t)).face := by
  have hbytes : s.encodedPayload = t.encodedPayload := by
    rw [← s.encodedPayload_compacted, ← t.encodedPayload_compacted,
      SectionStorage.compacted_eq_iff.mpr h]
  simp only [face, shown, SectionSlot.storage, SectionSlot.payload, SectionPayload.ofStorage,
    SectionPayload.storagePage, hbytes, Option.bind_some, Option.isSome_some]

/-! ## 3. The preimage -/

namespace PublishedStateRoot

variable [UnicodeTables]

/-- What follows the frontier in a preimage. -/
private def closing (root : PublishedStateRoot) : Bytes :=
  [0] ++ (utf8 "AuxiliaryIndexes" ++
    match root.foldedReplacement with
    | some digest => digest.toList
    | none => List.replicate 32 0)

/-- The preimage, part by part. -/
private theorem identityPreimage_eq (root : PublishedStateRoot) :
    root.identityPreimage = utf8 root.stamp.schemaId ++ ([0] ++ (utf8 root.stamp.worldId ++
      ([0] ++ (utf8 root.stamp.contextId ++ ([0] ++ (u64LeBytes root.stamp.generation ++
      (u64LeBytes root.stamp.worldRevision ++
      (root.stamp.sectionRevisionSet.toList.flatMap revisionBytes ++
      (utf8 (String.ofList (shownSectionsText root.directory.shown)) ++
      (root.directory.sidecars.flatMap sidecarBytes ++ ([0] ++
      (utf8 (String.ofList root.dirtyFrontier.debug) ++ root.closing)))))))))))) := by
  simp only [identityPreimage, SectionDirectoryRoot.identityBytes,
    SectionDirectoryRoot.flatMap_storageRecord,
    SectionDirectoryRoot.debug_eq_shownSectionsText, List.append_assoc]
  rfl

/-- The directory's text begins with a capital letter. -/
private theorem head_shownSections (sections : ShownSections) (rest : Bytes) :
    (utf8 (String.ofList (shownSectionsText sections)) ++ rest).head? ≠ some 0x73 := by
  have hname : "SectionDirectoryRoot".toList = 'S' :: "ectionDirectoryRoot".toList := by decide
  rw [utf8_ofList, shownSectionsText, record, hname]
  intro h
  cases h

/-- The frontier's text does not begin as a sidecar record does. -/
private theorem take_frontier (frontier : DirtyFrontier) (rest : Bytes) :
    ([0] ++ (utf8 (String.ofList frontier.debug) ++ rest)).take 2 ≠ [0, 0x53] := by
  have hname : "DirtyFrontier".toList = 'D' :: "irtyFrontier".toList := by decide
  rw [utf8_ofList, DirtyFrontier.debug, record, hname]
  intro h
  cases h

omit [UnicodeTables] in
/-- Directories that show the same and have the same sidecars hold the same blocks. -/
theorem readCell_eq_of_shown {a b : PublishedStateRoot}
    (hshown : ∀ id : SectionId, a.directory.entries[id]?.map SectionSlot.shown =
      b.directory.entries[id]?.map SectionSlot.shown)
    (hsidecars : a.directory.sidecars = b.directory.sidecars) (id : SectionId)
    (offset : CellOffset) : a.readCell id offset = b.readCell id offset := by
  have hsame := hshown id
  unfold readCell
  cases ha : a.directory.entries[id]? with
  | none =>
    rw [ha, Option.map_none, eq_comm, Option.map_eq_none_iff] at hsame
    rw [hsame]
  | some slot =>
    rw [ha, Option.map_some, eq_comm, Option.map_eq_some_iff] at hsame
    obtain ⟨slot', hb, hslot⟩ := hsame
    -- the records tell which of the sections have a storage
    have hstorages : (∃ storage, slot.storage = some storage) ↔
        ∃ storage, slot'.storage = some storage := by
      rw [← slot.exists_digest_iff, ← slot'.exists_digest_iff]
      refine exists_congr fun digest => ?_
      have hrecord : (id, digest) ∈ a.directory.sidecars ↔ (id, digest) ∈ b.directory.sidecars :=
        hsidecars ▸ Iff.rfl
      simpa only [SectionDirectoryRoot.mem_sidecars, ha, hb, Option.some.injEq,
        exists_eq_left'] using hrecord
    rw [hb, Option.bind_some, Option.bind_some]
    cases hstorage : slot.storage with
    | none =>
      have hnone : slot'.storage = none := by
        rw [Option.eq_none_iff_forall_ne_some]
        intro storage h
        obtain ⟨_, hsome⟩ := hstorages.mpr ⟨storage, h⟩
        rw [hstorage] at hsome
        cases hsome
      rw [hnone]
    | some storage =>
      obtain ⟨storage', hstorage'⟩ := hstorages.mp ⟨storage, hstorage⟩
      rw [hstorage', Option.map_some, Option.map_some,
        SectionSlot.read_eq_of_shown hslot.symm hstorage hstorage']

/-- **The preimage spells the cut.** -/
theorem sameCut_of_preimage {a b : PublishedStateRoot} {worldId contextId : String}
    {generation : UInt64} (ha : a.stamp.BelongsTo worldId contextId generation)
    (hb : b.stamp.BelongsTo worldId contextId generation)
    (hkeys : ∀ entry ∈ a.stamp.sectionRevisionSet.toList, CanonicalEntry entry)
    (hkeys' : ∀ entry ∈ b.stamp.sectionRevisionSet.toList, CanonicalEntry entry)
    (h : a.identityPreimage = b.identityPreimage) : a.SameCut b := by
  have ⟨hschema, hworld, hcontext, hgeneration⟩ := ha
  have ⟨hschema', hworld', hcontext', hgeneration'⟩ := hb
  rw [identityPreimage_eq, identityPreimage_eq, hschema, hworld, hcontext, hgeneration, hschema',
    hworld', hcontext', hgeneration'] at h
  simp only [List.append_cancel_left_eq] at h
  obtain ⟨hrevision, h⟩ := selfDelimiting_u64 trivial trivial trivial trivial h
  obtain ⟨hrevisions, h⟩ := delimited_revisions hkeys hkeys' (head_shownSections _ _)
    (head_shownSections _ _) h
  obtain ⟨hshown, h⟩ := selfDelimiting_utf8 selfDelimiting_shownSections
    a.directory.forall_mem_shown b.directory.forall_mem_shown trivial trivial h
  obtain ⟨hsidecars, h⟩ := delimited_sidecars (fun _ _ => trivial) (fun _ _ => trivial)
    (take_frontier _ _) (take_frontier _ _) h
  obtain ⟨hfrontier, -⟩ := selfDelimiting_utf8 DirtyFrontier.selfDelimiting_debug trivial trivial
    trivial trivial (List.append_cancel_left h)
  have hentries := BTreeMap.getElem?_map_eq hshown
  refine ⟨?_, fun id => ?_, readCell_eq_of_shown hentries hsidecars, hfrontier⟩
  · exact ha.eq_of_revisions hb hrevision (BTreeMap.toList_injective hrevisions)
  · have hpresence : SectionSlot.presence = Prod.fst ∘ SectionSlot.shown := by
      funext slot
      cases slot <;> rfl
    rw [hpresence, ← Option.map_map, ← Option.map_map, hentries id]

/-! ## 4. Roots that look alike -/

omit [UnicodeTables] in
theorem SameCut.trans {a b c : PublishedStateRoot} (h : SameCut a b) (h' : SameCut b c) :
    SameCut a c where
  stamp := h.stamp.trans h'.stamp
  presence id := (h.presence id).trans (h'.presence id)
  cells id offset := (h.cells id offset).trans (h'.cells id offset)
  dirtyFrontier := h.dirtyFrontier.trans h'.dirtyFrontier

/-- Two roots with one preimage: their slots may differ in how a storage is represented. -/
structure Alike (a b : PublishedStateRoot) : Prop where
  stamp : a.stamp = b.stamp
  slots : ∀ id : SectionId, a.directory.entries[id]?.map SectionSlot.face =
    b.directory.entries[id]?.map SectionSlot.face
  dirtyFrontier : a.dirtyFrontier = b.dirtyFrontier
  folded : a.foldedReplacement = b.foldedReplacement

namespace Alike

variable {a b c : PublishedStateRoot}

omit [UnicodeTables] in
theorem refl (a : PublishedStateRoot) : a.Alike a := ⟨rfl, fun _ => rfl, rfl, rfl⟩

omit [UnicodeTables] in
theorem trans (h : a.Alike b) (h' : b.Alike c) : a.Alike c where
  stamp := h.stamp.trans h'.stamp
  slots id := (h.slots id).trans (h'.slots id)
  dirtyFrontier := h.dirtyFrontier.trans h'.dirtyFrontier
  folded := h.folded.trans h'.folded

omit [UnicodeTables] in
theorem shown (h : a.Alike b) (id : SectionId) :
    a.directory.entries[id]?.map SectionSlot.shown =
      b.directory.entries[id]?.map SectionSlot.shown := by
  have hface : SectionSlot.shown = Prod.fst ∘ SectionSlot.face := rfl
  rw [hface, ← Option.map_map, ← Option.map_map, h.slots id]

omit [UnicodeTables] in
theorem sidecars (h : a.Alike b) : a.directory.sidecars = b.directory.sidecars := by
  rw [SectionDirectoryRoot.sidecars_eq_faces, SectionDirectoryRoot.sidecars_eq_faces,
    BTreeMap.toList_map_eq h.slots]

omit [UnicodeTables] in
theorem sameCut (h : a.Alike b) : a.SameCut b where
  stamp := h.stamp
  presence id := by
    have hpresence : SectionSlot.presence = Prod.fst ∘ SectionSlot.shown := by
      funext slot
      cases slot <;> rfl
    rw [hpresence, ← Option.map_map, ← Option.map_map, h.shown id]
  cells := readCell_eq_of_shown h.shown h.sidecars
  dirtyFrontier := h.dirtyFrontier

theorem identityPreimage (h : a.Alike b) : a.identityPreimage = b.identityPreimage := by
  have hshown : a.directory.shown = b.directory.shown := BTreeMap.toList_map_eq h.shown
  rw [identityPreimage_eq, identityPreimage_eq, h.stamp, hshown, h.sidecars, h.dirtyFrontier,
    closing, closing, h.folded]

theorem identity (h : a.Alike b) : a.identity = b.identity :=
  congrArg sha256 h.identityPreimage

end Alike

/-- The preimage, its texts spelled letter by letter. -/
def spelled (root : PublishedStateRoot) : Bytes :=
  utf8 root.stamp.schemaId ++ ([0] ++ (utf8 root.stamp.worldId ++
    ([0] ++ (utf8 root.stamp.contextId ++ ([0] ++ (u64LeBytes root.stamp.generation ++
    (u64LeBytes root.stamp.worldRevision ++
    (root.stamp.sectionRevisionSet.toList.flatMap revisionBytes ++
    (root.directory.debug.flatMap String.utf8EncodeChar ++
    (root.directory.sidecars.flatMap sidecarBytes ++ ([0] ++
    (root.dirtyFrontier.debug.flatMap String.utf8EncodeChar ++ root.closing))))))))))))

theorem spelled_eq (root : PublishedStateRoot) : root.spelled = root.identityPreimage := by
  rw [spelled, identityPreimage_eq, ← SectionDirectoryRoot.debug_eq_shownSectionsText,
    utf8_ofList, utf8_ofList]

/-- The numbers of a root's identity. -/
def identityNumbers (root : PublishedStateRoot) : Sha256.Numbers :=
  Sha256.digestNumbers root.spelled

theorem identity_eq_iff {a b : PublishedStateRoot} :
    a.identity = b.identity ↔ a.identityNumbers = b.identityNumbers := by
  rw [PublishedStateRoot.identity, PublishedStateRoot.identity, sha256_eq_iff_numbers,
    identityNumbers, identityNumbers, spelled_eq, spelled_eq]

/-- **Known roots.** Where the identities of a list of roots are distinct, those of the roots
that look like one of them do not collide. -/
theorem collisionFree_alike {known : List PublishedStateRoot}
    (h : (known.map PublishedStateRoot.identityNumbers).Nodup) :
    CollisionFree fun root => ∃ k ∈ known, root.Alike k := by
  rintro a b ⟨k, hk, ha⟩ ⟨k', hk', hb⟩ hidentity
  have hsame : k.identityNumbers = k'.identityNumbers := by
    rw [← identity_eq_iff, ← ha.identity, hidentity, hb.identity]
  obtain rfl := List.inj_on_of_nodup_map h hk hk' hsame
  exact ha.sameCut.trans hb.sameCut.symm

/-! ## 5. Publishable roots -/

/-- The roots an authority can publish: stamped for its world, context and generation, with
canonical section keys. -/
structure PublishableBy (authority : PublicationAuthority) (root : PublishedStateRoot) : Prop where
  belongs : root.stamp.BelongsTo authority.worldId authority.contextId authority.generation
  canonical : ∀ key revision, root.stamp.sectionRevisionSet[key]? = some revision →
    ∃ id : SectionId, key = id.key

omit [UnicodeTables] in
theorem PublishableBy.entries {authority : PublicationAuthority} {root : PublishedStateRoot}
    (h : PublishableBy authority root) :
    ∀ entry ∈ root.stamp.sectionRevisionSet.toList, CanonicalEntry entry :=
  fun _ hentry => h.canonical _ _ (BTreeMap.mem_toList.mp hentry)

/-- **Root identity.** Two roots of one authority with one preimage are the same cut: their
stamps and frontiers are equal, and every section has the same presence and the same blocks. -/
theorem identity_identifies_content (authority : PublicationAuthority) {a b : PublishedStateRoot}
    (ha : PublishableBy authority a) (hb : PublishableBy authority b)
    (h : a.identityPreimage = b.identityPreimage) : a.SameCut b :=
  sameCut_of_preimage ha.belongs hb.belongs ha.entries hb.entries h

/-- Where SHA-256 does not collide on preimages, identities do not collide on roots. -/
theorem collisionFree_of_sha256 (authority : PublicationAuthority)
    (hsha : ∀ a b : PublishedStateRoot, PublishableBy authority a → PublishableBy authority b →
      sha256 a.identityPreimage = sha256 b.identityPreimage →
        a.identityPreimage = b.identityPreimage) :
    CollisionFree (PublishableBy authority) :=
  fun a b ha hb h => sameCut_of_preimage ha.belongs hb.belongs ha.entries hb.entries
    (hsha a b ha hb h)

/-- A root of one section, written once and not saved. -/
def writtenRoot (storage : SectionStorage) (folded : Option Digest) : PublishedStateRoot where
  stamp := toRevisionStamp "world" "context" 1 1 [(originSection.key, 4)]
  directory := ⟨(∅ : BTreeMap SectionId SectionSlot).insert originSection (.ready (.ofStorage storage))⟩
  dirtyFrontier := ⟨"world", 1,
    (∅ : BTreeMap SectionId DirtyEntry).insert originSection ⟨4, 4, "mutation"⟩⟩
  foldedReplacement := folded

/-- One cell written and written back. -/
def restoredStorage : SectionStorage :=
  (((SectionStorage.uniform ⟨7⟩).write ⟨0, Nat.zero_le _⟩ ⟨9⟩).1.write ⟨0, Nat.zero_le _⟩ ⟨7⟩).1

omit [UnicodeTables] in
theorem read_restoredStorage (offset : CellOffset) :
    restoredStorage.read offset = (SectionStorage.uniform ⟨7⟩).read offset := by
  rw [restoredStorage, SectionStorage.read_write, SectionStorage.read_write,
    SectionStorage.read_uniform]
  split <;> rfl

omit [UnicodeTables] in
/-- A storage in another representation is the same cut, and so is no replacement as one whose
digest is all zeros. -/
theorem identity_identifies_content_restored :
    restoredStorage.encoding ≠ (SectionStorage.uniform ⟨7⟩).encoding ∧
      (writtenRoot restoredStorage none).SameCut
        (writtenRoot (.uniform ⟨7⟩) (some (Vector.replicate 32 0))) := by
  let _ := asciiOnly
  have hstamp : (writtenRoot restoredStorage none).stamp.BelongsTo "world" "context" 1 :=
    ⟨rfl, rfl, rfl, rfl⟩
  obtain ⟨authority, -, -, hworld, hcontext, hgeneration, -⟩ :=
    PublicationAuthority.new_of (show "world" ≠ "" ∧ "context" ≠ "" by decide) hstamp
      (show 0 + 1 ≤ 8 by decide) (by decide)
  have hpublishable : ∀ storage folded, PublishableBy authority (writtenRoot storage folded) := by
    intro storage folded
    refine ⟨by rw [hworld, hcontext, hgeneration]; exact ⟨rfl, rfl, rfl, rfl⟩, ?_⟩
    intro key revision h
    have hset : (writtenRoot storage folded).stamp.sectionRevisionSet =
        (∅ : BTreeMap String UInt64).insert originSection.key 4 := rfl
    rw [hset, BTreeMap.getElem?_insert] at h
    split at h
    · rename_i hkey
      exact ⟨originSection, hkey.symm⟩
    · rw [BTreeMap.getElem?_empty] at h
      cases h
  have halike : (writtenRoot restoredStorage none).Alike (writtenRoot (.uniform ⟨7⟩) none) := by
    refine ⟨rfl, fun id => ?_, rfl, rfl⟩
    simp only [writtenRoot, BTreeMap.getElem?_insert]
    split
    · rw [Option.map_some, Option.map_some, SectionSlot.face_eq_of_read read_restoredStorage]
    · rfl
  have hzeros : (writtenRoot (.uniform ⟨7⟩) none).identityPreimage =
      (writtenRoot (.uniform ⟨7⟩) (some (Vector.replicate 32 0))).identityPreimage := by
    have hdigest : (Vector.replicate 32 (0 : UInt8)).toList = List.replicate 32 0 :=
      Vector.toList_replicate
    simp only [identityPreimage, writtenRoot, hdigest]
  refine ⟨by decide +kernel, ?_⟩
  exact identity_identifies_content authority (hpublishable _ _) (hpublishable _ _)
    (halike.identityPreimage.trans hzeros)

end PublishedStateRoot

end LumioVoxel
