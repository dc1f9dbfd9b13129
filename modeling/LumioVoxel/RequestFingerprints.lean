import LumioVoxel.HexDigests
import LumioVoxel.MutationRequest
import LumioVoxel.WordEncodings
import LumioVoxel.WorldCoordinates

/-!
# Request fingerprints

The bytes a fingerprint is the hash of spell one request: the entries are self-delimiting
records behind their number, the hexadecimal text spells their bytes, and the canonical object
spells its members, whatever characters they contain.
-/

namespace LumioVoxel

open Fallible

/-! ## 1. Entries -/

/-- What `encode_entries` appends for one entry. -/
def entryBytes (entry : MutationEntry) : Bytes :=
  u64LeBytes (UInt64.ofNat (utf8 entry.sectionKey).length) ++ utf8 entry.sectionKey ++
    u16LeBytes entry.cellOffset.raw ++ u32LeBytes entry.blockId.raw ++
    u64LeBytes entry.expectedSectionRevision

theorem selfDelimiting_entry :
    SelfDelimiting (fun entry => (utf8 entry.sectionKey).length < 2 ^ 64) entryBytes := by
  have hfields := (((SelfDelimiting.lengthPrefixed selfDelimiting_length64).seq
    selfDelimiting_u16).seq selfDelimiting_u32).seq selfDelimiting_u64
  apply Delimited.comap (k := fun entry : MutationEntry =>
    (((utf8 entry.sectionKey, entry.cellOffset.raw), entry.blockId.raw),
      entry.expectedSectionRevision)) hfields
  · exact fun _ hlength => ⟨⟨⟨hlength, trivial⟩, trivial⟩, trivial⟩
  · rintro ⟨key, ⟨raw, _⟩, ⟨block⟩, revision⟩ ⟨key', ⟨raw', _⟩, ⟨block'⟩, revision'⟩ - - h
    simp only [Prod.mk.injEq] at h
    obtain ⟨⟨⟨hkey, rfl⟩, rfl⟩, rfl⟩ := h
    obtain rfl : key = key' := utf8_injective hkey
    rfl

/-- The lengths in the request are such as a `usize` holds, as those of every list and string
in memory are. -/
structure MutationRequest.Sized (request : MutationRequest) : Prop where
  entries : request.entries.length < 2 ^ 64
  keys : ∀ entry ∈ request.entries, (utf8 entry.sectionKey).length < 2 ^ 64

/-- The text of the entries spells them, their order and their number. -/
theorem encodeEntries_injective {request request' : MutationRequest} (h : request.Sized)
    (h' : request'.Sized) (heq : encodeEntries request.entries = encodeEntries request'.entries) :
    request.entries = request'.entries :=
  (SelfDelimiting.counted selfDelimiting_length64 selfDelimiting_entry).injective trivial
    ⟨h.entries, h.keys⟩ ⟨h'.entries, h'.keys⟩ (hex_injective heq)

/-! ## 2. The preimage -/

/-- The bytes that `canonical_fingerprint` hashes. -/
def fingerprintPreimage (request : MutationRequest) : Except DuplicateMember Bytes := do
  let object ← CanonicalObject.new.insertAll (fingerprintMembers request)
  return object.encodeBytes

/-- The members of the object are those listed. -/
theorem exists_fingerprintPreimage (request : MutationRequest) :
    ∃ object : CanonicalObject, fingerprintPreimage request = .ok object.encodeBytes ∧
      canonicalFingerprint request = .ok ⟨sha256 object.encodeBytes⟩ ∧
      ∀ name v, object.members[name]? = some v ↔ (name, v) ∈ fingerprintMembers request := by
  obtain ⟨object, hinsert, hmembers⟩ := exists_insertAll (fingerprintMembers_distinct request)
  refine ⟨object, ?_, ?_, hmembers⟩
  · rw [fingerprintPreimage, hinsert]
    rfl
  · rw [canonicalFingerprint, hinsert]
    rfl

/-- The members spell the request. -/
theorem fingerprintMembers_injective {request request' : MutationRequest} (h : request.Sized)
    (h' : request'.Sized)
    (hsame : ∀ member, member ∈ fingerprintMembers request →
      member ∈ fingerprintMembers request') : request = request' := by
  have hentries := hsame ("entries", .text (encodeEntries request.entries))
    (by simp [fingerprintMembers])
  have htxn := hsame ("txn_id", .text request.txnId) (by simp [fingerprintMembers])
  have hworld := hsame ("world_id", .text request.worldId) (by simp [fingerprintMembers])
  have hgeneration := hsame ("generation", .uint request.generation)
    (by simp [fingerprintMembers])
  simp [fingerprintMembers, CANONICAL_FORM_FIELD] at hentries htxn hworld hgeneration
  obtain ⟨txnId, worldId, generation, entries⟩ := request
  obtain ⟨txnId', worldId', generation', entries'⟩ := request'
  have hlist := encodeEntries_injective h h' hentries
  simp only at htxn hworld hgeneration hlist
  rw [htxn, hworld, hgeneration, hlist]

/-- **Fingerprints identify requests.** Each request has a fingerprint, the hash of its
preimage, and two requests have one preimage only if they are the same in their transaction,
world, generation and list of entries. -/
theorem fingerprints_identify {request request' : MutationRequest} (h : request.Sized)
    (h' : request'.Sized) :
    ∃ bytes bytes', fingerprintPreimage request = .ok bytes ∧
      fingerprintPreimage request' = .ok bytes' ∧
      canonicalFingerprint request = .ok ⟨sha256 bytes⟩ ∧
      canonicalFingerprint request' = .ok ⟨sha256 bytes'⟩ ∧
      (bytes = bytes' → request = request') := by
  obtain ⟨object, hbytes, hhash, hmembers⟩ := exists_fingerprintPreimage request
  obtain ⟨object', hbytes', hhash', hmembers'⟩ := exists_fingerprintPreimage request'
  refine ⟨_, _, hbytes, hbytes', hhash, hhash', fun heq => ?_⟩
  obtain rfl : object = object' := encodeBytes_injective heq
  apply fingerprintMembers_injective h h'
  rintro ⟨name, v⟩ hmember
  exact (hmembers' name v).mp ((hmembers name v).mpr hmember)

/-- A write of air and a write of stone to one cell. -/
theorem fingerprints_identify_block :
    ∃ bytes bytes',
      fingerprintPreimage ⟨"t", "w", 1, [⟨"s:0:0:0", .fromWorld 0 ⟨0⟩ 0, ⟨0⟩, 3⟩]⟩ = .ok bytes ∧
      fingerprintPreimage ⟨"t", "w", 1, [⟨"s:0:0:0", .fromWorld 0 ⟨0⟩ 0, ⟨1⟩, 3⟩]⟩ = .ok bytes' ∧
      bytes ≠ bytes' := by
  have hsized : ∀ block : BlockId, MutationRequest.Sized
      ⟨"t", "w", 1, [⟨"s:0:0:0", .fromWorld 0 ⟨0⟩ 0, block, 3⟩]⟩ := by
    intro block
    have hone : 1 < 2 ^ 64 := by decide
    have hkey : (utf8 "s:0:0:0").length < 2 ^ 64 := by decide
    refine ⟨hone, fun entry hentry => ?_⟩
    obtain rfl := List.mem_singleton.mp hentry
    exact hkey
  obtain ⟨bytes, bytes', hbytes, hbytes', -, -, hidentify⟩ :=
    fingerprints_identify (hsized ⟨0⟩) (hsized ⟨1⟩)
  refine ⟨bytes, bytes', hbytes, hbytes', fun heq => ?_⟩
  have hsame := congrArg (fun request => request.entries.map (·.blockId)) (hidentify heq)
  simp at hsame

end LumioVoxel
