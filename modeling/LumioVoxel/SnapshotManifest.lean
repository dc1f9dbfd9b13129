import LumioVoxel.HexDigests
import LumioVoxel.QueryPlanning

/-!
# Snapshots

A capture holds one published root and the pin that keeps it live.  It is
written as a canonical object that carries the cut's stamp, the configuration
hash and the root's identity, and nothing else of the root.  Reading it back
checks every member; building from it materializes one `Unchanged` slot for each
section of the revision map and an empty dirty frontier.
-/

namespace LumioVoxel

open DebugText Fallible

/-! ## 1. Captures -/

structure CaptureError where
  errorId : String
  deriving DecidableEq, Repr

def CaptureError.invalidHandle : CaptureError := ⟨"InvalidHandle"⟩

/-- The cut as the runtime describes it. -/
structure CutEvidence where
  worldId : String
  contextId : String
  generation : UInt64
  worldRevision : UInt64
  configHash : String
  artifactHash : Digest
  deriving DecidableEq

/-- One immutable published root with its pin.  Only checked evidence makes one. -/
structure VoxelCaptureRef where
  root : PublishedStateRoot
  pin : RevisionPin
  configHash : String
  worldId_ne : root.stamp.worldId ≠ ""
  contextId_ne : root.stamp.contextId ≠ ""
  configHash_isHash : isHash256 configHash = true
  pin_stamp : pin.stamp = root.stamp

/-- The evidence names the view's cut, and both pins are on it. -/
structure EvidenceMatches [UnicodeTables] (view : PublishedReadView) (pin : RevisionPin)
    (evidence : CutEvidence) : Prop where
  worldId_ne : evidence.worldId ≠ ""
  contextId_ne : evidence.contextId ≠ ""
  configHash : isHash256 evidence.configHash = true
  worldId : evidence.worldId = view.root.stamp.worldId
  contextId : evidence.contextId = view.root.stamp.contextId
  generation : evidence.generation = view.root.stamp.generation
  worldRevision : evidence.worldRevision = view.root.stamp.worldRevision
  artifactHash : evidence.artifactHash = view.root.identity
  pin : pin.stamp = view.root.stamp
  lease : view.lease.stamp = view.root.stamp

instance [UnicodeTables] (view : PublishedReadView) (pin : RevisionPin) (evidence : CutEvidence) :
    Decidable (EvidenceMatches view pin evidence) :=
  decidable_of_iff (evidence.worldId ≠ "" ∧ evidence.contextId ≠ "" ∧
      isHash256 evidence.configHash = true ∧ evidence.worldId = view.root.stamp.worldId ∧
      evidence.contextId = view.root.stamp.contextId ∧
      evidence.generation = view.root.stamp.generation ∧
      evidence.worldRevision = view.root.stamp.worldRevision ∧
      evidence.artifactHash = view.root.identity ∧ pin.stamp = view.root.stamp ∧
      view.lease.stamp = view.root.stamp)
    ⟨fun ⟨a, b, c, d, e, f, g, h, i, j⟩ => ⟨a, b, c, d, e, f, g, h, i, j⟩,
      fun h => ⟨h.1, h.2, h.3, h.4, h.5, h.6, h.7, h.8, h.9, h.10⟩⟩

/-- Every mismatch is the same error. -/
def VoxelCaptureRef.new [UnicodeTables] (view : PublishedReadView) (pin : RevisionPin)
    (evidence : CutEvidence) : Except CaptureError VoxelCaptureRef :=
  if h : EvidenceMatches view pin evidence then
    .ok ⟨view.root, pin, evidence.configHash, h.worldId ▸ h.worldId_ne,
      h.contextId ▸ h.contextId_ne, h.configHash, h.pin⟩
  else
    .error .invalidHandle

/-! ## 2. The manifest -/

def SNAPSHOT_MAGIC : String := "LUMIOSNP1"
def SNAPSHOT_SCHEMA_EPOCH : UInt64 := 1
def SNAPSHOT_HEADER_SCHEMA : String := "snapshot-header"
def SNAPSHOT_PAYLOAD_SCHEMA : String := "voxel-snapshot-payload"

/-- What every section revision's member name starts with. -/
def SECTION_REVISION : String := "sectionRevision."

structure RestoreError where
  errorId : String
  deriving DecidableEq, Repr

namespace RestoreError

def invalidHandle : RestoreError := ⟨"InvalidHandle"⟩
def artifactDigestMismatch : RestoreError := ⟨"ArtifactDigestMismatch"⟩
def evidenceDigestMismatch : RestoreError := ⟨"EvidenceDigestMismatch"⟩
def manifestUnsupportedVersion : RestoreError := ⟨"ManifestUnsupportedVersion"⟩
def sessionMismatch : RestoreError := ⟨"SessionMismatch"⟩
def staleEpoch : RestoreError := ⟨"StaleEpoch"⟩
def fromSection (err : SectionError) : RestoreError := ⟨err.errorId⟩
def fromDirty (err : DirtyError) : RestoreError := ⟨err.errorId⟩

end RestoreError

section Manifest

variable [UnicodeTables]

def manifestMembers (capture : VoxelCaptureRef) : List (String × CanonicalValue) :=
  let stamp := capture.root.stamp
  [("schemaId", .text SNAPSHOT_PAYLOAD_SCHEMA),
   ("headerSchemaId", .text SNAPSHOT_HEADER_SCHEMA),
   ("magic", .text SNAPSHOT_MAGIC),
   ("schemaEpoch", .uint SNAPSHOT_SCHEMA_EPOCH),
   ("worldId", .text stamp.worldId),
   ("contextId", .text stamp.contextId),
   ("generation", .uint stamp.generation),
   ("worldRevision", .uint stamp.worldRevision)] ++
  stamp.sectionRevisionSet.toList.map (fun item => (SECTION_REVISION ++ item.1, .uint item.2)) ++
  [("configHash", .text capture.configHash),
   ("rootIdentity", .text (hex32 capture.root.identity))]

def ManifestAdapter.object (capture : VoxelCaptureRef) : Except RestoreError CanonicalObject :=
  (CanonicalObject.new.insertAll (manifestMembers capture)).mapError fun _ =>
    RestoreError.invalidHandle

/-! ## 3. Writing -/

structure SnapshotError where
  errorId : String
  deriving DecidableEq, Repr

namespace SnapshotError

def invalidHandle : SnapshotError := ⟨"InvalidHandle"⟩
def budgetExceeded : SnapshotError := ⟨"BudgetExceeded"⟩
def loaderCancelled : SnapshotError := ⟨"LoaderCancelled"⟩

end SnapshotError

structure MemoryCaptureWriter where
  buf : Bytes
  cap : Nat
  cancelled : Bool
  deriving DecidableEq, Repr

namespace MemoryCaptureWriter

def new (cap : Nat) : MemoryCaptureWriter := ⟨[], cap, false⟩

def cancel (writer : MemoryCaptureWriter) : MemoryCaptureWriter := { writer with cancelled := true }

/-- All of the bytes or none of them. -/
def write (writer : MemoryCaptureWriter) (bytes : Bytes) :
    Except SnapshotError MemoryCaptureWriter := do
  require (writer.cancelled = false) .loaderCancelled
  require (writer.buf.length + bytes.length ≤ writer.cap) .budgetExceeded
  return { writer with buf := writer.buf ++ bytes }

omit [UnicodeTables] in
theorem write_eq_ok {writer next : MemoryCaptureWriter} {bytes : Bytes} :
    writer.write bytes = .ok next ↔
      writer.cancelled = false ∧ writer.buf.length + bytes.length ≤ writer.cap ∧
        next = { writer with buf := writer.buf ++ bytes } := by
  simp only [write, bind_eq_ok, require_eq_ok, pure_eq_ok, exists_and_left, exists_const,
    eq_comm (a := next)]

end MemoryCaptureWriter

structure CaptureMetadata where
  payloadHash : Digest
  rootIdentity : Digest
  worldRevision : UInt64
  generation : UInt64
  configHash : String
  byteLen : Nat
  deriving DecidableEq

/-- Encodes without the world. -/
def encodeCapture (capture : VoxelCaptureRef) (writer : MemoryCaptureWriter) :
    Except SnapshotError (CaptureMetadata × MemoryCaptureWriter) := do
  require (writer.cancelled = false) .loaderCancelled
  require (capture.configHash ≠ "" ∧ capture.root.stamp.worldId ≠ "") .invalidHandle
  let object ← (ManifestAdapter.object capture).mapError fun _ => SnapshotError.invalidHandle
  require (object.members.isEmpty = false) .invalidHandle
  let bytes := object.encodeBytes
  require (bytes ≠ []) .invalidHandle
  let writer ← writer.write bytes
  return (⟨sha256 bytes, capture.root.identity, capture.root.stamp.worldRevision,
    capture.root.stamp.generation, capture.configHash, bytes.length⟩, writer)

end Manifest

/-! ## 4. Reading -/

structure DecodedRestore where
  worldId : String
  contextId : String
  generation : UInt64
  worldRevision : UInt64
  sectionRevisionSet : BTreeMap String UInt64
  configHash : String
  rootIdentity : Digest
  deriving DecidableEq

def decodeCanonicalObject (bytes : Bytes) : Except RestoreError CanonicalObject := do
  require (bytes ≠ []) .invalidHandle
  (CanonicalObject.decode bytes).mapError fun
    | .notCanonical => RestoreError.artifactDigestMismatch
    | .malformed | .duplicateMember => RestoreError.invalidHandle

/-- A member of another type is a rejection, not a coercion. -/
def requireText (fields : CanonicalObject) (key : String) : Except RestoreError String :=
  someOr (fields.members[key]?.bind CanonicalValue.asText) .invalidHandle

def requireUint (fields : CanonicalObject) (key : String) : Except RestoreError UInt64 :=
  someOr (fields.members[key]?.bind CanonicalValue.asUint) .invalidHandle

def isKnownField (key : String) : Bool :=
  ["schemaId", "headerSchemaId", "magic", "schemaEpoch", "worldId", "contextId", "generation",
    "worldRevision", "configHash", "rootIdentity"].contains key

/-- The section a member name is for, if it is a section revision's. -/
def sectionOfMember (key : String) : Option String :=
  if SECTION_REVISION.toList.isPrefixOf key.toList then
    some (String.ofList (key.toList.drop SECTION_REVISION.toList.length))
  else none

def collectMember (sections : BTreeMap String UInt64) (member : String × CanonicalValue) :
    Except RestoreError (BTreeMap String UInt64) := do
  match sectionOfMember member.1 with
  | none =>
    require (isKnownField member.1 = true) .manifestUnsupportedVersion
    return sections
  | some sectionId =>
    require (sectionId ≠ "") .invalidHandle
    let revision ← someOr member.2.asUint .invalidHandle
    require (sections[sectionId]? = none) .invalidHandle
    return sections.insert sectionId revision

def collectSectionRevisions (fields : CanonicalObject) :
    Except RestoreError (BTreeMap String UInt64) :=
  foldSteps collectMember ∅ fields.members.toList

def parseHex32 (value : String) : Except RestoreError Digest := do
  require (isHash256 value = true) .artifactDigestMismatch
  someOr (readHex32 value) .artifactDigestMismatch

/-- Checks a complete candidate without the world. -/
def RestorePreflight.validate (bytes : Bytes) (expectedWorldId : String)
    (expectedGeneration : UInt64) (snapshot : VoxelConfigSnapshot) :
    Except RestoreError DecodedRestore := do
  require (expectedWorldId ≠ "") .invalidHandle
  let fields ← decodeCanonicalObject bytes
  let schemaId ← requireText fields "schemaId"
  let headerSchema ← requireText fields "headerSchemaId"
  let magic ← requireText fields "magic"
  let schemaEpoch ← requireUint fields "schemaEpoch"
  require (schemaId = SNAPSHOT_PAYLOAD_SCHEMA ∧ headerSchema = SNAPSHOT_HEADER_SCHEMA ∧
    magic = SNAPSHOT_MAGIC ∧ schemaEpoch = SNAPSHOT_SCHEMA_EPOCH) .manifestUnsupportedVersion
  let worldId ← requireText fields "worldId"
  let contextId ← requireText fields "contextId"
  require (worldId ≠ "" ∧ contextId ≠ "") .invalidHandle
  require (worldId = expectedWorldId) .sessionMismatch
  let generation ← requireUint fields "generation"
  require (generation = expectedGeneration) .staleEpoch
  let worldRevision ← requireUint fields "worldRevision"
  let configHash ← requireText fields "configHash"
  require (isHash256 configHash = true ∧ configHash = snapshot.configHash) .evidenceDigestMismatch
  let rootHex ← requireText fields "rootIdentity"
  let rootIdentity ← parseHex32 rootHex
  let sectionRevisionSet ← collectSectionRevisions fields
  return ⟨worldId, contextId, generation, worldRevision, sectionRevisionSet, configHash, rootIdentity⟩

/-! ## 5. Building the candidate -/

section Shadow

variable [UnicodeTables]

def candidateMembers (root : PublishedStateRoot) (replacement : SectionReplacement)
    (configHash : String) : List (String × CanonicalValue) :=
  [("configHash", .text configHash),
   ("contextId", .text root.stamp.contextId),
   ("generation", .uint root.stamp.generation),
   ("replacement", .text (hex32 replacement.digest)),
   ("rootIdentity", .text (hex32 root.identity)),
   ("worldId", .text root.stamp.worldId),
   ("worldRevision", .uint root.stamp.worldRevision)]

def fingerprint (root : PublishedStateRoot) (replacement : SectionReplacement)
    (configHash : String) : Except RestoreError Digest := do
  let object ← (CanonicalObject.new.insertAll
    (candidateMembers root replacement configHash)).mapError fun _ => RestoreError.invalidHandle
  return sha256 object.encodeBytes

/-- A sealed, unpublished root. -/
structure SealedRestoreCandidate where
  root : PublishedStateRoot
  replacement : SectionReplacement
  worldRevision : UInt64
  configHash : String
  candidateHash : Digest

def SealedRestoreCandidate.hashMatches (candidate : SealedRestoreCandidate) : Bool :=
  match fingerprint candidate.root candidate.replacement candidate.configHash with
  | .ok hash => hash = candidate.candidateHash
  | .error _ => false

omit [UnicodeTables] in
/-- One `Unchanged` slot for each section of the revision map. -/
def shadowDirectory (sections : BTreeMap String UInt64) :
    Except RestoreError SectionDirectoryRoot := do
  let builder ← foldSteps (fun builder item =>
    (SectionDirectoryBuilder.insert builder item.1 .unchanged).mapError RestoreError.fromSection)
    .new sections.toList
  return builder.freeze

def RestoreShadowBuilder.build (decoded : DecodedRestore) :
    Except RestoreError SealedRestoreCandidate := do
  let directory ← shadowDirectory decoded.sectionRevisionSet
  let stamp := toRevisionStamp decoded.worldId decoded.contextId decoded.generation
    decoded.worldRevision decoded.sectionRevisionSet.toList
  let dirty ← (DirtyFrontier.new decoded.worldId decoded.generation).mapError RestoreError.fromDirty
  let replacement ← (SectionDeltaBuilder.new directory).freeze.mapError RestoreError.fromSection
  let root := PublishedStateRoot.new stamp directory dirty
  let candidateHash ← fingerprint root replacement decoded.configHash
  return ⟨root, replacement, decoded.worldRevision, decoded.configHash, candidateHash⟩

end Shadow

end LumioVoxel
