import LumioVoxel.DebugText
import LumioVoxel.FallibleSteps
import LumioVoxel.SectionStorage

/-!
# Payloads and presence slots

A published section is a slot in one of four presence states.  A `Ready` slot
holds an immutable payload: sealed pages whose digests match their bytes, and at
most one block storage, whose canonical bytes are then exactly the bytes of the
payload's only page.
-/

namespace LumioVoxel

open DebugText Fallible

/-- `voxel-chunk-page`; part of every payload's identity. -/
def SECTION_PAGE_SCHEMA : String := "voxel-chunk-page"

def PAGE_ENCODINGS : List String := ["Dense", "Sparse"]
def COMPRESSION_CODECS : List String := ["None", "Zstd", "Lz4"]
def V1_ENCODING : String := "Dense"
def V1_CODEC : String := "None"

/-! ## 1. Pages -/

/-- An unpublished page with the digest its author declares. -/
structure SectionPage where
  encoding : String
  compression : String
  bytes : Bytes
  declaredDigest : Digest

structure SealedPage where
  encoding : String
  compression : String
  bytes : Bytes
  digest : Digest
  digest_eq : digest = sha256 bytes
  deriving DecidableEq

def internName (name : String) (generated : List String) : Except SectionError String :=
  someOr (generated.find? (· == name)) .invalidHandle

/-- Seals one page: known names, the one supported backend, and a digest that
matches the bytes. -/
def SectionPage.seal (page : SectionPage) : Except SectionError SealedPage := do
  let encoding ← internName page.encoding PAGE_ENCODINGS
  let compression ← internName page.compression COMPRESSION_CODECS
  require (encoding = V1_ENCODING ∧ compression = V1_CODEC) .invalidHandle
  require (sha256 page.bytes = page.declaredDigest) .sectionDigestMismatch
  return ⟨encoding, compression, page.bytes, sha256 page.bytes, rfl⟩

/-! ## 2. Payloads -/

/-- A storage sidecar is the decoded form of the payload's only page. -/
def SidecarMatches (pages : List SealedPage) : Option SectionStorage → Prop
  | none => True
  | some storage => pages.map (·.bytes) = [storage.encodedPayload]

instance (pages : List SealedPage) (storage : Option SectionStorage) :
    Decidable (SidecarMatches pages storage) :=
  match storage with
  | none => inferInstanceAs (Decidable True)
  | some storage => inferInstanceAs (Decidable (pages.map (·.bytes) = [storage.encodedPayload]))

structure SectionPayload where
  pages : List SealedPage
  storage : Option SectionStorage
  sidecar : SidecarMatches pages storage
  deriving DecidableEq

namespace SectionPayload

def fromPagesWithStorage (pages : List SectionPage) (storage : Option SectionStorage) :
    Except SectionError SectionPayload := do
  let sealedPages ← pages.mapM SectionPage.seal
  if h : SidecarMatches sealedPages storage then
    .ok ⟨sealedPages, storage, h⟩
  else
    .error (.contractViolation SECTION_ENCODING_MISMATCH)

def fromPages (pages : List SectionPage) : Except SectionError SectionPayload :=
  fromPagesWithStorage pages none

/-- The page and the sidecar derived from the same canonical bytes. -/
def fromStorage (storage : SectionStorage) : Except SectionError SectionPayload :=
  let bytes := storage.encodedPayload
  fromPagesWithStorage [⟨"Dense", "None", bytes, sha256 bytes⟩] (some storage)

/-- The page of a storage, sealed. -/
def storagePage (storage : SectionStorage) : SealedPage :=
  ⟨"Dense", "None", storage.encodedPayload, sha256 storage.encodedPayload, rfl⟩

/-- A storage with its one page. -/
def ofStorage (storage : SectionStorage) : SectionPayload :=
  ⟨[storagePage storage], some storage, rfl⟩

theorem fromStorage_ok (storage : SectionStorage) :
    fromStorage storage = .ok (ofStorage storage) := by
  have hencoding : internName "Dense" PAGE_ENCODINGS = .ok "Dense" := by decide
  have hcodec : internName "None" COMPRESSION_CODECS = .ok "None" := by decide
  have hseal : SectionPage.seal ⟨"Dense", "None", storage.encodedPayload,
      sha256 storage.encodedPayload⟩ = .ok (storagePage storage) := by
    simp only [SectionPage.seal, hencoding, hcodec, ok_bind]
    rw [require_of ⟨rfl, rfl⟩, require_of trivial]
    rfl
  simp only [fromStorage, fromPagesWithStorage, List.mapM_cons, List.mapM_nil, hseal, ok_bind]
  exact dif_pos rfl

/-- The digest of the page a storage sidecar stands for. -/
def storageIdentityDigest (payload : SectionPayload) : Option Digest :=
  payload.storage.bind fun _ => payload.pages.head?.map (·.digest)

def identityDigest (payload : SectionPayload) : Digest :=
  sha256 (utf8 SECTION_PAGE_SCHEMA ++ u64LeBytes (UInt64.ofNat payload.pages.length) ++
    payload.pages.flatMap (fun page =>
      utf8 page.encoding ++ [0] ++ utf8 page.compression ++ [0] ++
        u64LeBytes (UInt64.ofNat page.bytes.length) ++ page.digest.toList) ++
    match payload.storageIdentityDigest with
    | some digest => 1 :: digest.toList
    | none => [0])

end SectionPayload

/-! ## 3. Debug text -/

section DebugTexts

variable [UnicodeTables]

def SealedPage.debug (page : SealedPage) : Text :=
  record "SealedPage" [("encoding", str page.encoding), ("compression", str page.compression),
    ("bytes", DebugText.bytes page.bytes), ("digest", DebugText.bytes page.digest.toList)]

/-- The storage sidecar is not part of the text. -/
def SectionPayload.debug (payload : SectionPayload) : Text :=
  record "SectionPayload" [("schema_id", str SECTION_PAGE_SCHEMA),
    ("pages", list (payload.pages.map SealedPage.debug)),
    ("_extent_family", "IsolatedCubicExtentFamily".toList)]

def SectionPayload.replacementIdentityDigest (payload : SectionPayload) : Digest :=
  if payload.storage.isNone then
    sha256 (utf8 (String.ofList payload.debug))
  else
    payload.identityDigest

end DebugTexts

/-! ## 4. Presence slots -/

inductive Presence where
  | ready
  | unchanged
  | pending
  | unavailable
  deriving DecidableEq, Repr

def Presence.name : Presence → String
  | .ready => "Ready"
  | .unchanged => "Unchanged"
  | .pending => "Pending"
  | .unavailable => "Unavailable"

/-- `SECTION_PRESENCE`, in document order. -/
def SECTION_PRESENCE : List Presence := [.ready, .unchanged, .pending, .unavailable]

def internPresence (name : String) : Except SectionError Presence :=
  someOr (SECTION_PRESENCE.find? (·.name == name)) .invalidHandle

@[simp] theorem internPresence_name (presence : Presence) :
    internPresence presence.name = .ok presence := by
  cases presence <;> decide

/-- A check on the presence a read observed: the section's key and the presence
name, refused with a contract error identifier. -/
abbrev SectionPresenceGuard : Type := String → String → Except String Unit

/-- The original-map baseline: the storage a section without a published copy has. -/
abbrev SectionStorageResolver : Type := SectionId → Option SectionStorage

/-- The residency of one section.  `unchanged` is a short ticket without bytes. -/
inductive SectionSlot where
  | ready (payload : SectionPayload)
  | unchanged
  | pending
  | unavailable
  deriving DecidableEq

namespace SectionSlot

def presence : SectionSlot → Presence
  | .ready _ => .ready
  | .unchanged => .unchanged
  | .pending => .pending
  | .unavailable => .unavailable

def payload : SectionSlot → Option SectionPayload
  | .ready payload => some payload
  | _ => none

/-- The block storage a slot gives access to. -/
def storage (slot : SectionSlot) : Option SectionStorage := slot.payload.bind (·.storage)

/-- Presence transition.  Illegal ones are refused. -/
def tryConvert (slot : SectionSlot) (presence : String) (payload : Option SectionPayload) :
    Except SectionError SectionSlot := do
  let target ← internPresence presence
  let source := slot.presence
  if source = target then
    match target, payload with
    | .ready, some page => .ok (.ready page)
    | _, none => .ok slot
    | _, some _ => .error .invalidHandle
  else if target = .ready ∧ payload = none then
    .error .sectionUnavailable
  else
    match source, target, payload with
    | .unchanged, .pending, none => .ok .pending
    | .pending, .ready, some page => .ok (.ready page)
    | .pending, .unavailable, none => .ok .unavailable
    | .pending, .unchanged, none => .ok .unchanged
    | .ready, .unchanged, none => .ok .unchanged
    | .unavailable, .pending, none => .ok .pending
    | .unavailable, .unchanged, none => .ok .unchanged
    | .unavailable, .ready, _ => .error .sectionUnavailable
    | .unchanged, .ready, _ => .error .sectionUnavailable
    | _, _, _ => .error .invalidHandle

def debug (slot : SectionSlot) [UnicodeTables] : Text :=
  record "SectionSlot" [("inner",
    match slot with
    | .ready payload => variant "Ready" payload.debug
    | .unchanged => "Unchanged".toList
    | .pending => "Pending".toList
    | .unavailable => "Unavailable".toList)]

/-- A ready slot may be replaced by another ready payload. -/
theorem tryConvert_ready (old new : SectionPayload) :
    (ready old).tryConvert "Ready" (some new) = .ok (ready new) := by
  simp only [tryConvert,
    show internPresence "Ready" = .ok Presence.ready from internPresence_name .ready,
    Fallible.ok_bind]
  rfl

theorem tryConvert_unload (old : SectionPayload) :
    (ready old).tryConvert "Unchanged" none = .ok unchanged := by
  simp only [tryConvert, show internPresence "Unchanged" = .ok Presence.unchanged from
    internPresence_name .unchanged, Fallible.ok_bind]
  rfl

end SectionSlot

end LumioVoxel
