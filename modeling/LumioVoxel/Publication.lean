import LumioVoxel.DirtyFrontier
import LumioVoxel.RevisionPins
import LumioVoxel.SectionDirectory

/-!
# Publication

One published root at a time: stamp, directory and dirty frontier, under an
identity that is the SHA-256 of all three and of the replacement folded in when
it was prepared.  Publishing goes through three steps that other callers may
interleave with: `prepare` records the identity it will replace, `seal` takes a
pin, and `publishOnce` swaps root and pin if the recorded identity is still the
published one.
-/

namespace LumioVoxel

open DebugText Fallible

variable [UnicodeTables]

/-! ## 1. The published root -/

/-- One immutable published cut.  `foldedReplacement` is the replacement digest
that went into the identity; a root that was never prepared has none. -/
structure PublishedStateRoot where
  stamp : RevisionStamp
  directory : SectionDirectoryRoot
  dirtyFrontier : DirtyFrontier
  foldedReplacement : Option Digest
  deriving DecidableEq

namespace PublishedStateRoot

def new (stamp : RevisionStamp) (directory : SectionDirectoryRoot)
    (dirtyFrontier : DirtyFrontier) : PublishedStateRoot :=
  ⟨stamp, directory, dirtyFrontier, none⟩

/-- The bytes whose SHA-256 is the root's identity. -/
def identityPreimage (root : PublishedStateRoot) : Bytes :=
  utf8 root.stamp.schemaId ++ [0] ++ utf8 root.stamp.worldId ++ [0] ++
    utf8 root.stamp.contextId ++ [0] ++ u64LeBytes root.stamp.generation ++
    u64LeBytes root.stamp.worldRevision ++
    root.stamp.sectionRevisionSet.toList.flatMap (fun (sectionId, revision) =>
      utf8 sectionId ++ [0] ++ u64LeBytes revision) ++
    root.directory.identityBytes ++ [0] ++
    utf8 (String.ofList root.dirtyFrontier.debug) ++ [0] ++ utf8 "AuxiliaryIndexes" ++
    match root.foldedReplacement with
    | some digest => digest.toList
    | none => List.replicate 32 0

/-- The source computes this when the root is built and again when a replacement
is folded in, and keeps it beside the members it is computed from. -/
def identity (root : PublishedStateRoot) : Digest := sha256 root.identityPreimage

/-- The block a resident section holds in one cell. -/
def readCell (root : PublishedStateRoot) (id : SectionId) (offset : CellOffset) : Option BlockId :=
  (root.directory.entries[id]?.bind SectionSlot.storage).map (·.read offset)

def incorporateReplacement (root : PublishedStateRoot) (replacement : SectionReplacement) :
    PublishedStateRoot :=
  { root with foldedReplacement := some replacement.digest }

omit [UnicodeTables] in
@[simp] theorem stamp_new (stamp : RevisionStamp) (directory : SectionDirectoryRoot)
    (frontier : DirtyFrontier) : (new stamp directory frontier).stamp = stamp := rfl

@[simp] theorem stamp_incorporateReplacement (root : PublishedStateRoot)
    (replacement : SectionReplacement) :
    (root.incorporateReplacement replacement).stamp = root.stamp := rfl

@[simp] theorem directory_incorporateReplacement (root : PublishedStateRoot)
    (replacement : SectionReplacement) :
    (root.incorporateReplacement replacement).directory = root.directory := rfl

@[simp] theorem dirtyFrontier_incorporateReplacement (root : PublishedStateRoot)
    (replacement : SectionReplacement) :
    (root.incorporateReplacement replacement).dirtyFrontier = root.dirtyFrontier := rfl

/-- Two cuts that nobody reading them can tell apart. -/
structure SameCut (a b : PublishedStateRoot) : Prop where
  stamp : a.stamp = b.stamp
  presence : ∀ id : SectionId, a.directory.entries[id]?.map SectionSlot.presence =
    b.directory.entries[id]?.map SectionSlot.presence
  cells : ∀ id offset, a.readCell id offset = b.readCell id offset
  dirtyFrontier : a.dirtyFrontier = b.dirtyFrontier

omit [UnicodeTables] in
theorem SameCut.refl (a : PublishedStateRoot) : SameCut a a :=
  ⟨rfl, fun _ => rfl, fun _ _ => rfl, rfl⟩

omit [UnicodeTables] in
theorem SameCut.symm {a b : PublishedStateRoot} (h : SameCut a b) : SameCut b a :=
  ⟨h.stamp.symm, fun id => (h.presence id).symm, fun id offset => (h.cells id offset).symm,
    h.dirtyFrontier.symm⟩

/-- No two roots of a set that differ as cuts share an identity: the collision
freedom of SHA-256 on what is hashed for these roots. -/
def CollisionFree (roots : PublishedStateRoot → Prop) : Prop :=
  ∀ a b, roots a → roots b → a.identity = b.identity → SameCut a b

end PublishedStateRoot

/-! ## 2. The authority -/

inductive PublishError where
  | invalidHandle
  | handleDoubleRelease
  | snapshotBaseMismatch
  | sessionMismatch
  | staleEpoch
  | budgetExceeded
  deriving DecidableEq, Repr

def PublishError.errorId : PublishError → String
  | .invalidHandle => "InvalidHandle"
  | .handleDoubleRelease => "HandleDoubleRelease"
  | .snapshotBaseMismatch => "SnapshotBaseMismatch"
  | .sessionMismatch => "SessionMismatch"
  | .staleEpoch => "StaleEpoch"
  | .budgetExceeded => "BudgetExceeded"

def mapPin : PinError → PublishError
  | .invalidHandle => .invalidHandle
  | .budgetExceeded => .budgetExceeded

def checkStamp (worldId contextId : String) (generation : UInt64) (stamp : RevisionStamp) :
    Except PublishError Unit := do
  require (stamp.schemaId = REVISION_STAMP_SCHEMA) .invalidHandle
  require (stamp.worldId = worldId ∧ stamp.contextId = contextId) .sessionMismatch
  require (stamp.generation = generation) .staleEpoch

omit [UnicodeTables] in
theorem checkStamp_eq_ok {worldId contextId : String} {generation : UInt64}
    {stamp : RevisionStamp} {u : Unit} :
    checkStamp worldId contextId generation stamp = .ok u ↔
      stamp.BelongsTo worldId contextId generation := by
  simp only [checkStamp, bind_eq_ok, require_eq_ok, exists_and_left, exists_const,
    RevisionStamp.BelongsTo, and_assoc]

/-- The per-world publisher.  Its published root always belongs to it. -/
structure PublicationAuthority where
  worldId : String
  contextId : String
  generation : UInt64
  pins : RegistryState
  root : PublishedStateRoot
  pin : RevisionPin
  nextTokenId : UInt64
  root_belongs : root.stamp.BelongsTo worldId contextId generation

/-- An immutable captured cut with its lease. -/
structure PublishedReadView where
  root : PublishedStateRoot
  lease : RevisionPin
  deriving DecidableEq

/-- A bound, unpublished cut. -/
structure PreparedPublication where
  tokenId : UInt64
  baseIdentity : Digest
  worldId : String
  contextId : String
  generation : UInt64
  newRoot : PublishedStateRoot
  isSealed : Bool
  newRoot_belongs : newRoot.stamp.BelongsTo worldId contextId generation

/-- A one-shot publication token; `publishOnce` consumes it. -/
structure PublicationToken where
  id : UInt64
  baseIdentity : Digest
  worldId : String
  contextId : String
  generation : UInt64
  newRoot : PublishedStateRoot
  pin : RevisionPin
  newRoot_belongs : newRoot.stamp.BelongsTo worldId contextId generation

namespace PublicationAuthority

def new (worldId contextId : String) (generation : UInt64) (pins : RegistryState)
    (initial : PublishedStateRoot) : Except PublishError PublicationAuthority :=
  if worldId = "" ∨ contextId = "" then
    .error .invalidHandle
  else
    match h : checkStamp worldId contextId generation initial.stamp with
    | .error err => .error err
    | .ok _ =>
      match (pins.tryPin initial.stamp).mapError mapPin with
      | .error err => .error err
      | .ok (pin, pins) =>
        .ok ⟨worldId, contextId, generation, pins, initial, pin, 0, checkStamp_eq_ok.mp h⟩

/-- Clones the published root and its pin. -/
def capture (authority : PublicationAuthority) : PublishedReadView × PublicationAuthority :=
  (⟨authority.root, authority.pin⟩,
    { authority with pins := authority.pins.clonePin authority.pin })

/-- A view, a lease or a token going out of scope. -/
def dropPin (authority : PublicationAuthority) (pin : RevisionPin) : PublicationAuthority :=
  { authority with pins := authority.pins.dropPin pin }

def prepare (authority : PublicationAuthority) (targetRevision : UInt64)
    (newRoot : PublishedStateRoot) (replacement : SectionReplacement) :
    Except PublishError (PreparedPublication × PublicationAuthority) :=
  match h : checkStamp authority.worldId authority.contextId authority.generation newRoot.stamp with
  | .error err => .error err
  | .ok _ =>
    if targetRevision ≠ newRoot.stamp.worldRevision then
      .error .invalidHandle
    else
      match checkedSucc authority.nextTokenId with
      | none => .error .invalidHandle
      | some next =>
        .ok (⟨authority.nextTokenId, authority.root.identity, authority.worldId,
            authority.contextId, authority.generation, newRoot.incorporateReplacement replacement,
            false, checkStamp_eq_ok.mp h⟩,
          { authority with nextTokenId := next })

/-- The first call yields the token; a second is refused. -/
def sealPublication (authority : PublicationAuthority) (prepared : PreparedPublication) :
    Except PublishError (PublicationToken × PreparedPublication × PublicationAuthority) :=
  if prepared.isSealed then
    .error .handleDoubleRelease
  else
    match (authority.pins.tryPin prepared.newRoot.stamp).mapError mapPin with
    | .error err => .error err
    | .ok (pin, pins) =>
      .ok (⟨prepared.tokenId, prepared.baseIdentity, prepared.worldId, prepared.contextId,
          prepared.generation, prepared.newRoot, pin, prepared.newRoot_belongs⟩,
        { prepared with isSealed := true },
        { authority with pins := pins })

/-- Swaps root and pin if the token's base is still published.  A refused token
gives its pin back. -/
def publishOnce (authority : PublicationAuthority) (token : PublicationToken) :
    Except PublishError PublishedReadView × PublicationAuthority :=
  if h : token.worldId = authority.worldId ∧ token.contextId = authority.contextId then
    if hg : token.generation = authority.generation then
      if token.baseIdentity = authority.root.identity then
        let pins := (authority.pins.clonePin token.pin).dropPin authority.pin
        (.ok ⟨token.newRoot, token.pin⟩,
          { authority with
            pins := pins
            root := token.newRoot
            pin := token.pin
            root_belongs := h.1 ▸ h.2 ▸ hg ▸ token.newRoot_belongs })
      else
        (.error .snapshotBaseMismatch, authority.dropPin token.pin)
    else
      (.error .staleEpoch, authority.dropPin token.pin)
  else
    (.error .sessionMismatch, authority.dropPin token.pin)

/-! ## 3. What each step does -/

omit [UnicodeTables] in
@[simp] theorem capture_view_root (authority : PublicationAuthority) :
    authority.capture.1.root = authority.root := rfl

omit [UnicodeTables] in
@[simp] theorem capture_root (authority : PublicationAuthority) :
    authority.capture.2.root = authority.root := rfl

omit [UnicodeTables] in
@[simp] theorem dropPin_root (authority : PublicationAuthority) (pin : RevisionPin) :
    (authority.dropPin pin).root = authority.root := rfl

/-- Two authorities of one world, context and generation. -/
def SameWorld (a b : PublicationAuthority) : Prop :=
  a.worldId = b.worldId ∧ a.contextId = b.contextId ∧ a.generation = b.generation

omit [UnicodeTables] in
theorem SameWorld.refl (a : PublicationAuthority) : a.SameWorld a := ⟨rfl, rfl, rfl⟩

omit [UnicodeTables] in
theorem SameWorld.trans {a b c : PublicationAuthority} (h : a.SameWorld b) (h' : b.SameWorld c) :
    a.SameWorld c :=
  ⟨h.1.trans h'.1, h.2.1.trans h'.2.1, h.2.2.trans h'.2.2⟩

/-- Preparing binds the new root to the identity published at this moment; only
the token counter moves. -/
theorem prepare_eq_ok {authority authority' : PublicationAuthority} {target : UInt64}
    {newRoot : PublishedStateRoot} {replacement : SectionReplacement}
    {prepared : PreparedPublication}
    (h : authority.prepare target newRoot replacement = .ok (prepared, authority')) :
    target = newRoot.stamp.worldRevision ∧
      prepared.baseIdentity = authority.root.identity ∧
      prepared.newRoot = newRoot.incorporateReplacement replacement ∧
      prepared.worldId = authority.worldId ∧ prepared.contextId = authority.contextId ∧
      prepared.generation = authority.generation ∧
      ∃ next, authority' = { authority with nextTokenId := next } := by
  unfold prepare at h
  split at h
  · cases h
  split at h
  · cases h
  rename_i htarget
  split at h
  · cases h
  rename_i next _
  obtain ⟨rfl, rfl⟩ := Prod.mk.inj (Except.ok.inj h)
  exact ⟨not_not.mp htarget, rfl, rfl, rfl, rfl, rfl, next, rfl⟩

theorem prepare_of {authority : PublicationAuthority} {newRoot : PublishedStateRoot}
    (replacement : SectionReplacement) {next : UInt64}
    (hstamp : newRoot.stamp.BelongsTo authority.worldId authority.contextId authority.generation)
    (hnext : checkedSucc authority.nextTokenId = some next) :
    ∃ prepared, authority.prepare newRoot.stamp.worldRevision newRoot replacement =
      .ok (prepared, { authority with nextTokenId := next }) ∧ prepared.isSealed = false := by
  unfold prepare
  split
  · rename_i err herr
    rw [checkStamp_eq_ok (u := ()) |>.mpr hstamp] at herr
    cases herr
  · rw [if_neg (not_not.mpr rfl), hnext]
    exact ⟨_, rfl, rfl⟩

omit [UnicodeTables] in
/-- Sealing takes a pin on the new root's stamp and keeps everything bound. -/
theorem sealPublication_eq_ok {authority authority' : PublicationAuthority}
    {prepared prepared' : PreparedPublication} {token : PublicationToken}
    (h : authority.sealPublication prepared = .ok (token, prepared', authority')) :
    token.baseIdentity = prepared.baseIdentity ∧ token.newRoot = prepared.newRoot ∧
      token.worldId = prepared.worldId ∧ token.contextId = prepared.contextId ∧
      token.generation = prepared.generation ∧
      ∃ pins, authority' = { authority with pins := pins } := by
  unfold sealPublication at h
  split at h
  · cases h
  split at h
  · cases h
  rename_i pin pins _
  obtain ⟨rfl, hrest⟩ := Prod.mk.inj (Except.ok.inj h)
  obtain ⟨rfl, rfl⟩ := Prod.mk.inj hrest
  exact ⟨rfl, rfl, rfl, rfl, rfl, pins, rfl⟩

omit [UnicodeTables] in
/-- Sealing takes its pin from the authority's registry. -/
theorem sealPublication_pins {authority authority' : PublicationAuthority}
    {prepared prepared' : PreparedPublication} {token : PublicationToken}
    (h : authority.sealPublication prepared = .ok (token, prepared', authority')) :
    ∃ pins, authority.pins.tryPin prepared.newRoot.stamp = .ok (token.pin, pins) ∧
      authority' = { authority with pins := pins } := by
  unfold sealPublication at h
  split at h
  · cases h
  split at h
  · cases h
  rename_i pin pins hpin
  obtain ⟨rfl, hrest⟩ := Prod.mk.inj (Except.ok.inj h)
  obtain ⟨-, rfl⟩ := Prod.mk.inj hrest
  exact ⟨pins, mapError_eq_ok.mp hpin, rfl⟩

/-- A successful publication replaces a root whose identity is the recorded base. -/
theorem publishOnce_ok {authority : PublicationAuthority} {token : PublicationToken}
    {view : PublishedReadView} (h : (authority.publishOnce token).1 = .ok view) :
    token.baseIdentity = authority.root.identity ∧ view.root = token.newRoot ∧
      (authority.publishOnce token).2.root = token.newRoot ∧
      authority.SameWorld (authority.publishOnce token).2 ∧
      (authority.publishOnce token).2.nextTokenId = authority.nextTokenId := by
  unfold publishOnce at h ⊢
  split at h
  · split at h
    · split at h
      · rename_i hids hgen hbase
        obtain rfl := Except.ok.inj h
        rw [dif_pos hids, dif_pos hgen, if_pos hbase]
        exact ⟨hbase, rfl, rfl, ⟨rfl, rfl, rfl⟩, rfl⟩
      · cases h
    · cases h
  · cases h

/-- A refused token only gives its pin back. -/
theorem publishOnce_error {authority : PublicationAuthority} {token : PublicationToken}
    {err : PublishError} (h : (authority.publishOnce token).1 = .error err) :
    (authority.publishOnce token).2 = authority.dropPin token.pin := by
  unfold publishOnce at h ⊢
  split
  · split
    · split
      · rename_i hids hgen hbase
        rw [dif_pos hids, dif_pos hgen, if_pos hbase] at h
        cases h
      · rfl
    · rfl
  · rfl

theorem publishOnce_of (authority : PublicationAuthority) (token : PublicationToken)
    (hworld : token.worldId = authority.worldId) (hcontext : token.contextId = authority.contextId)
    (hgen : token.generation = authority.generation)
    (hbase : token.baseIdentity = authority.root.identity) :
    (authority.publishOnce token).1 = .ok ⟨token.newRoot, token.pin⟩ := by
  unfold publishOnce
  rw [dif_pos ⟨hworld, hcontext⟩, dif_pos hgen, if_pos hbase]

/-! ## 4. When publishing succeeds -/

/-- Room for `n` more publications: pins, token numbers, and a registry of the
authority's own context and generation. -/
structure CanPublish (authority : PublicationAuthority) (n : Nat) : Prop where
  pins : authority.pins.HasRoom n
  contextId : authority.pins.contextId = authority.contextId
  generation : authority.pins.generation = authority.generation
  tokens : authority.nextTokenId.toNat + n < 2 ^ 64

omit [UnicodeTables] in
theorem capture_canPublish {authority : PublicationAuthority} {n : Nat}
    (h : authority.CanPublish n) : authority.capture.2.CanPublish n :=
  ⟨RegistryState.clonePin_hasRoom h.pins _, (RegistryState.contextId_clonePin _ _).trans h.contextId,
    (RegistryState.generation_clonePin _ _).trans h.generation, h.tokens⟩

omit [UnicodeTables] in
theorem dropPin_canPublish {authority : PublicationAuthority} {n : Nat}
    (h : authority.CanPublish n) (pin : RevisionPin) : (authority.dropPin pin).CanPublish n :=
  ⟨RegistryState.dropPin_hasRoom h.pins _, (RegistryState.contextId_dropPin _ _).trans h.contextId,
    (RegistryState.generation_dropPin _ _).trans h.generation, h.tokens⟩

omit [UnicodeTables] in
/-- A registry that pins the first root is enough for an authority. -/
theorem new_of_tryPin {worldId contextId : String} {generation : UInt64}
    {registry pins : RegistryState} {initial : PublishedStateRoot} {pin : RevisionPin}
    (hids : worldId ≠ "" ∧ contextId ≠ "")
    (hstamp : initial.stamp.BelongsTo worldId contextId generation)
    (hpin : registry.tryPin initial.stamp = .ok (pin, pins)) :
    new worldId contextId generation registry initial =
      .ok ⟨worldId, contextId, generation, pins, initial, pin, 0, hstamp⟩ := by
  unfold new
  rw [if_neg (not_or.mpr hids)]
  split
  · rename_i err herr
    rw [checkStamp_eq_ok (u := ()) |>.mpr hstamp] at herr
    cases herr
  · rw [hpin]
    rfl

omit [UnicodeTables] in
/-- An authority over a fresh registry of its own context. -/
theorem new_of {worldId contextId : String} {generation : UInt64} {maxPins n : Nat}
    {initial : PublishedStateRoot} (hids : worldId ≠ "" ∧ contextId ≠ "")
    (hstamp : initial.stamp.BelongsTo worldId contextId generation) (hpins : n + 1 ≤ maxPins)
    (hn : n + 1 < 2 ^ 64) :
    ∃ authority, new worldId contextId generation (.new maxPins contextId generation) initial =
        .ok authority ∧
      authority.root = initial ∧ authority.worldId = worldId ∧ authority.contextId = contextId ∧
      authority.generation = generation ∧ authority.CanPublish n := by
  have hroom : (RegistryState.new maxPins contextId generation).HasRoom (n + 1) :=
    ⟨rfl, by simpa [RegistryState.new] using hpins, by simpa [RegistryState.new] using hn⟩
  obtain ⟨pin, pins, hpin, hroom', hcontext, hgen⟩ := RegistryState.tryPin_of_hasRoom hroom
    initial.stamp hstamp.1 hstamp.2.2.1 hstamp.2.2.2
  exact ⟨_, new_of_tryPin hids hstamp hpin, rfl, rfl, rfl, rfl, hroom', hcontext, hgen, by
    simp only [UInt64.toNat_zero]; omega⟩

/-- **Publishing undisturbed.** Prepare, seal and publish, back to back on an
authority with room, publish the new root with the replacement folded in. -/
theorem publish_of {authority : PublicationAuthority} {n : Nat} (h : authority.CanPublish (n + 1))
    {newRoot : PublishedStateRoot} (replacement : SectionReplacement)
    (hstamp : newRoot.stamp.BelongsTo authority.worldId authority.contextId authority.generation) :
    ∃ publication authority₁ token publication' authority₂ view authority₃,
      authority.prepare newRoot.stamp.worldRevision newRoot replacement =
        .ok (publication, authority₁) ∧
      authority₁.sealPublication publication = .ok (token, publication', authority₂) ∧
      authority₂.publishOnce token = (.ok view, authority₃) ∧
      publication.newRoot = newRoot.incorporateReplacement replacement ∧
      authority₃.root = newRoot.incorporateReplacement replacement ∧
      authority.SameWorld authority₃ ∧ authority₃.CanPublish n := by
  have htokens := h.tokens
  have hnext : checkedSucc authority.nextTokenId = some (authority.nextTokenId + 1) :=
    if_pos (by omega)
  obtain ⟨publication, hprepare, hunsealed⟩ := prepare_of replacement hstamp hnext
  obtain ⟨-, hbase, hnew, hworld, hcontext, hgen, -⟩ := prepare_eq_ok hprepare
  have hnewStamp : publication.newRoot.stamp = newRoot.stamp := by rw [hnew]; rfl
  obtain ⟨pin, pins, hpin, hroom, hpinsContext, hpinsGen⟩ :=
    RegistryState.tryPin_of_hasRoom h.pins publication.newRoot.stamp
      (by rw [hnewStamp]; exact hstamp.1)
      (by rw [hnewStamp, hstamp.2.2.1, h.contextId])
      (by rw [hnewStamp, hstamp.2.2.2, h.generation])
  have hseal : PublicationAuthority.sealPublication
      { authority with nextTokenId := authority.nextTokenId + 1 } publication =
        .ok (⟨publication.tokenId, publication.baseIdentity, publication.worldId,
          publication.contextId, publication.generation, publication.newRoot, pin,
          publication.newRoot_belongs⟩, { publication with isSealed := true },
          { authority with nextTokenId := authority.nextTokenId + 1, pins := pins }) := by
    rw [sealPublication, hunsealed, if_neg Bool.false_ne_true, hpin]
    rfl
  have hok := publishOnce_of
    { authority with nextTokenId := authority.nextTokenId + 1, pins := pins }
    ⟨publication.tokenId, publication.baseIdentity, publication.worldId, publication.contextId,
      publication.generation, publication.newRoot, pin, publication.newRoot_belongs⟩
    hworld hcontext hgen hbase
  refine ⟨_, _, _, _, _, _, _, hprepare, hseal, Prod.ext hok rfl, hnew, ?_⟩
  obtain ⟨-, -, hroot, hsame, htoken⟩ := publishOnce_ok hok
  refine ⟨hroot.trans hnew, hsame, ?_⟩
  unfold publishOnce
  rw [dif_pos ⟨hworld, hcontext⟩, dif_pos hgen, if_pos hbase]
  refine ⟨RegistryState.dropPin_hasRoom (RegistryState.clonePin_hasRoom hroom _) _, ?_, ?_, ?_⟩
  · simp only [RegistryState.contextId_dropPin, RegistryState.contextId_clonePin, hpinsContext,
      h.contextId]
  · simp only [RegistryState.generation_dropPin, RegistryState.generation_clonePin, hpinsGen,
      h.generation]
  · rw [checkedSucc_eq_some.mp hnext]
    omega

end PublicationAuthority

end LumioVoxel
