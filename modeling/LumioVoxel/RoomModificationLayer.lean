import LumioVoxel.SectionPayloadCodec
import LumioVoxel.StepRuns

/-!
# Room modification layer

The room's sections as they differ from the original map, and the envelope each
receiver is sent next.  A receiver one batch behind gets the delta, every other
one the full section.  The development runs the layer together with any number
of receivers and shows that whoever decodes the next dispatch holds the layer's
content and revision, however far behind it was.
-/

namespace LumioVoxel

open SectionPayloadEnvelope

/-! ## 1. Dispatch -/

inductive SectionDeliveryState where
  | firstDelivery
  | ready (revision : UInt64)
  | resync
  | pending
  | unavailable
  deriving DecidableEq, Repr

inductive DispatchContent where
  | ready (envelope : SectionPayloadEnvelope)
  | unchanged
  | pending
  | unavailable

structure SectionDispatch where
  sectionId : SectionId
  content : DispatchContent

def SectionDispatch.envelope (dispatch : SectionDispatch) : Option SectionPayloadEnvelope :=
  match dispatch.content with
  | .ready envelope => some envelope
  | .unchanged | .pending | .unavailable => none

/-! ## 2. The layer -/

structure SectionModification where
  sectionRevision : UInt64
  storage : SectionStorage
  latestDelta : Option SectionPayloadEnvelope

structure RoomModificationLayer where
  sections : BTreeMap SectionId SectionModification

namespace RoomModificationLayer

def new : RoomModificationLayer := ⟨∅⟩

def setReady (layer : RoomModificationLayer) (id : SectionId) (revision : UInt64)
    (storage : SectionStorage) : RoomModificationLayer :=
  ⟨layer.sections.insert id ⟨revision, storage, none⟩⟩

def markUnchanged (layer : RoomModificationLayer) (id : SectionId) : RoomModificationLayer :=
  ⟨layer.sections.erase id⟩

/-- By offset; entries with one offset keep their order. -/
def orderEntries (entries : List DeltaEntry) : List DeltaEntry :=
  entries.mergeSort fun a b => a.offset.raw ≤ b.offset.raw

/-- A batch is encoded against the current revision and takes effect as decoded.
`none` where the batch is so long that the length conversion's `expect` fails. -/
def recordDelta (layer : RoomModificationLayer) (id : SectionId) (revision : UInt64)
    (entries : List DeltaEntry) : Option (Except SectionError Unit × RoomModificationLayer) :=
  match layer.sections[id]? with
  | none => some (.error .sectionUnavailable, layer)
  | some modification =>
    if h : (deltaPayload (orderEntries entries)).length < 2 ^ 32 then
      let envelope := encodeDelta id revision modification.sectionRevision (orderEntries entries) h
      match envelope.decode (some (modification.storage, modification.sectionRevision)) with
      | .error err => some (.error err, layer)
      | .ok decoded =>
        some (.ok (), ⟨layer.sections.insert id
          ⟨decoded.sectionRevision, decoded.storage, some envelope⟩⟩)
    else
      none

def dispatchSection (layer : RoomModificationLayer) (id : SectionId)
    (delivery : SectionDeliveryState) : SectionDispatch :=
  let ready (receiverRevision : Option UInt64) : SectionDispatch :=
    match layer.sections[id]? with
    | none => ⟨id, .unchanged⟩
    | some modification =>
      let delta := receiverRevision.bind fun revision =>
        modification.latestDelta.filter fun delta => delta.baseSectionRevision = some revision
      ⟨id, .ready (delta.getD
        (encodeFull id modification.sectionRevision modification.storage))⟩
  match delivery with
  | .pending => ⟨id, .pending⟩
  | .unavailable => ⟨id, .unavailable⟩
  | .ready revision => ready (some revision)
  | .firstDelivery | .resync => ready none

end RoomModificationLayer

/-! ## 3. The layer and its receivers -/

/-- What a receiver holds of a section: content and revision. -/
abbrev HeldSection := SectionStorage × UInt64

/-- A receiver decodes a dispatch over the baseline it offers and keeps what it
holds when the envelope is not newer.  A dispatch without an envelope changes
nothing. -/
def receive (held baseline : Option HeldSection) (dispatch : SectionDispatch) :
    Except SectionError (Option HeldSection) :=
  match dispatch.envelope with
  | none => .ok held
  | some envelope =>
    match envelope.decode baseline with
    | .ok decoded => .ok (some (decoded.storage, decoded.sectionRevision))
    | .error err =>
      if err = .contractViolation STALE_SECTION_REVISION then .ok held else .error err

/-- The three ways to ask for a section.  First delivery and resync may be decoded
with or without the baseline. -/
inductive SyncMode where
  | ready
  | firstDelivery (withBaseline : Bool)
  | resync (withBaseline : Bool)
  deriving DecidableEq, Repr

namespace SyncMode

/-- A receiver that holds nothing has no revision to be ready at. -/
def delivery (mode : SyncMode) (held : Option HeldSection) : SectionDeliveryState :=
  match mode, held with
  | .ready, some held => .ready held.2
  | .ready, none => .firstDelivery
  | .firstDelivery _, _ => .firstDelivery
  | .resync _, _ => .resync

def baseline (mode : SyncMode) (held : Option HeldSection) : Option HeldSection :=
  match mode with
  | .ready => held
  | .firstDelivery withBaseline | .resync withBaseline => if withBaseline then held else none

end SyncMode

/-- The next dispatch of a section, decoded. -/
def nextHeld (layer : RoomModificationLayer) (id : SectionId) (mode : SyncMode)
    (held : Option HeldSection) : Except SectionError (Option HeldSection) :=
  receive held (mode.baseline held) (layer.dispatchSection id (mode.delivery held))

inductive LayerOp (ρ : Type) where
  | setReady (id : SectionId) (revision : UInt64) (storage : SectionStorage)
  | recordDelta (id : SectionId) (revision : UInt64) (entries : List DeltaEntry)
  | markUnchanged (id : SectionId)
  | deliver (who : ρ) (id : SectionId) (mode : SyncMode)

/-- The layer, what each receiver holds, and every revision a section has had. -/
structure LayerSession (ρ : Type) where
  layer : RoomModificationLayer
  held : ρ → SectionId → Option HeldSection
  revisions : SectionId → List UInt64

namespace LayerSession

variable {ρ : Type} [DecidableEq ρ]

def start : LayerSession ρ := ⟨.new, fun _ _ => none, fun _ => []⟩

/-- One operation; a batch that is rejected or aborts leaves the layer alone. -/
def step (s : LayerSession ρ) : LayerOp ρ → LayerSession ρ
  | .setReady id revision storage =>
    { s with
      layer := s.layer.setReady id revision storage
      revisions := Function.update s.revisions id (revision :: s.revisions id) }
  | .recordDelta id revision entries =>
    match s.layer.recordDelta id revision entries with
    | some (.ok _, layer) =>
      { s with
        layer := layer
        revisions := Function.update s.revisions id (revision :: s.revisions id) }
    | some (.error _, layer) => { s with layer := layer }
    | none => s
  | .markUnchanged id => { s with layer := s.layer.markUnchanged id }
  | .deliver who id mode =>
    match nextHeld s.layer id mode (s.held who id) with
    | .error _ => s
    | .ok held =>
      { s with held := Function.update s.held who (Function.update (s.held who) id held) }

/-- A section made ready gets a revision above every revision it has had. -/
def Advances (s : LayerSession ρ) : LayerOp ρ → Prop
  | .setReady id revision _ => ∀ earlier ∈ s.revisions id, earlier < revision
  | _ => True

end LayerSession

/-! ## 4. Ordering a batch -/

/-- A stable sort keeps the elements it does not tell apart in order. -/
theorem filter_mergeSort {α : Type} {le : α → α → Bool} {p : α → Bool}
    (trans : ∀ a b c, le a b → le b c → le a c) (total : ∀ a b, le a b || le b a)
    (hp : ∀ a b, p a → p b → le a b) (xs : List α) :
    (xs.mergeSort le).filter p = xs.filter p := by
  have hordered : (xs.filter p).Pairwise (fun a b => le a b) := by
    apply List.pairwise_of_forall_mem_list
    intro a ha b hb
    exact hp a b (List.mem_filter.mp ha).2 (List.mem_filter.mp hb).2
  have hsub : List.Sublist (xs.filter p) (xs.mergeSort le) :=
    List.sublist_mergeSort trans total hordered List.filter_sublist
  have hkeep := hsub.filter p
  rw [List.filter_filter] at hkeep
  simp only [Bool.and_self] at hkeep
  exact (hkeep.eq_of_length ((List.mergeSort_perm xs le).filter p).length_eq.symm).symm

namespace RoomModificationLayer

/-- Ordering a batch by offset does not change which entry of a cell is last. -/
theorem lastEntry_orderEntries (entries : List DeltaEntry) (offset : CellOffset) :
    lastEntry (orderEntries entries) offset = lastEntry entries offset := by
  unfold lastEntry orderEntries
  rw [filter_mergeSort]
  · intro a b c hab hbc
    simp only [decide_eq_true_eq] at hab hbc ⊢
    exact UInt16.le_trans hab hbc
  · intro a b
    simp only [Bool.or_eq_true, decide_eq_true_eq]
    exact UInt16.le_total _ _
  · intro a b ha hb
    simp only [decide_eq_true_eq] at ha hb ⊢
    rw [ha, hb]
    exact UInt16.le_refl _

/-- Six bytes for each entry. -/
theorem length_deltaPayload_orderEntries (entries : List DeltaEntry) :
    (deltaPayload (orderEntries entries)).length = 6 * entries.length := by
  have hsix : ∀ entry : DeltaEntry,
      (u16LeBytes entry.offset.raw ++ u32LeBytes entry.blockId.raw).length = 6 := fun _ => rfl
  simp only [deltaPayload, List.length_flatMap, hsix, List.map_const', List.sum_replicate_nat,
    orderEntries, List.length_mergeSort, Nat.mul_comm]

/-- A batch in wire order writes what it writes in submission order. -/
theorem read_writeEntries_orderEntries (storage : SectionStorage) (entries : List DeltaEntry)
    (offset : CellOffset) :
    (writeEntries storage (orderEntries entries)).read offset =
      (writeEntries storage entries).read offset := by
  rw [read_writeEntries, read_writeEntries, lastEntry_orderEntries]

/-! ## 5. What recording and dispatching do -/

/-- What an accepted batch did: the section was resident, its revision grew, and
the delta kept for dispatch is the batch over the revision before. -/
structure Recorded (layer layer' : RoomModificationLayer) (id : SectionId) (revision : UInt64)
    (entries : List DeltaEntry) (before : SectionModification) : Prop where
  resident : layer.sections[id]? = some before
  advances : before.sectionRevision < revision
  fits : (deltaPayload (orderEntries entries)).length < 2 ^ 32
  after : layer' = ⟨layer.sections.insert id
    ⟨revision, writeEntries before.storage (orderEntries entries),
      some (encodeDelta id revision before.sectionRevision (orderEntries entries) fits)⟩⟩

/-- The outcomes of recording: an accepted batch, or a rejection that leaves the
layer as it was. -/
theorem recordDelta_cases {layer layer' : RoomModificationLayer} {id : SectionId}
    {revision : UInt64} {entries : List DeltaEntry} {outcome : Except SectionError Unit}
    (h : layer.recordDelta id revision entries = some (outcome, layer')) :
    (outcome = .ok () ∧ ∃ before, Recorded layer layer' id revision entries before) ∨
    (∃ err, outcome = .error err ∧ layer' = layer) := by
  unfold recordDelta at h
  split at h
  · obtain ⟨rfl, rfl⟩ := Prod.mk.inj (Option.some.inj h)
    exact .inr ⟨_, rfl, rfl⟩
  · rename_i before hbefore
    split at h
    · rename_i hfits
      simp only [decode_encodeDelta] at h
      split_ifs at h with hrefused
      · obtain ⟨rfl, rfl⟩ := Prod.mk.inj (Option.some.inj h)
        exact .inr ⟨_, rfl, rfl⟩
      · obtain ⟨rfl, rfl⟩ := Prod.mk.inj (Option.some.inj h)
        refine .inl ⟨rfl, before, hbefore, ?_, hfits, rfl⟩
        exact UInt64.not_le.mp (not_or.mp hrefused).2
    · cases h

/-- **When a batch is accepted.** The section is in the layer, the revision is above its own,
and the payload's length fits its length field. -/
theorem recordDelta_ok_iff {layer : RoomModificationLayer} {id : SectionId} {revision : UInt64}
    {entries : List DeltaEntry} :
    (∃ layer', layer.recordDelta id revision entries = some (.ok (), layer')) ↔
      ∃ before, layer.sections[id]? = some before ∧ before.sectionRevision < revision ∧
        (deltaPayload (orderEntries entries)).length < 2 ^ 32 := by
  constructor
  · rintro ⟨layer', h⟩
    rcases recordDelta_cases h with ⟨-, before, hrecorded⟩ | ⟨err, herr, -⟩
    · exact ⟨before, hrecorded.resident, hrecorded.advances, hrecorded.fits⟩
    · cases herr
  · rintro ⟨before, hbefore, hadvances, hfits⟩
    have hfresh : ¬ (before.sectionRevision ≠ before.sectionRevision ∨
        revision ≤ before.sectionRevision) := by
      rintro (hbase | hle)
      · exact hbase rfl
      · exact UInt64.not_le.mpr hadvances hle
    simp only [recordDelta, hbefore, dif_pos hfits, decode_encodeDelta, if_neg hfresh]
    exact ⟨_, rfl⟩

/-- What is known of a receiver of a section: it is not ahead, at the layer's
revision it has the layer's content, and the delta kept for dispatch fits it when
it names its revision. -/
structure InStep (m : SectionModification) (id : SectionId) (held : HeldSection) : Prop where
  le : held.2 ≤ m.sectionRevision
  current : held.2 = m.sectionRevision → ∀ o, held.1.read o = m.storage.read o
  delta : ∀ envelope, m.latestDelta = some envelope →
    envelope.baseSectionRevision = some held.2 →
    ∃ storage, envelope.decode (some held) = .ok ⟨id, m.sectionRevision, storage⟩ ∧
      ∀ o, storage.read o = m.storage.read o

/-- The envelope dispatched to a receiver that asks in some mode. -/
theorem dispatchSection_envelope {layer : RoomModificationLayer} {id : SectionId}
    {m : SectionModification} (hm : layer.sections[id]? = some m) (mode : SyncMode)
    (held : Option HeldSection) :
    (∃ envelope h, mode = .ready ∧ held = some h ∧ m.latestDelta = some envelope ∧
      envelope.baseSectionRevision = some h.2 ∧
      (layer.dispatchSection id (mode.delivery held)).envelope = some envelope) ∨
    (layer.dispatchSection id (mode.delivery held)).envelope =
      some (encodeFull id m.sectionRevision m.storage) := by
  have hfull : ∀ delivery, delivery = .firstDelivery ∨ delivery = .resync →
      (layer.dispatchSection id delivery).envelope =
        some (encodeFull id m.sectionRevision m.storage) := by
    rintro delivery (rfl | rfl)
    · simp only [dispatchSection, hm]
      rfl
    · simp only [dispatchSection, hm]
      rfl
  cases mode with
  | firstDelivery withBaseline => exact .inr (hfull _ (.inl rfl))
  | resync withBaseline => exact .inr (hfull _ (.inr rfl))
  | ready =>
    cases held with
    | none => exact .inr (hfull _ (.inl rfl))
    | some h =>
      have hdispatch : (layer.dispatchSection id (SyncMode.ready.delivery (some h))).envelope =
          some ((m.latestDelta.filter fun delta => delta.baseSectionRevision = some h.2).getD
            (encodeFull id m.sectionRevision m.storage)) := by
        simp only [SyncMode.delivery, dispatchSection, hm]
        rfl
      rw [hdispatch]
      cases hdelta : m.latestDelta.filter fun delta => delta.baseSectionRevision = some h.2 with
      | none => exact .inr rfl
      | some envelope =>
        obtain ⟨hlatest, hbase⟩ := Option.filter_eq_some_iff.mp hdelta
        exact .inl ⟨envelope, h, rfl, rfl, hlatest, of_decide_eq_true hbase, rfl⟩

/-- **What a receiver in step decodes**: the layer's section, or the report that
it already has this revision. -/
theorem decode_dispatch {layer : RoomModificationLayer} {id : SectionId}
    {m : SectionModification} (hm : layer.sections[id]? = some m) (mode : SyncMode)
    {held : Option HeldSection} (hheld : ∀ h ∈ held, InStep m id h) :
    ∃ envelope, (layer.dispatchSection id (mode.delivery held)).envelope = some envelope ∧
      ((∃ storage, envelope.decode (mode.baseline held) =
          .ok ⟨id, m.sectionRevision, storage⟩ ∧ ∀ o, storage.read o = m.storage.read o) ∨
        (envelope.decode (mode.baseline held) =
          .error (.contractViolation STALE_SECTION_REVISION) ∧
          ∃ h, held = some h ∧ h.2 = m.sectionRevision)) := by
  rcases dispatchSection_envelope hm mode held with
    ⟨envelope, h, rfl, rfl, hlatest, hbase, henvelope⟩ | henvelope
  · exact ⟨envelope, henvelope, .inl ((hheld h rfl).delta envelope hlatest hbase)⟩
  · refine ⟨_, henvelope, ?_⟩
    rw [decode_encodeFull]
    by_cases hstale : ((mode.baseline held).any fun h => m.sectionRevision ≤ h.2) = true
    · rw [if_pos hstale]
      obtain ⟨h, hbaseline, hle⟩ := (Option.any_eq_true _ _).mp hstale
      -- a baseline is always what the receiver holds
      have hsome : held = some h := by
        cases mode with
        | ready => exact hbaseline
        | firstDelivery withBaseline =>
          cases withBaseline with
          | true => exact hbaseline
          | false => cases hbaseline
        | resync withBaseline =>
          cases withBaseline with
          | true => exact hbaseline
          | false => cases hbaseline
      exact .inr ⟨rfl, h, hsome, UInt64.le_antisymm (hheld h hsome).le (of_decide_eq_true hle)⟩
    · rw [if_neg hstale]
      exact .inl ⟨_, rfl, m.storage.read_compacted⟩

theorem nextHeld_of_none {layer : RoomModificationLayer} {id : SectionId}
    (hm : layer.sections[id]? = none) (mode : SyncMode) (held : Option HeldSection) :
    nextHeld layer id mode held = .ok held := by
  have hdispatch : (layer.dispatchSection id (mode.delivery held)).envelope = none := by
    cases mode with
    | ready => cases held <;> simp only [SyncMode.delivery, dispatchSection, hm] <;> rfl
    | firstDelivery withBaseline => simp only [SyncMode.delivery, dispatchSection, hm]; rfl
    | resync withBaseline => simp only [SyncMode.delivery, dispatchSection, hm]; rfl
  simp only [nextHeld, receive, hdispatch]

/-- A receiver in step has the layer's content and revision after the next dispatch. -/
theorem nextHeld_of_inStep {layer : RoomModificationLayer} {id : SectionId}
    {m : SectionModification} (hm : layer.sections[id]? = some m) (mode : SyncMode)
    {held : Option HeldSection} (hheld : ∀ h ∈ held, InStep m id h) :
    ∃ storage, nextHeld layer id mode held = .ok (some (storage, m.sectionRevision)) ∧
      ∀ o, storage.read o = m.storage.read o := by
  obtain ⟨envelope, henvelope, hdecode⟩ := decode_dispatch hm mode hheld
  rcases hdecode with ⟨storage, hok, hread⟩ | ⟨hstale, h, rfl, hrev⟩
  · refine ⟨storage, ?_, hread⟩
    simp only [nextHeld, receive, henvelope, hok]
  · refine ⟨h.1, ?_, (hheld h rfl).current hrev⟩
    simp only [nextHeld, receive, henvelope, hstale, if_true, ← hrev]

end RoomModificationLayer

/-! ## 6. Receivers stay in step -/

namespace LayerSession

open StepRuns RoomModificationLayer

variable {ρ : Type} [DecidableEq ρ]

/-- The layer's revision of a section is the highest it has had, the kept delta
starts below it, and every receiver is in step. -/
structure Synchronised (layer : RoomModificationLayer) (held : ρ → SectionId → Option HeldSection)
    (revisions : SectionId → List UInt64) : Prop where
  highest : ∀ (id : SectionId) (m : SectionModification), layer.sections[id]? = some m →
    m.sectionRevision ∈ revisions id ∧ ∀ r ∈ revisions id, r ≤ m.sectionRevision
  behind : ∀ (id : SectionId) (m : SectionModification) (envelope : SectionPayloadEnvelope),
    layer.sections[id]? = some m → m.latestDelta = some envelope →
      envelope.baseSectionRevision ≠ some m.sectionRevision
  holders : ∀ who (id : SectionId) (h : HeldSection), held who id = some h → h.2 ∈ revisions id
  inStep : ∀ who (id : SectionId) (h : HeldSection) (m : SectionModification),
    held who id = some h → layer.sections[id]? = some m → InStep m id h

variable {layer : RoomModificationLayer} {held : ρ → SectionId → Option HeldSection}
  {revisions : SectionId → List UInt64}

omit [DecidableEq ρ] in
/-- A new revision of a section, above every earlier one, whose kept delta fits
the receivers at its base. -/
private theorem Synchronised.advance (hs : Synchronised layer held revisions) {id : SectionId}
    {m : SectionModification} (habove : ∀ r ∈ revisions id, r < m.sectionRevision)
    (hbehind : ∀ envelope, m.latestDelta = some envelope →
      envelope.baseSectionRevision ≠ some m.sectionRevision)
    (hdelta : ∀ who h, held who id = some h → ∀ envelope, m.latestDelta = some envelope →
      envelope.baseSectionRevision = some h.2 →
      ∃ storage, envelope.decode (some h) = .ok ⟨id, m.sectionRevision, storage⟩ ∧
        ∀ o, storage.read o = m.storage.read o) :
    Synchronised ⟨layer.sections.insert id m⟩ held
      (Function.update revisions id (m.sectionRevision :: revisions id)) := by
  have hlookup : ∀ id' m', (layer.sections.insert id m)[id']? = some m' →
      (id' = id ∧ m' = m) ∨ (id' ≠ id ∧ layer.sections[id']? = some m') := by
    intro id' m' h
    rw [BTreeMap.getElem?_insert] at h
    by_cases hid : id = id'
    · rw [if_pos hid] at h
      exact .inl ⟨hid.symm, (Option.some.inj h).symm⟩
    · rw [if_neg hid] at h
      exact .inr ⟨Ne.symm hid, h⟩
  refine ⟨fun id' m' h => ?_, fun id' m' envelope h => ?_, fun who id' h hheld => ?_,
    fun who id' h m' hheld hm => ?_⟩
  · rcases hlookup id' m' h with ⟨rfl, rfl⟩ | ⟨hne, hold⟩
    · rw [Function.update_self]
      refine ⟨List.mem_cons_self, ?_⟩
      intro r hr
      rcases List.mem_cons.mp hr with rfl | hr
      · exact UInt64.le_refl _
      · exact UInt64.le_of_lt (habove r hr)
    · rw [Function.update_of_ne hne]
      exact hs.highest id' m' hold
  · rcases hlookup id' m' h with ⟨rfl, rfl⟩ | ⟨hne, hold⟩
    · exact hbehind envelope
    · exact hs.behind id' m' envelope hold
  · by_cases hid : id' = id
    · subst hid
      rw [Function.update_self]
      exact List.mem_cons_of_mem _ (hs.holders who id' h hheld)
    · rw [Function.update_of_ne hid]
      exact hs.holders who id' h hheld
  · rcases hlookup id' m' hm with ⟨rfl, rfl⟩ | ⟨hne, hold⟩
    · have hlt := habove h.2 (hs.holders who id' h hheld)
      refine ⟨UInt64.le_of_lt hlt, ?_, hdelta who h hheld⟩
      intro heq
      rw [heq] at hlt
      exact absurd hlt (UInt64.lt_irrefl _)
    · exact hs.inStep who id' h m' hheld hold

omit [DecidableEq ρ] in
private theorem Synchronised.recorded (hs : Synchronised layer held revisions) {id : SectionId}
    {revision : UInt64} {entries : List DeltaEntry} {layer' : RoomModificationLayer}
    {before : SectionModification}
    (h : RoomModificationLayer.Recorded layer layer' id revision entries before) :
    Synchronised layer' held (Function.update revisions id (revision :: revisions id)) := by
  obtain ⟨-, hmax⟩ := hs.highest id before h.resident
  rw [h.after]
  refine hs.advance (m := ⟨revision, _, _⟩) ?_ ?_ ?_
  · intro r hr
    exact UInt64.lt_of_le_of_lt (hmax r hr) h.advances
  · intro envelope henvelope hbase
    obtain rfl := Option.some.inj henvelope
    have heq : before.sectionRevision = revision := Option.some.inj hbase
    exact absurd (heq ▸ h.advances) (UInt64.lt_irrefl _)
  · intro who held' hheld envelope henvelope hbase
    obtain rfl := Option.some.inj henvelope
    have heq : before.sectionRevision = held'.2 := Option.some.inj hbase
    -- a receiver at the delta's base has the content the batch was written over
    have hread := (hs.inStep who id held' before hheld h.resident).current heq.symm
    refine ⟨writeEntries held'.1 (orderEntries entries), ?_, ?_⟩
    · rw [decode_encodeDelta, if_neg]
      rw [not_or]
      exact ⟨not_not.mpr heq, UInt64.not_le.mpr (heq ▸ h.advances)⟩
    · intro o
      rw [read_writeEntries, read_writeEntries, hread o]

omit [DecidableEq ρ] in
private theorem Synchronised.unchanged (hs : Synchronised layer held revisions) (id : SectionId) :
    Synchronised (layer.markUnchanged id) held revisions := by
  have hlookup : ∀ (id' : SectionId) (m' : SectionModification),
      (layer.markUnchanged id).sections[id']? = some m' →
      layer.sections[id']? = some m' := by
    intro id' m' h
    rw [markUnchanged, BTreeMap.getElem?_erase] at h
    split at h
    · cases h
    · exact h
  exact ⟨fun id' m' h => hs.highest id' m' (hlookup id' m' h),
    fun id' m' envelope h => hs.behind id' m' envelope (hlookup id' m' h), hs.holders,
    fun who id' held m' hheld h => hs.inStep who id' held m' hheld (hlookup id' m' h)⟩

private theorem Synchronised.delivered (hs : Synchronised layer held revisions) {who : ρ}
    {id : SectionId} {m : SectionModification} {storage : SectionStorage}
    (hm : layer.sections[id]? = some m) (hread : ∀ o, storage.read o = m.storage.read o) :
    Synchronised layer (Function.update held who
      (Function.update (held who) id (some (storage, m.sectionRevision)))) revisions := by
  have hlookup : ∀ who' id' h, Function.update held who
      (Function.update (held who) id (some (storage, m.sectionRevision))) who' id' = some h →
      (id' = id ∧ h = (storage, m.sectionRevision)) ∨ held who' id' = some h := by
    intro who' id' h hheld
    by_cases hwho : who' = who
    · subst hwho
      rw [Function.update_self] at hheld
      by_cases hid : id' = id
      · subst hid
        rw [Function.update_self] at hheld
        exact .inl ⟨rfl, (Option.some.inj hheld).symm⟩
      · rw [Function.update_of_ne hid] at hheld
        exact .inr hheld
    · rw [Function.update_of_ne hwho] at hheld
      exact .inr hheld
  refine ⟨hs.highest, hs.behind, fun who' id' h hheld => ?_, fun who' id' h m' hheld hm' => ?_⟩
  · rcases hlookup who' id' h hheld with ⟨rfl, rfl⟩ | hold
    · exact (hs.highest _ m hm).1
    · exact hs.holders who' id' h hold
  · rcases hlookup who' id' h hheld with ⟨rfl, rfl⟩ | hold
    · obtain rfl := Option.some.inj (hm.symm.trans hm')
      refine ⟨UInt64.le_refl _, fun _ => hread, ?_⟩
      intro envelope henvelope hbase
      exact absurd hbase (hs.behind _ m envelope hm henvelope)
    · exact hs.inStep who' id' h m' hold hm'

/-- **Every operation keeps the receivers in step.** -/
theorem synchronised_step {s : LayerSession ρ} (hs : Synchronised s.layer s.held s.revisions)
    {op : LayerOp ρ} (hop : s.Advances op) :
    Synchronised (s.step op).layer (s.step op).held (s.step op).revisions := by
  cases op with
  | setReady id revision storage =>
    exact hs.advance (m := ⟨revision, storage, none⟩) hop (fun _ h => (by cases h))
      (fun _ _ _ _ h => (by cases h))
  | recordDelta id revision entries =>
    cases hrecord : s.layer.recordDelta id revision entries with
    | none =>
      have hstep : s.step (.recordDelta id revision entries) = s := by
        simp only [LayerSession.step, hrecord]
      rw [hstep]
      exact hs
    | some result =>
      obtain ⟨outcome, layer⟩ := result
      rcases recordDelta_cases hrecord with ⟨rfl, before, hrecorded⟩ | ⟨err, rfl, rfl⟩
      · simp only [LayerSession.step, hrecord]
        exact hs.recorded hrecorded
      · simp only [LayerSession.step, hrecord]
        exact hs
  | markUnchanged id => exact hs.unchanged id
  | deliver who id mode =>
    cases hm : s.layer.sections[id]? with
    | none =>
      have hstep : s.step (.deliver who id mode) = s := by
        simp only [LayerSession.step, nextHeld_of_none hm, Function.update_eq_self]
      rw [hstep]
      exact hs
    | some m =>
      obtain ⟨storage, hnext, hread⟩ := nextHeld_of_inStep hm mode
        (fun h hheld => hs.inStep who id h m hheld hm)
      simp only [LayerSession.step, hnext]
      exact hs.delivered hm hread

omit [DecidableEq ρ] in
theorem synchronised_start :
    Synchronised (start : LayerSession ρ).layer (start : LayerSession ρ).held
      (start : LayerSession ρ).revisions where
  highest _ _ h := by cases h
  behind _ _ _ h := by cases h
  holders _ _ _ h := by cases h
  inStep _ _ _ _ h := by cases h

/-- The session after a history. -/
def reached (history : List (LayerOp ρ)) : LayerSession ρ := run step start history

theorem synchronised_reached {history : List (LayerOp ρ)}
    (hadvance : Along step Advances start history) :
    Synchronised (reached history).layer (reached history).held (reached history).revisions := by
  have hstep : ∀ (s : LayerSession ρ) op, Synchronised s.layer s.held s.revisions →
      s.Advances op → Synchronised (s.step op).layer (s.step op).held (s.step op).revisions :=
    fun s op hs hop => synchronised_step hs hop
  exact run_invariant_along hstep synchronised_start hadvance

/-- **Receivers converge.** After any history the next dispatch of a section, in
whatever way a receiver asks for it, leaves the receiver with the layer's content
and revision, and what a delta delivers is what the full payload would.  A batch over a
section in the layer is accepted exactly when its revision is higher and its length can be
written; it takes effect in submission order or not at all. -/
theorem layer_convergence {history : List (LayerOp ρ)}
    (hadvance : Along step Advances start history) :
    (∀ (who : ρ) (id : SectionId) (m : SectionModification) (mode : SyncMode),
      (reached history).layer.sections[id]? = some m →
      (∃ storage, nextHeld (reached history).layer id mode ((reached history).held who id) =
          .ok (some (storage, m.sectionRevision)) ∧ ∀ o, storage.read o = m.storage.read o) ∧
      ∀ envelope decoded,
        ((reached history).layer.dispatchSection id
          (mode.delivery ((reached history).held who id))).envelope = some envelope →
        envelope.decode (mode.baseline ((reached history).held who id)) = .ok decoded →
        ∃ full, (encodeFull id m.sectionRevision m.storage).decode none = .ok full ∧
          decoded.sectionId = full.sectionId ∧ decoded.sectionRevision = full.sectionRevision ∧
          ∀ o, decoded.storage.read o = full.storage.read o) ∧
    (∀ id revision entries,
      (∃ layer', (reached history).layer.recordDelta id revision entries =
        some (.ok (), layer')) ↔
      ∃ before, (reached history).layer.sections[id]? = some before ∧
        before.sectionRevision < revision ∧
        (deltaPayload (orderEntries entries)).length < 2 ^ 32) ∧
    (∀ id revision entries layer',
      (reached history).layer.recordDelta id revision entries = some (.ok (), layer') →
      ∃ before after, (reached history).layer.sections[id]? = some before ∧
        layer'.sections[id]? = some after ∧ after.sectionRevision = revision ∧
        ∀ o, after.storage.read o = (writeEntries before.storage entries).read o) ∧
    (∀ id revision entries err layer',
      (reached history).layer.recordDelta id revision entries = some (.error err, layer') →
      layer' = (reached history).layer) := by
  have hs := synchronised_reached hadvance
  refine ⟨fun who id m mode hm => ?_, fun id revision entries => recordDelta_ok_iff,
    fun id revision entries layer' h => ?_, fun id revision entries err layer' h => ?_⟩
  · have hstep : ∀ h ∈ (reached history).held who id, InStep m id h :=
      fun h hheld => hs.inStep who id h m hheld hm
    refine ⟨nextHeld_of_inStep hm mode hstep, fun envelope decoded henvelope hdecoded => ?_⟩
    obtain ⟨envelope', henvelope', hdecode⟩ := decode_dispatch hm mode hstep
    obtain rfl := Option.some.inj (henvelope.symm.trans henvelope')
    rcases hdecode with ⟨storage, hok, hread⟩ | ⟨hstale, -⟩
    · obtain rfl := Except.ok.inj (hdecoded.symm.trans hok)
      refine ⟨⟨id, m.sectionRevision, m.storage.compacted⟩, ?_, rfl, rfl, ?_⟩
      · rw [decode_encodeFull]
        rfl
      · intro o
        rw [hread o, m.storage.read_compacted]
    · rw [hstale] at hdecoded
      cases hdecoded
  · rcases recordDelta_cases h with ⟨-, before, hrecorded⟩ | ⟨err, herr, -⟩
    · have hafter : layer'.sections[id]? = some ⟨revision,
          writeEntries before.storage (orderEntries entries),
          some (encodeDelta id revision before.sectionRevision (orderEntries entries)
            hrecorded.fits)⟩ :=
        (congrArg (fun l => l.sections[id]?) hrecorded.after).trans
          Std.ExtTreeMap.getElem?_insert_self
      exact ⟨before, _, hrecorded.resident, hafter, rfl,
        read_writeEntries_orderEntries before.storage entries⟩
    · cases herr
  · rcases recordDelta_cases h with ⟨hok, -⟩ | ⟨-, -, rfl⟩
    · cases hok
    · rfl

/-- One receiver, and a batch that writes a cell twice. -/
def cellTwice : List DeltaEntry := [⟨⟨3, by decide⟩, ⟨1⟩⟩, ⟨⟨3, by decide⟩, ⟨2⟩⟩]

def firstDelivered : List (LayerOp Unit) :=
  [.setReady originSection 1 (.uniform ⟨0⟩), .deliver () originSection (.firstDelivery false)]

def oneReceiver : List (LayerOp Unit) :=
  firstDelivered ++ [.recordDelta originSection 2 cellTwice]

private theorem firstDelivered_advances : Along step Advances start firstDelivered :=
  ⟨fun _ h => absurd h List.not_mem_nil, trivial, trivial⟩

private theorem layer_recordDelta {s : LayerSession ρ} {id : SectionId} {revision : UInt64}
    {entries : List DeltaEntry} {layer : RoomModificationLayer}
    (h : s.layer.recordDelta id revision entries = some (.ok (), layer)) :
    (s.step (.recordDelta id revision entries)).layer = layer := by
  simp only [LayerSession.step, h]

/-- A delivery leaves the layer alone. -/
private theorem layer_deliver (s : LayerSession ρ) (who : ρ) (id : SectionId) (mode : SyncMode) :
    (s.step (.deliver who id mode)).layer = s.layer := by
  simp only [LayerSession.step]
  split
  · rfl
  · rfl

private theorem firstDelivered_section :
    (reached firstDelivered).layer.sections[originSection]? = some ⟨1, .uniform ⟨0⟩, none⟩ := by
  rw [reached, firstDelivered, run_cons, run_cons, run_nil, layer_deliver]
  exact Std.ExtTreeMap.getElem?_insert_self

/-- The batch is accepted; asked for next, the section reaches the receiver at revision 2 with
the block written last. -/
theorem layer_convergence_oneReceiver :
    ∃ m storage, (reached oneReceiver).layer.sections[originSection]? = some m ∧
      m.sectionRevision = 2 ∧
      nextHeld (reached oneReceiver).layer originSection .ready
          ((reached oneReceiver).held () originSection) = .ok (some (storage, 2)) ∧
        storage.read ⟨3, by decide⟩ = ⟨2⟩ ∧ storage.read ⟨4, by decide⟩ = ⟨0⟩ := by
  obtain ⟨-, hrecords, heffect, -⟩ := layer_convergence firstDelivered_advances
  obtain ⟨layer, hrecord⟩ := (hrecords originSection 2 cellTwice).mpr
    ⟨_, firstDelivered_section, by decide, by rw [length_deltaPayload_orderEntries]; decide⟩
  obtain ⟨before, m, hbefore, hm, hrevision, hread⟩ := heffect originSection 2 cellTwice layer hrecord
  obtain rfl := Option.some.inj (firstDelivered_section.symm.trans hbefore)
  have hlayer : (reached oneReceiver).layer = layer := by
    rw [reached, oneReceiver, run_append, run_cons, run_nil]
    exact layer_recordDelta hrecord
  rw [← hlayer] at hm
  have hadvance : Along step Advances start oneReceiver :=
    along_append.mpr ⟨firstDelivered_advances, trivial, trivial⟩
  obtain ⟨storage, hnext, hsame⟩ := ((layer_convergence hadvance).1 () originSection m .ready hm).1
  rw [hrevision] at hnext
  refine ⟨m, storage, hm, hrevision, hnext, ?_, ?_⟩
  · rw [hsame, hread, read_writeEntries]
    rfl
  · rw [hsame, hread, read_writeEntries]
    rfl

end LayerSession

end LumioVoxel
