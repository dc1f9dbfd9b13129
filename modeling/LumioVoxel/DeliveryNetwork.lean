import LumioVoxel.RoomModificationLayer

/-!
# Deliveries in flight

A dispatch is not decoded when it is made.  Between the layer and its receivers it may be
lost, kept back, overtaken by later ones and delivered twice, and a receiver may decode it
with or without what it holds.  Whatever the network does, a receiver never holds anything the
layer has not had at that revision, receivers at one revision hold the same, and the next
dispatch that does arrive brings a receiver up to date.
-/

namespace LumioVoxel

open SectionPayloadEnvelope RoomModificationLayer StepRuns

/-! ## 1. The network -/

inductive NetworkOp (ρ : Type) where
  | setReady (id : SectionId) (revision : UInt64) (storage : SectionStorage)
  | recordDelta (id : SectionId) (revision : UInt64) (entries : List DeltaEntry)
  | markUnchanged (id : SectionId)
  | dispatch (id : SectionId) (delivery : SectionDeliveryState)
  /-- Any dispatch made so far, as often as the network likes. -/
  | arrive (who : ρ) (dispatched : Nat) (withBaseline : Bool)

/-- The layer, all it has dispatched, what each receiver holds, and what the layer has had of
each section, the latest first. -/
structure DeliveryNetwork (ρ : Type) where
  layer : RoomModificationLayer
  dispatches : List SectionDispatch
  held : ρ → SectionId → Option HeldSection
  cuts : SectionId → List HeldSection

namespace DeliveryNetwork

variable {ρ : Type} [DecidableEq ρ]

def start : DeliveryNetwork ρ := ⟨.new, [], fun _ _ => none, fun _ => []⟩

/-- The layer as it is now, and its section among what it has had. -/
def withCut (s : DeliveryNetwork ρ) (layer : RoomModificationLayer) (id : SectionId) :
    DeliveryNetwork ρ :=
  match layer.sections[id]? with
  | none => { s with layer := layer }
  | some m =>
    { s with
      layer := layer
      cuts := Function.update s.cuts id ((m.storage, m.sectionRevision) :: s.cuts id) }

/-- One event; a dispatch the receiver cannot decode changes nothing. -/
def step (s : DeliveryNetwork ρ) : NetworkOp ρ → DeliveryNetwork ρ
  | .setReady id revision storage => s.withCut (s.layer.setReady id revision storage) id
  | .recordDelta id revision entries =>
    match s.layer.recordDelta id revision entries with
    | some (.ok _, layer) => s.withCut layer id
    | some (.error _, layer) => { s with layer := layer }
    | none => s
  | .markUnchanged id => { s with layer := s.layer.markUnchanged id }
  | .dispatch id delivery =>
    { s with dispatches := s.dispatches ++ [s.layer.dispatchSection id delivery] }
  | .arrive who dispatched withBaseline =>
    match s.dispatches[dispatched]? with
    | none => s
    | some dispatch =>
      let held := s.held who dispatch.sectionId
      match receive held (if withBaseline then held else none) dispatch with
      | .error _ => s
      | .ok held =>
        { s with
          held := Function.update s.held who
            (Function.update (s.held who) dispatch.sectionId held) }

/-- A section made ready gets a revision above every revision it has had. -/
def Advances (s : DeliveryNetwork ρ) : NetworkOp ρ → Prop
  | .setReady id revision _ => ∀ cut ∈ s.cuts id, cut.2 < revision
  | _ => True

def reached (history : List (NetworkOp ρ)) : DeliveryNetwork ρ := run step start history

/-! ## 2. What an envelope tells -/

/-- What the layer had at this revision, cell by cell. -/
def Had (cuts : List HeldSection) (held : HeldSection) : Prop :=
  ∃ storage, (storage, held.2) ∈ cuts ∧ ∀ o, held.1.read o = storage.read o

/-- The envelope is a batch of entries that led from an earlier cut to this one. -/
def LeadsTo (cuts : List HeldSection) (id : SectionId) (cut : HeldSection)
    (envelope : SectionPayloadEnvelope) : Prop :=
  ∃ before ∈ cuts, ∃ entries hfits, before.2 < cut.2 ∧
    cut.1 = writeEntries before.1 entries ∧ envelope = encodeDelta id cut.2 before.2 entries hfits

def Tells (cuts : List HeldSection) (id : SectionId) (envelope : SectionPayloadEnvelope) : Prop :=
  ∃ cut ∈ cuts, envelope = encodeFull id cut.2 cut.1 ∨ LeadsTo cuts id cut envelope

/-- The latest first, each revision once. -/
def Descending (cuts : List HeldSection) : Prop :=
  cuts.Pairwise fun later earlier => earlier.2 < later.2

variable {cuts : List HeldSection} {id : SectionId} {envelope : SectionPayloadEnvelope}

theorem LeadsTo.mono {cut : HeldSection} (h : LeadsTo cuts id cut envelope)
    (later : HeldSection) : LeadsTo (later :: cuts) id cut envelope := by
  obtain ⟨before, hbefore, rest⟩ := h
  exact ⟨before, List.mem_cons_of_mem later hbefore, rest⟩

theorem Tells.mono (h : Tells cuts id envelope) (later : HeldSection) :
    Tells (later :: cuts) id envelope := by
  obtain ⟨cut, hcut, hfull | hleads⟩ := h
  · exact ⟨cut, List.mem_cons_of_mem later hcut, .inl hfull⟩
  · exact ⟨cut, List.mem_cons_of_mem later hcut, .inr (hleads.mono later)⟩

theorem Had.mono {held : HeldSection} (h : Had cuts held) (later : HeldSection) :
    Had (later :: cuts) held := by
  obtain ⟨storage, hcut, hread⟩ := h
  exact ⟨storage, List.mem_cons_of_mem later hcut, hread⟩

/-- A revision names one cut. -/
theorem Descending.eq_of_revision (h : Descending cuts) {a b : HeldSection} (ha : a ∈ cuts)
    (hb : b ∈ cuts) (hrevision : a.2 = b.2) : a = b := by
  induction cuts with
  | nil => cases ha
  | cons cut rest ih =>
    obtain ⟨hlater, hrest⟩ := List.pairwise_cons.mp h
    rcases List.mem_cons.mp ha with rfl | holda
    · rcases List.mem_cons.mp hb with rfl | holdb
      · rfl
      · have hlt := hlater b holdb
        rw [hrevision] at hlt
        exact absurd hlt (UInt64.lt_irrefl _)
    · rcases List.mem_cons.mp hb with rfl | holdb
      · have hlt := hlater a holda
        rw [hrevision] at hlt
        exact absurd hlt (UInt64.lt_irrefl _)
      · exact ih hrest holda holdb

/-- Who holds what the layer had at one revision holds the same. -/
theorem Descending.read_eq (h : Descending cuts) {a b : HeldSection} (ha : Had cuts a)
    (hb : Had cuts b) (hrevision : a.2 = b.2) (o : CellOffset) : a.1.read o = b.1.read o := by
  obtain ⟨storage, hcut, hread⟩ := ha
  obtain ⟨storage', hcut', hread'⟩ := hb
  have hsame : (storage, a.2) = (storage', b.2) := h.eq_of_revision hcut hcut' hrevision
  rw [hread o, hread' o, (Prod.mk.inj hsame).1]

theorem decode_encodeDelta_none {revision base : UInt64} {entries : List DeltaEntry}
    (hfits : (deltaPayload entries).length < 2 ^ 32) (decoded : DecodedSectionPayload) :
    (encodeDelta id revision base entries hfits).decode none ≠ .ok decoded := by
  have hstorage : (encodeDelta id revision base entries hfits).decodeStorage none =
      .error (.contractViolation DELTA_USED_FOR_FIRST_DELIVERY) := rfl
  unfold encodeDelta at hstorage ⊢
  rw [decode_outgoing, hstorage]
  intro h
  cases h

/-- **What is decoded was had.** Over a baseline the layer had, or over none, an envelope that
tells of a cut gives what the layer had, above the baseline. -/
theorem Tells.decode (hcuts : Descending cuts) (h : Tells cuts id envelope)
    {baseline : Option HeldSection} (hbaseline : ∀ held ∈ baseline, Had cuts held)
    {decoded : DecodedSectionPayload} (hdecode : envelope.decode baseline = .ok decoded) :
    Had cuts (decoded.storage, decoded.sectionRevision) ∧
      ∀ held ∈ baseline, held.2 < decoded.sectionRevision := by
  obtain ⟨cut, hcut, rfl | ⟨before, hbefore, entries, hfits, hlt, hwritten, rfl⟩⟩ := h
  · rw [decode_encodeFull] at hdecode
    split at hdecode
    · cases hdecode
    · rename_i hfresh
      obtain rfl := Except.ok.inj hdecode
      refine ⟨⟨cut.1, hcut, cut.1.read_compacted⟩, ?_⟩
      intro held hheld
      apply UInt64.not_le.mp
      intro hstale
      apply hfresh
      rw [Option.any_eq_true]
      exact ⟨held, hheld, decide_eq_true hstale⟩
  · cases baseline with
    | none => exact absurd hdecode (decode_encodeDelta_none hfits decoded)
    | some held =>
      rw [decode_encodeDelta] at hdecode
      split at hdecode
      · cases hdecode
      · rename_i hbase
        rw [not_or, not_not, UInt64.not_le] at hbase
        obtain rfl := Except.ok.inj hdecode
        obtain ⟨storage, hstorage, hread⟩ := hbaseline held rfl
        have hsame : (storage, held.2) = before :=
          hcuts.eq_of_revision hstorage hbefore hbase.1.symm
        refine ⟨⟨cut.1, hcut, ?_⟩, ?_⟩
        · intro o
          rw [hwritten, ← hsame, read_writeEntries, read_writeEntries, hread o]
        · intro held' hheld'
          obtain rfl := Option.some.inj hheld'
          exact hbase.2

/-! ## 3. The invariant -/

/-- The layer's section is the latest cut, the kept delta led to it, and whatever was
dispatched and whatever is held tells of cuts. -/
structure Coherent (layer : RoomModificationLayer) (dispatches : List SectionDispatch)
    (held : ρ → SectionId → Option HeldSection) (cuts : SectionId → List HeldSection) : Prop where
  descending : ∀ id, Descending (cuts id)
  latest : ∀ (id : SectionId) (m : SectionModification), layer.sections[id]? = some m →
    (m.storage, m.sectionRevision) ∈ cuts id ∧ ∀ cut ∈ cuts id, cut.2 ≤ m.sectionRevision
  delta : ∀ (id : SectionId) (m : SectionModification) (envelope : SectionPayloadEnvelope),
    layer.sections[id]? = some m → m.latestDelta = some envelope →
      LeadsTo (cuts id) id (m.storage, m.sectionRevision) envelope
  dispatched : ∀ dispatch ∈ dispatches, ∀ envelope, dispatch.envelope = some envelope →
    Tells (cuts dispatch.sectionId) dispatch.sectionId envelope
  held : ∀ who (id : SectionId) (h : HeldSection), held who id = some h → Had (cuts id) h

variable {layer : RoomModificationLayer} {dispatches : List SectionDispatch}
  {held : ρ → SectionId → Option HeldSection} {had : SectionId → List HeldSection}

omit [DecidableEq ρ] in
/-- A section with a revision above every one it has had, and a delta that led to it. -/
private theorem Coherent.cut (h : Coherent layer dispatches held had) {id : SectionId}
    {m : SectionModification} (habove : ∀ cut ∈ had id, cut.2 < m.sectionRevision)
    (hdelta : ∀ envelope, m.latestDelta = some envelope →
      LeadsTo (had id) id (m.storage, m.sectionRevision) envelope) :
    Coherent ⟨layer.sections.insert id m⟩ dispatches held
      (Function.update had id ((m.storage, m.sectionRevision) :: had id)) := by
  have hlookup : ∀ (id' : SectionId) (m' : SectionModification),
      (layer.sections.insert id m)[id']? = some m' →
        (id' = id ∧ m' = m) ∨ (id' ≠ id ∧ layer.sections[id']? = some m') := by
    intro id' m' hm'
    rw [BTreeMap.getElem?_insert] at hm'
    by_cases hid : id = id'
    · rw [if_pos hid] at hm'
      exact .inl ⟨hid.symm, (Option.some.inj hm').symm⟩
    · rw [if_neg hid] at hm'
      exact .inr ⟨Ne.symm hid, hm'⟩
  constructor
  · intro id'
    by_cases hid : id' = id
    · subst hid
      rw [Function.update_self]
      exact List.pairwise_cons.mpr ⟨habove, h.descending id'⟩
    · rw [Function.update_of_ne hid]
      exact h.descending id'
  · intro id' m' hm'
    rcases hlookup id' m' hm' with ⟨rfl, rfl⟩ | ⟨hne, hold⟩
    · rw [Function.update_self]
      refine ⟨List.mem_cons_self, ?_⟩
      intro cut hcut
      rcases List.mem_cons.mp hcut with rfl | hcut
      · exact UInt64.le_refl _
      · exact UInt64.le_of_lt (habove cut hcut)
    · rw [Function.update_of_ne hne]
      exact h.latest id' m' hold
  · intro id' m' envelope hm' henvelope
    rcases hlookup id' m' hm' with ⟨rfl, rfl⟩ | ⟨hne, hold⟩
    · rw [Function.update_self]
      exact (hdelta envelope henvelope).mono _
    · rw [Function.update_of_ne hne]
      exact h.delta id' m' envelope hold henvelope
  · intro dispatch hdispatch envelope henvelope
    have htells := h.dispatched dispatch hdispatch envelope henvelope
    by_cases hid : dispatch.sectionId = id
    · rw [hid] at htells ⊢
      rw [Function.update_self]
      exact htells.mono _
    · rw [Function.update_of_ne hid]
      exact htells
  · intro who id' holding hheld
    have hhad := h.held who id' holding hheld
    by_cases hid : id' = id
    · subst hid
      rw [Function.update_self]
      exact hhad.mono _
    · rw [Function.update_of_ne hid]
      exact hhad

omit [DecidableEq ρ] in
private theorem Coherent.unchanged (h : Coherent layer dispatches held had) (id : SectionId) :
    Coherent (layer.markUnchanged id) dispatches held had := by
  have hlookup : ∀ (id' : SectionId) (m : SectionModification),
      (layer.markUnchanged id).sections[id']? = some m → layer.sections[id']? = some m := by
    intro id' m hm
    rw [markUnchanged, BTreeMap.getElem?_erase] at hm
    split at hm
    · cases hm
    · exact hm
  exact ⟨h.descending, fun id' m hm => h.latest id' m (hlookup id' m hm),
    fun id' m envelope hm => h.delta id' m envelope (hlookup id' m hm), h.dispatched, h.held⟩

/-- What the layer dispatches: the kept delta, or the whole section. -/
theorem dispatch_cases {layer : RoomModificationLayer} {id : SectionId}
    {delivery : SectionDeliveryState} {envelope : SectionPayloadEnvelope}
    (h : (layer.dispatchSection id delivery).envelope = some envelope) :
    ∃ m, layer.sections[id]? = some m ∧ (m.latestDelta = some envelope ∨
      envelope = encodeFull id m.sectionRevision m.storage) := by
  cases hm : layer.sections[id]? with
  | none =>
    cases delivery <;> simp only [dispatchSection, hm, SectionDispatch.envelope, reduceCtorEq] at h
  | some m =>
    refine ⟨m, rfl, ?_⟩
    have hready : ∀ revision : Option UInt64,
        some ((revision.bind fun revision => m.latestDelta.filter fun delta =>
          delta.baseSectionRevision = some revision).getD
            (encodeFull id m.sectionRevision m.storage)) = some envelope →
        m.latestDelta = some envelope ∨ envelope = encodeFull id m.sectionRevision m.storage := by
      intro revision heq
      cases hdelta : revision.bind fun revision => m.latestDelta.filter fun delta =>
          delta.baseSectionRevision = some revision with
      | none =>
        rw [hdelta] at heq
        exact .inr (Option.some.inj heq).symm
      | some kept =>
        rw [hdelta] at heq
        obtain rfl := Option.some.inj heq
        obtain ⟨revision, -, hkept⟩ := Option.bind_eq_some_iff.mp hdelta
        exact .inl (Option.filter_eq_some_iff.mp hkept).1
    cases delivery with
    | pending => cases h
    | unavailable => cases h
    | ready revision =>
      simp only [dispatchSection, hm] at h
      exact hready (some revision) h
    | firstDelivery =>
      simp only [dispatchSection, hm] at h
      exact hready none h
    | resync =>
      simp only [dispatchSection, hm] at h
      exact hready none h

theorem dispatchSection_sectionId (layer : RoomModificationLayer) (id : SectionId)
    (delivery : SectionDeliveryState) : (layer.dispatchSection id delivery).sectionId = id := by
  cases delivery <;> cases hm : layer.sections[id]? <;> simp only [dispatchSection, hm]

omit [DecidableEq ρ] in
private theorem Coherent.dispatch (h : Coherent layer dispatches held had) (id : SectionId)
    (delivery : SectionDeliveryState) :
    Coherent layer (dispatches ++ [layer.dispatchSection id delivery]) held had := by
  refine ⟨h.descending, h.latest, h.delta, ?_, h.held⟩
  intro dispatch hdispatch envelope henvelope
  rcases List.mem_append.mp hdispatch with hold | hnew
  · exact h.dispatched dispatch hold envelope henvelope
  · obtain rfl := List.mem_singleton.mp hnew
    rw [dispatchSection_sectionId]
    obtain ⟨m, hm, hkept | rfl⟩ := dispatch_cases henvelope
    · exact ⟨_, (h.latest id m hm).1, .inr (h.delta id m envelope hm hkept)⟩
    · exact ⟨_, (h.latest id m hm).1, .inl rfl⟩

/-- A receiver keeps what it holds, or has something the layer had, above its baseline. -/
theorem receive_cases {cuts : List HeldSection} (hcuts : Descending cuts)
    {dispatch : SectionDispatch}
    (hdispatch : ∀ envelope, dispatch.envelope = some envelope →
      Tells cuts dispatch.sectionId envelope)
    {holding baseline next : Option HeldSection} (hbaseline : ∀ h ∈ baseline, Had cuts h)
    (h : receive holding baseline dispatch = .ok next) :
    next = holding ∨
      ∃ h', next = some h' ∧ Had cuts h' ∧ ∀ b ∈ baseline, b.2 < h'.2 := by
  unfold receive at h
  split at h
  · exact .inl (Except.ok.inj h).symm
  · rename_i envelope henvelope
    split at h
    · rename_i decoded hdecode
      obtain ⟨hhad, habove⟩ := (hdispatch envelope henvelope).decode hcuts hbaseline hdecode
      exact .inr ⟨_, (Except.ok.inj h).symm, hhad, habove⟩
    · split at h
      · exact .inl (Except.ok.inj h).symm
      · cases h

private theorem Coherent.arrive (h : Coherent layer dispatches held had)
    {dispatch : SectionDispatch} (hdispatch : dispatch ∈ dispatches) {who : ρ}
    {withBaseline : Bool} {next : Option HeldSection}
    (hreceive : receive (held who dispatch.sectionId)
      (if withBaseline then held who dispatch.sectionId else none) dispatch = .ok next) :
    Coherent layer dispatches (Function.update held who
      (Function.update (held who) dispatch.sectionId next)) had := by
  have hbaseline : ∀ b ∈ (if withBaseline then held who dispatch.sectionId else none),
      Had (had dispatch.sectionId) b := by
    intro b hb
    split at hb
    · exact h.held who _ b hb
    · cases hb
  have hcases := receive_cases (h.descending dispatch.sectionId) (h.dispatched dispatch hdispatch)
    hbaseline hreceive
  refine ⟨h.descending, h.latest, h.delta, h.dispatched, ?_⟩
  intro who' id holding hholding
  by_cases hwho : who' = who
  · subst hwho
    rw [Function.update_self] at hholding
    by_cases hid : id = dispatch.sectionId
    · subst hid
      rw [Function.update_self] at hholding
      rcases hcases with rfl | ⟨h', rfl, hhad, -⟩
      · exact h.held who' _ holding hholding
      · obtain rfl := Option.some.inj hholding
        exact hhad
    · rw [Function.update_of_ne hid] at hholding
      exact h.held who' id holding hholding
  · rw [Function.update_of_ne hwho] at hholding
    exact h.held who' id holding hholding

/-! ## 4. Runs -/

variable {s : DeliveryNetwork ρ}

omit [DecidableEq ρ] in
theorem withCut_insert (s : DeliveryNetwork ρ) (id : SectionId) (m : SectionModification) :
    s.withCut ⟨s.layer.sections.insert id m⟩ id =
      { s with
        layer := ⟨s.layer.sections.insert id m⟩
        cuts := Function.update s.cuts id ((m.storage, m.sectionRevision) :: s.cuts id) } := by
  simp only [withCut, Std.ExtTreeMap.getElem?_insert_self]

/-- **Every event keeps the network coherent.** -/
theorem coherent_step (hs : Coherent s.layer s.dispatches s.held s.cuts) {op : NetworkOp ρ}
    (hop : s.Advances op) :
    Coherent (s.step op).layer (s.step op).dispatches (s.step op).held (s.step op).cuts := by
  cases op with
  | setReady id revision storage =>
    have habove : ∀ cut ∈ s.cuts id,
        cut.2 < (⟨revision, storage, none⟩ : SectionModification).sectionRevision := hop
    simp only [step, setReady, withCut_insert]
    apply hs.cut habove
    intro envelope henvelope
    cases henvelope
  | recordDelta id revision entries =>
    cases hrecord : s.layer.recordDelta id revision entries with
    | none =>
      simp only [step, hrecord]
      exact hs
    | some result =>
      obtain ⟨outcome, layer'⟩ := result
      rcases recordDelta_cases hrecord with ⟨rfl, before, hrecorded⟩ | ⟨err, rfl, rfl⟩
      · obtain ⟨hbefore, hlatest⟩ := hs.latest id before hrecorded.resident
        simp only [step, hrecord, hrecorded.after, withCut_insert]
        apply hs.cut
        · intro cut hcut
          exact UInt64.lt_of_le_of_lt (hlatest cut hcut) hrecorded.advances
        · intro envelope henvelope
          obtain rfl := Option.some.inj henvelope
          exact ⟨_, hbefore, _, hrecorded.fits, hrecorded.advances, rfl, rfl⟩
      · simp only [step, hrecord]
        exact hs
  | markUnchanged id => exact hs.unchanged id
  | dispatch id delivery => exact hs.dispatch id delivery
  | arrive who dispatched withBaseline =>
    simp only [step]
    split
    · exact hs
    · rename_i dispatch hdispatch
      split
      · exact hs
      · rename_i next hreceive
        exact hs.arrive (List.mem_of_getElem? hdispatch) hreceive

omit [DecidableEq ρ] in
theorem coherent_start : Coherent (start : DeliveryNetwork ρ).layer
    (start : DeliveryNetwork ρ).dispatches (start : DeliveryNetwork ρ).held
    (start : DeliveryNetwork ρ).cuts where
  descending _ := List.Pairwise.nil
  latest _ _ h := by cases h
  delta _ _ _ h := by cases h
  dispatched _ h := by cases h
  held _ _ _ h := by cases h

theorem coherent_run {history : List (NetworkOp ρ)}
    (hs : Coherent s.layer s.dispatches s.held s.cuts) (hadvance : Along step Advances s history) :
    Coherent (run step s history).layer (run step s history).dispatches
      (run step s history).held (run step s history).cuts := by
  have hstep : ∀ (s : DeliveryNetwork ρ) op, Coherent s.layer s.dispatches s.held s.cuts →
      s.Advances op → Coherent (s.step op).layer (s.step op).dispatches (s.step op).held
        (s.step op).cuts := fun s op hs hop => coherent_step hs hop
  exact run_invariant_along hstep hs hadvance

omit [DecidableEq ρ] in
/-- Who holds what the layer had is in step with what it has. -/
theorem Coherent.inStep (h : Coherent layer dispatches held had) {id : SectionId}
    {m : SectionModification} (hm : layer.sections[id]? = some m) {holding : HeldSection}
    (hhad : Had (had id) holding) : InStep m id holding := by
  obtain ⟨hcurrent, hlatest⟩ := h.latest id m hm
  obtain ⟨storage, hcut, hread⟩ := hhad
  constructor
  · exact hlatest (storage, holding.2) hcut
  · intro hrevision
    have hnow : Had (had id) (m.storage, m.sectionRevision) := ⟨_, hcurrent, fun _ => rfl⟩
    exact (h.descending id).read_eq ⟨storage, hcut, hread⟩ hnow hrevision
  · intro envelope henvelope hbase
    obtain ⟨before, hbefore, entries, hfits, hlt, hwritten, rfl⟩ :=
      h.delta id m envelope hm henvelope
    have hrevision : before.2 = holding.2 := Option.some.inj hbase
    have hsame : before = (storage, holding.2) :=
      (h.descending id).eq_of_revision hbefore hcut hrevision
    refine ⟨writeEntries holding.1 entries, ?_, ?_⟩
    · rw [decode_encodeDelta, if_neg]
      rw [not_or, not_not, UInt64.not_le]
      exact ⟨hrevision, hrevision ▸ hlt⟩
    · intro o
      have hstorage : m.storage = writeEntries before.1 entries := hwritten
      rw [hstorage, hsame, read_writeEntries, read_writeEntries, hread o]

/-- A receiver that always offers what it holds does not go back, whatever others offer. -/
theorem held_step (hs : Coherent s.layer s.dispatches s.held s.cuts) {op : NetworkOp ρ} {who : ρ}
    (hop : ∀ n, op ≠ .arrive who n false) {id : SectionId} {holding : HeldSection}
    (hheld : s.held who id = some holding) :
    ∃ next, (s.step op).held who id = some next ∧ holding.2 ≤ next.2 := by
  have hkeep : ∀ {s' : DeliveryNetwork ρ}, s'.held who id = s.held who id →
      ∃ next, s'.held who id = some next ∧ holding.2 ≤ next.2 := by
    intro s' hsame
    exact ⟨holding, hsame.trans hheld, UInt64.le_refl _⟩
  have hwith : ∀ layer id', (s.withCut layer id').held who id = s.held who id := by
    intro layer id'
    unfold withCut
    split
    · rfl
    · rfl
  cases op with
  | setReady id' revision storage => exact hkeep (hwith _ _)
  | recordDelta id' revision entries =>
    simp only [step]
    split
    · exact hkeep (hwith _ _)
    · exact hkeep rfl
    · exact hkeep rfl
  | markUnchanged id' => exact hkeep rfl
  | dispatch id' delivery => exact hkeep rfl
  | arrive who' dispatched withBaseline =>
    simp only [step]
    split
    · exact hkeep rfl
    · rename_i dispatch hdispatch
      split
      · exact hkeep rfl
      · rename_i next hreceive
        by_cases hwho : who = who'
        swap
        · apply hkeep
          simp only [Function.update_of_ne hwho]
        subst hwho
        cases withBaseline with
        | false => exact absurd rfl (hop dispatched)
        | true =>
          rw [if_pos rfl] at hreceive
          by_cases hid : id = dispatch.sectionId
          · subst hid
            simp only [Function.update_self]
            have hbaseline : ∀ b ∈ s.held who dispatch.sectionId,
                Had (s.cuts dispatch.sectionId) b := hs.held who dispatch.sectionId
            rcases receive_cases (hs.descending dispatch.sectionId)
              (hs.dispatched dispatch (List.mem_of_getElem? hdispatch)) hbaseline hreceive with
              rfl | ⟨next, rfl, -, habove⟩
            · exact ⟨holding, hheld, UInt64.le_refl _⟩
            · exact ⟨next, rfl, UInt64.le_of_lt (habove holding hheld)⟩
          · apply hkeep
            simp only [Function.update_self, Function.update_of_ne hid]

theorem held_run {more : List (NetworkOp ρ)} {who : ρ}
    (hs : Coherent s.layer s.dispatches s.held s.cuts)
    (hmore : Along step (fun s op => s.Advances op ∧ ∀ n, op ≠ .arrive who n false) s more)
    {id : SectionId} {holding : HeldSection} (hheld : s.held who id = some holding) :
    ∃ next, (run step s more).held who id = some next ∧ holding.2 ≤ next.2 := by
  induction more generalizing s holding with
  | nil => exact ⟨holding, hheld, UInt64.le_refl _⟩
  | cons op more ih =>
    obtain ⟨⟨hadvance, hop⟩, hmore⟩ := hmore
    obtain ⟨middle, hmiddle, hle⟩ := held_step hs hop hheld
    obtain ⟨next, hnext, hle'⟩ := ih (coherent_step hs hadvance) hmore hmiddle
    exact ⟨next, hnext, UInt64.le_trans hle hle'⟩

/-- **Receivers agree on any network.** Let every section made ready get a revision above all
it has had.  Whatever was lost, kept back, repeated or reordered: what a receiver holds is what
the layer had at that revision, so receivers at one revision hold the same; one that offers
what it holds does not go back, whatever the others offer; and the next dispatch made for it,
once it arrives, brings it to the layer's content and revision. -/
theorem deliveries_agree {history : List (NetworkOp ρ)}
    (hadvance : Along step Advances start history) :
    (∀ (who : ρ) (id : SectionId) (h : HeldSection), (reached history).held who id = some h →
      Had ((reached history).cuts id) h) ∧
    (∀ (who who' : ρ) (id : SectionId) (h h' : HeldSection),
      (reached history).held who id = some h → (reached history).held who' id = some h' →
      h.2 = h'.2 → ∀ o, h.1.read o = h'.1.read o) ∧
    (∀ (who : ρ) (id : SectionId) (m : SectionModification) (mode : SyncMode),
      (reached history).layer.sections[id]? = some m →
      ∃ storage, nextHeld (reached history).layer id mode ((reached history).held who id) =
        .ok (some (storage, m.sectionRevision)) ∧ ∀ o, storage.read o = m.storage.read o) ∧
    ∀ (who : ρ) (more : List (NetworkOp ρ)), Along step (fun s op => s.Advances op ∧
        ∀ n, op ≠ .arrive who n false) (reached history) more →
      ∀ (id : SectionId) (h : HeldSection), (reached history).held who id = some h →
        ∃ h', (reached (history ++ more)).held who id = some h' ∧ h.2 ≤ h'.2 := by
  have hs := coherent_run coherent_start hadvance
  refine ⟨hs.held, ?_, ?_, ?_⟩
  · intro who who' id h h' hheld hheld' hrevision
    exact (hs.descending id).read_eq (hs.held who id h hheld) (hs.held who' id h' hheld') hrevision
  · intro who id m mode hm
    apply nextHeld_of_inStep hm mode
    intro h hheld
    exact hs.inStep hm (hs.held who id h hheld)
  · intro who more hmore id h hheld
    rw [reached, run_append]
    exact held_run hs hmore hheld

theorem step_arrive_full {id : SectionId} {revision : UInt64} {storage : SectionStorage}
    {n : Nat} (hdispatch : s.dispatches[n]? = some ⟨id, .ready (encodeFull id revision storage)⟩)
    (who : ρ) : s.step (.arrive who n false) =
      { s with
        held := Function.update s.held who
          (Function.update (s.held who) id (some (storage.compacted, revision))) } := by
  have hdecode : (encodeFull id revision storage).decode none =
      .ok ⟨id, revision, storage.compacted⟩ := decode_encodeFull id revision storage none
  have hreceive : receive (s.held who id) none ⟨id, .ready (encodeFull id revision storage)⟩ =
      .ok (some (storage.compacted, revision)) := by
    simp only [receive, SectionDispatch.envelope, hdecode]
  simp only [step, hdispatch, Bool.false_eq_true, if_false, hreceive]

/-- One dispatch, which two receivers get. -/
def twoReceivers (storage : SectionStorage) : List (NetworkOp Bool) :=
  [.setReady originSection 1 storage, .dispatch originSection .firstDelivery,
    .arrive true 0 false, .arrive false 0 false]

theorem held_twoReceivers (storage : SectionStorage) (who : Bool) :
    (reached (twoReceivers storage)).held who originSection = some (storage.compacted, 1) := by
  have hdispatched : ((start.step (.setReady originSection 1 storage)).step
      (.dispatch originSection .firstDelivery) : DeliveryNetwork Bool).dispatches[0]? =
        some ⟨originSection, .ready (encodeFull originSection 1 storage)⟩ := by
    simp only [step, start, setReady, withCut, dispatchSection,
      Std.ExtTreeMap.getElem?_insert_self, Option.bind_none, Option.getD_none, List.nil_append,
      List.getElem?_cons_zero]
  have hone := step_arrive_full hdispatched true
  have hkept := congrArg (fun s => s.dispatches[0]?) hone
  have htwice := step_arrive_full (hkept.trans hdispatched) false
  rw [reached, twoReceivers, run_cons, run_cons, run_cons, run_cons, run_nil, htwice, hone]
  cases who
  · simp only [Function.update_self]
  · simp only [Function.update_self, Function.update_of_ne, ne_eq, reduceCtorEq,
      not_false_eq_true]

/-- A receiver's dispatch leaves the layer and its cuts alone. -/
theorem step_arrive (s : DeliveryNetwork ρ) (who : ρ) (n : Nat) (withBaseline : Bool) :
    (s.step (.arrive who n withBaseline)).layer = s.layer ∧
      (s.step (.arrive who n withBaseline)).cuts = s.cuts := by
  simp only [step]
  split
  · exact ⟨rfl, rfl⟩
  split
  · exact ⟨rfl, rfl⟩
  · exact ⟨rfl, rfl⟩

theorem step_dispatch (s : DeliveryNetwork ρ) (id : SectionId) (delivery : SectionDeliveryState) :
    (s.step (.dispatch id delivery)).layer = s.layer ∧
      (s.step (.dispatch id delivery)).cuts = s.cuts := ⟨rfl, rfl⟩

theorem step_setReady (s : DeliveryNetwork ρ) (id : SectionId) (revision : UInt64)
    (storage : SectionStorage) : (s.step (.setReady id revision storage)).layer.sections[id]? =
        some ⟨revision, storage, none⟩ ∧
      (s.step (.setReady id revision storage)).cuts id = (storage, revision) :: s.cuts id := by
  have hset : (s.layer.setReady id revision storage).sections[id]? =
      some ⟨revision, storage, none⟩ := Std.ExtTreeMap.getElem?_insert_self
  simp only [step, withCut, hset, Function.update_self, and_self]

/-- The section is made ready anew while the first dispatch is still around. -/
def overtaken : List (NetworkOp Bool) :=
  [.setReady originSection 2 (.uniform ⟨5⟩), .dispatch originSection .firstDelivery,
    .arrive true 0 true]

/-- The first cut, which both receivers have. -/
def firstCut : List (NetworkOp Bool) := twoReceivers (.uniform ⟨0⟩)

private theorem firstCut_advances : Along step Advances start firstCut := by
  refine ⟨?_, trivial, trivial, trivial, trivial⟩
  intro cut hcut
  cases hcut

private theorem overtaken_advances :
    Along step (fun s op => s.Advances op ∧ ∀ n, op ≠ .arrive true n false) (reached firstCut)
      overtaken := by
  have hcuts : (reached firstCut).cuts originSection = [(.uniform ⟨0⟩, 1)] := by
    rw [reached, firstCut, twoReceivers, run_cons, run_cons, run_cons, run_cons, run_nil,
      (step_arrive _ _ _ _).2, (step_arrive _ _ _ _).2, (step_dispatch _ _ _).2,
      (step_setReady _ _ _ _).2]
    rfl
  refine ⟨⟨?_, nofun⟩, ⟨trivial, nofun⟩, ⟨trivial, nofun⟩, trivial⟩
  intro cut hcut
  rw [hcuts, List.mem_singleton] at hcut
  rw [hcut]
  decide

private theorem layer_overtaken :
    (reached (firstCut ++ overtaken)).layer.sections[originSection]? =
      some ⟨2, .uniform ⟨5⟩, none⟩ := by
  rw [reached, run_append, overtaken, run_cons, run_cons, run_cons, run_nil,
    (step_arrive _ _ _ _).1, (step_dispatch _ _ _).1, (step_setReady _ _ _ _).1]

/-- Both hold the first cut; a late dispatch does not take a receiver back, and the next one
made for the other brings it to the second cut. -/
theorem deliveries_agree_twoReceivers :
    ∃ h h' later storage, (reached firstCut).held true originSection = some h ∧
      (reached firstCut).held false originSection = some h' ∧ (∀ o, h.1.read o = h'.1.read o) ∧
      (reached (firstCut ++ overtaken)).held true originSection = some later ∧ h.2 ≤ later.2 ∧
      nextHeld (reached (firstCut ++ overtaken)).layer originSection .ready
          ((reached (firstCut ++ overtaken)).held false originSection) = .ok (some (storage, 2)) ∧
        ∀ o, storage.read o = ⟨5⟩ := by
  have hall : Along step Advances start (firstCut ++ overtaken) :=
    along_append.mpr ⟨firstCut_advances, along_mono (fun _ _ h => h.1) overtaken_advances⟩
  have hheld := held_twoReceivers (.uniform ⟨0⟩)
  rw [← firstCut] at hheld
  obtain ⟨-, hagree, -, hkeep⟩ := deliveries_agree firstCut_advances
  obtain ⟨later, hlater, hle⟩ := hkeep true overtaken overtaken_advances originSection _ (hheld true)
  obtain ⟨storage, hnext, hread⟩ :=
    (deliveries_agree hall).2.2.1 false originSection _ .ready layer_overtaken
  exact ⟨_, _, later, storage, hheld true, hheld false,
    hagree true false originSection _ _ (hheld true) (hheld false) rfl, hlater, hle, hnext, hread⟩

end DeliveryNetwork

end LumioVoxel
