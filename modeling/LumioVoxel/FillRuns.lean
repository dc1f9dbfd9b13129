import LumioVoxel.SectionFills
import LumioVoxel.WorldProgress

/-!
# Sessions over known cuts

What a session does to a published root that looks like a known cut: fill a section, clear its
mark, unload it, capture the cut and put it back.  Each operation leads from a session over
one known cut to a session over the next, so the roots of a whole life of a section are known.
-/

namespace LumioVoxel

open DebugText Fallible StepRuns

section Fills

variable [UnicodeTables]

/-! ## 1. What the operations leave alone -/

/-- The parts of a world that no operation of its port touches. -/
def WorldInstance.settings (world : WorldInstance) :
    VoxelConfigSnapshot × Option RegionPinManager :=
  (world.snapshot, world.regionPins)

/-- And the ledger, which acknowledgements and unloads leave alone as well. -/
def WorldInstance.books (world : WorldInstance) :
    ReceiptLedger × VoxelConfigSnapshot × Option RegionPinManager :=
  (world.ledger, world.settings)

omit [UnicodeTables] in
theorem WorldInstance.look_underBarrier {α β : Type} {look : WorldInstance → β}
    (hlook : ∀ (w : WorldInstance) b, look { w with writeOccupied := b } = look w)
    {work : WorldInstance → Except WorldError α × WorldInstance}
    (hwork : ∀ w, look (work w).2 = look w) (world : WorldInstance) (scope : BarrierScope) :
    look (world.underBarrier scope work).2 = look world := by
  rcases world.underBarrier_cases scope work with ⟨err, -, hrun⟩ | ⟨-, hrun⟩
  · rw [hrun]
  · rw [hrun, hlook, hwork, hlook]

theorem books_ack (world : WorldInstance) (ack : DurabilityAckEvidence) :
    (applyDurabilityAck world ack).2.books = world.books := by
  unfold applyDurabilityAck
  split
  · rfl
  · apply WorldInstance.look_underBarrier (fun _ _ => rfl)
    intro w
    unfold DurabilityAckBarrier.apply
    split <;> rfl

theorem books_unload (world : WorldInstance) (sectionId : String) (hook : PinExemptionHook) :
    (unloadSection world sectionId hook).2.books = world.books :=
  WorldInstance.look_underBarrier (fun _ _ => rfl) (fun _ => rfl) world .streamingApply

/-- Preparing and committing change the ledger as well. -/
theorem settings_prepare (world : WorldInstance) (request : MutationRequest) :
    (WriteLease.prepare world request).2.settings = world.settings := by
  apply WorldInstance.look_underBarrier fun _ _ => rfl
  intro w
  dsimp only
  split <;> rfl

theorem settings_commit (world : WorldInstance) (token : PreparedMutation) :
    (WriteLease.commit world token).2.settings = world.settings := by
  apply WorldInstance.look_underBarrier fun _ _ => rfl
  intro w
  dsimp only
  split <;> rfl

/-! ## 2. Ledgers with transactions to come -/

/-- The ledger has room for these transactions and has not seen them. -/
structure ReceiptLedger.Awaits (ledger : ReceiptLedger) (txnIds : List String) : Prop where
  room : ledger.entries.size + txnIds.length ≤ ledger.maxEntries
  unseen : ∀ txnId ∈ txnIds, txnId ≠ "" ∧ ledger.entries[txnId]? = none
  distinct : txnIds.Nodup
  admits : ∀ request : MutationRequest, request.txnId ≠ "" → request.worldId = "world" →
    request.generation = 1 → ledger.Admits request

namespace ReceiptLedger.Awaits

variable {ledger ledger' : ReceiptLedger} {txnId : String} {txnIds : List String}
  {request : MutationRequest}

omit [UnicodeTables] in
theorem vacant (h : ledger.Awaits (request.txnId :: txnIds)) (hworld : request.worldId = "world")
    (hgeneration : request.generation = 1) : ledger.lookup request = .ok .vacant := by
  obtain ⟨hne, hnone⟩ := h.unseen _ List.mem_cons_self
  exact ReceiptLedger.lookup_vacant.mpr ⟨h.admits request hne hworld hgeneration, hnone⟩

omit [UnicodeTables] in
theorem reserved (h : ledger.Awaits (request.txnId :: txnIds)) (hworld : request.worldId = "world")
    (hgeneration : request.generation = 1) {reservation : MutationReservation}
    (hreserve : ledger.reserve request = .ok (reservation, ledger')) : ledger'.Awaits txnIds := by
  obtain ⟨hhead, htail⟩ := List.nodup_cons.mp h.distinct
  obtain ⟨-, hnone⟩ := h.unseen _ List.mem_cons_self
  obtain ⟨-, hentries, -, hbound, hboundGeneration⟩ := reserve_of_vacant hnone hreserve
  have hroom := h.room
  have hmax := maxEntries_reserve hreserve
  have hsize : ledger'.entries.size ≤ ledger.entries.size + 1 := by
    rw [hentries]
    exact Std.ExtTreeMap.size_insert_le
  refine ⟨?_, fun other hother => ⟨(h.unseen other (List.mem_cons_of_mem _ hother)).1, ?_⟩, htail,
    fun request' hne hworld' hgeneration' => ⟨⟨hne, ?_⟩, ?_, ?_⟩⟩
  · rw [List.length_cons] at hroom
    omega
  · have hdifferent : request.txnId ≠ other := fun heq => hhead (heq ▸ hother)
    rw [hentries, BTreeMap.getElem?_insert_ne _ hdifferent]
    exact (h.unseen other (List.mem_cons_of_mem _ hother)).2
  · rw [hworld']
    decide
  · rw [hbound, hworld, hworld']
    exact fun worldId hw => (Option.some.inj hw).symm
  · rw [hboundGeneration, hgeneration, hgeneration']
    exact fun generation hg => (Option.some.inj hg).symm

theorem committed (h : ledger.Awaits txnIds) {token : PreparedMutation} {view : PublishedReadView}
    {authority authority' : PublicationAuthority} {d : CommitDraft} {receipt : MutationReceipt}
    (hdone : Committed token view authority ledger d receipt authority' ledger')  :
    ledger'.Awaits txnIds := by
  obtain ⟨entry, entry', hentry, hentry', -⟩ := hdone.applied
  have hentries : ledger'.entries = ledger.entries.insert token.txnId entry' := by
    exact BTreeMap.eq_insert hentry' hdone.others
  have hsize : ledger'.entries.size = ledger.entries.size := by
    rw [hentries, Std.ExtTreeMap.size_insert, if_pos]
    exact Std.ExtTreeMap.mem_iff_isSome_getElem?.mpr (by rw [hentry]; rfl)
  refine ⟨by rw [hsize, hdone.maxEntries]; exact h.room, fun txnId htxn => ?_, h.distinct,
    fun request hne hworld hgeneration =>
      (hdone.admits request).mpr (h.admits request hne hworld hgeneration)⟩
  obtain ⟨hne, hnone⟩ := h.unseen txnId htxn
  refine ⟨hne, (hdone.others txnId fun heq => ?_).trans hnone⟩
  rw [heq, hentry] at hnone
  cases hnone

omit [UnicodeTables] in
theorem approved (hids : ∀ txnId ∈ txnIds, txnId ≠ "") (hdistinct : txnIds.Nodup)
    (hroom : txnIds.length ≤ 8) : approvedLedger.Awaits txnIds where
  room := by
    show (∅ : BTreeMap String LedgerEntry).size + txnIds.length ≤ 8
    rw [Std.ExtTreeMap.size_empty, Nat.zero_add]
    exact hroom
  unseen := fun txnId htxn => ⟨hids txnId htxn, BTreeMap.getElem?_empty txnId⟩
  distinct := hdistinct
  admits := fun request hne hworld _ =>
    ⟨⟨hne, by rw [hworld]; decide⟩, (fun _ hw => nomatch hw), (fun _ hg => nomatch hg)⟩

end ReceiptLedger.Awaits

/-! ## 3. The cuts the operations leave -/

namespace PublishedStateRoot

variable {known before after : PublishedStateRoot} {id : SectionId}

/-- **Settles.** The only mark is acknowledged. -/
theorem alike_settled {ack : DurabilityAckEvidence} {coverage : DirtyCoverage} {entry : DirtyEntry}
    (hacked : Acked ack coverage before after) (hbefore : before.Alike known)
    (hmarks : known.dirtyFrontier = ⟨known.dirtyFrontier.worldId, known.dirtyFrontier.generation,
      (∅ : BTreeMap SectionId DirtyEntry).insert id entry⟩)
    (hcovered : coverage.covered[id]?.isSome) : after.Alike known.settled := by
  have honly : before.dirtyFrontier.entries = (∅ : BTreeMap SectionId DirtyEntry).insert id entry := by
    rw [hbefore.dirtyFrontier, hmarks]
  have hempty := DirtyFrontier.exceptCovered_only honly hcovered
  have hclean : after.dirtyFrontier = known.settled.dirtyFrontier := by
    rw [hacked.dirtyFrontier]
    show DirtyFrontier.mk before.dirtyFrontier.worldId before.dirtyFrontier.generation
      (before.dirtyFrontier.exceptCovered coverage).entries = _
    rw [hempty, hbefore.dirtyFrontier]
    rfl
  have hchanged : after.dirtyFrontier ≠ before.dirtyFrontier := by
    intro hsame
    have hmark : before.dirtyFrontier.entries[id]? = some entry := by
      rw [honly]
      exact Std.ExtTreeMap.getElem?_insert_self
    rw [← hsame, hclean] at hmark
    exact Option.some_ne_none _ (hmark.symm.trans (BTreeMap.getElem?_empty id))
  refine ⟨hacked.stamp.trans hbefore.stamp, fun other => ?_, hclean, hacked.folded hchanged⟩
  rw [hacked.directory]
  exact hbefore.slots other

/-- **Unloads.** The section's slot is a ticket. -/
theorem alike_ticketed (hunloaded : Unloaded id before after) (hbefore : before.Alike known) :
    after.Alike (known.ticketed id) := by
  refine ⟨hunloaded.stamp.trans hbefore.stamp, fun other => ?_,
    hunloaded.dirtyFrontier.trans hbefore.dirtyFrontier, hunloaded.folded⟩
  show _ = (known.directory.entries.insert id .unchanged)[other]?.map SectionSlot.face
  rw [BTreeMap.getElem?_insert]
  split
  · rename_i hsame
    rw [← hsame, hunloaded.ticket]
  · rename_i hother
    rw [hunloaded.others other (Ne.symm hother), hbefore.slots]

/-- **Rewinds.** The one section that the cut lists is a ticket, and no other is there. -/
theorem alike_rewound {capture : VoxelCaptureRef} {candidate : SealedRestoreCandidate}
    (hshadow : ShadowOf capture.decoded candidate) (hcut : capture.root.Alike known)
    (hschema : known.stamp.schemaId = REVISION_STAMP_SCHEMA)
    (hlisted : ∀ key : String, known.stamp.sectionRevisionSet[key]? ≠ none ↔ key = id.key) :
    (candidate.root.incorporateReplacement candidate.replacement).Alike (known.rewound id) := by
  refine ⟨?_, fun other => ?_, ?_, ?_⟩
  · show candidate.root.stamp = known.stamp
    rw [hshadow.stamp, ← hcut.stamp]
    have hown : capture.root.stamp.schemaId = REVISION_STAMP_SCHEMA := hcut.stamp ▸ hschema
    rw [← hown]
    rfl
  · show candidate.root.directory.entries[other]?.map SectionSlot.face =
      ((∅ : BTreeMap SectionId SectionSlot).insert id .unchanged)[other]?.map SectionSlot.face
    have hslot : candidate.root.directory.entries[other]? =
        known.stamp.sectionRevisionSet[other.key]?.map fun _ => SectionSlot.unchanged := by
      rw [hshadow.directory, ← hcut.stamp]
      rfl
    rw [hslot, BTreeMap.getElem?_insert]
    split
    · rename_i hsame
      obtain ⟨revision, hrevision⟩ :=
        Option.ne_none_iff_exists'.mp ((hlisted other.key).mpr (congrArg SectionId.key hsame.symm))
      rw [hrevision]
      rfl
    · rename_i hother
      have hnone : known.stamp.sectionRevisionSet[other.key]? = none := by
        by_contra hsome
        exact hother (SectionId.key_injective ((hlisted other.key).mp hsome)).symm
      rw [hnone, BTreeMap.getElem?_empty]
      rfl
  · show candidate.root.dirtyFrontier = ⟨known.stamp.worldId, known.stamp.generation, ∅⟩
    rw [hshadow.dirtyFrontier, ← hcut.stamp]
    rfl
  · show some candidate.replacement.digest = _
    rw [hshadow.replacement]
    rfl

end PublishedStateRoot

/-! ## 4. Sessions over known cuts -/

namespace WorldSession

/-- An acknowledgement of one section of this world. -/
def sectionAck (id : SectionId) (worldRevision bound : UInt64) : DurabilityAckEvidence :=
  ⟨ACK_KIND, "world", ⟨"context", 1⟩, worldRevision, [⟨id.key, bound⟩]⟩

/-- A serving session with nothing in flight, whose root looks like this cut. -/
structure Over (s : WorldSession) (known : PublishedStateRoot) (n : Nat) (txnIds : List String) :
    Prop where
  serves : s.world.Serves n
  alike : s.root.Alike known
  tokens : s.tokens = []
  awaits : s.world.ledger.Awaits txnIds
  settings : s.world.settings = (approvedConfig, none)

variable {s : WorldSession} {known : PublishedStateRoot} {n : Nat} {txnIds : List String}
  {id : SectionId}

namespace Over

/-- The world's name is that of the cut. -/
theorem belongs (h : s.Over known n txnIds) :
    known.stamp.BelongsTo s.world.worldId s.world.worldContextId s.world.generation := by
  rw [← h.alike.stamp]
  exact h.serves.belongs

/-- An operation that publishes nothing and leaves the books alone. -/
theorem kept (h : s.Over known n txnIds) {t : WorldSession} (hserves : t.world.Serves n)
    (hroot : t.root = s.root) (htokens : t.tokens = s.tokens)
    (hbooks : t.world.books = s.world.books) : t.Over known n txnIds where
  serves := hserves
  alike := hroot ▸ h.alike
  tokens := htokens.trans h.tokens
  awaits := by
    rw [show t.world.ledger = s.world.ledger from congrArg Prod.fst hbooks]
    exact h.awaits
  settings := (congrArg Prod.snd hbooks).trans h.settings

/-- An operation that publishes the next cut and leaves the books alone. -/
theorem moved (h : s.Over known (n + 1) txnIds) {t : WorldSession} (hserves : t.world.Serves n)
    {next : PublishedStateRoot} (halike : t.root.Alike next) (htokens : t.tokens = s.tokens)
    (hbooks : t.world.books = s.world.books) : t.Over next n txnIds where
  serves := hserves
  alike := halike
  tokens := htokens.trans h.tokens
  awaits := by
    rw [show t.world.ledger = s.world.ledger from congrArg Prod.fst hbooks]
    exact h.awaits
  settings := (congrArg Prod.snd hbooks).trans h.settings

/-- Preparing a fill publishes nothing and leaves one reservation and its token. -/
theorem fill_prepare {txnId : String} (h : s.Over known (n + 1) (txnId :: txnIds))
    (hfillable : known.Fillable id) (block : BlockId) :
    let request := fillRequest txnId id block (known.stamp.effectiveRevision id.key)
    let t := s.step (.prepare request)
    ∃ token, t.root = s.root ∧ t.tokens = [token] ∧
      SealedFrom request s.world.authority.capture.1 s.world.ledger.configHash token ∧
      t.world.ledger.lookup token.request = .ok .inFlight ∧
      (∀ view : PublishedReadView, view.root = s.root →
        ∃ d, draft token view t.world.ledger = .ok d) ∧
      t.world.Serves (n + 1) ∧ t.world.ledger.Awaits txnIds := by
  intro request t
  have hawaiting : s.world.ledger.Awaits (request.txnId :: txnIds) := h.awaits
  have hvacant : s.world.ledger.lookup request = .ok .vacant :=
    hawaiting.vacant rfl rfl
  have hroom := h.awaits.room
  rw [List.length_cons] at hroom
  have hprep : Preparable request s.world.authority.capture.1 s.world.ledger :=
    fillRequest_preparable (show s.world.authority.capture.1.root.Alike known from h.alike)
      hfillable hvacant (by omega)
  have hkeys : ∀ key : String, s.root.stamp.sectionRevisionSet[key]? ≠ none →
      ∃ id : SectionId, key = id.key := by
    rw [h.alike.stamp]
    exact hfillable.canonical
  obtain ⟨token, htokens, hsealed, hflight, hdraft, hsame, hserves⟩ :=
    prepare_step h.serves hprep hkeys
  refine ⟨token, hsame, by rw [htokens, h.tokens]; rfl, hsealed, hflight, hdraft, hserves, ?_⟩
  have hmade : (WriteLease.prepare s.world request).1 = .ok token := by
    have hlist : (WriteLease.prepare s.world request).1.toOption.toList = [token] :=
      List.append_cancel_left htokens
    exact toOption_eq_some.mp (Option.toList_eq_singleton_iff.mp hlist)
  obtain ⟨ledger', hprepare, hledger⟩ := (WriteLease.prepare_outcome s.world request).2 token hmade
  rcases prepare_cases request s.world.authority.capture.1 s.world.ledger with ⟨err, herr, -⟩ |
    ⟨receipt, made, hdup, -⟩ | ⟨made, ledger₁, -, hreserve, hprepared, -⟩
  · rw [hprepare] at herr
    cases herr
  · cases hvacant.symm.trans hdup
  · obtain ⟨-, rfl⟩ := Prod.mk.inj (hprepare.symm.trans hprepared)
    have hnow : t.world.ledger = ledger' := hledger
    rw [hnow]
    exact hawaiting.reserved rfl rfl hreserve

/-- **Fills go through.** -/
theorem fill {txnId : String} (h : s.Over known (n + 1) (txnId :: txnIds))
    (hfillable : known.Fillable id) (block : BlockId) :
    let request := fillRequest txnId id block (known.stamp.effectiveRevision id.key)
    (s.step (.prepare request)).root = s.root ∧
      (∃ token d receipt, (s.step (.prepare request)).Commits (.commit 0) token d receipt ∧
        token.request = request) ∧
      ((s.step (.prepare request)).step (.commit 0)).Over (known.filled id block) n txnIds := by
  intro request
  obtain ⟨token, hsame, htoken, hsealed, hflight, hdraft, hserves, hawaits⟩ :=
    h.fill_prepare hfillable block
  obtain ⟨d, hd⟩ := hdraft (s.step (.prepare request)).world.authority.capture.1 hsame
  obtain ⟨receipt, hcommits, hserves'⟩ :=
    commit_step hserves (congrArg (·[0]?) htoken) hflight hd
  have hbase : (s.step (.prepare request)).world.authority.capture.1.root.Alike known := by
    rw [show (s.step (.prepare request)).world.authority.capture.1.root = s.root from hsame]
    exact h.alike
  refine ⟨hsame, ⟨token, d, receipt, hcommits, hsealed.request_eq⟩, hserves', ?_, ?_,
    hawaits.committed hcommits.committed, ?_⟩
  · rw [show ((s.step (.prepare request)).step (.commit 0)).root = _ from hcommits.committed.root]
    exact alike_filled hsealed hcommits.committed.draftOf fillRequest_fills h.alike hbase
  · show (s.step (.prepare request)).tokens.eraseIdx 0 = []
    rw [htoken]
    rfl
  · have hworld : ((s.step (.prepare request)).step (.commit 0)).world =
        (WriteLease.commit (s.step (.prepare request)).world token).2 := by
      simp only [step, commit]
      rw [show (s.prepare request).tokens[0]? = some token from congrArg (·[0]?) htoken]
    rw [hworld, settings_commit]
    exact (settings_prepare s.world request).trans h.settings

theorem validates (h : s.Over known n txnIds) (hstamp : known.stamp.BelongsTo "world" "context" 1)
    {worldRevision : UInt64} (hrevision : worldRevision ≤ known.stamp.worldRevision)
    (bound : UInt64) :
    DurabilityAckBarrier.validateBeforeOccupancy s.world (sectionAck id worldRevision bound) =
      .ok () := by
  obtain ⟨-, hworld, hcontext, hgeneration⟩ := hstamp
  obtain ⟨-, hworld', hcontext', hgeneration'⟩ := h.belongs
  have hle : worldRevision ≤ s.world.root.stamp.worldRevision := by
    rw [show s.world.root.stamp = known.stamp from h.alike.stamp]
    exact hrevision
  have hkind : (sectionAck id worldRevision bound).kind = ACK_KIND := rfl
  have hsame : (sectionAck id worldRevision bound).worldId = s.world.worldId :=
    hworld.symm.trans hworld'
  have hsameContext : (sectionAck id worldRevision bound).context.contextId =
      s.world.worldContextId := hcontext.symm.trans hcontext'
  have hsameGeneration : (sectionAck id worldRevision bound).context.generation =
      s.world.generation := hgeneration.symm.trans hgeneration'
  rw [DurabilityAckBarrier.validateBeforeOccupancy, require_of hkind, ok_bind, require_of hsame,
    ok_bind, require_of hsameContext, ok_bind, require_of hsameGeneration, ok_bind]
  exact require_of hle _

/-- **An acknowledgement that reaches the only mark clears it.** -/
theorem ack (h : s.Over known (n + 1) txnIds) (hstamp : known.stamp.BelongsTo "world" "context" 1)
    {worldRevision bound : UInt64} (hrevision : worldRevision ≤ known.stamp.worldRevision)
    {entry : DirtyEntry} (hmarks : known.dirtyFrontier =
      ⟨"world", 1, (∅ : BTreeMap SectionId DirtyEntry).insert id entry⟩)
    (hbound : entry.latest ≤ bound) :
    (∃ receipt, (applyDurabilityAck s.world (sectionAck id worldRevision bound)).1 =
      .ok receipt) ∧
      (s.step (.ack (sectionAck id worldRevision bound))).Over known.settled n txnIds := by
  have hfrontier : s.root.dirtyFrontier =
      ⟨"world", 1, (∅ : BTreeMap SectionId DirtyEntry).insert id entry⟩ :=
    h.alike.dirtyFrontier.trans hmarks
  have hentry : s.root.dirtyFrontier.entries[id]? = some entry := by
    rw [hfrontier]
    exact Std.ExtTreeMap.getElem?_insert_self
  obtain ⟨coverage, hcoverage⟩ : ∃ coverage,
      s.root.dirtyFrontier.coveredBy (sectionAck id worldRevision bound) = .ok coverage := by
    apply DirtyFrontier.exists_coverage rfl (by rw [hfrontier]; rfl) (by rw [hfrontier]; rfl) rfl
    intro e he
    rw [hentry] at he
    exact Option.some.inj he ▸ hbound
  have hcovered : coverage.covered[id]? = some entry.latest :=
    ((DirtyFrontier.covers_of_coveredBy hcoverage).covered_iff id _).mpr
      ⟨entry, hentry, rfl, bound, List.mem_singleton.mpr rfl⟩
  obtain ⟨⟨receipt, hok⟩, hserves⟩ := ack_step h.serves (h.validates hstamp hrevision bound)
    hcoverage fun hempty => by
      rw [hempty, BTreeMap.getElem?_empty] at hcovered
      cases hcovered
  refine ⟨⟨receipt, hok⟩, h.moved hserves ?_ rfl (books_ack s.world _)⟩
  rcases ack_outcome s.world (sectionAck id worldRevision bound) with ⟨err, herr, -⟩ |
    ⟨receipt', coverage', -, hacked, -⟩
  · cases hok.symm.trans herr
  · have hcovered' : coverage'.covered[id]? = some entry.latest :=
      (hacked.covers.covered_iff id _).mpr ⟨entry, hentry, rfl, bound, List.mem_singleton.mpr rfl⟩
    have hmarked : known.dirtyFrontier = ⟨known.dirtyFrontier.worldId,
        known.dirtyFrontier.generation, (∅ : BTreeMap SectionId DirtyEntry).insert id entry⟩ := by
      rw [hmarks]
    exact PublishedStateRoot.alike_settled hacked h.alike hmarked
      (Option.isSome_of_eq_some hcovered')

/-- **One that does not reach it is refused.** -/
theorem lateAck (h : s.Over known n txnIds) (hstamp : known.stamp.BelongsTo "world" "context" 1)
    {worldRevision bound : UInt64} (hrevision : worldRevision ≤ known.stamp.worldRevision)
    {entry : DirtyEntry} (hmark : known.dirtyFrontier.entries[id]? = some entry)
    (hbound : bound < entry.latest) :
    (∃ err, (applyDurabilityAck s.world (sectionAck id worldRevision bound)).1 = .error err) ∧
      (s.step (.ack (sectionAck id worldRevision bound))).root = s.root ∧
      (s.step (.ack (sectionAck id worldRevision bound))).Over known n txnIds := by
  have hentry : s.root.dirtyFrontier.entries[id]? = some entry := h.alike.dirtyFrontier ▸ hmark
  have hrefused : ∃ err, s.root.dirtyFrontier.coveredBy (sectionAck id worldRevision bound) =
      .error err := by
    cases hcoverage : s.root.dirtyFrontier.coveredBy (sectionAck id worldRevision bound) with
    | error err => exact ⟨err, rfl⟩
    | ok coverage =>
      have hle := (DirtyFrontier.covers_of_coveredBy hcoverage).bound id entry bound hentry
        (List.mem_singleton.mpr rfl)
      exact absurd hle (UInt64.not_le.mpr hbound)
  obtain ⟨err, herr⟩ := hrefused
  obtain ⟨⟨err', hanswer⟩, hserves⟩ :=
    refused_ack_step h.serves (h.validates hstamp hrevision bound) herr
  have hroot : (s.step (.ack (sectionAck id worldRevision bound))).root = s.root := by
    rcases ack_outcome s.world (sectionAck id worldRevision bound) with ⟨_, -, hkept⟩ |
      ⟨receipt, -, hok, -⟩
    · exact hkept.root
    · cases hok.symm.trans hanswer
  exact ⟨⟨err', hanswer⟩, hroot, h.kept hserves hroot rfl (books_ack s.world _)⟩

/-- **A clean, resident section is unloaded.** -/
theorem unload (h : s.Over known (n + 1) txnIds) {payload : SectionPayload}
    {storage : SectionStorage} (hentry : known.directory.entries[id]? = some (.ready payload))
    (hstorage : payload.storage = some storage)
    (hclean : known.dirtyFrontier.entries[id]? = none) {hook : PinExemptionHook}
    (hhook : hook id.key = .ok ()) :
    (∃ receipt, (unloadSection s.world id.key hook).1 = .ok receipt) ∧
      Unloaded id s.root (s.step (.unload id.key hook)).root ∧
      (s.step (.unload id.key hook)).Over (known.ticketed id) n txnIds := by
  obtain ⟨payload', storage', hready, -⟩ := h.alike.resident hentry hstorage
  have hpins : s.world.regionPins = none := congrArg Prod.snd h.settings
  obtain ⟨hunloaded, hserves⟩ := unload_step h.serves hready (h.alike.dirtyFrontier ▸ hclean)
    (by rw [hpins]; rfl) hhook
  refine ⟨?_, hunloaded, h.moved hserves ?_ rfl (books_unload s.world id.key hook)⟩
  · rcases unload_outcome s.world id.key hook with ⟨hkept, -⟩ | ⟨receipt, -, -, hok, -⟩
    · have hticket := hunloaded.ticket
      rw [show (s.step (.unload id.key hook)).root = s.root from hkept.root, hready] at hticket
      cases hticket
    · exact ⟨receipt, hok⟩
  · exact PublishedStateRoot.alike_ticketed hunloaded h.alike

/-- **The cut is captured**, under one more lease. -/
theorem capture (h : s.Over known n txnIds) {cutId : String} (hcut : cutId ≠ "") :
    ∃ captured, (s.step (.capture (.fromLive s.world cutId))).captures =
        s.captures ++ [captured] ∧
      captured.root.Alike known ∧ captured.configHash = approvedConfig.configHash ∧
      (s.step (.capture (.fromLive s.world cutId))).Over known n txnIds := by
  obtain ⟨captured, hstep, hroot, hconfig, hserves⟩ := capture_step h.serves hcut
  have hsnapshot : s.world.snapshot = approvedConfig := congrArg Prod.fst h.settings
  rw [hsnapshot] at hconfig
  refine ⟨captured, ?_, hroot ▸ h.alike, hconfig, ?_⟩
  · rw [hstep]
  · rw [hstep]
    exact h.kept hserves rfl rfl rfl

theorem encode (h : s.Over known n txnIds) {k : Nat} {captured : VoxelCaptureRef}
    (hcaptured : s.captures[k]? = some captured) :
    ∃ cap snapshot, (s.step (.encode k cap)).snapshots = s.snapshots ++ [snapshot] ∧
      snapshot.capture = captured ∧ (s.step (.encode k cap)).Over known n txnIds := by
  obtain ⟨cap, snapshot, hstep, hcapture⟩ := encode_step hcaptured
  refine ⟨cap, snapshot, ?_, hcapture, ?_⟩
  · rw [hstep]
  · rw [hstep]
    exact h.kept h.serves rfl rfl rfl

/-- A lease given back is nothing the cut shows. -/
theorem release (h : s.Over known n txnIds) (k : Nat) :
    (s.step (.release k)).Over known n txnIds := by
  have hworld : (s.step (.release k)).world = s.world ∨ ∃ captured : VoxelCaptureRef,
      (s.step (.release k)).world =
        { s.world with authority := s.world.authority.dropPin captured.pin } := by
    show (s.release k).world = s.world ∨ ∃ captured : VoxelCaptureRef, (s.release k).world =
      { s.world with authority := s.world.authority.dropPin captured.pin }
    unfold WorldSession.release
    split
    · exact .inl rfl
    · rename_i captured _
      exact .inr ⟨captured, rfl⟩
  rcases hworld with hworld | ⟨captured, hworld⟩
  · exact h.kept (by rw [hworld]; exact h.serves) (by rw [root, hworld, root]) rfl (by rw [hworld])
  · refine h.kept ?_ (by rw [root, hworld]; rfl) rfl (by rw [hworld]; rfl)
    rw [hworld]
    exact ⟨h.serves.worldId_ne, h.serves.contextId_ne, h.serves.running, h.serves.free,
      h.serves.owner, h.serves.configHash, h.serves.pinned,
      PublicationAuthority.dropPin_canPublish h.serves.room captured.pin⟩

/-- **A snapshot is put back**, and its one listed section becomes a ticket. -/
theorem restore (h : s.Over known (n + 1) txnIds) {j : Nat} {snapshot : SavedSnapshot}
    {cut : PublishedStateRoot} (hsnapshot : s.snapshots[j]? = some snapshot)
    (hcut : snapshot.capture.root.Alike cut)
    (hconfig : snapshot.capture.configHash = approvedConfig.configHash)
    (hstamp : known.stamp.BelongsTo "world" "context" 1)
    (hcutStamp : cut.stamp.BelongsTo "world" "context" 1)
    (hlisted : ∀ key : String, cut.stamp.sectionRevisionSet[key]? ≠ none ↔ key = id.key) :
    (∃ candidate, s.Restores (.restore j "world" 1 approvedConfig) snapshot candidate) ∧
      (s.step (.restore j "world" 1 approvedConfig)).root.Alike (cut.rewound id) := by
  obtain ⟨hschema, hworld, hcontext, hgeneration⟩ := hstamp
  obtain ⟨-, hworld', hcontext', hgeneration'⟩ := h.belongs
  have hsnapshotConfig : s.world.snapshot = approvedConfig := congrArg Prod.fst h.settings
  have hkeys : ∀ key revision,
      snapshot.capture.root.stamp.sectionRevisionSet[key]? = some revision →
        ∃ id : SectionId, key = id.key := by
    intro key revision hkey
    rw [hcut.stamp] at hkey
    exact ⟨id, (hlisted key).mp (hkey ▸ Option.some_ne_none revision)⟩
  obtain ⟨candidate, hrestores⟩ := restore_step h.serves hsnapshot
    (by rw [hcut.stamp, ← hworld', ← hcontext', ← hgeneration', hworld, hcontext, hgeneration]
        exact hcutStamp)
    (by rw [hsnapshotConfig]; exact hconfig) hkeys
  rw [← hworld', ← hgeneration', hworld, hgeneration, hsnapshotConfig] at hrestores
  refine ⟨⟨candidate, hrestores⟩, ?_⟩
  obtain ⟨j', expectedWorldId, expectedGeneration, config, -, -, hmade⟩ := hrestores.named
  rw [hrestores.published]
  exact PublishedStateRoot.alike_rewound (SavedSnapshot.shadow hmade) hcut hcutStamp.1 hlisted

end Over

/-! ## 5. The life of a section -/

/-- The section's mark after the first fill, and after the second. -/
theorem marks_filledRoot : filledRoot.dirtyFrontier =
    ⟨"world", 1, (∅ : BTreeMap SectionId DirtyEntry).insert originSection
      ⟨1, 1, "mutation"⟩⟩ := rfl

theorem marks_refilledRoot : refilledRoot.dirtyFrontier =
    ⟨"world", 1, (∅ : BTreeMap SectionId DirtyEntry).insert originSection
      ⟨1, 2, "mutation"⟩⟩ := by
  have hfrontier : refilledRoot.dirtyFrontier = { filledRoot.dirtyFrontier with
      entries := filledRoot.dirtyFrontier.entries.insert originSection
        (DirtyFrontier.recordEntry filledRoot.dirtyFrontier.entries[originSection]?
          (filledRoot.stamp.effectiveRevision originSection.key + 1) "mutation") } := rfl
  rw [hfrontier, effectiveRevision_filledRoot, marks_filledRoot]
  apply congrArg (DirtyFrontier.mk "world" 1)
  apply BTreeMap.eq_insert Std.ExtTreeMap.getElem?_insert_self
  intro other hne
  rw [BTreeMap.getElem?_insert_ne _ (Ne.symm hne)]
  exact BTreeMap.getElem?_insert_ne _ (Ne.symm hne) _

/-- A filled section is listed, beside what was listed before. -/
theorem listed_filled {root : PublishedStateRoot} {id : SectionId} (block : BlockId)
    (h : ∀ key : String, root.stamp.sectionRevisionSet[key]? ≠ none → key = id.key)
    (key : String) :
    (root.filled id block).stamp.sectionRevisionSet[key]? ≠ none ↔ key = id.key := by
  rw [listed_revision_filled]
  split
  · rename_i hsame
    exact ⟨fun _ => hsame.symm, fun _ => Option.some_ne_none _⟩
  · rename_i hother
    exact ⟨h key, fun hsame => absurd hsame.symm hother⟩

theorem listed_filledRoot (key : String) :
    filledRoot.stamp.sectionRevisionSet[key]? ≠ none ↔ key = originSection.key :=
  listed_filled ⟨1⟩ (fun key hkey => absurd (BTreeMap.getElem?_empty key) hkey) key

/-- An acknowledgement formed when the section was filled once. -/
def lateAck : DurabilityAckEvidence := sectionAck originSection 1 1

def fullAck : DurabilityAckEvidence := sectionAck originSection 2 2

def firstFill : List WorldOp :=
  [.prepare (fillRequest "first" originSection ⟨1⟩ 0), .commit 0]

def saving (cut : RuntimeSnapshotCut) (cap : Nat) : List WorldOp :=
  [.capture cut, .encode 0 cap]

def secondFill : List WorldOp :=
  [.prepare (fillRequest "second" originSection ⟨0⟩ 1), .commit 0]

/-- The late acknowledgement, the full one, and an unload that no hook hinders. -/
def settling : List WorldOp :=
  [.ack lateAck, .ack fullAck, .unload originSection.key fun _ => .ok ()]

/-- The section is filled, the cut saved, and the section filled back. -/
def written (cut : RuntimeSnapshotCut) (cap : Nat) : List WorldOp :=
  firstFill ++ (saving cut cap ++ secondFill)

/-- A section is written, acknowledged, unloaded and put back. -/
def lifeOps (cut : RuntimeSnapshotCut) (cap : Nat) : List WorldOp :=
  written cut cap ++ (settling ++ [.release 0, .restore 0 "world" 1 approvedConfig])

/-- How that life goes, chapter by chapter. -/
structure Life (s : WorldSession) (cut : RuntimeSnapshotCut) (cap : Nat) : Prop where
  opened : s.Over (twoBlockRoot ⟨0⟩) 7 ["first", "second"]
  fills : ∃ token d receipt,
    (s.step (.prepare (fillRequest "first" originSection ⟨1⟩ 0))).Commits (.commit 0) token d
      receipt ∧ token.request = fillRequest "first" originSection ⟨1⟩ 0
  filled : (run step s firstFill).Over filledRoot 6 ["second"]
  saved : (run step s (firstFill ++ saving cut cap)).Over filledRoot 6 ["second"]
  refills : ∃ token d receipt,
    ((run step s (firstFill ++ saving cut cap)).step
      (.prepare (fillRequest "second" originSection ⟨0⟩ 1))).Commits (.commit 0) token d receipt ∧
      token.request = fillRequest "second" originSection ⟨0⟩ 1
  refilled : (run step s (written cut cap)).Over refilledRoot 5 []
  holds : ∃ captured snapshot, captured.root.Alike filledRoot ∧
    (run step s (written cut cap)).captures = [captured] ∧
      (run step s (written cut cap)).snapshots = [snapshot]
  late : ∃ err, (applyDurabilityAck (run step s (written cut cap)).world lateAck).1 = .error err
  settles : ∃ receipt, (applyDurabilityAck
    (run step s (written cut cap ++ [.ack lateAck])).world fullAck).1 = .ok receipt
  settled : (run step s (written cut cap ++ [.ack lateAck, .ack fullAck])).Over
    refilledRoot.settled 4 []
  drops : ∃ receipt, (unloadSection (run step s (written cut cap ++
    [.ack lateAck, .ack fullAck])).world originSection.key fun _ => .ok ()).1 = .ok receipt
  unloads : Unloaded originSection
    (run step s (written cut cap ++ [.ack lateAck, .ack fullAck])).root
    (run step s (written cut cap ++ settling)).root
  ticketed : (run step s (written cut cap ++ settling)).Over
    (refilledRoot.settled.ticketed originSection) 3 []
  released : (run step s (written cut cap ++ (settling ++ [.release 0]))).Over
    (refilledRoot.settled.ticketed originSection) 3 []
  restores : ∃ snapshot candidate, (run step s (written cut cap ++ (settling ++
      [.release 0]))).Restores (.restore 0 "world" 1 approvedConfig) snapshot candidate ∧
    snapshot.capture.root.Alike filledRoot
  rewound : (run step s (lifeOps cut cap)).root.Alike (filledRoot.rewound originSection)
  cuts : ∀ t ∈ visited step s (lifeOps cut cap), ∃ known ∈ fillCuts, t.root.Alike known

/-- **A whole life of a section.** -/
theorem exists_life {s : WorldSession} (h : s.Over (twoBlockRoot ⟨0⟩) 7 ["first", "second"])
    (hcaptures : s.captures = []) (hsnapshots : s.snapshots = []) :
    ∃ cut cap, s.Life cut cap := by
  let s₁ := s.step (.prepare (fillRequest "first" originSection ⟨1⟩ 0))
  let s₂ := s₁.step (.commit 0)
  obtain ⟨hroot₁, hfills, h₂⟩ : s₁.root = s.root ∧ (∃ token d receipt,
      s₁.Commits (.commit 0) token d receipt ∧
        token.request = fillRequest "first" originSection ⟨1⟩ 0) ∧
      s₂.Over filledRoot 6 ["second"] := h.fill (fillable_twoBlockRoot ⟨0⟩) ⟨1⟩
  let cut : RuntimeSnapshotCut := .fromLive s₂.world "cut"
  let s₃ := s₂.step (.capture cut)
  obtain ⟨captured, hcaptured, hcapturedRoot, hconfig, h₃⟩ := h₂.capture (show "cut" ≠ "" by decide)
  have hcaptures₂ : s₂.captures = [] := hcaptures
  have hcaptures₃ : s₃.captures = [captured] :=
    hcaptured.trans (congrArg (· ++ [captured]) hcaptures₂)
  have hheld : s₃.captures[0]? = some captured := congrArg (·[0]?) hcaptures₃
  obtain ⟨cap, snapshot, hsnapshot, hcapture, h₄⟩ := h₃.encode hheld
  let s₄ := s₃.step (.encode 0 cap)
  have hsnapshots₃ : s₃.snapshots = [] := hsnapshots
  have hsnapshots₄ : s₄.snapshots = [snapshot] :=
    hsnapshot.trans (congrArg (· ++ [snapshot]) hsnapshots₃)
  let s₅ := s₄.step (.prepare (fillRequest "second" originSection ⟨0⟩ 1))
  let s₆ := s₅.step (.commit 0)
  obtain ⟨hroot₅, hrefills, h₆⟩ : s₅.root = s₄.root ∧ (∃ token d receipt,
      s₅.Commits (.commit 0) token d receipt ∧
        token.request = fillRequest "second" originSection ⟨0⟩ 1) ∧
      s₆.Over refilledRoot 5 [] := by
    have hfill := h₄.fill fillable_filledRoot ⟨0⟩
    rw [effectiveRevision_filledRoot] at hfill
    exact hfill
  have hmark : refilledRoot.dirtyFrontier.entries[originSection]? = some ⟨1, 2, "mutation"⟩ := by
    rw [marks_refilledRoot]
    exact Std.ExtTreeMap.getElem?_insert_self
  obtain ⟨hlate, hroot₇, h₇⟩ := h₆.lateAck ⟨rfl, rfl, rfl, rfl⟩
    (show (1 : UInt64) ≤ 2 by decide) hmark (show (1 : UInt64) < 2 by decide)
  let s₇ := s₆.step (.ack lateAck)
  obtain ⟨hsettles, h₈⟩ := h₇.ack ⟨rfl, rfl, rfl, rfl⟩
    (show (2 : UInt64) ≤ 2 by decide) marks_refilledRoot (show (2 : UInt64) ≤ 2 by decide)
  let s₈ := s₇.step (.ack fullAck)
  have hslot : refilledRoot.settled.directory.entries[originSection]? =
      some (.ready (.ofBlock ⟨0⟩)) := slot_filled ..
  let hook : PinExemptionHook := fun _ => .ok ()
  obtain ⟨hdrops, hunloaded, h₉⟩ := h₈.unload hslot rfl (BTreeMap.getElem?_empty _)
    (show hook originSection.key = .ok () from rfl)
  let s₉ := s₈.step (.unload originSection.key fun _ => .ok ())
  have h₁₀ := h₉.release 0
  let s₁₀ := s₉.step (.release 0)
  have hsnapshots₁₀ : s₁₀.snapshots[0]? = some snapshot := congrArg (·[0]?) hsnapshots₄
  have hsaved : snapshot.capture.root.Alike filledRoot := hcapture ▸ hcapturedRoot
  obtain ⟨⟨candidate, hrestores⟩, halike⟩ := h₁₀.restore hsnapshots₁₀ hsaved (hcapture ▸ hconfig)
    ⟨rfl, rfl, rfl, rfl⟩ ⟨rfl, rfl, rfl, rfl⟩ listed_filledRoot
  refine ⟨cut, cap, h, hfills, h₂, h₄, hrefills, h₆,
    ⟨captured, snapshot, hcapturedRoot, hcaptures₃, hsnapshots₄⟩, hlate, hsettles, h₈, hdrops,
    hunloaded, h₉, h₁₀, ⟨snapshot, candidate, hrestores, hsaved⟩, halike, ?_⟩
  intro t ht
  have hcut : ∀ i known, fillCuts[i]? = some known → known ∈ fillCuts :=
    fun i known hknown => List.mem_of_getElem? hknown
  change t ∈ [s, s₁, s₂, s₃, s₄, s₅, s₆, s₇, s₈, s₉, s₁₀,
    s₁₀.step (.restore 0 "world" 1 approvedConfig)] at ht
  simp only [List.mem_cons, List.not_mem_nil, or_false] at ht
  rcases ht with rfl | rfl | rfl | rfl | rfl | rfl | rfl | rfl | rfl | rfl | rfl | rfl
  · exact ⟨_, hcut 0 _ rfl, h.alike⟩
  · exact ⟨_, hcut 0 _ rfl, hroot₁ ▸ h.alike⟩
  · exact ⟨_, hcut 1 _ rfl, h₂.alike⟩
  · exact ⟨_, hcut 1 _ rfl, h₃.alike⟩
  · exact ⟨_, hcut 1 _ rfl, h₄.alike⟩
  · exact ⟨_, hcut 1 _ rfl, hroot₅ ▸ h₄.alike⟩
  · exact ⟨_, hcut 2 _ rfl, h₆.alike⟩
  · exact ⟨_, hcut 2 _ rfl, h₇.alike⟩
  · exact ⟨_, hcut 3 _ rfl, h₈.alike⟩
  · exact ⟨_, hcut 4 _ rfl, h₉.alike⟩
  · exact ⟨_, hcut 4 _ rfl, h₁₀.alike⟩
  · exact ⟨_, hcut 5 _ rfl, halike⟩

/-- The roots of that life. -/
def OfLife (root : PublishedStateRoot) : Prop := ∃ known ∈ fillCuts, root.Alike known

omit [UnicodeTables] in
theorem collisionFree_ofLife : letI := asciiOnly
    PublishedStateRoot.CollisionFree OfLife := by
  let _ := asciiOnly
  exact PublishedStateRoot.collisionFree_alike nodup_fillCuts

theorem Life.roots {s : WorldSession} {cut : RuntimeSnapshotCut} {cap : Nat} (h : s.Life cut cap)
    {first : List WorldOp} (rest : List WorldOp) (hsplit : lifeOps cut cap = first ++ rest) :
    ∀ t ∈ visited step s first, OfLife t.root := fun t ht =>
  h.cuts t (hsplit ▸ mem_visited_append_left rest ht)

/-- What the section shows in each chapter. -/
theorem Life.cells {s : WorldSession} {cut : RuntimeSnapshotCut} {cap : Nat} (h : s.Life cut cap)
    (offset : CellOffset) :
    s.root.readCell originSection offset = some ⟨0⟩ ∧
    (run step s firstFill).root.readCell originSection offset = some ⟨1⟩ ∧
    (run step s (written cut cap)).root.readCell originSection offset = some ⟨0⟩ ∧
    (run step s (written cut cap ++ [.ack lateAck, .ack fullAck])).root.readCell originSection
      offset = some ⟨0⟩ ∧
    (run step s (written cut cap ++ settling)).root.readCell originSection offset = none ∧
    (run step s (lifeOps cut cap)).root.readCell originSection offset = none := by
  have hresident : ∀ {root known : PublishedStateRoot} {block : BlockId}, root.Alike known →
      known.directory.entries[originSection]? = some (.ready (.ofBlock block)) →
      root.readCell originSection offset = some block := by
    intro root known block halike hslot
    rw [halike.sameCut.cells]
    exact PublishedStateRoot.readCell_ofBlock hslot offset
  have hticket : ∀ {root known : PublishedStateRoot}, root.Alike known →
      known.directory.entries[originSection]? = some .unchanged →
      root.readCell originSection offset = none := by
    intro root known halike hslot
    rw [halike.sameCut.cells, PublishedStateRoot.readCell, hslot]
    rfl
  exact ⟨hresident h.opened.alike (slot_twoBlockRoot ⟨0⟩),
    hresident h.filled.alike (slot_filled ..), hresident h.refilled.alike (slot_filled ..),
    hresident h.settled.alike (slot_filled ..),
    hticket h.ticketed.alike Std.ExtTreeMap.getElem?_insert_self,
    hticket h.rewound Std.ExtTreeMap.getElem?_insert_self⟩

/-- The cut of the second fill can be saved as well, and put back. -/
theorem Life.resave {s : WorldSession} {cut : RuntimeSnapshotCut} {cap : Nat} (h : s.Life cut cap) :
    ∃ cut' cap' snapshot candidate,
      let saved := written cut cap ++ [.capture cut', .encode 1 cap']
      (run step s saved).Over refilledRoot 5 [] ∧
      (∀ t ∈ visited step s saved, OfLife t.root) ∧
      (run step s saved).Restores (.restore 1 "world" 1 approvedConfig) snapshot candidate ∧
      snapshot.capture.root.Alike refilledRoot := by
  let s₀ := run step s (written cut cap)
  have h₀ : s₀.Over refilledRoot 5 [] := h.refilled
  obtain ⟨first, snapshot₀, -, hcaptures, hsnapshots⟩ := h.holds
  let cut' : RuntimeSnapshotCut := .fromLive s₀.world "again"
  obtain ⟨captured, hcaptured, hroot, hconfig, h₁⟩ := h₀.capture (show "again" ≠ "" by decide)
  let s₁ := s₀.step (.capture cut')
  have hcaptures₁ : s₁.captures = [first, captured] :=
    hcaptured.trans (congrArg (· ++ [captured]) hcaptures)
  have hheld : s₁.captures[1]? = some captured := congrArg (·[1]?) hcaptures₁
  obtain ⟨cap', snapshot, hsnapshot, hcapture, h₂⟩ := h₁.encode hheld
  let s₂ := s₁.step (.encode 1 cap')
  have hsnapshots₁ : s₁.snapshots = [snapshot₀] := hsnapshots
  have hsnapshots₂ : s₂.snapshots[1]? = some snapshot :=
    congrArg (·[1]?) (hsnapshot.trans (congrArg (· ++ [snapshot]) hsnapshots₁))
  rw [← hcapture] at hroot hconfig
  obtain ⟨⟨candidate, hrestores⟩, -⟩ := h₂.restore hsnapshots₂ hroot hconfig
    ⟨rfl, rfl, rfl, rfl⟩ ⟨rfl, rfl, rfl, rfl⟩
    (listed_filled ⟨0⟩ fun key => (listed_filledRoot key).mp)
  have hrun : run step s (written cut cap ++ [.capture cut', .encode 1 cap']) = s₂ :=
    run_append s (written cut cap) _
  refine ⟨cut', cap', snapshot, candidate, hrun ▸ h₂, fun t ht => ?_, hrun ▸ hrestores, hroot⟩
  rcases mem_visited_append ht with hold | hnew
  · exact h.roots _ rfl t hold
  · have hknown : refilledRoot ∈ fillCuts := List.mem_of_getElem? (i := 2) rfl
    simp only [visited, List.mem_cons, List.not_mem_nil, or_false] at hnew
    rcases hnew with rfl | rfl | rfl
    · exact ⟨_, hknown, h₀.alike⟩
    · exact ⟨_, hknown, h₁.alike⟩
    · exact ⟨_, hknown, h₂.alike⟩

/-- A world that has just started can live it. -/
theorem opened_runningWorld {authority : PublicationAuthority}
    (hroot : authority.root = twoBlockRoot ⟨0⟩) (hserves : (runningWorld authority none).Serves 7) :
    (start (runningWorld authority none)).Over (twoBlockRoot ⟨0⟩) 7 ["first", "second"] where
  serves := hserves
  alike := by
    rw [show (start (runningWorld authority none)).root = twoBlockRoot ⟨0⟩ from hroot]
    exact .refl _
  tokens := rfl
  awaits := ReceiptLedger.Awaits.approved (by decide) (by decide) (by decide)
  settings := rfl

theorem exists_lived : ∃ authority cut cap,
    PublicationAuthority.new "world" "context" 1 (.new 8 "context" 1) (twoBlockRoot ⟨0⟩) =
      .ok authority ∧
    authority.root = twoBlockRoot ⟨0⟩ ∧ (start (runningWorld authority none)).Life cut cap := by
  obtain ⟨authority, hnew, hroot, hserves⟩ :=
    exists_newWorld (twoBlockRoot ⟨0⟩) ⟨rfl, rfl, rfl, rfl⟩ none
  obtain ⟨cut, cap, hlife⟩ := exists_life (opened_runningWorld hroot hserves) rfl rfl
  exact ⟨authority, cut, cap, hnew, hroot, hlife⟩

end WorldSession

end Fills

end LumioVoxel
