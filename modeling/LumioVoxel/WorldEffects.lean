import LumioVoxel.CommitSemantics
import LumioVoxel.WorldOperations

/-!
# What each world operation changes

Four operations publish: a commit its draft, an acknowledgement the same cut with
fewer dirty sections, an unload the same cut with one section turned into a short
ticket, a restore the cut of its candidate.  Everything else, and every refusal,
keeps the published root.  Only a commit changes which transactions are applied,
and none of them touches the attached pin policy.
-/

namespace LumioVoxel

open DebugText Fallible

/-! ## 1. What stays -/

namespace ReceiptLedger

theorem status_applied_iff {ledger : ReceiptLedger} {txnId : String} :
    ledger.status txnId = .applied ↔
      ∃ entry, ledger.entries[txnId]? = some entry ∧ entry.receipt.isSome = true := by
  unfold status
  cases ledger.entries[txnId]? with
  | none => simp only [reduceCtorEq, false_and, exists_false]
  | some entry =>
    simp only [Option.some.injEq, exists_eq_left']
    split
    · rename_i hsome
      exact iff_of_true rfl hsome
    · rename_i hnone
      exact iff_of_false (fun h => nomatch h) hnone

/-- Two ledgers that report the same transactions applied. -/
def SameApplied (old new : ReceiptLedger) : Prop :=
  ∀ txnId, new.status txnId = .applied ↔ old.status txnId = .applied

theorem SameApplied.refl (ledger : ReceiptLedger) : ledger.SameApplied ledger := fun _ => Iff.rfl

theorem SameApplied.trans {a b c : ReceiptLedger} (h : a.SameApplied b) (h' : b.SameApplied c) :
    a.SameApplied c := fun txnId => (h' txnId).trans (h txnId)

theorem sameApplied_of_entries {old new : ReceiptLedger} (h : new.entries = old.entries) :
    old.SameApplied new := by
  intro txnId
  rw [status, h, status]

theorem sameApplied_abortInFlight (ledger : ReceiptLedger) :
    ledger.SameApplied ledger.abortInFlight := by
  intro txnId
  simp only [status_applied_iff, getElem?_abortInFlight, Option.filter_eq_some_iff, and_assoc,
    and_self]

theorem sameApplied_of_abort {ledger ledger' : ReceiptLedger} {request : MutationRequest}
    (h : ledger.abort request = .ok ledger') : ledger.SameApplied ledger' := by
  obtain ⟨-, hcases⟩ := abort_eq_ok.mp h
  cases hentry : ledger.entries[request.txnId]? with
  | none =>
    rw [hentry] at hcases
    exact hcases ▸ SameApplied.refl ledger
  | some entry =>
    rw [hentry] at hcases
    obtain ⟨-, rfl⟩ := hcases
    split
    · exact SameApplied.refl ledger
    · rename_i hopen
      intro txnId
      simp only [status_applied_iff, BTreeMap.getElem?_erase]
      split
      · rename_i htxn
        subst htxn
        simp only [reduceCtorEq, false_and, exists_false, hentry, Option.some.injEq,
          exists_eq_left', false_iff]
        exact hopen
      · exact Iff.rfl

theorem sameApplied_of_reserve {ledger ledger' : ReceiptLedger} {request : MutationRequest}
    {reservation : MutationReservation} (hvacant : ledger.entries[request.txnId]? = none)
    (h : ledger.reserve request = .ok (reservation, ledger')) : ledger.SameApplied ledger' := by
  obtain ⟨-, hentries, -⟩ := reserve_of_vacant hvacant h
  intro txnId
  simp only [status_applied_iff, hentries, BTreeMap.getElem?_insert]
  split
  · rename_i htxn
    subst htxn
    simp only [hvacant, reduceCtorEq, false_and, exists_false, iff_false, Option.some.injEq,
      exists_eq_left']
    exact Bool.false_ne_true
  · exact Iff.rfl

end ReceiptLedger

/-- The same transactions applied under the same pin policy. -/
structure SameHoldings (old new : WorldInstance) : Prop where
  applied : old.ledger.SameApplied new.ledger
  pins : new.regionPins = old.regionPins

/-- And the same root published. -/
structure Kept (old new : WorldInstance) : Prop extends SameHoldings old new where
  root : new.root = old.root

theorem SameHoldings.refl (world : WorldInstance) : SameHoldings world world := ⟨.refl _, rfl⟩

theorem Kept.refl (world : WorldInstance) : Kept world world := ⟨.refl world, rfl⟩

theorem Kept.trans {a b c : WorldInstance} (h : Kept a b) (h' : Kept b c) : Kept a c :=
  ⟨⟨h.applied.trans h'.applied, h'.pins.trans h.pins⟩, h'.root.trans h.root⟩

section Effects

variable [UnicodeTables] {world : WorldInstance}

theorem sameApplied_prepare (request : MutationRequest) (base : PublishedReadView)
    (ledger : ReceiptLedger) : ledger.SameApplied (prepare request base ledger).2 := by
  rcases prepare_cases request base ledger with ⟨err, -, hentries, -⟩ |
    ⟨receipt, token, -, hprepare, -⟩ | ⟨token, ledger', hvacant, hreserve, hprepare, -⟩
  · exact ReceiptLedger.sameApplied_of_entries hentries
  · rw [hprepare]
    exact .refl ledger
  · rw [hprepare]
    exact ReceiptLedger.sameApplied_of_reserve (ReceiptLedger.lookup_vacant.mp hvacant).2 hreserve

/-! ## 2. The write lane -/

namespace WriteLease

/-- A prepared token comes from the published cut and the ledger. -/
theorem prepare_outcome (world : WorldInstance) (request : MutationRequest) :
    Kept world (prepare world request).2 ∧
      ∀ token, (prepare world request).1 = .ok token → ∃ ledger',
        LumioVoxel.prepare request world.authority.capture.1 world.ledger = (.ok token, ledger') ∧
          (prepare world request).2.ledger = ledger' := by
  unfold prepare
  rcases world.underBarrier_cases .mutation _ with
    ⟨err, -, hrun⟩ | ⟨-, hrun⟩
  · rw [hrun]
    exact ⟨.refl world, fun token htoken => nomatch htoken⟩
  · rw [hrun]
    simp only
    split
    · exact ⟨⟨⟨.refl _, rfl⟩, rfl⟩, fun token htoken => nomatch htoken⟩
    · refine ⟨⟨⟨sameApplied_prepare _ _ _, rfl⟩, rfl⟩, fun token htoken => ?_⟩
      exact ⟨_, Prod.ext (mapError_eq_ok.mp htoken) rfl, rfl⟩

/-- A commit keeps the world, or publishes its draft of the published cut. -/
theorem commit_outcome (world : WorldInstance) (token : PreparedMutation) :
    Kept world (commit world token).2 ∨
    ∃ d receipt, world.ledger.lookup token.request = .ok .inFlight ∧
      (commit world token).1 = .ok receipt ∧
      Committed token world.authority.capture.1 world.authority world.ledger d receipt
        (commit world token).2.authority (commit world token).2.ledger ∧
      (commit world token).2.regionPins = world.regionPins := by
  unfold commit
  rcases world.underBarrier_cases .mutation _ with
    ⟨err, -, hrun⟩ | ⟨-, hrun⟩
  · rw [hrun]
    exact .inl (.refl world)
  · rw [hrun]
    simp only
    split
    · exact .inl ⟨⟨.refl _, rfl⟩, rfl⟩
    · rcases commit_cases token world.authority world.ledger with
        ⟨err, authority', hcommit, hroot, -⟩ | ⟨receipt, -, hcommit⟩ |
        ⟨d, receipt, authority', ledger', hflight, hcommit, hdone⟩
      · simp only [hcommit]
        exact .inl ⟨⟨.refl _, rfl⟩, hroot⟩
      · simp only [hcommit]
        exact .inl ⟨⟨.refl _, rfl⟩, rfl⟩
      · simp only [hcommit]
        exact .inr ⟨d, receipt, hflight, rfl, hdone, trivial⟩

omit [UnicodeTables] in
theorem abort_outcome (world : WorldInstance) (request : MutationRequest) :
    Kept world (abort world request).2 := by
  unfold abort
  rcases world.underBarrier_cases .mutation _ with ⟨err, -, hrun⟩ | ⟨-, hrun⟩
  · rw [hrun]
    exact .refl world
  · rw [hrun]
    simp only
    split
    · exact ⟨⟨.refl _, rfl⟩, rfl⟩
    · cases habort : world.ledger.abort request with
      | error err => exact ⟨⟨.refl _, rfl⟩, rfl⟩
      | ok ledger' => exact ⟨⟨ReceiptLedger.sameApplied_of_abort habort, rfl⟩, rfl⟩

omit [UnicodeTables] in
theorem query_outcome (world : WorldInstance) (request : VoxelQueryRequest) :
    Kept world (query world request).2 := by
  unfold query
  rcases world.underBarrier_cases .captureCut _ with
    ⟨err, -, hrun⟩ | ⟨-, hrun⟩
  · rw [hrun]
    exact .refl world
  · rw [hrun]
    simp only
    split
    · exact ⟨⟨.refl _, rfl⟩, rfl⟩
    · exact ⟨⟨.refl _, rfl⟩, rfl⟩

end WriteLease

/-- A published commit adds its own transaction to the applied ones. -/
theorem Committed.applied_iff {token : PreparedMutation} {view : PublishedReadView}
    {authority authority' : PublicationAuthority} {ledger ledger' : ReceiptLedger} {d : CommitDraft}
    {receipt : MutationReceipt}
    (h : Committed token view authority ledger d receipt authority' ledger') (txnId : String) :
    ledger'.status txnId = .applied ↔ ledger.status txnId = .applied ∨ txnId = token.txnId := by
  simp only [ReceiptLedger.status_applied_iff]
  by_cases htxn : txnId = token.txnId
  · subst htxn
    obtain ⟨entry, entry', -, hentry', -, hreceipt, -⟩ := h.applied
    refine iff_of_true ⟨entry', hentry', ?_⟩ (.inr rfl)
    rw [hreceipt]
    rfl
  · rw [h.others txnId htxn, or_iff_left htxn]

/-! ## 3. Acknowledgements -/

/-- The same cut without the dirty sections the acknowledgement covers. -/
structure Acked (ack : DurabilityAckEvidence) (coverage : DirtyCoverage)
    (old new : PublishedStateRoot) : Prop where
  covers : DirtyFrontier.Covers old.dirtyFrontier ack coverage
  stamp : new.stamp = old.stamp
  directory : new.directory = old.directory
  dirtyFrontier : new.dirtyFrontier = old.dirtyFrontier.exceptCovered coverage
  /-- It was published with an empty replacement. -/
  folded : new.dirtyFrontier ≠ old.dirtyFrontier →
    new.foldedReplacement = some (SectionReplacement.digest ⟨∅⟩)

private theorem applyView_cases (view : PublishedReadView) (authority : PublicationAuthority)
    (ack : DurabilityAckEvidence) (hview : view.root = authority.root) :
    (∃ err authority', DurabilityAckBarrier.applyView view authority ack =
      (.error err, authority') ∧ authority'.root = authority.root) ∨
    ∃ receipt authority' coverage, DurabilityAckBarrier.applyView view authority ack =
      (.ok receipt, authority') ∧ Acked ack coverage authority.root authority'.root := by
  unfold DurabilityAckBarrier.applyView
  cases hcoverage : view.root.dirtyFrontier.coveredBy ack with
  | error err =>
    simp only [hcoverage]
    exact .inl ⟨_, authority, rfl, rfl⟩
  | ok coverage =>
    have hcovers := DirtyFrontier.covers_of_coveredBy hcoverage
    rw [hview] at hcovers
    simp only [hcoverage, SectionDeltaBuilder.freeze_new]
    by_cases hnothing : coverage.covered.isEmpty = true ∧
        view.root.dirtyFrontier.exceptCovered coverage = view.root.dirtyFrontier
    · simp only [if_pos hnothing]
      refine .inr ⟨_, authority, coverage, rfl, hcovers, rfl, rfl, ?_, fun hne => absurd rfl hne⟩
      rw [← hview, hnothing.2]
    · simp only [if_neg hnothing]
      rcases authority.publishRoot_cases view.root.stamp.worldRevision
        (.new view.root.stamp view.root.directory (view.root.dirtyFrontier.exceptCovered coverage))
        ⟨∅⟩ with ⟨err, authority', hrun, hroot, -⟩ | ⟨authority', hrun, -, hroot, -⟩
      · rw [hrun]
        exact .inl ⟨_, authority', rfl, hroot⟩
      · rw [hrun]
        refine .inr ⟨_, authority', coverage, rfl, hcovers, ?_, ?_, ?_, fun _ => ?_⟩
        · rw [hroot, ← hview]
          rfl
        · rw [hroot, ← hview]
          rfl
        · rw [hroot, ← hview]
          rfl
        · rw [hroot]
          rfl

/-- An acknowledgement is refused and keeps the world, or clears what it covers. -/
theorem ack_outcome (world : WorldInstance) (ack : DurabilityAckEvidence) :
    (∃ err, (applyDurabilityAck world ack).1 = .error err ∧
      Kept world (applyDurabilityAck world ack).2) ∨
    ∃ receipt coverage, (applyDurabilityAck world ack).1 = .ok receipt ∧
      Acked ack coverage world.root (applyDurabilityAck world ack).2.root ∧
      SameHoldings world (applyDurabilityAck world ack).2 := by
  unfold applyDurabilityAck
  split
  · exact .inl ⟨_, rfl, .refl world⟩
  · rcases world.underBarrier_cases .durabilityAck
      (fun world => DurabilityAckBarrier.apply world ack) with ⟨err, -, hrun⟩ | ⟨-, hrun⟩
    · rw [hrun]
      exact .inl ⟨err, rfl, .refl world⟩
    · rw [hrun]
      simp only [DurabilityAckBarrier.apply]
      split
      · exact .inl ⟨_, rfl, ⟨.refl _, rfl⟩, rfl⟩
      · rcases applyView_cases world.authority.capture.1 world.authority.capture.2 ack rfl with
          ⟨err, authority', happly, hroot⟩ | ⟨receipt, authority', coverage, happly, hacked⟩
        · simp only [happly]
          exact .inl ⟨err, rfl, ⟨.refl _, rfl⟩, hroot⟩
        · simp only [happly]
          exact .inr ⟨receipt, coverage, rfl, hacked, .refl _, rfl⟩

/-! ## 4. Unloads -/

/-- The same cut with one clean, ready section turned into a short ticket. -/
structure Unloaded (id : SectionId) (old new : PublishedStateRoot) : Prop where
  resident : ∃ payload, old.directory.entries[id]? = some (.ready payload)
  clean : old.dirtyFrontier.entries[id]? = none
  stamp : new.stamp = old.stamp
  dirtyFrontier : new.dirtyFrontier = old.dirtyFrontier
  ticket : new.directory.entries[id]? = some .unchanged
  others : ∀ other, other ≠ id →
    new.directory.entries[other]? = old.directory.entries[other]?
  /-- The ticket alone was the replacement. -/
  folded : new.foldedReplacement =
    some (SectionReplacement.digest ⟨(∅ : BTreeMap SectionId SectionSlot).insert id .unchanged⟩)

namespace UnloadBarrier

omit [UnicodeTables] in
theorem lookupSlot_eq_ok {directory : SectionDirectoryRoot} {raw : String} {slot : SectionSlot} :
    lookupSlot directory raw = .ok slot ↔
      ∃ id : SectionId, raw = id.key ∧ directory.entries[id]? = some slot := by
  simp only [lookupSlot, SectionDirectoryRoot.lookup, bind_eq_ok, mapError_eq_ok, pure_eq_ok,
    SectionId.parse_eq_ok, someOr_eq_ok]
  constructor
  · rintro ⟨_, ⟨id, hid, rfl⟩, hslot⟩
    exact ⟨id, hid, hslot⟩
  · rintro ⟨id, hid, hslot⟩
    exact ⟨_, ⟨id, hid, rfl⟩, hslot⟩

omit [UnicodeTables] in
theorem checkDurable_key {frontier : DirtyFrontier} {id : SectionId} {u : Unit} :
    checkDurable frontier id.key = .ok u ↔ frontier.entries[id]? = none := by
  simp only [checkDurable, DirtyFrontier.latestRevision, parseSection_key, ok_bind, bind_eq_ok,
    mapError_eq_ok, pure_eq_ok, require_eq_ok, exists_eq_left', Option.map_eq_none_iff]

omit [UnicodeTables] in
private theorem carrySlot_eq_ok {id named : SectionId} {slot : SectionSlot}
    {progress next : SectionDirectoryBuilder × Bool}
    (h : carrySlot id.key progress (named, slot) = .ok next) :
    next.1.entries = progress.1.entries.insert named (if named = id then .unchanged else slot) ∧
      next.2 = (progress.2 || named = id) := by
  unfold carrySlot at h
  simp only [SectionDirectoryBuilder.insert_key, mapError_ok, ok_bind] at h
  by_cases hname : named = id
  · subst hname
    rw [if_pos rfl] at h
    obtain rfl := Except.ok.inj h
    simp
  · rw [if_neg fun hkey => hname (SectionId.key_injective hkey)] at h
    obtain rfl := Except.ok.inj h
    simp [hname]

omit [UnicodeTables] in
/-- The rebuilt directory holds a ticket for the section and every other slot as it
was. -/
theorem directoryWithUnloadedSection_eq_ok {directory result : SectionDirectoryRoot}
    {id : SectionId} (h : directoryWithUnloadedSection directory id.key = .ok result) :
    result.entries[id]? = some .unchanged ∧
      ∀ other, other ≠ id → result.entries[other]? = directory.entries[other]? := by
  simp only [directoryWithUnloadedSection, bind_eq_ok] at h
  obtain ⟨⟨builder, sawTarget⟩, hfold, hresult⟩ := h
  have hother : ∀ k, ∀ p (item : SectionId × SectionSlot) p', ¬ item.1 = k →
      carrySlot id.key p item = .ok p' → p'.1.entries[k]? = p.1.entries[k]? := by
    intro k p item p' hne hstep
    rw [(carrySlot_eq_ok hstep).1]
    exact BTreeMap.getElem?_insert_ne _ hne _
  have hcarried : ∀ k, builder.entries[k]? =
      directory.entries[k]?.map fun slot => if k = id then .unchanged else slot := by
    intro k
    cases hslot : directory.entries[k]? with
    | none =>
      have hnone := foldSteps_other
        (fun p : SectionDirectoryBuilder × Bool => p.1.entries[k]?) (hother k) hfold
        fun item hitem heq => by
          rw [← heq, BTreeMap.mem_toList.mp hitem] at hslot
          cases hslot
      exact hnone.trans (BTreeMap.getElem?_empty k)
    | some slot =>
      obtain ⟨p₁, p₂, hstep, -, hp₂⟩ := foldSteps_named
        (fun p : SectionDirectoryBuilder × Bool => p.1.entries[k]?) (hother k)
        (BTreeMap.pairwise_names directory.entries k) hfold (a := (k, slot))
        (BTreeMap.mem_toList.mpr hslot) rfl
      refine hp₂.trans ?_
      rw [(carrySlot_eq_ok hstep).1, BTreeMap.getElem?_insert, if_pos rfl]
      rfl
  have hkept : ∀ other, other ≠ id →
      builder.entries[other]? = directory.entries[other]? := by
    intro other hne
    rw [hcarried other]
    simp only [if_neg hne, Option.map_id']
  have hseen : sawTarget = true → directory.entries[id]? ≠ none := by
    rintro rfl hnone
    have hflag := foldSteps_other (fun p : SectionDirectoryBuilder × Bool => p.2)
      (N := fun item : SectionId × SectionSlot => item.1 = id)
      (fun p item p' hne hstep => by rw [(carrySlot_eq_ok hstep).2, decide_eq_false hne,
        Bool.or_false]) hfold fun item hitem heq => by
        rw [← heq, BTreeMap.mem_toList.mp hitem] at hnone
        cases hnone
    cases hflag
  simp only at hresult
  cases sawTarget with
  | true =>
    obtain rfl := Except.ok.inj hresult
    refine ⟨?_, hkept⟩
    obtain ⟨slot, hslot⟩ := Option.ne_none_iff_exists'.mp (hseen rfl)
    rw [SectionDirectoryBuilder.freeze, hcarried id, hslot, Option.map_some, if_pos rfl]
  | false =>
    simp only [Bool.false_eq_true, if_false, SectionDirectoryBuilder.insert_key, mapError_ok,
      ok_bind] at hresult
    obtain rfl := Except.ok.inj hresult
    refine ⟨Std.ExtTreeMap.getElem?_insert_self, fun other hne => ?_⟩
    exact (BTreeMap.getElem?_insert_ne _ (Ne.symm hne) _).trans (hkept other hne)

/-- What an unload publishes: the current cut without the section, which is clean
and ready there. -/
theorem unloaded_of_draft {sectionId : String} {before current : PublishedReadView}
    {newRoot : PublishedStateRoot} {replacement : SectionReplacement}
    (h : draft sectionId before current = .ok (newRoot, replacement)) :
    ∃ id : SectionId, sectionId = id.key ∧
      Unloaded id current.root (newRoot.incorporateReplacement replacement) := by
  simp only [draft, bind_eq_ok, require_eq_ok, mapError_eq_ok, pure_eq_ok, exists_and_left,
    exists_const] at h
  obtain ⟨-, _, hdurable, slot, hslot, hready, builder, hstage, frozen, hfreeze, directory,
    hdirectory, hout⟩ := h
  obtain ⟨rfl, rfl⟩ := Prod.mk.inj hout
  obtain ⟨id, rfl, hentry⟩ := lookupSlot_eq_ok.mp hslot
  obtain ⟨hticket, hothers⟩ := directoryWithUnloadedSection_eq_ok hdirectory
  obtain ⟨named, hkey, -, -, rfl⟩ := SectionDeltaBuilder.stage_eq_ok.mp hstage
  obtain rfl := SectionId.key_injective hkey
  obtain rfl := SectionDeltaBuilder.freeze_eq_ok hfreeze
  refine ⟨id, rfl, ?_, ?_, rfl, rfl, hticket, hothers, rfl⟩
  · cases slot with
    | ready payload => exact ⟨payload, hentry⟩
    | _ => cases hready
  · exact checkDurable_key.mp hdurable

private theorem publish_cases (sectionId : String) (before : PublishedReadView)
    (authority : PublicationAuthority) :
    (∃ err authority', publish sectionId before authority = (.error err, authority') ∧
      authority'.root = authority.root) ∨
    ∃ receipt authority' id, publish sectionId before authority = (.ok receipt, authority') ∧
      sectionId = id.key ∧ Unloaded id authority.root authority'.root := by
  unfold publish
  cases hdraft : draft sectionId before authority.capture.1 with
  | error err =>
    simp only [hdraft]
    exact .inl ⟨err, _, rfl, rfl⟩
  | ok drafted =>
    obtain ⟨newRoot, replacement⟩ := drafted
    obtain ⟨id, hid, hunloaded⟩ := unloaded_of_draft hdraft
    simp only [hdraft]
    rcases authority.capture.2.publishRoot_cases authority.capture.1.root.stamp.worldRevision
      newRoot replacement with ⟨err, authority', hrun, hroot, -⟩ | ⟨authority', hrun, -, hroot, -⟩
    · rw [hrun]
      exact .inl ⟨_, _, rfl, hroot⟩
    · rw [hrun]
      refine .inr ⟨_, _, id, rfl, hid, ?_⟩
      rw [PublicationAuthority.dropPin_root, hroot]
      exact hunloaded

/-- A refusal or a ticket already there publishes nothing. -/
private theorem unloadView_cases (pins : Option RegionPinManager) (hook : PinExemptionHook)
    (sectionId : String) (before : PublishedReadView) (authority : PublicationAuthority) :
    (∃ result authority', unloadView pins hook sectionId before authority = (result, authority') ∧
      authority'.root = authority.root ∧ ∀ receipt, result = .ok receipt →
        ∃ id : SectionId, sectionId = id.key ∧ before.root.dirtyFrontier.entries[id]? = none ∧
          before.root.directory.entries[id]? = some .unchanged) ∨
    ∃ receipt authority' id, unloadView pins hook sectionId before authority =
        (.ok receipt, authority') ∧ sectionId = id.key ∧
      Unloaded id authority.root authority'.root ∧ checkAttachedPolicy pins id.key = .ok () := by
  unfold unloadView
  cases hslot : lookupSlot before.root.directory sectionId with
  | error err => exact .inl ⟨_, authority, rfl, rfl, fun _ h => absurd h error_ne_ok⟩
  | ok slot =>
    obtain ⟨id, rfl, hentry⟩ := lookupSlot_eq_ok.mp hslot
    cases hdurable : checkDurable before.root.dirtyFrontier id.key with
    | error err =>
      exact .inl ⟨_, authority, rfl, rfl, fun _ h => absurd h error_ne_ok⟩
    | ok _ =>
      simp only
      cases slot with
      | ready payload =>
        simp only [SectionSlot.presence]
        cases hexempt : checkExemptions pins hook id.key with
        | error err =>
          exact .inl ⟨_, authority, rfl, rfl, fun _ h => absurd h error_ne_ok⟩
        | ok _ =>
          obtain ⟨_, hpolicy, -⟩ := bind_eq_ok.mp hexempt
          simp only
          rcases publish_cases id.key before authority with ⟨err, authority', hrun, hroot⟩ |
            ⟨receipt, authority', named, hrun, hnamed, hunloaded⟩
          · rw [hrun]
            exact .inl ⟨_, authority', rfl, hroot, fun _ h => absurd h error_ne_ok⟩
          · obtain rfl := SectionId.key_injective hnamed
            rw [hrun]
            exact .inr ⟨receipt, authority', id, rfl, rfl, hunloaded, hpolicy⟩
      | unchanged =>
        simp only [SectionSlot.presence]
        exact .inl ⟨_, authority, rfl, rfl, fun _ _ =>
          ⟨id, rfl, checkDurable_key.mp hdurable, hentry⟩⟩
      | pending =>
        simp only [SectionSlot.presence]
        exact .inl ⟨_, authority, rfl, rfl, fun _ h => absurd h error_ne_ok⟩
      | unavailable =>
        simp only [SectionSlot.presence]
        exact .inl ⟨_, authority, rfl, rfl, fun _ h => absurd h error_ne_ok⟩

end UnloadBarrier

/-- An unload is refused or finds a ticket and keeps the world; or it turns a
section that the attached policy lets go into a ticket. -/
theorem unload_outcome (world : WorldInstance) (sectionId : String) (hook : PinExemptionHook) :
    Kept world (unloadSection world sectionId hook).2 ∧
      (∀ receipt, (unloadSection world sectionId hook).1 = .ok receipt →
        ∃ id : SectionId, sectionId = id.key ∧ world.root.dirtyFrontier.entries[id]? = none ∧
          world.root.directory.entries[id]? = some .unchanged) ∨
    ∃ receipt id, sectionId = id.key ∧ (unloadSection world sectionId hook).1 = .ok receipt ∧
      Unloaded id world.root (unloadSection world sectionId hook).2.root ∧
      UnloadBarrier.checkAttachedPolicy world.regionPins id.key = .ok () ∧
      SameHoldings world (unloadSection world sectionId hook).2 := by
  unfold unloadSection
  rcases world.underBarrier_cases .streamingApply _ with
    ⟨err, -, hrun⟩ | ⟨-, hrun⟩
  · rw [hrun]
    exact .inl ⟨.refl world, fun _ h => nomatch h⟩
  · rw [hrun]
    rcases UnloadBarrier.unloadView_cases world.regionPins hook sectionId world.authority.capture.1
      world.authority.capture.2 with ⟨result, authority', hunload, hroot, hticket⟩ |
      ⟨receipt, authority', id, hunload, hid, hunloaded, hpolicy⟩
    · simp only [hunload]
      exact .inl ⟨⟨⟨.refl _, rfl⟩, hroot⟩, hticket⟩
    · simp only [hunload]
      exact .inr ⟨receipt, id, hid, rfl, hunloaded, hpolicy, .refl _, rfl⟩

/-! ## 5. Captures and restores -/

omit [UnicodeTables] in
theorem admitCut_eq_ok {cut : RuntimeSnapshotCut} {u : Unit} :
    admitCut world cut = .ok u ↔
      (cut.cutId ≠ "" ∧ cut.worldId ≠ "" ∧ cut.contextId ≠ "") ∧
        isHash256 cut.configHash = true ∧ cut.worldId = world.worldId ∧
        cut.contextId = world.worldContextId ∧ cut.generation = world.generation ∧
        queryAdmissible world.state = true ∧ cut.configHash = world.snapshot.configHash := by
  simp only [admitCut, bind_eq_ok, require_eq_ok, exists_and_left, exists_const]

theorem validateAgainstView_eq_ok {cut : RuntimeSnapshotCut} {view : PublishedReadView} {u : Unit} :
    validateAgainstView cut view = .ok u ↔
      (cut.worldId = view.root.stamp.worldId ∧ cut.contextId = view.root.stamp.contextId) ∧
        cut.generation = view.root.stamp.generation ∧
        cut.worldRevision = view.root.stamp.worldRevision ∧
        cut.artifactHash = view.root.identity ∧ view.lease.stamp = view.root.stamp := by
  simp only [validateAgainstView, bind_eq_ok, require_eq_ok, exists_and_left, exists_const]

/-- A capture holds the published root, under the world's configuration. -/
theorem capture_outcome (world : WorldInstance) (cut : RuntimeSnapshotCut) :
    Kept world (capture world cut).2 ∧
      ∀ captured evidence, (capture world cut).1 = .ok (captured, evidence) →
        captured.root = world.root ∧ captured.configHash = world.snapshot.configHash := by
  unfold capture
  cases hcut : admitCut world cut with
  | error err => exact ⟨.refl world, fun _ _ h => nomatch h⟩
  | ok _ =>
    obtain ⟨-, -, -, -, -, -, hconfig⟩ := admitCut_eq_ok.mp hcut
    simp only
    rcases WorldInstance.underBarrier_cases
      { world with authority := world.authority.capture.2 } .captureCut _ with
      ⟨err, -, hrun⟩ | ⟨-, hrun⟩
    · rw [hrun]
      exact ⟨⟨⟨.refl _, rfl⟩, rfl⟩, fun _ _ h => nomatch h⟩
    · rw [hrun]
      simp only
      cases hview : captureView cut world.authority.capture.1 with
      | error err => exact ⟨⟨⟨.refl _, rfl⟩, rfl⟩, fun _ _ h => nomatch h⟩
      | ok done =>
        refine ⟨⟨⟨.refl _, rfl⟩, rfl⟩, fun captured evidence hdone => ?_⟩
        simp only [captureView, bind_eq_ok, mapError_eq_ok, pure_eq_ok] at hview
        obtain ⟨-, -, made, hmade, rfl⟩ := hview
        obtain ⟨rfl, -⟩ := Prod.mk.inj (Except.ok.inj hdone)
        obtain ⟨hroot, hhash⟩ := VoxelCaptureRef.root_of_new hmade
        exact ⟨hroot, hhash.trans hconfig⟩

/-- The world takes the candidate: nobody writes, the session runs, the candidate
is this world's, and its root can be published. -/
structure RestoreAccepted (world : WorldInstance) (candidate : SealedRestoreCandidate) : Prop where
  admits : world.Admits .restore
  recheck : RestoreBarrier.recheck world candidate = .ok ()
  publishable : world.authority.glance.Accepts candidate.worldRevision candidate.root

/-- A restore that is not accepted keeps the world; an accepted one publishes the
candidate. -/
theorem restore_outcome (world : WorldInstance) (candidate : SealedRestoreCandidate) :
    (∃ err, (restore world candidate).1 = .error err ∧ ¬ RestoreAccepted world candidate ∧
      Kept world (restore world candidate).2) ∨
    ∃ receipt, (restore world candidate).1 = .ok receipt ∧ RestoreAccepted world candidate ∧
      (restore world candidate).2.root =
        candidate.root.incorporateReplacement candidate.replacement ∧
      SameHoldings world (restore world candidate).2 := by
  unfold restore
  rcases world.underBarrier_cases .restore
    (fun world => RestoreBarrier.publish world candidate) with ⟨err, hno, hrun⟩ | ⟨hadmits, hrun⟩
  · rw [hrun]
    exact .inl ⟨err, rfl, fun h => hno h.admits, .refl world⟩
  · rw [hrun]
    simp only [RestoreBarrier.publish]
    have hsame : RestoreBarrier.recheck { world with writeOccupied := true } candidate =
        RestoreBarrier.recheck world candidate := rfl
    rw [hsame]
    cases hrecheck : RestoreBarrier.recheck world candidate with
    | error err =>
      refine .inl ⟨err, rfl, fun h => ?_, ⟨.refl _, rfl⟩, rfl⟩
      cases hrecheck.symm.trans h.recheck
    | ok _ =>
      simp only
      have hiff : (∃ published, (world.authority.glance.publishRoot candidate.worldRevision
          candidate.root candidate.replacement).1 = .ok published) ↔
          world.authority.glance.Accepts candidate.worldRevision candidate.root :=
        PublicationAuthority.publishRoot_ok_iff
      rcases world.authority.glance.publishRoot_cases candidate.worldRevision candidate.root
        candidate.replacement with ⟨err, authority', hpublish, hroot, -⟩ |
        ⟨authority', hpublish, -, hroot, -⟩
      · simp only [hpublish] at hiff ⊢
        refine .inl ⟨_, rfl, fun h => ?_, ⟨.refl _, rfl⟩, hroot⟩
        obtain ⟨published, hpublished⟩ := hiff.mpr h.publishable
        cases hpublished
      · simp only [hpublish] at hiff ⊢
        exact .inr ⟨_, rfl, ⟨hadmits, hrecheck, hiff.mp ⟨_, rfl⟩⟩, hroot,
          ReceiptLedger.sameApplied_abortInFlight _, rfl⟩

/-! ## 6. Lifecycle and shutdown -/

omit [UnicodeTables] in
theorem admit_outcome {command : WorldCommand} {admitted : AdmittedCommand}
    {world' : WorldInstance} (h : WorldEndpoint.admit world command = .ok (admitted, world')) :
    Kept world world' := by
  cases command with
  | lifecycle event target origin =>
    simp only [bind_eq_ok, WorldEndpoint.admit, pure_eq_ok] at h
    obtain ⟨-, -, event', -, target', -, state, -, hout⟩ := h
    obtain ⟨-, rfl⟩ := Prod.mk.inj hout
    exact ⟨⟨.refl _, rfl⟩, rfl⟩
  | query origin request =>
    simp only [bind_eq_ok, WorldEndpoint.admit, InstanceGenerationGuard.checkOrigin_eq_ok,
      require_eq_ok, pure_eq_ok, exists_and_left, exists_const] at h
    obtain ⟨-, -, -, -, -, -, hout⟩ := h
    obtain ⟨-, rfl⟩ := Prod.mk.inj hout
    exact .refl world
  | mutation origin request =>
    simp only [bind_eq_ok, WorldEndpoint.admit, InstanceGenerationGuard.checkOrigin_eq_ok,
      require_eq_ok, pure_eq_ok, exists_and_left, exists_const] at h
    obtain ⟨-, -, -, -, -, -, hout⟩ := h
    obtain ⟨-, rfl⟩ := Prod.mk.inj hout
    exact .refl world

namespace WorldShutdown

omit [UnicodeTables] in
theorem begin_outcome (world : WorldInstance) : Kept world (begin world).2 := by
  unfold begin
  split
  · exact .refl world
  · split
    · exact .refl world
    · exact ⟨⟨.refl _, rfl⟩, rfl⟩

omit [UnicodeTables] in
theorem drain_outcome (world : WorldInstance) : Kept world (drain world).2 := by
  unfold drain
  split
  · exact .refl world
  · split
    · exact .refl world
    · exact ⟨⟨ReceiptLedger.sameApplied_abortInFlight _, rfl⟩, rfl⟩

omit [UnicodeTables] in
theorem finalize_outcome (world : WorldInstance) : Kept world (finalize world).2 := by
  unfold finalize
  split
  · exact .refl world
  · split
    · exact .refl world
    · exact ⟨⟨.refl _, rfl⟩, rfl⟩

omit [UnicodeTables] in
theorem trip_outcome (world : WorldInstance) (cause diagnosticName : String) :
    Kept world (trip world cause diagnosticName).2 := by
  have hbegin := begin_outcome world
  unfold trip
  split
  · exact .refl world
  · cases hrun : begin world with
    | mk result world₁ =>
      rw [hrun] at hbegin
      cases result with
      | error err => exact hbegin
      | ok _ =>
        have hdrain := drain_outcome world₁
        simp only
        cases hrun' : drain world₁ with
        | mk result' world₂ =>
          rw [hrun'] at hdrain
          cases result' with
          | error err => exact hbegin.trans hdrain
          | ok _ => exact (hbegin.trans hdrain).trans (finalize_outcome world₂)

end WorldShutdown

end Effects

end LumioVoxel
