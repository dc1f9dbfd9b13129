import LumioVoxel.CommitSemantics
import LumioVoxel.StepRuns
import LumioVoxel.WorldOperations
import Mathlib.Logic.Function.Iterate

/-!
# Prepared commits

Commit checks again what prepare has checked, plans the request again, rebuilds the
stamp of the new root and has the authority check it.  While the published root and
the ledger stay as they were, none of these can refuse the token.  What is left are
the two things that prepare never takes: a token number and a pin.
-/

namespace LumioVoxel

open DebugText Fallible StepRuns

/-! ## 1. From a passed check to a commit -/

/-- Every section with a revision of its own has a canonical key. -/
def RevisionStamp.CanonicalKeys (stamp : RevisionStamp) : Prop :=
  ∀ key : String, stamp.sectionRevisionSet[key]? ≠ none → ∃ id : SectionId, key = id.key

/-- What the check of a new transaction establishes about its base. -/
theorem MutationPreconditions.of_check {request : MutationRequest} {base : PublishedReadView}
    {ledger : ReceiptLedger} (hvacant : ledger.lookup request = .ok .vacant)
    (h : check request base ledger = .ok ()) :
    request.worldId = base.root.stamp.worldId ∧
      request.generation = base.root.stamp.generation ∧
      ∀ entry ∈ request.entries,
        entry.expectedSectionRevision = base.root.stamp.effectiveRevision entry.sectionKey := by
  simp only [check, hvacant, mapError_ok, ok_bind, bind_eq_ok, require_eq_ok, exists_and_left,
    exists_const] at h
  obtain ⟨-, hworld, hgen, plan, hbuild, _, hrevisions, -⟩ := h
  refine ⟨hworld, hgen, ?_⟩
  intro entry hentry
  obtain ⟨hplanned, hedit⟩ := (build_eq_ok.mp hbuild).edits_of_entry hentry
  have hitem := forall_of_foldSteps hrevisions _ hplanned
  simp only [checkRevisions, bind_eq_ok, require_eq_ok] at hitem
  obtain ⟨-, -, -, hall⟩ := hitem
  exact hall entry hedit

section Completion

variable [UnicodeTables] {request : MutationRequest} {base : PublishedReadView}
  {ledger ledger' : ReceiptLedger} {token : PreparedMutation}

/-- A token drafts over any view of the root it was prepared from. -/
theorem draft_of_prepare (hprepare : prepare request base ledger = (.ok token, ledger'))
    (hvacant : ledger.lookup request = .ok .vacant) (hkeys : base.root.stamp.CanonicalKeys)
    (view : PublishedReadView) (hview : view.root = base.root) :
    ledger'.lookup token.request = .ok .inFlight ∧ ∃ d, draft token view ledger' = .ok d := by
  rcases prepare_cases request base ledger with ⟨err, herr, -⟩ | ⟨receipt, token', hdup, -⟩ |
    ⟨token', ledger₁, -, hreserve, hok, hcheck, hsealed⟩
  · rw [hprepare] at herr
    cases herr
  · rw [hvacant] at hdup
    cases hdup
  · rw [hprepare] at hok
    obtain ⟨htoken, rfl⟩ := Prod.mk.inj hok
    obtain rfl := Except.ok.inj htoken
    obtain ⟨hadmits, hnone⟩ := ReceiptLedger.lookup_vacant.mp hvacant
    obtain ⟨-, -, hconfig, -⟩ := ReceiptLedger.reserve_of_vacant hnone hreserve
    obtain ⟨hworld, hgen, hexpected⟩ := MutationPreconditions.of_check hvacant hcheck
    constructor
    · rw [hsealed.request_eq]
      exact ReceiptLedger.lookup_of_reserved hadmits hnone hreserve
    · exact draft_of view ledger' hsealed hview hconfig.symm hworld hgen hexpected hkeys

/-- A transaction that is done already is answered again. -/
theorem commit_of_replay (hprepare : prepare request base ledger = (.ok token, ledger'))
    (hvacant : ledger.lookup request ≠ .ok .vacant) (authority : PublicationAuthority) :
    ∃ receipt, commit token authority ledger' = (.ok receipt, authority, ledger') := by
  rcases prepare_cases request base ledger with ⟨err, herr, -⟩ |
    ⟨receipt, token', hdup, hok, hrequest, -⟩ | ⟨token', ledger₁, hnew, -⟩
  · rw [hprepare] at herr
    cases herr
  · rw [hprepare] at hok
    obtain ⟨htoken, rfl⟩ := Prod.mk.inj hok
    obtain rfl := Except.ok.inj htoken
    rw [← hrequest] at hdup
    exact ⟨_, commit_of_duplicate hdup⟩
  · exact absurd hnew hvacant

/-- Over the same root and the same ledger, room for one publication is enough. -/
theorem commit_of_prepare (hprepare : prepare request base ledger = (.ok token, ledger'))
    (hkeys : base.root.stamp.CanonicalKeys) {authority : PublicationAuthority}
    (hroot : authority.root = base.root) (hroom : authority.CanPublish 1) :
    ∃ receipt authority' ledger'',
      commit token authority ledger' = (.ok receipt, authority', ledger'') := by
  by_cases hvacant : ledger.lookup request = .ok .vacant
  · obtain ⟨hlookup, d, hdraft⟩ :=
      draft_of_prepare hprepare hvacant hkeys authority.capture.1 hroot
    obtain ⟨receipt, authority', ledger'', hcommit, -⟩ := commit_of hlookup hdraft hroom
    exact ⟨receipt, authority', ledger'', hcommit⟩
  · obtain ⟨receipt, hcommit⟩ := commit_of_replay hprepare hvacant authority
    exact ⟨receipt, authority, ledger', hcommit⟩

/-- A commit that publishes has taken a pin. -/
theorem pin_of_commit {authority : PublicationAuthority} {receipt : MutationReceipt}
    (hlookup : ledger.lookup token.request = .ok .inFlight)
    (h : (commit token authority ledger).1 = .ok receipt) :
    ∃ stamp pinned, authority.capture.2.pins.tryPin stamp = .ok pinned := by
  rw [commit_of_inFlight hlookup] at h
  simp only [commitView] at h
  split at h
  · cases h
  split at h
  · cases h
  rename_i publication authority₁ hprepare
  obtain ⟨-, -, -, -, -, -, next, rfl⟩ := PublicationAuthority.prepare_eq_ok hprepare
  split at h
  · cases h
  split at h
  · cases h
  rename_i hseal
  obtain ⟨pins, hpin, -⟩ := PublicationAuthority.sealPublication_pins hseal
  exact ⟨_, _, hpin⟩

end Completion

/-! ## 2. An authority over its life -/

/-- A pin is on a stamp of the registry's own context and generation. -/
theorem RegistryState.owner_of_tryPin {registry registry' : RegistryState} {pin : RevisionPin}
    {stamp : RevisionStamp} (h : registry.tryPin stamp = .ok (pin, registry')) :
    registry'.contextId = registry.contextId ∧ registry'.generation = registry.generation ∧
      stamp.contextId = registry.contextId ∧ stamp.generation = registry.generation := by
  simp only [tryPin, bind_eq_ok, require_eq_ok, someOr_eq_ok, pure_eq_ok, exists_and_left,
    exists_const] at h
  obtain ⟨-, ⟨-, hcontext, hgen⟩, -, nextId, -, hregistry⟩ := h
  obtain ⟨-, rfl⟩ := Prod.mk.inj hregistry
  exact ⟨rfl, rfl, hcontext, hgen⟩

section Life

variable [UnicodeTables]

/-- What can happen to an authority and to the registry it shares: publications in
their single steps, views and leases, pins of other holders, and the registry's end. -/
inductive AuthorityOp where
  | capture
  | clonePin (pin : RevisionPin)
  | dropPin (pin : RevisionPin)
  | prepare (target : UInt64) (newRoot : PublishedStateRoot) (replacement : SectionReplacement)
  | sealPublication (prepared : PreparedPublication)
  | publishOnce (token : PublicationToken)
  | tryPin (stamp : RevisionStamp)
  | destroy

namespace PublicationAuthority

/-- A step that is refused changes nothing, but that a refused token gives its pin back. -/
def perform (authority : PublicationAuthority) : AuthorityOp → PublicationAuthority
  | .capture => authority.capture.2
  | .clonePin pin => authority.clonePin pin
  | .dropPin pin => authority.dropPin pin
  | .prepare target newRoot replacement =>
    match authority.prepare target newRoot replacement with
    | .error _ => authority
    | .ok (_, authority) => authority
  | .sealPublication prepared =>
    match authority.sealPublication prepared with
    | .error _ => authority
    | .ok (_, _, authority) => authority
  | .publishOnce token => (authority.publishOnce token).2
  | .tryPin stamp =>
    match authority.pins.tryPin stamp with
    | .error _ => authority
    | .ok (_, pins) => { authority with pins := pins }
  | .destroy => { authority with pins := { authority.pins with destroyed := true } }

/-- Built over some registry, and operated on since. -/
def Reachable (authority : PublicationAuthority) : Prop :=
  ∃ (worldId contextId : String) (generation : UInt64) (registry : RegistryState)
    (initial : PublishedStateRoot) (first : PublicationAuthority) (ops : List AuthorityOp),
    new worldId contextId generation registry initial = .ok first ∧
      run perform first ops = authority

theorem Reachable.run {authority : PublicationAuthority} (h : authority.Reachable)
    (ops : List AuthorityOp) : (run perform authority ops).Reachable := by
  obtain ⟨worldId, contextId, generation, registry, initial, first, before, hnew, rfl⟩ := h
  exact ⟨worldId, contextId, generation, registry, initial, first, before ++ ops, hnew,
    run_append _ _ _⟩

/-- The registry is for the authority's own context and generation. -/
def OwnRegistry (authority : PublicationAuthority) : Prop :=
  authority.pins.contextId = authority.contextId ∧
    authority.pins.generation = authority.generation

omit [UnicodeTables] in
/-- A registry of another context or generation would have refused the first pin. -/
theorem ownRegistry_new {worldId contextId : String} {generation : UInt64}
    {registry : RegistryState} {initial : PublishedStateRoot} {first : PublicationAuthority}
    (h : new worldId contextId generation registry initial = .ok first) : first.OwnRegistry := by
  unfold new at h
  split at h
  · cases h
  split at h
  · cases h
  rename_i hstamp
  obtain ⟨-, -, hcontext, hgen⟩ := checkStamp_eq_ok.mp hstamp
  split at h
  · cases h
  rename_i hpin
  obtain rfl := Except.ok.inj h
  obtain ⟨hpins, hpinsGen, hc, hg⟩ := RegistryState.owner_of_tryPin (mapError_eq_ok.mp hpin)
  exact ⟨hpins.trans (hc.symm.trans hcontext), hpinsGen.trans (hg.symm.trans hgen)⟩

omit [UnicodeTables] in
theorem ownRegistry_clonePin {authority : PublicationAuthority} (h : authority.OwnRegistry)
    (pin : RevisionPin) : (authority.clonePin pin).OwnRegistry := by
  constructor
  · exact (RegistryState.contextId_clonePin _ _).trans h.1
  · exact (RegistryState.generation_clonePin _ _).trans h.2

omit [UnicodeTables] in
theorem ownRegistry_dropPin {authority : PublicationAuthority} (h : authority.OwnRegistry)
    (pin : RevisionPin) : (authority.dropPin pin).OwnRegistry := by
  constructor
  · exact (RegistryState.contextId_dropPin _ _).trans h.1
  · exact (RegistryState.generation_dropPin _ _).trans h.2

theorem ownRegistry_publishOnce {authority : PublicationAuthority} (h : authority.OwnRegistry)
    (token : PublicationToken) : (authority.publishOnce token).2.OwnRegistry := by
  unfold publishOnce
  split
  · split
    · split
      · -- the cell's pin is swapped for the token's
        exact ownRegistry_dropPin (ownRegistry_clonePin h token.pin) authority.pin
      · exact ownRegistry_dropPin h token.pin
    · exact ownRegistry_dropPin h token.pin
  · exact ownRegistry_dropPin h token.pin

theorem ownRegistry_perform (authority : PublicationAuthority) (op : AuthorityOp)
    (h : authority.OwnRegistry) : (authority.perform op).OwnRegistry := by
  cases op with
  | capture => exact ownRegistry_clonePin h authority.pin
  | clonePin pin => exact ownRegistry_clonePin h pin
  | dropPin pin => exact ownRegistry_dropPin h pin
  | prepare target newRoot replacement =>
    simp only [perform]
    split
    · exact h
    · rename_i hprepare
      obtain ⟨-, -, -, -, -, -, next, rfl⟩ := prepare_eq_ok hprepare
      exact h
  | sealPublication prepared =>
    simp only [perform]
    split
    · exact h
    · rename_i hseal
      obtain ⟨pins, hpin, rfl⟩ := sealPublication_pins hseal
      obtain ⟨hcontext, hgen, -⟩ := RegistryState.owner_of_tryPin hpin
      exact ⟨hcontext.trans h.1, hgen.trans h.2⟩
  | publishOnce token => exact ownRegistry_publishOnce h token
  | tryPin stamp =>
    simp only [perform]
    split
    · exact h
    · rename_i hpin
      obtain ⟨hcontext, hgen, -⟩ := RegistryState.owner_of_tryPin hpin
      exact ⟨hcontext.trans h.1, hgen.trans h.2⟩
  | destroy => exact h

theorem Reachable.ownRegistry {authority : PublicationAuthority} (h : authority.Reachable) :
    authority.OwnRegistry := by
  obtain ⟨worldId, contextId, generation, registry, initial, first, ops, hnew, rfl⟩ := h
  exact run_invariant ownRegistry_perform (ownRegistry_new hnew) ops

/-- A token number and a pin can be taken. -/
structure HasCapacity (authority : PublicationAuthority) : Prop where
  live : authority.pins.destroyed = false
  slot : authority.pins.slots.size < authority.pins.maxPins
  pinId : (checkedSucc authority.pins.nextId).isSome = true
  tokenId : (checkedSucc authority.nextTokenId).isSome = true

omit [UnicodeTables] in
theorem canPublish_of_hasCapacity {authority : PublicationAuthority}
    (hown : authority.OwnRegistry) (h : authority.HasCapacity) : authority.CanPublish 1 where
  pins := ⟨h.live, h.slot, isSome_checkedSucc.mp h.pinId⟩
  contextId := hown.1
  generation := hown.2
  tokens := isSome_checkedSucc.mp h.tokenId

omit [UnicodeTables] in
theorem CanPublish.hasCapacity {authority : PublicationAuthority} {n : Nat}
    (h : authority.CanPublish (n + 1)) : authority.HasCapacity := by
  have hslots := h.pins.slots
  have hids := h.pins.ids
  have htokens := h.tokens
  constructor
  · exact h.pins.live
  · omega
  · exact isSome_checkedSucc.mpr (by omega)
  · exact isSome_checkedSucc.mpr (by omega)

end PublicationAuthority

/-- **Prepare completes every check.** A token prepared from a view of a reachable
authority is committed, whatever happens to the authority in between, provided that its
root and the ledger are still the same and that a token number and a pin are left. -/
theorem prepared_commit_succeeds (authority : PublicationAuthority)
    (hreach : authority.Reachable) (hkeys : authority.root.stamp.CanonicalKeys)
    (request : MutationRequest) (ledger ledger' : ReceiptLedger) (token : PreparedMutation)
    (hprepare : prepare request authority.capture.1 ledger = (.ok token, ledger'))
    (ops : List AuthorityOp)
    (hroot : (run PublicationAuthority.perform authority.capture.2 ops).root = authority.root)
    (hcapacity : (run PublicationAuthority.perform authority.capture.2 ops).HasCapacity) :
    ∃ receipt authority' ledger'',
      commit token (run PublicationAuthority.perform authority.capture.2 ops) ledger' =
        (.ok receipt, authority', ledger'') := by
  have hlater := hreach.run (.capture :: ops)
  have hroom := PublicationAuthority.canPublish_of_hasCapacity hlater.ownRegistry hcapacity
  exact commit_of_prepare hprepare hkeys hroot hroom

omit [UnicodeTables] in
/-- One write, with another view captured between prepare and commit. -/
theorem prepared_commit_succeeds_captured : letI := asciiOnly
    ∃ (authority : PublicationAuthority) (offset : CellOffset) (token : PreparedMutation)
      (ledger' : ReceiptLedger),
      authority.root = oneSectionRoot ⟨0⟩ ∧
      prepare (originRequest "txn" [(offset, ⟨1⟩)]) authority.capture.1 emptyLedger =
        (.ok token, ledger') ∧
      ∃ receipt authority' ledger'',
        commit token (run PublicationAuthority.perform authority.capture.2 [.capture]) ledger' =
          (.ok receipt, authority', ledger'') := by
  let _ := asciiOnly
  obtain ⟨authority, hnew, hroot, hroom⟩ := exists_oneSectionAuthority ⟨0⟩
  have hreach : authority.Reachable := ⟨_, _, _, _, _, authority, [], hnew, rfl⟩
  have hkeys : authority.root.stamp.CanonicalKeys := by
    rw [hroot]
    exact oneSectionRoot_keys ⟨0⟩
  have hprep : Preparable (originRequest "txn" [(⟨5, by decide⟩, ⟨1⟩)]) authority.capture.1
      emptyLedger := originRequest_preparable hroot (by decide) (by decide)
  obtain ⟨token, ledger', hprepare, -⟩ := prepare_of hprep
  have hlater := PublicationAuthority.capture_canPublish
    (PublicationAuthority.capture_canPublish hroom)
  exact ⟨authority, ⟨5, by decide⟩, token, ledger', hroot, hprepare,
    prepared_commit_succeeds authority hreach hkeys _ _ _ _ hprepare [.capture] rfl
      hlater.hasCapacity⟩

end Life

/-! ## 3. A registry at its last number -/

/-- A pin taken and given back. -/
def RegistryState.pinOnce (stamp : RevisionStamp) (registry : RegistryState) : RegistryState :=
  match registry.tryPin stamp with
  | .error _ => registry
  | .ok (pin, pinned) => pinned.dropPin pin

namespace RegistryState

variable {stamp : RevisionStamp} {registry : RegistryState}

/-- The slot is free again, its number is not. -/
theorem pinOnce_of {next : UInt64} (hlive : registry.destroyed = false)
    (hstamp : stamp.schemaId = REVISION_STAMP_SCHEMA ∧ stamp.contextId = registry.contextId ∧
      stamp.generation = registry.generation)
    (hempty : registry.slots = ∅) (hroom : 0 < registry.maxPins)
    (hnext : checkedSucc registry.nextId = some next) :
    registry.pinOnce stamp = { registry with nextId := next } := by
  have hsize : registry.slots.size < registry.maxPins := by
    rw [hempty]
    exact hroom
  have hslot : (registry.slots.insert registry.nextId ⟨stamp, 1⟩)[registry.nextId]? =
      some ⟨stamp, 1⟩ := Std.ExtTreeMap.getElem?_insert_self
  have hslots : (registry.slots.insert registry.nextId ⟨stamp, 1⟩).erase registry.nextId =
      registry.slots := by
    apply BTreeMap.erase_insert_of_none
    rw [hempty, BTreeMap.getElem?_empty]
  rw [pinOnce, tryPin_of hlive hstamp hsize hnext]
  simp only [dropPin, hslot, Nat.le_refl, if_true, hslots]

/-- Numbers are used up by pins that are long gone. -/
theorem iterate_pinOnce (hschema : stamp.schemaId = REVISION_STAMP_SCHEMA) {maxPins : Nat}
    (hroom : 0 < maxPins) (count : Nat) (hcount : count < 2 ^ 64) :
    (pinOnce stamp)^[count] (.new maxPins stamp.contextId stamp.generation) =
      { RegistryState.new maxPins stamp.contextId stamp.generation with
        nextId := UInt64.ofNat count } := by
  induction count with
  | zero => rfl
  | succ count ih =>
    have hnext : checkedSucc (UInt64.ofNat count) = some (UInt64.ofNat (count + 1)) := by
      apply checkedSucc_eq_some.mpr
      rw [UInt64.toNat_ofNat_of_lt' hcount, UInt64.toNat_ofNat_of_lt' (Nat.lt_of_succ_lt hcount)]
    rw [Function.iterate_succ_apply', ih (by omega)]
    exact pinOnce_of rfl ⟨hschema, rfl, rfl⟩ rfl hroom hnext

theorem not_tryPin_of_spent (h : checkedSucc registry.nextId = none) {stamp : RevisionStamp}
    {pinned : RevisionPin × RegistryState} : registry.tryPin stamp ≠ .ok pinned := by
  intro hpin
  simp only [tryPin, bind_eq_ok, someOr_eq_ok, h] at hpin
  obtain ⟨-, -, -, -, -, -, nextId, hnext, -⟩ := hpin
  cases hnext

end RegistryState

/-- An authority over a registry whose numbers are used up but for the first pin. -/
private theorem exists_spentAuthority : letI := asciiOnly
    ∃ (spent : Nat) (authority : PublicationAuthority),
      PublicationAuthority.new "world" "context" 1
        ((RegistryState.pinOnce (oneSectionRoot ⟨0⟩).stamp)^[spent] (.new 8 "context" 1))
        (oneSectionRoot ⟨0⟩) = .ok authority ∧
      authority.root = oneSectionRoot ⟨0⟩ ∧
      authority.capture.2.pins.destroyed = false ∧
      authority.capture.2.pins.slots.size < authority.capture.2.pins.maxPins ∧
      checkedSucc authority.capture.2.pins.nextId = none ∧
      (checkedSucc authority.capture.2.nextTokenId).isSome = true := by
  let _ := asciiOnly
  obtain ⟨spent, hregistry⟩ : ∃ spent : Nat,
      (RegistryState.pinOnce (oneSectionRoot ⟨0⟩).stamp)^[spent] (.new 8 "context" 1) =
        { RegistryState.new 8 "context" 1 with nextId := 0xfffffffffffffffe } :=
    ⟨2 ^ 64 - 2, RegistryState.iterate_pinOnce rfl (by decide) (2 ^ 64 - 2) (by decide)⟩
  let registry := { RegistryState.new 8 "context" 1 with nextId := 0xfffffffffffffffe }
  have hnext : checkedSucc registry.nextId = some 0xffffffffffffffff := by decide
  have hstamp : (oneSectionRoot ⟨0⟩).stamp.schemaId = REVISION_STAMP_SCHEMA ∧
      (oneSectionRoot ⟨0⟩).stamp.contextId = registry.contextId ∧
      (oneSectionRoot ⟨0⟩).stamp.generation = registry.generation := ⟨rfl, rfl, rfl⟩
  have hslot : registry.slots.size < registry.maxPins := by decide
  have hpin := RegistryState.tryPin_of rfl hstamp hslot hnext
  have hnew := PublicationAuthority.new_of_tryPin
    (show "world" ≠ "" ∧ "context" ≠ "" by decide) ⟨rfl, rfl, rfl, rfl⟩ hpin
  refine ⟨spent, _, by rw [hregistry]; exact hnew, rfl, ?_, ?_, ?_, rfl⟩
  · decide
  · decide
  · decide

/-- A registry may pin one more cut and still have no number for it: the token prepared
over it is refused, with a slot and a token number to spare. -/
theorem prepared_commit_refused : letI := asciiOnly
    ∃ (spent : Nat) (authority : PublicationAuthority) (token : PreparedMutation)
      (ledger' : ReceiptLedger),
      PublicationAuthority.new "world" "context" 1
        ((RegistryState.pinOnce (oneSectionRoot ⟨0⟩).stamp)^[spent] (.new 8 "context" 1))
        (oneSectionRoot ⟨0⟩) = .ok authority ∧
      authority.root.stamp.CanonicalKeys ∧
      prepare (originRequest "txn" []) authority.capture.1 emptyLedger = (.ok token, ledger') ∧
      authority.capture.2.root = authority.root ∧
      authority.capture.2.pins.destroyed = false ∧
      authority.capture.2.pins.slots.size < authority.capture.2.pins.maxPins ∧
      (checkedSucc authority.capture.2.nextTokenId).isSome = true ∧
      ∀ receipt, (commit token authority.capture.2 ledger').1 ≠ .ok receipt := by
  let _ := asciiOnly
  obtain ⟨spent, authority, hnew, hroot, hlive, hslot, hspent, htoken⟩ := exists_spentAuthority
  have hkeys : authority.root.stamp.CanonicalKeys := by
    rw [hroot]
    exact oneSectionRoot_keys ⟨0⟩
  have hprep : Preparable (originRequest "txn" []) authority.capture.1 emptyLedger :=
    originRequest_preparable hroot (by decide) (by decide)
  obtain ⟨token, ledger', hprepare, -⟩ := prepare_of hprep
  obtain ⟨hlookup, -⟩ :=
    draft_of_prepare hprepare hprep.vacant hkeys authority.capture.1 rfl
  refine ⟨spent, authority, token, ledger', hnew, hkeys, hprepare, rfl, hlive, hslot, htoken, ?_⟩
  intro receipt hcommit
  obtain ⟨stamp, pinned, hpin⟩ := pin_of_commit hlookup hcommit
  refine RegistryState.not_tryPin_of_spent ?_ hpin
  rw [← hspent]
  exact congrArg checkedSucc (RegistryState.nextId_clonePin _ _)

end LumioVoxel
