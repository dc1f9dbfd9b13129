import LumioVoxel.FillRuns
import LumioVoxel.PinHandles
import LumioVoxel.WorldSessions

/-!
# World operations and pins

A world pins the published root and every capture it hands out, and nothing else: each
operation gives back whatever it took on the way, on every path, refusals and failures
included.
-/

namespace LumioVoxel

open DebugText Fallible StepRuns

theorem RegistryState.maxPins_of_tryPin {registry registry' : RegistryState}
    {stamp : RevisionStamp} {pin : RevisionPin}
    (h : registry.tryPin stamp = .ok (pin, registry')) : registry'.maxPins = registry.maxPins := by
  simp only [tryPin, bind_eq_ok, require_eq_ok, someOr_eq_ok, pure_eq_ok, exists_and_left,
    exists_const] at h
  obtain ⟨-, -, -, next, -, hout⟩ := h
  obtain ⟨-, rfl⟩ := Prod.mk.inj hout
  rfl

/-- A registry has no more slots than there are pins around. -/
theorem RegistryState.Tracks.size_le {registry : RegistryState}
    {pins : List RevisionPin} (h : registry.Tracks pins) : registry.slots.size ≤ pins.length := by
  have hnodup : (registry.slots.toList.map Prod.fst).Nodup :=
    List.pairwise_map.mpr (BTreeMap.pairwise_toList registry.slots)
  have hsubset : registry.slots.toList.map Prod.fst ⊆ pins.map (·.id) := by
    intro id hid
    obtain ⟨⟨id, slot⟩, hslot, rfl⟩ := List.mem_map.mp hid
    obtain ⟨pin, hpin, hsame⟩ :=
      holders_pos.mp (h.counted id slot (BTreeMap.mem_toList.mp hslot)).2
    exact List.mem_map.mpr ⟨pin, hpin, hsame⟩
  have hle := (hnodup.subperm hsubset).length_le
  rw [List.length_map, List.length_map, Std.ExtTreeMap.length_toList] at hle
  exact hle

section Balance

variable [UnicodeTables]

/-! ## 1. What the authority gives back -/

/-- With memory for `n` more handles, the pins held elsewhere stay accounted for beside the
published one. -/
structure PublicationAuthority.Balances (n : Nat) (old new : PublicationAuthority) : Prop where
  tracks : ∀ held, old.pins.Tracks (old.pin :: held) → held.length + n < 2 ^ 64 →
    new.pins.Tracks (new.pin :: held)
  limit : new.pins.maxPins = old.pins.maxPins
  pinned : old.Pinned → new.Pinned

namespace PublicationAuthority

variable {a b c : PublicationAuthority} {n m : Nat}

omit [UnicodeTables] in
theorem Balances.refl (n : Nat) (a : PublicationAuthority) : Balances n a a :=
  ⟨fun _ h _ => h, rfl, id⟩

omit [UnicodeTables] in
theorem Balances.mono (h : Balances n a b) (hle : n ≤ m) : Balances m a b :=
  ⟨fun held htracks hroom => h.tracks held htracks (by omega), h.limit, h.pinned⟩

omit [UnicodeTables] in
theorem Balances.trans (h : Balances n a b) (h' : Balances n b c) : Balances n a c :=
  ⟨fun held htracks hroom => h'.tracks held (h.tracks held htracks hroom) hroom,
    h'.limit.trans h.limit, fun hpinned => h'.pinned (h.pinned hpinned)⟩

omit [UnicodeTables] in
/-- What balances under a captured view balances around it, when the view goes. -/
theorem Balances.captured (h : Balances n a.capture.2 b) :
    Balances (n + 2) a (b.dropPin a.capture.1.lease) where
  tracks := by
    intro held htracks hroom
    have hcloned : a.capture.2.pins.Tracks (a.pin :: a.pin :: held) :=
      htracks.clone List.mem_cons_self (by rw [List.length_cons]; omega)
    have hinner := h.tracks (a.pin :: held) hcloned (by rw [List.length_cons]; omega)
    exact (hinner.perm (.swap _ _ _)).drop
  limit := by
    have hlimit := h.limit
    simp only [capture, RegistryState.maxPins_clonePin] at hlimit
    simp only [dropPin, RegistryState.maxPins_dropPin, hlimit]
  pinned := h.pinned

omit [UnicodeTables] in
theorem balances_glance (a : PublicationAuthority) : Balances 2 a a.glance :=
  Balances.captured (.refl 0 a.capture.2)

/-- The authority after a token was published and the view of its root dropped. -/
def afterPublish (a : PublicationAuthority) (token : PublicationToken) : PublicationAuthority :=
  match (a.publishOnce token).1 with
  | .error _ => (a.publishOnce token).2
  | .ok view => (a.publishOnce token).2.dropPin view.lease

/-- The token's pin becomes the published one, or is given back. -/
theorem tracks_afterPublish {token : PublicationToken} {held : List RevisionPin}
    (htracks : a.pins.Tracks (token.pin :: a.pin :: held)) (hroom : held.length + 3 < 2 ^ 64) :
    (a.afterPublish token).pins.Tracks ((a.afterPublish token).pin :: held) := by
  unfold afterPublish
  cases hdone : (a.publishOnce token).1 with
  | error err =>
    simp only [publishOnce_error hdone]
    exact htracks.drop
  | ok view =>
    obtain ⟨rfl, hpins, hpin, -⟩ := publishOnce_swaps hdone
    have hcloned := htracks.clone List.mem_cons_self
      (by rw [List.length_cons, List.length_cons]; omega)
    -- the token's pin twice, the old root's once
    have hswap : (token.pin :: token.pin :: a.pin :: held).Perm
        (a.pin :: token.pin :: token.pin :: held) :=
      ((List.Perm.swap _ _ _).cons _).trans (.swap _ _ _)
    have hpublished := (hcloned.perm hswap).drop
    simp only [dropPin, hpins, hpin]
    exact hpublished.drop

theorem maxPins_afterPublish (a : PublicationAuthority) (token : PublicationToken) :
    (a.afterPublish token).pins.maxPins = a.pins.maxPins := by
  unfold afterPublish
  cases hdone : (a.publishOnce token).1 with
  | error err => simp only [publishOnce_error hdone, dropPin, RegistryState.maxPins_dropPin]
  | ok view =>
    obtain ⟨-, hpins, -, -⟩ := publishOnce_swaps hdone
    simp only [dropPin, hpins, RegistryState.maxPins_dropPin, RegistryState.maxPins_clonePin]

theorem afterPublish_pinned (h : a.Pinned) {token : PublicationToken}
    (htoken : token.pin.stamp = token.newRoot.stamp) : (a.afterPublish token).Pinned := by
  have hpinned := publishOnce_pinned h htoken
  unfold afterPublish
  split
  · exact hpinned
  · exact hpinned

/-- Sealing takes one pin, and publishing gives one back. -/
theorem balances_sealed {next : UInt64} {prepared prepared' : PreparedPublication}
    {token : PublicationToken}
    (hseal : sealPublication { a with nextTokenId := next } prepared = .ok (token, prepared', b)) :
    Balances 3 a (b.afterPublish token) := by
  have hstamp := sealPublication_pin hseal
  obtain ⟨pins, hpin, rfl⟩ := sealPublication_pins hseal
  refine ⟨fun held htracks hroom => ?_, ?_, fun hpinned => ?_⟩
  · obtain ⟨hsealed, -, -⟩ := htracks.tryPin hpin
    exact tracks_afterPublish hsealed hroom
  · rw [maxPins_afterPublish]
    exact RegistryState.maxPins_of_tryPin hpin
  · have hsealed : Pinned { a with nextTokenId := next, pins := pins } := hpinned
    exact afterPublish_pinned hsealed hstamp

theorem balances_publishRoot (a : PublicationAuthority) (target : UInt64)
    (newRoot : PublishedStateRoot) (replacement : SectionReplacement) :
    Balances 3 a (a.publishRoot target newRoot replacement).2 := by
  unfold publishRoot
  cases hprepare : a.prepare target newRoot replacement with
  | error err => exact .refl 3 a
  | ok result =>
    obtain ⟨prepared, a₁⟩ := result
    obtain ⟨-, -, -, -, -, -, next, rfl⟩ := prepare_eq_ok hprepare
    simp only
    cases hseal : sealPublication { a with nextTokenId := next } prepared with
    | error err => exact ⟨fun _ htracks _ => htracks, rfl, id⟩
    | ok result =>
      obtain ⟨token, prepared', a₂⟩ := result
      have hsealed := balances_sealed hseal
      simp only [afterPublish] at hsealed ⊢
      cases hpublish : a₂.publishOnce token with
      | mk outcome a₃ =>
        rw [hpublish] at hsealed
        cases outcome with
        | error err => exact hsealed
        | ok view => exact hsealed

end PublicationAuthority

open PublicationAuthority

/-- A commit that is refused or fails gives its view and its token back. -/
theorem balances_commit (prepared : PreparedMutation) (a : PublicationAuthority)
    (ledger : ReceiptLedger) : Balances 5 a (LumioVoxel.commit prepared a ledger).2.1 := by
  unfold LumioVoxel.commit
  split
  · exact .refl 5 a
  · exact .refl 5 a
  · exact .refl 5 a
  · refine Balances.captured (n := 3) ?_
    unfold commitView
    split
    · exact .refl 3 _
    split
    · exact .refl 3 _
    rename_i publication a₁ hprepare
    obtain ⟨-, -, -, -, -, -, next, rfl⟩ := prepare_eq_ok hprepare
    split
    · exact ⟨fun _ htracks _ => htracks, rfl, id⟩
    split
    · exact ⟨fun _ htracks _ => htracks, rfl, id⟩
    rename_i token publication' a₂ hseal
    have hsealed := balances_sealed hseal
    unfold publishAndFinalize
    simp only [afterPublish] at hsealed
    split
    all_goals
      rename_i hpublish
      rw [hpublish] at hsealed
      exact hsealed

/-! ## 2. World operations -/

omit [UnicodeTables] in
theorem balances_underBarrier {α : Type} {world : WorldInstance} {scope : BarrierScope}
    {work : WorldInstance → Except WorldError α × WorldInstance} {n : Nat}
    (h : Balances n world.authority (work { world with writeOccupied := true }).2.authority) :
    Balances n world.authority (world.underBarrier scope work).2.authority := by
  rcases world.underBarrier_cases scope work with ⟨err, -, hrun⟩ | ⟨-, hrun⟩
  · rw [hrun]
    exact .refl n _
  · rw [hrun]
    exact h

theorem balances_prepare (world : WorldInstance) (request : MutationRequest) :
    Balances 2 world.authority (WriteLease.prepare world request).2.authority := by
  apply balances_underBarrier
  split
  · exact .refl 2 _
  · exact balances_glance world.authority

theorem balances_writeCommit (world : WorldInstance) (token : PreparedMutation) :
    Balances 5 world.authority (WriteLease.commit world token).2.authority := by
  apply balances_underBarrier
  split
  · exact .refl 5 _
  · exact balances_commit token world.authority world.ledger

omit [UnicodeTables] in
theorem balances_abort (world : WorldInstance) (request : MutationRequest) :
    Balances 0 world.authority (WriteLease.abort world request).2.authority := by
  apply balances_underBarrier
  split
  · exact .refl 0 _
  · split
    · exact .refl 0 _
    · exact .refl 0 _

omit [UnicodeTables] in
theorem balances_query (world : WorldInstance) (request : VoxelQueryRequest) :
    Balances 2 world.authority (WriteLease.query world request).2.authority := by
  apply balances_underBarrier
  split
  · exact .refl 2 _
  · exact balances_glance world.authority

theorem balances_applyView (view : PublishedReadView) (a : PublicationAuthority)
    (ack : DurabilityAckEvidence) :
    Balances 3 a (DurabilityAckBarrier.applyView view a ack).2 := by
  unfold DurabilityAckBarrier.applyView
  simp only
  split
  · exact .refl 3 a
  · split
    · exact .refl 3 a
    · split
      · exact .refl 3 a
      · exact balances_publishRoot a _ _ _

theorem balances_ack (world : WorldInstance) (ack : DurabilityAckEvidence) :
    Balances 5 world.authority (applyDurabilityAck world ack).2.authority := by
  unfold applyDurabilityAck
  split
  · exact .refl 5 _
  · apply balances_underBarrier
    unfold DurabilityAckBarrier.apply
    split
    · exact .refl 5 _
    · exact Balances.captured (balances_applyView _ _ ack)

/-- The second view of an unload is given back as the first one is. -/
theorem balances_unloadView (pins : Option RegionPinManager) (hook : PinExemptionHook)
    (sectionId : String) (before : PublishedReadView) (a : PublicationAuthority) :
    Balances 5 a (UnloadBarrier.unloadView pins hook sectionId before a).2 := by
  have hpublish : Balances 5 a (UnloadBarrier.publish sectionId before a).2 := by
    unfold UnloadBarrier.publish
    simp only
    split
    · exact (balances_glance a).mono (by omega)
    · exact Balances.captured (balances_publishRoot _ _ _ _)
  unfold UnloadBarrier.unloadView
  split
  · exact .refl 5 a
  split
  · exact .refl 5 a
  split
  · split
    · exact .refl 5 a
    · exact hpublish
  all_goals exact .refl 5 a

theorem balances_unload (world : WorldInstance) (sectionId : String) (hook : PinExemptionHook) :
    Balances 7 world.authority (unloadSection world sectionId hook).2.authority := by
  apply balances_underBarrier
  exact Balances.captured (balances_unloadView _ hook sectionId _ _)

theorem balances_restore (world : WorldInstance) (candidate : SealedRestoreCandidate) :
    Balances 3 world.authority (LumioVoxel.restore world candidate).2.authority := by
  apply balances_underBarrier
  unfold RestoreBarrier.publish
  split
  · exact .refl 3 _
  · have hpublished := ((balances_glance world.authority).mono (by omega)).trans
      (balances_publishRoot world.authority.glance candidate.worldRevision candidate.root
        candidate.replacement)
    simp only
    split
    all_goals
      rename_i hpublish
      rw [hpublish] at hpublished
      exact hpublished

/-- A capture keeps one clone of the published pin; a refused one keeps none. -/
theorem capture_authority (world : WorldInstance) (cut : RuntimeSnapshotCut) :
    (∃ err, (LumioVoxel.capture world cut).1 = .error err ∧
      Balances 2 world.authority (LumioVoxel.capture world cut).2.authority) ∨
    ∃ captured evidence, (LumioVoxel.capture world cut).1 = .ok (captured, evidence) ∧
      captured.pin = world.authority.pin ∧
      (LumioVoxel.capture world cut).2.authority =
        (world.authority.capture.2.clonePin world.authority.pin).dropPin world.authority.pin := by
  unfold LumioVoxel.capture
  cases admitCut world cut with
  | error err => exact .inl ⟨err, rfl, .refl 2 _⟩
  | ok _ =>
    simp only
    rcases WorldInstance.underBarrier_cases
      { world with authority := world.authority.capture.2 } .captureCut _ with
      ⟨err, -, hrun⟩ | ⟨-, hrun⟩
    · rw [hrun]
      exact .inl ⟨err, rfl, balances_glance world.authority⟩
    · rw [hrun]
      simp only
      cases hview : captureView cut world.authority.capture.1 with
      | error err => exact .inl ⟨err, rfl, balances_glance world.authority⟩
      | ok done =>
        obtain ⟨captured, evidence⟩ := done
        simp only [captureView, bind_eq_ok, mapError_eq_ok, pure_eq_ok] at hview
        obtain ⟨-, -, made, hmade, hout⟩ := hview
        obtain ⟨rfl, -⟩ := Prod.mk.inj hout
        have hpin : made.pin = world.authority.pin := VoxelCaptureRef.pin_of_new hmade
        refine .inr ⟨made, evidence, rfl, hpin, ?_⟩
        simp only [hpin]
        rfl

omit [UnicodeTables] in
theorem authority_lifecycle {world world' : WorldInstance} {event target : String}
    {origin : OriginToken} {admitted : AdmittedCommand}
    (h : WorldEndpoint.admit world (.lifecycle event target origin) = .ok (admitted, world')) :
    world'.authority = world.authority := by
  simp only [bind_eq_ok, WorldEndpoint.admit, pure_eq_ok] at h
  obtain ⟨-, -, event', -, target', -, state, -, hout⟩ := h
  obtain ⟨-, rfl⟩ := Prod.mk.inj hout
  rfl

namespace WorldShutdown

omit [UnicodeTables] in
theorem authority_begin (world : WorldInstance) : (begin world).2.authority = world.authority := by
  unfold begin
  split
  · rfl
  · split
    · rfl
    · rfl

omit [UnicodeTables] in
theorem authority_drain (world : WorldInstance) : (drain world).2.authority = world.authority := by
  unfold drain
  split
  · rfl
  · split
    · rfl
    · rfl

omit [UnicodeTables] in
theorem authority_finalize (world : WorldInstance) :
    (finalize world).2.authority = world.authority := by
  unfold finalize
  split
  · rfl
  · split
    · rfl
    · rfl

omit [UnicodeTables] in
theorem authority_trip (world : WorldInstance) (cause diagnosticName : String) :
    (trip world cause diagnosticName).2.authority = world.authority := by
  have hbegin := authority_begin world
  unfold trip
  split
  · rfl
  · split
    · rename_i hrun
      rw [hrun] at hbegin
      exact hbegin
    · rename_i world₁ hrun
      rw [hrun] at hbegin
      have hdrain := authority_drain world₁
      split
      · rename_i hrun'
        rw [hrun'] at hdrain
        exact hdrain.trans hbegin
      · rename_i world₂ hrun'
        rw [hrun'] at hdrain
        exact (authority_finalize world₂).trans (hdrain.trans hbegin)

end WorldShutdown

namespace WorldSession

variable {s : WorldSession} {maxPins : Nat}

/-! ## 3. Sessions -/

/-- The pins a session holds: the published root's and its captures'. -/
def pinsHeld (s : WorldSession) : List RevisionPin :=
  s.world.authority.pin :: s.captures.map (·.pin)

/-- The registry counts these and no others. -/
structure Balanced (maxPins : Nat) (s : WorldSession) : Prop where
  tracks : s.world.authority.pins.Tracks s.pinsHeld
  limit : s.world.authority.pins.maxPins = maxPins
  pinned : s.world.authority.Pinned

/-- Captures take memory; there is enough of it for the next operation's handles. -/
def HasMemory (s : WorldSession) : Prop := s.captures.length + 8 < 2 ^ 64

theorem Balanced.of_balances (h : s.Balanced maxPins) (hmemory : s.HasMemory) {t : WorldSession}
    (hcaptures : t.captures = s.captures)
    (hbalances : Balances 7 s.world.authority t.world.authority) : t.Balanced maxPins := by
  refine ⟨?_, hbalances.limit.trans h.limit, hbalances.pinned h.pinned⟩
  rw [pinsHeld, hcaptures]
  refine hbalances.tracks _ h.tracks ?_
  rw [List.length_map]
  exact Nat.lt_of_succ_lt hmemory

theorem balanced_capture (h : s.Balanced maxPins) (hmemory : s.HasMemory)
    (cut : RuntimeSnapshotCut) : (s.step (.capture cut)).Balanced maxPins := by
  rcases capture_authority s.world cut with ⟨err, herr, hbalances⟩ |
    ⟨captured, evidence, hok, hpin, hauthority⟩
  · refine h.of_balances hmemory ?_ (hbalances.mono (by omega))
    simp only [step, capture, herr, Except.toOption, Option.map_none, Option.toList_none,
      List.append_nil]
  · have hcaptures : (s.step (.capture cut)).captures = s.captures ++ [captured] := by
      simp only [step, capture, hok, Except.toOption, Option.map_some, Option.toList_some]
    have hroom : s.pinsHeld.length + 2 < 2 ^ 64 := by
      have hlength : s.pinsHeld.length = s.captures.length + 1 := by
        rw [pinsHeld, List.length_cons, List.length_map]
      rw [HasMemory] at hmemory
      omega
    have hview := h.tracks.clone (List.mem_cons_self (a := s.world.authority.pin)) (by omega)
    have hlease := hview.clone (List.mem_cons_self (a := s.world.authority.pin))
      (by rw [List.length_cons]; omega)
    have hkept := hlease.drop
    refine ⟨?_, ?_, ?_⟩
    · rw [pinsHeld, hcaptures]
      have hsame : (s.step (.capture cut)).world.authority = _ := hauthority
      rw [hsame]
      refine hkept.perm ?_
      rw [List.map_append]
      have hlast : ([s.world.authority.pin] ++ s.captures.map (·.pin)).Perm
          (s.captures.map (·.pin) ++ [s.world.authority.pin]) := List.perm_append_comm
      rw [List.map_cons, List.map_nil, hpin]
      exact (hlast.cons _)
    · have hsame : (s.step (.capture cut)).world.authority = _ := hauthority
      rw [hsame, PublicationAuthority.dropPin, RegistryState.maxPins_dropPin,
        PublicationAuthority.clonePin, RegistryState.maxPins_clonePin,
        PublicationAuthority.capture, RegistryState.maxPins_clonePin, h.limit]
    · have hsame : (s.step (.capture cut)).world.authority = _ := hauthority
      rw [hsame]
      exact h.pinned

theorem balanced_release (h : s.Balanced maxPins) (k : Nat) :
    (s.step (.release k)).Balanced maxPins := by
  cases hk : s.captures[k]? with
  | none =>
    have hout : s.captures.eraseIdx k = s.captures :=
      List.eraseIdx_of_length_le (List.getElem?_eq_none_iff.mp hk)
    simp only [step, release, hk, hout]
    exact h
  | some captured =>
    obtain ⟨hlt, rfl⟩ := List.getElem?_eq_some_iff.mp hk
    have hperm := (List.getElem_cons_eraseIdx_perm hlt).symm.map (·.pin)
    have htracks := (h.tracks.perm ((hperm.cons s.world.authority.pin).trans (.swap _ _ _))).drop
    simp only [step, release, hk]
    exact ⟨htracks, (RegistryState.maxPins_dropPin _ _).trans h.limit, h.pinned⟩

/-- **Every operation keeps the balance.** -/
theorem balanced_step (h : s.Balanced maxPins) (hmemory : s.HasMemory) (op : WorldOp) :
    (s.step op).Balanced maxPins := by
  cases op with
  | prepare request =>
    exact h.of_balances hmemory rfl ((balances_prepare s.world request).mono (by omega))
  | commit i =>
    refine h.of_balances hmemory rfl ?_
    simp only [step, commit]
    split
    · exact .refl 7 _
    · exact (balances_writeCommit s.world _).mono (by omega)
  | abort request =>
    exact h.of_balances hmemory rfl ((balances_abort s.world request).mono (by omega))
  | query request =>
    exact h.of_balances hmemory rfl ((balances_query s.world request).mono (by omega))
  | ack evidence =>
    exact h.of_balances hmemory rfl ((balances_ack s.world evidence).mono (by omega))
  | unload sectionId hook => exact h.of_balances hmemory rfl (balances_unload s.world _ _)
  | capture cut => exact balanced_capture h hmemory cut
  | release k => exact balanced_release h k
  | restore j expectedWorldId expectedGeneration config =>
    refine h.of_balances hmemory rfl ?_
    simp only [step, restore]
    split
    · exact .refl 7 _
    · exact (balances_restore s.world _).mono (by omega)
  | discard i => exact h.of_balances hmemory rfl (.refl 7 _)
  | encode k cap => exact h.of_balances hmemory rfl (.refl 7 _)
  | attach manager => exact h.of_balances hmemory rfl (.refl 7 _)
  | pins change => exact h.of_balances hmemory rfl (.refl 7 _)
  | lifecycle event target origin =>
    refine h.of_balances hmemory rfl ?_
    simp only [step, lifecycle]
    split
    · rename_i hadmit
      rw [authority_lifecycle hadmit]
      exact .refl 7 _
    · exact .refl 7 _
  | beginShutdown =>
    have hsame : (s.step .beginShutdown).world.authority = _ :=
      WorldShutdown.authority_begin s.world
    exact h.of_balances hmemory rfl (hsame ▸ .refl 7 _)
  | drain =>
    have hsame : (s.step .drain).world.authority = _ := WorldShutdown.authority_drain s.world
    exact h.of_balances hmemory rfl (hsame ▸ .refl 7 _)
  | finalize =>
    have hsame : (s.step .finalize).world.authority = _ := WorldShutdown.authority_finalize s.world
    exact h.of_balances hmemory rfl (hsame ▸ .refl 7 _)
  | trip cause diagnosticName =>
    have hsame : (s.step (.trip cause diagnosticName)).world.authority = _ :=
      WorldShutdown.authority_trip s.world cause diagnosticName
    exact h.of_balances hmemory rfl (hsame ▸ .refl 7 _)

/-- Nothing but the published root and the captures around keeps a pin. -/
structure NothingLeaks (maxPins : Nat) (s : WorldSession) : Prop where
  live : ∀ id : UInt64, s.world.authority.pins.slots[id]? ≠ none ↔
    ∃ pin ∈ s.pinsHeld, pin.id = id
  counted : ∀ (id : UInt64) (slot : LivePin), s.world.authority.pins.slots[id]? = some slot →
    slot.refs = holders s.pinsHeld id
  published : s.world.authority.pin.stamp = s.root.stamp
  size : s.world.authority.pins.slots.size ≤ s.captures.length + 1
  bounded : s.world.authority.pins.slots.size ≤ maxPins

theorem Balanced.nothingLeaks (h : s.Balanced maxPins) : s.NothingLeaks maxPins where
  live := by
    intro id
    constructor
    · intro hslot
      obtain ⟨slot, hslot⟩ := Option.ne_none_iff_exists'.mp hslot
      exact holders_pos.mp (h.tracks.counted id slot hslot).2
    · rintro ⟨pin, hpin, rfl⟩
      obtain ⟨slot, hslot, -⟩ := h.tracks.held pin hpin
      rw [hslot]
      exact Option.some_ne_none slot
  counted := fun id slot hslot => (h.tracks.counted id slot hslot).1
  published := h.pinned
  size := by
    have hle := h.tracks.size_le
    rw [pinsHeld, List.length_cons, List.length_map] at hle
    exact hle
  bounded := h.limit ▸ h.tracks.bounded

/-- The balance holds in every state a run visits. -/
theorem balanced_visited {worldId contextId registryContext : String}
    {generation registryGeneration : UInt64} {initial : PublishedStateRoot}
    {world : WorldInstance} {ops : List WorldOp}
    (hnew : PublicationAuthority.new worldId contextId generation
      (.new maxPins registryContext registryGeneration) initial = .ok world.authority)
    (hmemory : ∀ s ∈ visited step (.start world) ops, s.HasMemory) :
    ∀ s ∈ visited step (.start world) ops, s.Balanced maxPins := by
  have hcounted := PublicationSession.Counted.start hnew
  have hstart : (start world).Balanced maxPins :=
    ⟨hcounted.tracks, hcounted.limit, hcounted.pinned⟩
  have halong : Along step (fun s _ => s.HasMemory) (start world) ops := by
    refine along_of_splits fun first op rest hsplit => ?_
    subst hsplit
    exact hmemory _ (mem_visited_append_left _ (run_mem_visited _ first))
  have hstep : ∀ (t : WorldSession) op, t.Balanced maxPins → t.HasMemory →
      (t.step op).Balanced maxPins := fun t op ht hroom => balanced_step ht hroom op
  exact visited_invariant_along hstep hstart halong

/-- **No pin leaks.** In every state that any order of operations of a world visits, whatever
goes through and whatever is refused, the live slots are those of the published root and of
the captures still around, each counted as often as it is held. -/
theorem no_pin_leaks (worldId contextId registryContext : String)
    (generation registryGeneration : UInt64) (maxPins : Nat) (initial : PublishedStateRoot)
    (world : WorldInstance) (ops : List WorldOp)
    (hnew : PublicationAuthority.new worldId contextId generation
      (.new maxPins registryContext registryGeneration) initial = .ok world.authority)
    (hmemory : ∀ s ∈ visited step (.start world) ops, s.HasMemory) :
    ∀ s ∈ visited step (.start world) ops, s.NothingLeaks maxPins := by
  intro s hs
  exact (balanced_visited hnew hmemory s hs).nothingLeaks

/-- A step makes one capture at most. -/
theorem length_captures_step (s : WorldSession) (op : WorldOp) :
    (s.step op).captures.length ≤ s.captures.length + 1 := by
  cases op with
  | capture cut =>
    simp only [step, capture, List.length_append]
    cases (LumioVoxel.capture s.world cut).1.toOption with
    | none => exact Nat.le_succ _
    | some made => exact Nat.le_refl _
  | release k => exact Nat.le_succ_of_le (List.length_eraseIdx_le _ _)
  | _ => exact Nat.le_succ _

theorem length_captures_visited {ops : List WorldOp} {t : WorldSession}
    (h : t ∈ visited step s ops) :
    t.captures.length ≤ s.captures.length + ops.length := by
  induction ops generalizing s with
  | nil =>
    rw [List.mem_singleton.mp h]
    exact Nat.le_refl _
  | cons op rest ih =>
    rcases List.mem_cons.mp h with rfl | h
    · exact Nat.le_add_right _ _
    · have hstep := length_captures_step s op
      have hrest := ih h
      rw [List.length_cons]
      omega

/-- With no capture around, the published cut alone is pinned. -/
theorem NothingLeaks.live_of_none {t : WorldSession} {maxPins : Nat} (h : t.NothingLeaks maxPins)
    (hnone : t.captures = []) (id : UInt64) :
    t.world.authority.pins.slots[id]? ≠ none ↔ id = t.world.authority.pin.id := by
  rw [h.live, pinsHeld, hnone]
  constructor
  · rintro ⟨pin, hpin, rfl⟩
    rw [List.mem_singleton.mp hpin]
  · rintro rfl
    exact ⟨_, List.mem_singleton.mpr rfl, rfl⟩

/-- What is pinned in a section's life: beside the published cut the captured one, while the
capture of it is around. -/
theorem Life.pins {cut : RuntimeSnapshotCut} {cap : Nat} (h : s.Life cut cap)
    (hleaks : ∀ t ∈ visited step s (lifeOps cut cap), t.NothingLeaks maxPins) :
    (∃ captured, (run step s (written cut cap)).captures = [captured] ∧
      captured.root.stamp.worldRevision = 1 ∧
      (run step s (written cut cap)).world.authority.pins.slots[captured.pin.id]? ≠ none) ∧
    (run step s (written cut cap ++ (settling ++ [.release 0]))).captures = [] ∧
    ∀ id : UInt64, (run step s (written cut cap ++
        (settling ++ [.release 0]))).world.authority.pins.slots[id]? ≠ none ↔
      id = (run step s (written cut cap ++
        (settling ++ [.release 0]))).world.authority.pin.id := by
  obtain ⟨captured, -, hcaptured, hcaptures, -⟩ := h.holds
  have hheld := hleaks _ (mem_visited_append_left
    (settling ++ [.release 0, .restore 0 "world" 1 approvedConfig]) (run_mem_visited _ _))
  have hreleased := hleaks (run step s (written cut cap ++ (settling ++ [.release 0])))
    (mem_visited_iff.mpr ⟨_, [.restore 0 "world" 1 approvedConfig], rfl, rfl⟩)
  have hnone : (run step s (written cut cap ++ (settling ++ [.release 0]))).captures = [] :=
    congrArg (·.eraseIdx 0) hcaptures
  have hin : captured.pin ∈ (run step s (written cut cap)).pinsHeld := by
    rw [pinsHeld, hcaptures]
    exact .tail _ (.head _)
  exact ⟨⟨captured, hcaptures, congrArg (·.worldRevision) hcaptured.stamp,
    (hheld.live captured.pin.id).mpr ⟨captured.pin, hin, rfl⟩⟩, hnone,
    hreleased.live_of_none hnone⟩

omit [UnicodeTables] in
/-- In a section's life the first fill is captured, the second is published over it, and the
capture is released. -/
theorem no_pin_leaks_life : letI := asciiOnly
    ∃ authority cut cap, let s := start (runningWorld authority none)
      let held := run step s (written cut cap)
      let released := run step s (written cut cap ++ (settling ++ [.release 0]))
      (∀ t ∈ visited step s (lifeOps cut cap), t.NothingLeaks 8) ∧
      held.root.stamp.worldRevision = 2 ∧
      (∃ captured, held.captures = [captured] ∧ captured.root.stamp.worldRevision = 1 ∧
        held.world.authority.pins.slots[captured.pin.id]? ≠ none) ∧
      released.captures = [] ∧ ∀ id : UInt64, released.world.authority.pins.slots[id]? ≠ none ↔
        id = released.world.authority.pin.id := by
  let _ := asciiOnly
  obtain ⟨authority, cut, cap, hnew, hroot, hlife⟩ := exists_lived
  have hleaks : ∀ t ∈ visited step (start (runningWorld authority none)) (lifeOps cut cap),
      t.NothingLeaks 8 := by
    refine no_pin_leaks "world" "context" "context" 1 1 8 (twoBlockRoot ⟨0⟩)
      (runningWorld authority none) (lifeOps cut cap) hnew fun t ht => ?_
    have hle := length_captures_visited ht
    exact Nat.lt_of_le_of_lt (Nat.add_le_add_right hle 8) (show 0 + 11 + 8 < 2 ^ 64 by decide)
  exact ⟨authority, cut, cap, hleaks, congrArg (·.worldRevision) hlife.refilled.alike.stamp,
    @Life.pins asciiOnly _ _ _ _ hlife hleaks⟩

end WorldSession

end Balance

end LumioVoxel
