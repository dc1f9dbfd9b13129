import LumioVoxel.LeastItems
import LumioVoxel.WorldProgress
import Mathlib.Data.List.Perm.Basic

/-!
# Pin handles

Every view, lease, capture and token carries a pin, and so does the published cell.
The registry counts them: a slot is live as long as something carries its number.
This module follows all of them through any order of captures, seals, publications,
clones and drops, successful or not.
-/

namespace LumioVoxel

open DebugText Fallible LeastItems StepRuns

/-! ## 1. Counting the handles of a slot -/

/-- How many of the pins carry the slot's number. -/
def holders (pins : List RevisionPin) (id : UInt64) : Nat := pins.countP fun pin => pin.id = id

theorem holders_cons (pin : RevisionPin) (pins : List RevisionPin) (id : UInt64) :
    holders (pin :: pins) id = holders pins id + if pin.id = id then 1 else 0 := by
  simp only [holders, List.countP_cons, decide_eq_true_eq]

theorem holders_cons_self (pin : RevisionPin) (pins : List RevisionPin) :
    holders (pin :: pins) pin.id = holders pins pin.id + 1 := by
  rw [holders_cons, if_pos rfl]

theorem holders_cons_ne {pin : RevisionPin} {id : UInt64} (h : pin.id ≠ id)
    (pins : List RevisionPin) : holders (pin :: pins) id = holders pins id := by
  rw [holders_cons, if_neg h, Nat.add_zero]

theorem holders_pos {pins : List RevisionPin} {id : UInt64} :
    0 < holders pins id ↔ ∃ pin ∈ pins, pin.id = id := by
  simp only [holders, List.countP_pos_iff, decide_eq_true_eq]

namespace RegistryState

variable {registry registry' : RegistryState} {pin : RevisionPin} {pins pins' : List RevisionPin}

/-- The registry accounts for exactly these pins. -/
structure Tracks (registry : RegistryState) (pins : List RevisionPin) : Prop where
  held : ∀ pin ∈ pins, ∃ slot, registry.slots[pin.id]? = some slot ∧ slot.stamp = pin.stamp
  counted : ∀ (id : UInt64) slot, registry.slots[id]? = some slot →
    slot.refs = holders pins id ∧ 0 < holders pins id
  fresh : ∀ (id : UInt64) slot, registry.slots[id]? = some slot → id.toNat < registry.nextId.toNat
  bounded : registry.slots.size ≤ registry.maxPins

theorem Tracks.perm (h : registry.Tracks pins) (hperm : pins.Perm pins') :
    registry.Tracks pins' := by
  refine ⟨fun pin hpin => h.held pin (hperm.mem_iff.mpr hpin), fun id slot hslot => ?_, h.fresh,
    h.bounded⟩
  rw [holders, ← hperm.countP_eq]
  exact h.counted id slot hslot

/-- Changing the count of a slot leaves the rest of the account alone. -/
private theorem tracks_insert {slot : LivePin} (hslot : registry.slots[pin.id]? = some slot)
    (h : registry.Tracks pins) {refs : Nat} (hrefs : refs = holders pins' pin.id)
    (hpos : 0 < holders pins' pin.id) (hheld : ∀ p ∈ pins', p ∈ pins)
    (hother : ∀ id, pin.id ≠ id → holders pins' id = holders pins id) :
    Tracks { registry with slots := registry.slots.insert pin.id { slot with refs } } pins' := by
  refine ⟨fun p hp => ?_, fun id live hlive => ?_, fun id live hlive => ?_, ?_⟩
  · obtain ⟨live, hlive, hstamp⟩ := h.held p (hheld p hp)
    simp only [BTreeMap.getElem?_insert]
    split
    · rename_i hid
      rw [← hid, hslot] at hlive
      obtain rfl := Option.some.inj hlive
      exact ⟨_, rfl, hstamp⟩
    · exact ⟨live, hlive, hstamp⟩
  · simp only [BTreeMap.getElem?_insert] at hlive
    split at hlive
    · rename_i hid
      subst hid
      obtain rfl := Option.some.inj hlive
      exact ⟨hrefs, hpos⟩
    · rename_i hid
      rw [hother id hid]
      exact h.counted id live hlive
  · simp only [BTreeMap.getElem?_insert] at hlive
    split at hlive
    · rename_i hid
      exact hid ▸ h.fresh pin.id slot hslot
    · exact h.fresh id live hlive
  · exact Nat.le_trans (Nat.le_of_eq (size_insert_of_some hslot _)) h.bounded

/-- One more handle on a slot that has one. -/
theorem Tracks.clone (h : registry.Tracks pins) (hpin : pin ∈ pins)
    (hroom : pins.length + 1 < 2 ^ 64) : (registry.clonePin pin).Tracks (pin :: pins) := by
  obtain ⟨slot, hslot, -⟩ := h.held pin hpin
  obtain ⟨hrefs, -⟩ := h.counted pin.id slot hslot
  have hle : slot.refs ≤ pins.length := hrefs ▸ List.countP_le_length
  unfold clonePin
  rw [hslot]
  refine tracks_insert hslot h ?_ ?_ ?_ fun id hid => holders_cons_ne hid pins
  · rw [saturatingSucc_of_lt (by omega), holders_cons_self, hrefs]
  · rw [holders_cons_self]
    exact Nat.succ_pos _
  · intro p hp
    rcases List.mem_cons.mp hp with rfl | hp
    · exact hpin
    · exact hp

/-- One handle less; the last one takes the slot with it. -/
theorem Tracks.drop (h : registry.Tracks (pin :: pins)) : (registry.dropPin pin).Tracks pins := by
  obtain ⟨slot, hslot, -⟩ := h.held pin List.mem_cons_self
  obtain ⟨hrefs, -⟩ := h.counted pin.id slot hslot
  rw [holders_cons_self] at hrefs
  unfold dropPin
  rw [hslot]
  simp only
  split
  · rename_i hlast
    have hnone : holders pins pin.id = 0 := by omega
    refine ⟨fun p hp => ?_, fun id live hlive => ?_, fun id live hlive => ?_, ?_⟩
    · have hne : pin.id ≠ p.id := by
        intro hid
        have hpos := holders_pos.mpr ⟨p, hp, hid.symm⟩
        omega
      obtain ⟨live, hlive, hstamp⟩ := h.held p (List.mem_cons_of_mem _ hp)
      refine ⟨live, ?_, hstamp⟩
      simp only [BTreeMap.getElem?_erase, if_neg hne]
      exact hlive
    · simp only [BTreeMap.getElem?_erase] at hlive
      split at hlive
      · cases hlive
      · rename_i hid
        rw [← holders_cons_ne hid pins]
        exact h.counted id live hlive
    · simp only [BTreeMap.getElem?_erase] at hlive
      split at hlive
      · cases hlive
      · exact h.fresh id live hlive
    · exact Nat.le_trans Std.ExtTreeMap.size_erase_le h.bounded
  · refine tracks_insert hslot h ?_ ?_ (fun p hp => List.mem_cons_of_mem _ hp) fun id hid =>
      (holders_cons_ne hid pins).symm
    · omega
    · omega

/-- A fresh slot for a fresh handle, and only while there is room. -/
theorem Tracks.tryPin (h : registry.Tracks pins) {stamp : RevisionStamp}
    (hpin : registry.tryPin stamp = .ok (pin, registry')) :
    registry'.Tracks (pin :: pins) ∧ pin.stamp = stamp ∧ registry'.maxPins = registry.maxPins := by
  simp only [RegistryState.tryPin, bind_eq_ok, require_eq_ok, someOr_eq_ok, pure_eq_ok,
    exists_and_left, exists_const] at hpin
  obtain ⟨-, -, hroom, next, hnext, hout⟩ := hpin
  obtain ⟨rfl, rfl⟩ := Prod.mk.inj hout
  have hnext := checkedSucc_eq_some.mp hnext
  have hunused : registry.slots[registry.nextId]? = none := by
    cases hslot : registry.slots[registry.nextId]? with
    | none => rfl
    | some slot => exact absurd (h.fresh _ slot hslot) (Nat.lt_irrefl _)
  have hnone : holders pins registry.nextId = 0 := by
    refine Nat.eq_zero_of_not_pos fun hpos => ?_
    obtain ⟨p, hp, hid⟩ := holders_pos.mp hpos
    obtain ⟨slot, hslot, -⟩ := h.held p hp
    rw [hid, hunused] at hslot
    cases hslot
  refine ⟨⟨fun p hp => ?_, fun id live hlive => ?_, fun id live hlive => ?_, ?_⟩, rfl, rfl⟩
  · rcases List.mem_cons.mp hp with rfl | hp
    · exact ⟨_, Std.ExtTreeMap.getElem?_insert_self, rfl⟩
    · obtain ⟨slot, hslot, hstamp⟩ := h.held p hp
      refine ⟨slot, (BTreeMap.getElem?_insert_ne _ ?_ _).trans hslot, hstamp⟩
      intro hid
      rw [← hid, hunused] at hslot
      cases hslot
  · simp only [BTreeMap.getElem?_insert] at hlive
    split at hlive
    · rename_i hid
      subst hid
      obtain rfl := Option.some.inj hlive
      refine ⟨?_, ?_⟩
      · rw [holders_cons, if_pos rfl, hnone]
      · rw [holders_cons, if_pos rfl]
        exact Nat.succ_pos _
    · rename_i hid
      rw [holders_cons, if_neg hid]
      exact h.counted id live hlive
  · simp only [BTreeMap.getElem?_insert] at hlive
    rw [hnext]
    split at hlive
    · rename_i hid
      rw [← hid]
      exact Nat.lt_succ_self _
    · exact Nat.lt_succ_of_lt (h.fresh id live hlive)
  · have hsize := Std.ExtTreeMap.size_insert_le (t := registry.slots) (k := registry.nextId)
      (v := (⟨stamp, 1⟩ : LivePin))
    simp only
    omega

end RegistryState

/-! ## 2. The retention frontier -/

namespace RevisionStamp

/-- Item by item, key before value. -/
abbrev compareItems : List (String × UInt64) → List (String × UInt64) → Ordering :=
  List.compareLex (compareLex (compareOn Prod.fst) (compareOn Prod.snd))

def compareSections (a b : RevisionStamp) : Ordering :=
  compareItems a.sectionRevisionSet.toList b.sectionRevisionSet.toList

/-- By world revision, then by section revisions. -/
def compareAge : RevisionStamp → RevisionStamp → Ordering :=
  compareLex (compareOn (·.worldRevision)) compareSections

instance : Std.TransCmp compareSections where
  eq_swap {a b} := by
    let items (stamp : RevisionStamp) := stamp.sectionRevisionSet.toList
    exact (Std.OrientedCmp.eq_swap : compareItems (items a) (items b) =
      (compareItems (items b) (items a)).swap)
  isLE_trans {a b c} := by
    let items (stamp : RevisionStamp) := stamp.sectionRevisionSet.toList
    exact (Std.TransCmp.isLE_trans : (compareItems (items a) (items b)).isLE →
      (compareItems (items b) (items c)).isLE → (compareItems (items a) (items c)).isLE)

instance : Std.TransCmp compareAge :=
  inferInstanceAs (Std.TransCmp (compareLex (compareOn RevisionStamp.worldRevision) compareSections))

end RevisionStamp

namespace RegistryState

/-- The least stamp that a slot still refers to. -/
def oldestLive (registry : RegistryState) : Option RevisionStamp :=
  minBy RevisionStamp.compareAge (registry.slots.toList.map fun item => item.2.stamp)

/-- The stamp is some slot's, and no slot's is less. -/
structure LeastLive (registry : RegistryState) (stamp : RevisionStamp) : Prop where
  live : ∃ (id : UInt64) (slot : LivePin), registry.slots[id]? = some slot ∧ slot.stamp = stamp
  least : ∀ (id : UInt64) (slot : LivePin), registry.slots[id]? = some slot →
    (stamp.compareAge slot.stamp).isLE

theorem leastLive_of_oldestLive {registry : RegistryState} {stamp : RevisionStamp}
    (h : registry.oldestLive = some stamp) : registry.LeastLive stamp := by
  obtain ⟨hmem, hleast⟩ := minBy_eq_some h
  obtain ⟨⟨id, slot⟩, hitem, rfl⟩ := List.mem_map.mp hmem
  refine ⟨⟨id, slot, BTreeMap.mem_toList.mp hitem, rfl⟩, fun other live hlive => ?_⟩
  exact hleast _ (List.mem_map_of_mem (BTreeMap.mem_toList.mpr hlive))

theorem oldestLive_eq_none {registry : RegistryState} :
    registry.oldestLive = none ↔ ∀ id : UInt64, registry.slots[id]? = none := by
  rw [oldestLive, minBy_eq_none, List.map_eq_nil_iff]
  constructor
  · intro hempty id
    cases hslot : registry.slots[id]? with
    | none => rfl
    | some slot =>
      have hitem := BTreeMap.mem_toList.mpr hslot
      rw [hempty] at hitem
      exact absurd hitem List.not_mem_nil
  · intro hnone
    apply List.eq_nil_iff_forall_not_mem.mpr
    rintro ⟨id, slot⟩ hitem
    cases (BTreeMap.mem_toList.mp hitem).symm.trans (hnone id)

end RegistryState

/-! ## 3. Sessions -/

section Handles

variable [UnicodeTables]

/-- A value that carries a pin. -/
inductive PinHandle where
  | view (view : PublishedReadView)
  | lease (pin : RevisionPin)
  | capture (captured : VoxelCaptureRef)
  | token (token : PublicationToken)

namespace PinHandle

def pin : PinHandle → RevisionPin
  | .view v => v.lease
  | .lease p => p
  | .capture c => c.pin
  | .token t => t.pin

/-- Of a view only the lease is cloned, and a token not at all. -/
def cloned : PinHandle → Option PinHandle
  | .view v => some (.lease v.lease)
  | .lease p => some (.lease p)
  | .capture c => some (.capture c)
  | .token _ => none

omit [UnicodeTables] in
theorem pin_of_cloned {handle copy : PinHandle} (h : handle.cloned = some copy) :
    copy.pin = handle.pin := by
  cases handle with
  | token t => cases h
  | view v =>
    obtain rfl := Option.some.inj h
    rfl
  | lease p =>
    obtain rfl := Option.some.inj h
    rfl
  | capture c =>
    obtain rfl := Option.some.inj h
    rfl

end PinHandle

/-- One authority, with what its callers hold. -/
structure PublicationSession where
  authority : PublicationAuthority
  prepared : List PreparedPublication
  handles : List PinHandle

/-- Prepared publications and handles are named by position. -/
inductive PublicationOp where
  | capture
  | prepare (target : UInt64) (newRoot : PublishedStateRoot) (replacement : SectionReplacement)
  | discard (i : Nat)
  | sealPrepared (i : Nat)
  | publishOnce (k : Nat)
  | clone (k : Nat)
  | captureRef (k j : Nat) (evidence : CutEvidence)
  | drop (k : Nat)

namespace PublicationSession

def start (authority : PublicationAuthority) : PublicationSession := ⟨authority, [], []⟩

/-- A handle takes memory, so there are fewer than `usize::MAX` of them; without
memory for another one, none is made. -/
def hasMemory (s : PublicationSession) : Bool := s.handles.length + 3 < 2 ^ 64

def sealPrepared (s : PublicationSession) (i : Nat) : PublicationSession :=
  match s.prepared[i]? with
  | none => s
  | some prepared =>
    match s.authority.sealPublication prepared with
    | .error _ => s
    | .ok (token, prepared, authority) =>
      ⟨authority, s.prepared.set i prepared, s.handles ++ [.token token]⟩

/-- The token is consumed, whatever the outcome. -/
def publishOnce (s : PublicationSession) (k : Nat) : PublicationSession :=
  match s.handles[k]? with
  | some (.token token) =>
    let done := s.authority.publishOnce token
    { s with
      authority := done.2
      handles := s.handles.eraseIdx k ++ (done.1.toOption.map PinHandle.view).toList }
  | _ => s

omit [UnicodeTables] in
def clone (s : PublicationSession) (k : Nat) : PublicationSession :=
  match s.handles[k]?.bind PinHandle.cloned with
  | none => s
  | some copy =>
    { s with
      authority := s.authority.clonePin copy.pin
      handles := s.handles ++ [copy] }

/-- The lease moves into the capture, or is dropped with the refusal. -/
def captureRef (s : PublicationSession) (k j : Nat) (evidence : CutEvidence) :
    PublicationSession :=
  match s.handles[k]?, s.handles[j]? with
  | some (.view view), some (.lease pin) =>
    match VoxelCaptureRef.new view pin evidence with
    | .ok captured => { s with handles := s.handles.set j (.capture captured) }
    | .error _ =>
      { s with
        authority := s.authority.dropPin pin
        handles := s.handles.eraseIdx j }
  | _, _ => s

omit [UnicodeTables] in
def drop (s : PublicationSession) (k : Nat) : PublicationSession :=
  match s.handles[k]? with
  | none => s
  | some handle =>
    { s with
      authority := s.authority.dropPin handle.pin
      handles := s.handles.eraseIdx k }

def step (s : PublicationSession) : PublicationOp → PublicationSession
  | .capture =>
    if s.hasMemory then
      { s with
        authority := s.authority.capture.2
        handles := s.handles ++ [.view s.authority.capture.1] }
    else s
  | .prepare target newRoot replacement =>
    match s.authority.prepare target newRoot replacement with
    | .error _ => s
    | .ok (prepared, authority) => { s with authority, prepared := s.prepared ++ [prepared] }
  | .discard i => { s with prepared := s.prepared.eraseIdx i }
  | .sealPrepared i => if s.hasMemory then s.sealPrepared i else s
  | .publishOnce k => s.publishOnce k
  | .clone k => if s.hasMemory then s.clone k else s
  | .captureRef k j evidence => s.captureRef k j evidence
  | .drop k => s.drop k

end PublicationSession

namespace RegistryState

omit [UnicodeTables] in
@[simp] theorem maxPins_clonePin (registry : RegistryState) (pin : RevisionPin) :
    (registry.clonePin pin).maxPins = registry.maxPins := by
  unfold clonePin
  split
  · rfl
  · rfl

omit [UnicodeTables] in
@[simp] theorem maxPins_dropPin (registry : RegistryState) (pin : RevisionPin) :
    (registry.dropPin pin).maxPins = registry.maxPins := by
  unfold dropPin
  split
  · split
    · rfl
    · rfl
  · rfl

end RegistryState

theorem PublicationAuthority.publishOnce_swaps {authority : PublicationAuthority}
    {token : PublicationToken} {view : PublishedReadView}
    (h : (authority.publishOnce token).1 = .ok view) :
    view = ⟨token.newRoot, token.pin⟩ ∧
      (authority.publishOnce token).2.pins =
        (authority.pins.clonePin token.pin).dropPin authority.pin ∧
      (authority.publishOnce token).2.pin = token.pin ∧
      (authority.publishOnce token).2.root = token.newRoot := by
  unfold publishOnce at h ⊢
  split at h
  · split at h
    · split at h
      · rename_i hids hgen hbase
        obtain rfl := Except.ok.inj h
        rw [dif_pos hids, dif_pos hgen, if_pos hbase]
        exact ⟨rfl, rfl, rfl, rfl⟩
      · cases h
    · cases h
  · cases h

theorem VoxelCaptureRef.pin_of_new {view : PublishedReadView} {pin : RevisionPin}
    {evidence : CutEvidence} {captured : VoxelCaptureRef}
    (h : VoxelCaptureRef.new view pin evidence = .ok captured) : captured.pin = pin := by
  unfold VoxelCaptureRef.new at h
  split at h
  · obtain rfl := Except.ok.inj h
    rfl
  · cases h

/-! ## 4. Every handle is counted -/

namespace PublicationSession

omit [UnicodeTables] in
/-- The pins around: the published cell's and the handles'. -/
def pins (s : PublicationSession) : List RevisionPin :=
  s.authority.pin :: s.handles.map PinHandle.pin

/-- The registry counts every pin; the cell's pin and each token's are on the stamp
of their root. -/
structure Counted (maxPins : Nat) (s : PublicationSession) : Prop where
  tracks : s.authority.pins.Tracks s.pins
  limit : s.authority.pins.maxPins = maxPins
  pinned : s.authority.Pinned
  tokens : ∀ token, .token token ∈ s.handles → token.pin.stamp = token.newRoot.stamp
  memory : s.handles.length + 2 < 2 ^ 64

variable {s : PublicationSession} {maxPins : Nat}

omit [UnicodeTables] in
theorem Counted.start {worldId contextId registryContext : String}
    {generation registryGeneration : UInt64} {initial : PublishedStateRoot}
    {authority : PublicationAuthority}
    (h : PublicationAuthority.new worldId contextId generation
      (.new maxPins registryContext registryGeneration) initial = .ok authority) :
    Counted maxPins (.start authority) := by
  have hempty : (RegistryState.new maxPins registryContext registryGeneration).Tracks [] := by
    refine ⟨fun _ hpin => absurd hpin List.not_mem_nil, fun id slot hslot => ?_,
      fun id slot hslot => ?_, Nat.zero_le _⟩
    all_goals
      rw [RegistryState.new, BTreeMap.getElem?_empty] at hslot
      cases hslot
  have hpinned := PublicationAuthority.new_pinned h
  unfold PublicationAuthority.new at h
  split at h
  · cases h
  split at h
  · cases h
  split at h
  · cases h
  rename_i pin registry hpin
  obtain rfl := Except.ok.inj h
  obtain ⟨htracks, -, hlimit⟩ := hempty.tryPin (mapError_eq_ok.mp hpin)
  exact ⟨htracks, hlimit, hpinned, fun _ htoken => absurd htoken List.not_mem_nil,
    show 0 + 2 < 2 ^ 64 by decide⟩

omit [UnicodeTables] in
theorem pins_perm {handle : PinHandle} {k : Nat} (h : s.handles[k]? = some handle) :
    s.pins.Perm (handle.pin :: s.authority.pin :: (s.handles.eraseIdx k).map PinHandle.pin) := by
  obtain ⟨hk, rfl⟩ := List.getElem?_eq_some_iff.mp h
  have hperm := (List.getElem_cons_eraseIdx_perm hk).symm.map PinHandle.pin
  exact (hperm.cons s.authority.pin).trans (.swap _ _ _)

omit [UnicodeTables] in
theorem pins_concat (cell : RevisionPin) (handles : List PinHandle) (handle : PinHandle) :
    (handle.pin :: cell :: handles.map PinHandle.pin).Perm
      (cell :: (handles ++ [handle]).map PinHandle.pin) := by
  rw [List.map_append]
  have hlast : ([handle.pin] ++ handles.map PinHandle.pin).Perm
      (handles.map PinHandle.pin ++ [handle.pin]) := List.perm_append_comm
  exact (List.Perm.swap _ _ _).trans (hlast.cons _)

omit [UnicodeTables] in
/-- One more handle on a pin that is around. -/
theorem Counted.add (h : s.Counted maxPins) (copy : PinHandle) (hpin : copy.pin ∈ s.pins)
    (hcopy : ∀ token, copy ≠ .token token) (hmemory : s.hasMemory = true) :
    Counted maxPins { s with
      authority := s.authority.clonePin copy.pin
      handles := s.handles ++ [copy] } := by
  have hroom := h.memory
  have hmore : s.handles.length + 3 < 2 ^ 64 := of_decide_eq_true hmemory
  have hlength : s.pins.length + 1 < 2 ^ 64 := by
    rw [pins, List.length_cons, List.length_map]
    omega
  refine ⟨(h.tracks.clone hpin hlength).perm (pins_concat _ _ _), ?_, h.pinned, ?_, ?_⟩
  · exact (RegistryState.maxPins_clonePin _ _).trans h.limit
  · intro token htoken
    rcases List.mem_append.mp htoken with hold | hnew
    · exact h.tokens token hold
    · exact absurd (List.mem_singleton.mp hnew).symm (hcopy token)
  · simp only [List.length_append, List.length_singleton]
    omega

omit [UnicodeTables] in
/-- One handle less. -/
theorem Counted.remove (h : s.Counted maxPins) {k : Nat} {handle : PinHandle}
    (hk : s.handles[k]? = some handle) :
    Counted maxPins { s with
      authority := s.authority.dropPin handle.pin
      handles := s.handles.eraseIdx k } := by
  refine ⟨(h.tracks.perm (pins_perm hk)).drop, ?_, h.pinned, fun token htoken => ?_, ?_⟩
  · exact (RegistryState.maxPins_dropPin _ _).trans h.limit
  · exact h.tokens token (List.mem_of_mem_eraseIdx htoken)
  · have hle := List.length_eraseIdx_le s.handles k
    have hroom := h.memory
    simp only
    omega

omit [UnicodeTables] in
theorem counted_sealPrepared (h : s.Counted maxPins) (hmemory : s.hasMemory = true) (i : Nat) :
    (s.sealPrepared i).Counted maxPins := by
  unfold sealPrepared
  split
  · exact h
  split
  · exact h
  rename_i prepared _ token prepared' authority' hseal
  have hstamp := PublicationAuthority.sealPublication_pin hseal
  obtain ⟨pins', hpin, rfl⟩ := PublicationAuthority.sealPublication_pins hseal
  obtain ⟨htracks, -, hlimit⟩ := h.tracks.tryPin hpin
  have hmore : s.handles.length + 3 < 2 ^ 64 := of_decide_eq_true hmemory
  refine ⟨htracks.perm (pins_concat _ _ (.token token)), hlimit.trans h.limit, h.pinned, ?_, ?_⟩
  · intro other hother
    rcases List.mem_append.mp hother with hold | hnew
    · exact h.tokens other hold
    · injection List.mem_singleton.mp hnew with hsame
      exact hsame ▸ hstamp
  · simp only [List.length_append, List.length_singleton]
    omega

/-- Old root and pin are given back, the token's take their place. -/
theorem counted_publishOnce (h : s.Counted maxPins) (k : Nat) :
    (s.publishOnce k).Counted maxPins := by
  unfold publishOnce
  split
  · rename_i token hk
    cases hdone : (s.authority.publishOnce token).1 with
    | error err =>
      simp only [hdone, PublicationAuthority.publishOnce_error hdone, Except.toOption,
        Option.map_none, Option.toList_none, List.append_nil]
      exact h.remove hk
    | ok view =>
      obtain ⟨rfl, hpins, hpin, hroot⟩ := PublicationAuthority.publishOnce_swaps hdone
      have hroom := h.memory
      have hperm := pins_perm hk
      have hlength : s.pins.length + 1 < 2 ^ 64 := by
        rw [pins, List.length_cons, List.length_map]
        omega
      have hcloned := h.tracks.clone (hperm.mem_iff.mpr List.mem_cons_self) hlength
      -- the token's pin twice, the old cell's once
      have hswap : (token.pin :: s.pins).Perm (s.authority.pin :: token.pin :: token.pin ::
          (s.handles.eraseIdx k).map PinHandle.pin) :=
        (hperm.cons _).trans (((List.Perm.swap _ _ _).cons _).trans (.swap _ _ _))
      have hdropped := (hcloned.perm hswap).drop
      simp only [hdone, Except.toOption, Option.map_some, Option.toList_some]
      refine ⟨?_, ?_, ?_, fun other hother => ?_, ?_⟩
      · rw [pins, hpins, hpin]
        exact hdropped.perm (pins_concat token.pin _ (.view ⟨token.newRoot, token.pin⟩))
      · rw [hpins, RegistryState.maxPins_dropPin, RegistryState.maxPins_clonePin, h.limit]
      · rw [PublicationAuthority.Pinned, hpin, hroot]
        exact h.tokens token (List.mem_of_getElem? hk)
      · rcases List.mem_append.mp hother with hold | hnew
        · exact h.tokens other (List.mem_of_mem_eraseIdx hold)
        · cases List.mem_singleton.mp hnew
      · obtain ⟨hlt, -⟩ := List.getElem?_eq_some_iff.mp hk
        simp only [List.length_append, List.length_singleton, List.length_eraseIdx_of_lt hlt]
        omega
  · exact h

theorem counted_captureRef (h : s.Counted maxPins) (k j : Nat) (evidence : CutEvidence) :
    (s.captureRef k j evidence).Counted maxPins := by
  unfold captureRef
  split
  · rename_i view pin _ hj
    split
    · rename_i captured hmade
      have hpin : captured.pin = pin := VoxelCaptureRef.pin_of_new hmade
      obtain ⟨hlt, hget⟩ := List.getElem?_eq_some_iff.mp hj
      have hpins : (s.handles.set j (.capture captured)).map PinHandle.pin =
          s.handles.map PinHandle.pin := by
        have hin : j < (s.handles.map PinHandle.pin).length := by rwa [List.length_map]
        have hsame : PinHandle.pin (.capture captured) = (s.handles.map PinHandle.pin)[j] := by
          rw [List.getElem_map, hget]
          exact hpin
        rw [List.map_set, hsame, List.set_getElem_self]
      refine ⟨?_, h.limit, h.pinned, fun token htoken => ?_, ?_⟩
      · rw [pins, hpins]
        exact h.tracks
      · rcases List.mem_or_eq_of_mem_set htoken with hold | hnew
        · exact h.tokens token hold
        · cases hnew
      · rw [List.length_set]
        exact h.memory
    · exact h.remove hj
  · exact h

/-- **Every step keeps the account.** -/
theorem counted_step (h : s.Counted maxPins) (op : PublicationOp) :
    (s.step op).Counted maxPins := by
  cases op with
  | capture =>
    simp only [step]
    split
    · rename_i hmemory
      exact h.add (.view s.authority.capture.1) List.mem_cons_self (fun _ => PinHandle.noConfusion)
        hmemory
    · exact h
  | prepare target newRoot replacement =>
    simp only [step]
    split
    · exact h
    · rename_i prepared authority' hprepare
      obtain ⟨-, -, -, -, -, -, next, rfl⟩ := PublicationAuthority.prepare_eq_ok hprepare
      exact ⟨h.tracks, h.limit, h.pinned, h.tokens, h.memory⟩
  | discard i => exact ⟨h.tracks, h.limit, h.pinned, h.tokens, h.memory⟩
  | sealPrepared i =>
    simp only [step]
    split
    · rename_i hmemory
      exact counted_sealPrepared h hmemory i
    · exact h
  | publishOnce k => exact counted_publishOnce h k
  | clone k =>
    simp only [step]
    split
    · rename_i hmemory
      unfold clone
      split
      · exact h
      · rename_i copy hcopy
        obtain ⟨handle, hk, hcloned⟩ := Option.bind_eq_some_iff.mp hcopy
        refine h.add copy ?_ (fun token heq => ?_) hmemory
        · rw [PinHandle.pin_of_cloned hcloned]
          exact List.mem_cons_of_mem _ (List.mem_map_of_mem (List.mem_of_getElem? hk))
        · subst heq
          cases handle <;> cases hcloned
    · exact h
  | captureRef k j evidence => exact counted_captureRef h k j evidence
  | drop k =>
    simp only [step, drop]
    split
    · exact h
    · rename_i handle hk
      exact h.remove hk

/-- What holds of pins and publications in one state. -/
structure PinsAccounted (maxPins : Nat) (s : PublicationSession) : Prop where
  /-- A slot is live exactly while a handle carries its number. -/
  live : ∀ id : UInt64, s.authority.pins.slots[id]? ≠ none ↔ ∃ pin ∈ s.pins, pin.id = id
  counted : ∀ (id : UInt64) (slot : LivePin), s.authority.pins.slots[id]? = some slot →
    slot.refs = holders s.pins id
  bounded : s.authority.pins.slots.size ≤ maxPins
  published : s.authority.pin.stamp = s.authority.root.stamp
  oldest : ∃ stamp, s.authority.pins.oldestLive = some stamp ∧
    s.authority.pins.LeastLive stamp
  /-- A failed seal changes nothing. -/
  sealFails : ∀ i prepared err, s.prepared[i]? = some prepared →
    s.authority.sealPublication prepared = .error err → s.step (.sealPrepared i) = s
  /-- A failed publication takes the token and its pin away, and nothing else. -/
  publishFails : ∀ k token err, s.handles[k]? = some (.token token) →
    (s.authority.publishOnce token).1 = .error err → s.step (.publishOnce k) = { s with
      authority := s.authority.dropPin token.pin
      handles := s.handles.eraseIdx k }

omit [UnicodeTables] in
private theorem Counted.live (h : s.Counted maxPins) (id : UInt64) :
    s.authority.pins.slots[id]? ≠ none ↔ ∃ pin ∈ s.pins, pin.id = id := by
  constructor
  · intro hslot
    obtain ⟨slot, hslot⟩ := Option.ne_none_iff_exists'.mp hslot
    exact holders_pos.mp (h.tracks.counted id slot hslot).2
  · rintro ⟨pin, hpin, rfl⟩
    obtain ⟨slot, hslot, -⟩ := h.tracks.held pin hpin
    rw [hslot]
    exact Option.some_ne_none slot

theorem pinsAccounted_of_counted (h : s.Counted maxPins) : s.PinsAccounted maxPins where
  live := h.live
  counted id slot hslot := (h.tracks.counted id slot hslot).1
  bounded := h.limit ▸ h.tracks.bounded
  published := h.pinned
  oldest := by
    cases holdest : s.authority.pins.oldestLive with
    | none =>
      -- the published cell holds a slot
      have hcell := (h.live s.authority.pin.id).mpr ⟨_, List.mem_cons_self, rfl⟩
      exact absurd (RegistryState.oldestLive_eq_none.mp holdest _) hcell
    | some stamp => exact ⟨stamp, rfl, RegistryState.leastLive_of_oldestLive holdest⟩
  sealFails i prepared err hprepared hseal := by
    simp only [step, sealPrepared, hprepared, hseal, ite_self]
  publishFails k token err hk hpublish := by
    simp only [step, publishOnce, hk, hpublish, PublicationAuthority.publishOnce_error hpublish,
      Except.toOption, Option.map_none, Option.toList_none, List.append_nil]

/-- **Pins are accounted for.** In every state that any order of captures,
preparations, seals, publications, clones and drops visits. -/
theorem pins_accounted (worldId contextId registryContext : String)
    (generation registryGeneration : UInt64) (maxPins : Nat) (initial : PublishedStateRoot)
    (authority : PublicationAuthority)
    (hnew : PublicationAuthority.new worldId contextId generation
      (.new maxPins registryContext registryGeneration) initial = .ok authority)
    (ops : List PublicationOp) :
    ∀ s ∈ visited step (.start authority) ops, s.PinsAccounted maxPins := by
  intro s hs
  have hstep : ∀ (t : PublicationSession) op, t.Counted maxPins → True →
      (t.step op).Counted maxPins := fun t op h _ => counted_step h op
  exact pinsAccounted_of_counted (visited_invariant_along hstep (.start hnew)
    (along_of_forall (fun _ _ => trivial) _ _) s hs)

/-- The next cut of the same section, and what it replaces. -/
def nextRoot (block : BlockId) : PublishedStateRoot :=
  .new (toRevisionStamp "world" "context" 1 1 [(originSection.key, 1)])
    (oneSectionRoot block).directory ⟨"world", 1, ∅⟩

def nextReplacement (block : BlockId) : SectionReplacement := ⟨(oneSectionRoot block).directory.entries⟩

/-- A cut is published over one that a lease still holds; its preparation is sealed twice. -/
def publishOver (block : BlockId) : List PublicationOp :=
  [.capture, .clone 0, .drop 0, .prepare 1 (nextRoot block) (nextReplacement block),
    .sealPrepared 0, .sealPrepared 0, .publishOnce 1]

omit [UnicodeTables] in
private theorem sealed_of_seal {authority authority' : PublicationAuthority}
    {prepared prepared' : PreparedPublication} {token : PublicationToken}
    (h : authority.sealPublication prepared = .ok (token, prepared', authority')) :
    prepared'.isSealed = true := by
  unfold PublicationAuthority.sealPublication at h
  split at h
  · cases h
  split at h
  · cases h
  obtain ⟨-, hrest⟩ := Prod.mk.inj (Except.ok.inj h)
  obtain ⟨rfl, -⟩ := Prod.mk.inj hrest
  rfl

/-- The second seal is refused; the lease and the view of the new cut are left. -/
private theorem run_publishOver {authority : PublicationAuthority} {n : Nat} {block : BlockId}
    (h : authority.CanPublish (n + 1))
    (hstamp : (nextRoot block).stamp.BelongsTo authority.worldId authority.contextId
      authority.generation) :
    ∃ view, let t := run step (.start authority) (publishOver block)
      t.authority.root = (nextRoot block).incorporateReplacement (nextReplacement block) ∧
        t.handles = [.lease authority.pin, .view view] := by
  let held : PublicationAuthority := authority.capture.2.capture.2.dropPin authority.pin
  have hheld : held.CanPublish (n + 1) :=
    PublicationAuthority.dropPin_canPublish (PublicationAuthority.capture_canPublish
      (PublicationAuthority.capture_canPublish h)) _
  obtain ⟨publication, prepared, token, publication', sealed, view, done, hprepare, hseal, hpublish,
    -, hroot, -⟩ := PublicationAuthority.publish_of hheld (nextReplacement block) hstamp
  have hagain : sealed.sealPublication publication' = .error .handleDoubleRelease := by
    rw [PublicationAuthority.sealPublication, if_pos (sealed_of_seal hseal)]
  have hprepared : step ⟨held, [], [.lease authority.pin]⟩ (.prepare 1 (nextRoot block)
      (nextReplacement block)) = ⟨prepared, [publication], [.lease authority.pin]⟩ := by
    have htarget : held.prepare 1 (nextRoot block) (nextReplacement block) =
        .ok (publication, prepared) := hprepare
    simp only [step, htarget, List.nil_append]
  have hsealed : step ⟨prepared, [publication], [.lease authority.pin]⟩ (.sealPrepared 0) =
      ⟨sealed, [publication'], [.lease authority.pin, .token token]⟩ := by
    simp only [step, hasMemory, sealPrepared, List.getElem?_cons_zero, hseal]
    rfl
  have hrefused : step ⟨sealed, [publication'], [.lease authority.pin, .token token]⟩
      (.sealPrepared 0) = ⟨sealed, [publication'], [.lease authority.pin, .token token]⟩ := by
    simp only [step, sealPrepared, List.getElem?_cons_zero, hagain, ite_self]
  have hdone : step ⟨sealed, [publication'], [.lease authority.pin, .token token]⟩
      (.publishOnce 1) = ⟨done, [publication'], [.lease authority.pin, .view view]⟩ := by
    simp only [step, publishOnce, List.getElem?_cons_succ, List.getElem?_cons_zero, hpublish]
    rfl
  have hlease : run step (.start authority) [.capture, .clone 0, .drop 0] =
      ⟨held, [], [.lease authority.pin]⟩ := rfl
  have hsplit : publishOver block = [.capture, .clone 0, .drop 0] ++
      [.prepare 1 (nextRoot block) (nextReplacement block), .sealPrepared 0, .sealPrepared 0,
        .publishOnce 1] := rfl
  have hrun : run step (.start authority) (publishOver block) =
      ⟨done, [publication'], [.lease authority.pin, .view view]⟩ := by
    rw [hsplit, run_append, hlease, run_cons, hprepared, run_cons, hsealed, run_cons, hrefused,
      run_cons, hdone, run_nil]
  rw [hrun]
  exact ⟨view, hroot, rfl⟩

omit [UnicodeTables] in
/-- A cut is published while a lease holds the one before it. -/
theorem pins_accounted_lease : letI := asciiOnly
    ∃ authority view, PublicationAuthority.new "world" "context" 1 (.new 8 "context" 1)
        (oneSectionRoot ⟨7⟩) = .ok authority ∧
      (run step (.start authority) (publishOver ⟨9⟩)).authority.root =
        (nextRoot ⟨9⟩).incorporateReplacement (nextReplacement ⟨9⟩) ∧
      (run step (.start authority) (publishOver ⟨9⟩)).handles =
        [.lease authority.pin, .view view] ∧
      ∀ s ∈ visited step (.start authority) (publishOver ⟨9⟩), s.PinsAccounted 8 := by
  let _ := asciiOnly
  obtain ⟨authority, hnew, hroot, hroom⟩ := exists_oneSectionAuthority ⟨7⟩
  obtain ⟨-, hworld, hcontext, hgeneration⟩ := authority.root_belongs
  rw [hroot] at hworld hcontext hgeneration
  have hids : "world" = authority.worldId ∧ "context" = authority.contextId ∧
      1 = authority.generation := ⟨hworld, hcontext, hgeneration⟩
  have hbelongs : (nextRoot ⟨9⟩).stamp.BelongsTo authority.worldId authority.contextId
      authority.generation := ⟨rfl, hids⟩
  -- with the instance named, the two runs need not be compared step by step
  obtain ⟨view, hpublished, hhandles⟩ := @run_publishOver asciiOnly _ _ _ hroom hbelongs
  exact ⟨authority, view, hnew, hpublished, hhandles, pins_accounted _ _ _ _ _ _ _ _ hnew _⟩

end PublicationSession

end Handles

end LumioVoxel
