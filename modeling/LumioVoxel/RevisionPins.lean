import LumioVoxel.ContractTerms
import LumioVoxel.FallibleSteps
import LumioVoxel.OrderedMaps

/-!
# Revision stamps and pins

A stamp carries the world revision of a cut and the revisions of the sections
that were given one.  A section without an entry counts at the world revision.
Pins keep the stamps of live cuts in a bounded registry; cloning and dropping a
pin only move its reference count.
-/

namespace LumioVoxel

open Fallible

/-! ## 1. Stamps -/

def REVISION_STAMP_SCHEMA : String := "voxel-revision-stamp"

structure RevisionStamp where
  schemaId : String
  worldId : String
  contextId : String
  generation : UInt64
  worldRevision : UInt64
  sectionRevisionSet : BTreeMap String UInt64
  deriving DecidableEq

def toRevisionStamp (worldId contextId : String) (generation world : UInt64)
    (sections : List (String × UInt64)) : RevisionStamp :=
  ⟨REVISION_STAMP_SCHEMA, worldId, contextId, generation, world,
    sections.foldl (fun m pair => m.insert pair.1 pair.2) ∅⟩

/-- The revision a section counts at: its entry, or the world revision. -/
def RevisionStamp.effectiveRevision (stamp : RevisionStamp) (sectionKey : String) : UInt64 :=
  stamp.sectionRevisionSet[sectionKey]?.getD stamp.worldRevision

/-- A stamp of the given world, context and generation, under the stamp schema. -/
def RevisionStamp.BelongsTo (stamp : RevisionStamp) (worldId contextId : String)
    (generation : UInt64) : Prop :=
  stamp.schemaId = REVISION_STAMP_SCHEMA ∧ stamp.worldId = worldId ∧
    stamp.contextId = contextId ∧ stamp.generation = generation

/-- Stamps of one world, context and generation differ in their revisions only. -/
theorem RevisionStamp.BelongsTo.eq_of_revisions {s t : RevisionStamp} {worldId contextId : String}
    {generation : UInt64} (hs : s.BelongsTo worldId contextId generation)
    (ht : t.BelongsTo worldId contextId generation) (hworld : s.worldRevision = t.worldRevision)
    (hset : s.sectionRevisionSet = t.sectionRevisionSet) : s = t := by
  obtain ⟨hschema, hworldId, hcontext, hgeneration⟩ := hs
  obtain ⟨hschema', hworldId', hcontext', hgeneration'⟩ := ht
  cases s
  cases t
  rw [RevisionStamp.mk.injEq]
  exact ⟨hschema.trans hschema'.symm, hworldId.trans hworldId'.symm,
    hcontext.trans hcontext'.symm, hgeneration.trans hgeneration'.symm, hworld, hset⟩

/-! ## 2. The pin registry -/

inductive PinError where
  | invalidHandle
  | budgetExceeded
  deriving DecidableEq, Repr

structure LivePin where
  stamp : RevisionStamp
  refs : Nat
  deriving DecidableEq

/-- One world context's pin table. -/
structure RegistryState where
  contextId : String
  generation : UInt64
  maxPins : Nat
  destroyed : Bool
  nextId : UInt64
  slots : BTreeMap UInt64 LivePin
  deriving DecidableEq

/-- A handle on one slot, with the stamp captured when it was pinned. -/
structure RevisionPin where
  stamp : RevisionStamp
  id : UInt64
  deriving DecidableEq

namespace RegistryState

/-- `from_approved_snapshot`: an empty registry. -/
def new (maxPins : Nat) (contextId : String) (generation : UInt64) : RegistryState :=
  ⟨contextId, generation, maxPins, false, 0, ∅⟩

def tryPin (registry : RegistryState) (stamp : RevisionStamp) :
    Except PinError (RevisionPin × RegistryState) := do
  require (registry.destroyed = false) .invalidHandle
  require (stamp.schemaId = REVISION_STAMP_SCHEMA ∧ stamp.contextId = registry.contextId ∧
    stamp.generation = registry.generation) .invalidHandle
  require (registry.slots.size < registry.maxPins) .budgetExceeded
  let nextId ← someOr (checkedSucc registry.nextId) .invalidHandle
  return (⟨stamp, registry.nextId⟩, { registry with
    nextId := nextId
    slots := registry.slots.insert registry.nextId ⟨stamp, 1⟩ })

def clonePin (registry : RegistryState) (pin : RevisionPin) : RegistryState :=
  match registry.slots[pin.id]? with
  | some slot =>
    { registry with
      slots := registry.slots.insert pin.id { slot with refs := saturatingSucc slot.refs } }
  | none => registry

def dropPin (registry : RegistryState) (pin : RevisionPin) : RegistryState :=
  match registry.slots[pin.id]? with
  | some slot =>
    if slot.refs ≤ 1 then { registry with slots := registry.slots.erase pin.id }
    else
      { registry with slots := registry.slots.insert pin.id { slot with refs := slot.refs - 1 } }
  | none => registry

theorem tryPin_eq_ok {registry : RegistryState} {stamp : RevisionStamp}
    {r : RevisionPin × RegistryState} (h : registry.tryPin stamp = .ok r) :
    r.1.stamp = stamp ∧ registry.slots.size < registry.maxPins := by
  simp only [tryPin, bind_eq_ok, require_eq_ok, someOr_eq_ok, pure_eq_ok, exists_and_left,
    exists_const] at h
  obtain ⟨-, -, hroom, nextId, -, rfl⟩ := h
  exact ⟨rfl, hroom⟩

/-- The registry can still pin `n` cuts of its own context and generation. -/
structure HasRoom (registry : RegistryState) (n : Nat) : Prop where
  live : registry.destroyed = false
  slots : registry.slots.size + n ≤ registry.maxPins
  ids : registry.nextId.toNat + n < 2 ^ 64

theorem size_insert_of_some {registry : RegistryState} {slot : LivePin} {id : UInt64}
    (h : registry.slots[id]? = some slot) (next : LivePin) :
    (registry.slots.insert id next).size = registry.slots.size := by
  rw [Std.ExtTreeMap.size_insert, if_pos]
  rw [← Std.ExtTreeMap.mem_iff_contains, Std.ExtTreeMap.mem_iff_isSome_getElem?, h]
  rfl

theorem clonePin_hasRoom {registry : RegistryState} {n : Nat} (h : registry.HasRoom n)
    (pin : RevisionPin) : (registry.clonePin pin).HasRoom n := by
  unfold clonePin
  cases hslot : registry.slots[pin.id]? with
  | none => exact h
  | some slot =>
    have hsize := size_insert_of_some hslot { slot with refs := saturatingSucc slot.refs }
    exact ⟨h.live, by rw [hsize]; exact h.slots, h.ids⟩

theorem dropPin_hasRoom {registry : RegistryState} {n : Nat} (h : registry.HasRoom n)
    (pin : RevisionPin) : (registry.dropPin pin).HasRoom n := by
  have hslots := h.slots
  unfold dropPin
  cases hslot : registry.slots[pin.id]? with
  | none => exact h
  | some slot =>
    simp only
    split
    · have := Std.ExtTreeMap.size_erase_le (t := registry.slots) (k := pin.id)
      exact ⟨h.live, by simp only; omega, h.ids⟩
    · have hsize := size_insert_of_some hslot { slot with refs := slot.refs - 1 }
      exact ⟨h.live, by rw [hsize]; exact h.slots, h.ids⟩

/-- The pin of a registry that has nothing to object. -/
theorem tryPin_of {registry : RegistryState} {stamp : RevisionStamp} {next : UInt64}
    (hlive : registry.destroyed = false)
    (hstamp : stamp.schemaId = REVISION_STAMP_SCHEMA ∧ stamp.contextId = registry.contextId ∧
      stamp.generation = registry.generation)
    (hroom : registry.slots.size < registry.maxPins)
    (hnext : checkedSucc registry.nextId = some next) :
    registry.tryPin stamp = .ok (⟨stamp, registry.nextId⟩, { registry with
      nextId := next
      slots := registry.slots.insert registry.nextId ⟨stamp, 1⟩ }) := by
  simp only [tryPin, require_of hlive, require_of hstamp, require_of hroom, hnext, someOr, ok_bind]
  rfl

theorem tryPin_of_hasRoom {registry : RegistryState} {n : Nat} (h : registry.HasRoom (n + 1))
    (stamp : RevisionStamp) (hschema : stamp.schemaId = REVISION_STAMP_SCHEMA)
    (hcontext : stamp.contextId = registry.contextId)
    (hgen : stamp.generation = registry.generation) :
    ∃ pin registry', registry.tryPin stamp = .ok (pin, registry') ∧ registry'.HasRoom n ∧
      registry'.contextId = registry.contextId ∧ registry'.generation = registry.generation := by
  have hids := h.ids
  have hslots := h.slots
  have hnext : checkedSucc registry.nextId = some (registry.nextId + 1) :=
    if_pos (by omega)
  have hroom : registry.slots.size < registry.maxPins := by omega
  have hstamp : stamp.schemaId = REVISION_STAMP_SCHEMA ∧ stamp.contextId = registry.contextId ∧
      stamp.generation = registry.generation := ⟨hschema, hcontext, hgen⟩
  refine ⟨_, _, tryPin_of h.live hstamp hroom hnext, ⟨h.live, ?_, ?_⟩, rfl, rfl⟩
  · have := Std.ExtTreeMap.size_insert_le (t := registry.slots) (k := registry.nextId)
      (v := ⟨stamp, 1⟩)
    simp only
    omega
  · rw [checkedSucc_eq_some.mp hnext]
    omega

@[simp] theorem contextId_clonePin (registry : RegistryState) (pin : RevisionPin) :
    (registry.clonePin pin).contextId = registry.contextId := by
  unfold clonePin
  split <;> rfl

@[simp] theorem generation_clonePin (registry : RegistryState) (pin : RevisionPin) :
    (registry.clonePin pin).generation = registry.generation := by
  unfold clonePin
  split <;> rfl

@[simp] theorem nextId_clonePin (registry : RegistryState) (pin : RevisionPin) :
    (registry.clonePin pin).nextId = registry.nextId := by
  unfold clonePin
  split <;> rfl

@[simp] theorem contextId_dropPin (registry : RegistryState) (pin : RevisionPin) :
    (registry.dropPin pin).contextId = registry.contextId := by
  unfold dropPin
  split
  · split <;> rfl
  · rfl

@[simp] theorem generation_dropPin (registry : RegistryState) (pin : RevisionPin) :
    (registry.dropPin pin).generation = registry.generation := by
  unfold dropPin
  split
  · split <;> rfl
  · rfl

end RegistryState

end LumioVoxel
