import LumioVoxel.SectionDirectory
import Std.Data.ExtTreeSet.Lemmas

/-!
# Region pins

A pin declares a set of sections that must stay resident.  It is declared not
ready, signalled ready at most once and released at most once.  While a ready
pin covers a section, a read of that section is only admissible if it found the
section `Ready`.
-/

namespace LumioVoxel

open Fallible

/-! ## 1. Declarations -/

inductive RegionPinError where
  | invalidHandle
  | budgetExceeded
  | pinRegionNotReady
  | pinnedReadReturnedPending
  | worldYOutOfRange
  deriving DecidableEq, Repr

def RegionPinError.errorId : RegionPinError → String
  | .invalidHandle => "InvalidHandle"
  | .budgetExceeded => RESIDENCY_PIN_EXCEEDS_BUDGET
  | .pinRegionNotReady => PIN_REGION_NOT_READY
  | .pinnedReadReturnedPending => PINNED_READ_RETURNED_PENDING
  | .worldYOutOfRange => WORLD_Y_OUT_OF_RANGE

inductive PinExemptionError where
  | invalidHandle
  | pinnedSectionEvicted
  deriving DecidableEq, Repr

def PinExemptionError.errorId : PinExemptionError → String
  | .invalidHandle => "InvalidHandle"
  | .pinnedSectionEvicted => PINNED_SECTION_EVICTED

/-- Caller and host limits, both hard. -/
structure PinBudget where
  callerSections : Nat
  hostSections : Nat
  deriving DecidableEq, Repr

inductive PinReadiness where
  | notReady
  | ready
  | released
  deriving DecidableEq, Repr

/-- A set of canonical section keys. -/
abbrev SectionKeySet : Type := Std.ExtTreeSet String compare

theorem SectionKeySet.nodup_toList (keys : SectionKeySet) : keys.toList.Nodup :=
  keys.distinct_toList.imp fun hne heq => hne (Std.compare_eq_iff_eq.mpr heq)

structure RegionPin where
  sections : SectionKeySet
  readiness : PinReadiness

structure RegionPinManager where
  budget : PinBudget
  nextPinId : UInt64
  pins : BTreeMap UInt64 RegionPin

namespace RegionPinManager

def fromBudget (budget : PinBudget) : RegionPinManager := ⟨budget, 1, ∅⟩

def withBudgets (callerSections hostSections : Nat) : RegionPinManager :=
  fromBudget ⟨callerSections, hostSections⟩

/-- The sections of every unreleased pin. -/
def activeSections (manager : RegionPinManager) : SectionKeySet :=
  manager.pins.toList.foldl (fun active item =>
    if item.2.readiness = .released then active else active ∪ item.2.sections) ∅

/-- One requested key: within the budget, canonical and not yet requested. -/
def admitSection (maxRequested : Nat) (sections : SectionKeySet) (raw : String) :
    Except RegionPinError SectionKeySet := do
  require (sections.size < maxRequested) .budgetExceeded
  let id ← (SectionId.parse raw).mapError fun _ => RegionPinError.invalidHandle
  require (id.key ∉ sections) .invalidHandle
  return sections.insert id.key

def declarePinWithBudget (manager : RegionPinManager) (sectionIds : List String)
    (budget : PinBudget) : Except RegionPinError (UInt64 × RegionPinManager) := do
  let callerSections := min budget.callerSections manager.budget.callerSections
  let hostSections := min budget.hostSections manager.budget.hostSections
  let sections ← foldSteps (admitSection (min callerSections hostSections)) ∅ sectionIds
  require (sections.isEmpty = false) .invalidHandle
  let currentlyPinned := manager.activeSections
  let additional := (sections.toList.filter fun key => !currentlyPinned.contains key).length
  let total := currentlyPinned.size + additional
  require (total < 2 ^ 64) .budgetExceeded
  require (sections.size ≤ callerSections ∧ sections.size ≤ hostSections ∧
    total ≤ callerSections ∧ total ≤ hostSections) .budgetExceeded
  let nextPinId ← someOr (checkedSucc manager.nextPinId) .invalidHandle
  return (manager.nextPinId,
    { manager with
      nextPinId
      pins := manager.pins.insert manager.nextPinId ⟨sections, .notReady⟩ })

def declarePin (manager : RegionPinManager) (sectionIds : List String) :
    Except RegionPinError (UInt64 × RegionPinManager) :=
  manager.declarePinWithBudget sectionIds manager.budget

/-! ## 2. Readiness and release -/

def setReadiness (manager : RegionPinManager) (pinId : UInt64) (pin : RegionPin)
    (readiness : PinReadiness) : RegionPinManager :=
  { manager with pins := manager.pins.insert pinId { pin with readiness } }

def markReady (manager : RegionPinManager) (pinId : UInt64) :
    Except RegionPinError RegionPinManager := do
  let pin ← someOr manager.pins[pinId]? .invalidHandle
  require (pin.readiness = .notReady) .invalidHandle
  return manager.setReadiness pinId pin .ready

/-- Signals readiness if the published directory has every section of the pin
`Ready`. -/
def markReadyFromWorld (manager : RegionPinManager) (pinId : UInt64)
    (directory : SectionDirectoryRoot) : Except RegionPinError RegionPinManager := do
  let pin ← someOr manager.pins[pinId]? .invalidHandle
  let allReady := pin.sections.toList.all fun sectionId =>
    match directory.lookup sectionId with
    | .ok (some slot) => slot.presence = .ready
    | _ => false
  require (allReady = true) .pinRegionNotReady
  manager.markReady pinId

def releasePin (manager : RegionPinManager) (pinId : UInt64) :
    Except RegionPinError RegionPinManager := do
  let pin ← someOr manager.pins[pinId]? .invalidHandle
  require (pin.readiness ≠ .released) .invalidHandle
  return manager.setReadiness pinId pin .released

/-- Whether a pin in one of the given states covers the key. -/
def covered (manager : RegionPinManager) (counts : PinReadiness → Bool) (key : String) : Bool :=
  manager.pins.toList.any fun item => counts item.2.readiness && item.2.sections.contains key

def isPinned (manager : RegionPinManager) (sectionId : String) : Except RegionPinError Bool := do
  let id ← (SectionId.parse sectionId).mapError fun _ => RegionPinError.invalidHandle
  return manager.covered (· != .released) id.key

def checkPinExemption (manager : RegionPinManager) (sectionId : String) :
    Except PinExemptionError Unit := do
  let pinned ← (manager.isPinned sectionId).mapError fun _ => PinExemptionError.invalidHandle
  require (pinned = false) .pinnedSectionEvicted

/-! ## 3. The presence gate -/

/-- Whether a pin covering the section was signalled ready and not released. -/
def coveredByReady (manager : RegionPinManager) (key : String) : Bool :=
  manager.covered (· == .ready) key

def validatePresence (manager : RegionPinManager) (sectionId presence : String) :
    Except RegionPinError Unit := do
  require ((SECTION_PRESENCE.map Presence.name).contains presence = true) .invalidHandle
  let id ← (SectionId.parse sectionId).mapError fun _ => RegionPinError.invalidHandle
  require (¬ (manager.coveredByReady id.key = true ∧ presence ≠ "Ready"))
    .pinnedReadReturnedPending

/-- The manager as a guard over reads. -/
def presenceGuard (manager : RegionPinManager) : SectionPresenceGuard := fun sectionId presence =>
  (manager.validatePresence sectionId presence).mapError RegionPinError.errorId

theorem covered_iff {manager : RegionPinManager} {counts : PinReadiness → Bool} {key : String} :
    manager.covered counts key = true ↔
      ∃ (pinId : UInt64) (pin : RegionPin), manager.pins[pinId]? = some pin ∧
        counts pin.readiness = true ∧ key ∈ pin.sections := by
  simp only [covered, List.any_eq_true, Bool.and_eq_true, Std.ExtTreeSet.contains_iff_mem]
  constructor
  · rintro ⟨⟨pinId, pin⟩, hmem, hcounts, hkey⟩
    exact ⟨pinId, pin, BTreeMap.mem_toList.mp hmem, hcounts, hkey⟩
  · rintro ⟨pinId, pin, hpin, hcounts, hkey⟩
    exact ⟨(pinId, pin), BTreeMap.mem_toList.mpr hpin, hcounts, hkey⟩

/-- The gate on a canonical key and a presence of the contract. -/
theorem presenceGuard_key (manager : RegionPinManager) (id : SectionId) (presence : Presence) :
    manager.presenceGuard id.key presence.name =
      if manager.coveredByReady id.key = true ∧ presence ≠ .ready then
        .error PINNED_READ_RETURNED_PENDING
      else .ok () := by
  have hknown : (SECTION_PRESENCE.map Presence.name).contains presence.name = true := by
    cases presence <;> decide
  have hready : presence.name ≠ "Ready" ↔ presence ≠ .ready := by
    cases presence <;> decide
  simp only [presenceGuard, validatePresence, require_of hknown, SectionId.parse_key, mapError_ok,
    ok_bind, hready]
  split
  · rename_i hrefused
    rw [require_of_not (not_not.mpr hrefused)]
    rfl
  · rename_i hadmitted
    rw [require_of hadmitted]
    rfl

/-! ## 4. A manager with one pin -/

/-- One pin over one section, under budgets of one. -/
def solePin (id : SectionId) (readiness : PinReadiness) : RegionPinManager :=
  ⟨⟨1, 1⟩, 2, (∅ : BTreeMap UInt64 RegionPin).insert 1 ⟨(∅ : SectionKeySet).insert id.key, readiness⟩⟩

theorem solePin_pin (id : SectionId) (readiness : PinReadiness) :
    (solePin id readiness).pins[(1 : UInt64)]? =
      some ⟨(∅ : SectionKeySet).insert id.key, readiness⟩ :=
  Std.ExtTreeMap.getElem?_insert_self

theorem declarePin_sole (id : SectionId) :
    (withBudgets 1 1).declarePin [id.key] = .ok (1, solePin id .notReady) := by
  have hnew : (∅ : SectionKeySet).contains id.key = false := Std.ExtTreeSet.contains_empty
  have hadmit : foldSteps (admitSection 1) ∅ [id.key] =
      .ok ((∅ : SectionKeySet).insert id.key) := by
    have hmem : id.key ∉ (∅ : SectionKeySet) := Std.ExtTreeSet.not_mem_empty
    rw [foldSteps_cons_eq_ok]
    refine ⟨_, ?_, rfl⟩
    simp only [admitSection, SectionId.parse_key, mapError_ok, ok_bind, require_of hmem]
    rfl
  have hnonempty : ((∅ : SectionKeySet).insert id.key).isEmpty = false :=
    Std.ExtTreeSet.isEmpty_eq_false_iff.mpr Std.ExtTreeSet.insert_ne_empty
  have hsize : ((∅ : SectionKeySet).insert id.key).size = 1 := by
    rw [Std.ExtTreeSet.size_insert, hnew, Std.ExtTreeSet.size_empty]
    rfl
  have hactive : (withBudgets 1 1).activeSections = ∅ := by
    have hnone : (withBudgets 1 1).pins.toList = [] := BTreeMap.toList_empty
    rw [activeSections, hnone]
    rfl
  have htotal : ∀ p : String → Bool, (∅ : SectionKeySet).size +
      (((∅ : SectionKeySet).insert id.key).toList.filter p).length ≤ 1 := by
    intro p
    rw [Std.ExtTreeSet.size_empty, Nat.zero_add, ← hsize, ← Std.ExtTreeSet.length_toList]
    exact List.length_filter_le p _
  have hbudget : min (withBudgets 1 1).budget.callerSections
      (withBudgets 1 1).budget.callerSections = 1 := rfl
  have hlimit : min (withBudgets 1 1).budget.hostSections
      (withBudgets 1 1).budget.hostSections = 1 := rfl
  simp only [declarePin, declarePinWithBudget, hbudget, hlimit, Nat.min_self, hadmit, ok_bind,
    hactive, require_of hnonempty, hsize]
  rw [require_of (Nat.lt_of_le_of_lt (htotal _) (by decide)), ok_bind,
    require_of ⟨Nat.le_refl 1, Nat.le_refl 1, htotal _, htotal _⟩]
  rfl

theorem markReady_sole (id : SectionId) :
    (solePin id .notReady).markReady 1 = .ok (solePin id .ready) := by
  have hpins : (solePin id .notReady).pins.insert 1 ⟨(∅ : SectionKeySet).insert id.key, .ready⟩ =
      (solePin id .ready).pins := by
    apply Std.ExtTreeMap.ext_getElem?
    intro pinId
    simp only [solePin, BTreeMap.getElem?_insert]
    split
    · rfl
    · rfl
  simp only [markReady, solePin_pin, someOr, ok_bind, setReadiness, hpins]
  rfl

theorem coveredByReady_sole (id : SectionId) :
    (solePin id .ready).coveredByReady id.key = true :=
  covered_iff.mpr ⟨1, _, solePin_pin id .ready, rfl, Std.ExtTreeSet.mem_insert_self⟩

end RegionPinManager

end LumioVoxel
