import LumioVoxel.PinnedResidency

/-!
# Pin budgets

Pins may overlap, so what the budgets bound is the number of distinct sections
under unreleased pins, not the sum over pins.  A declaration is the only operation
that can raise it, and it is admitted against that number.
-/

namespace LumioVoxel

open Fallible StepRuns

/-! ## 1. Sizes of key sets -/

namespace SectionKeySet

/-- A set covered by another set and a list is no larger than both together. -/
theorem size_le_of_covered (keys old : SectionKeySet) (fresh : List String)
    (h : ∀ key ∈ keys, key ∈ old ∨ key ∈ fresh) : keys.size ≤ old.size + fresh.length := by
  have hsubset : keys.toList ⊆ old.toList ++ fresh := by
    intro key hkey
    rcases h key (Std.ExtTreeSet.mem_toList.mp hkey) with hold | hfresh
    · exact List.mem_append_left _ (Std.ExtTreeSet.mem_toList.mpr hold)
    · exact List.mem_append_right _ hfresh
  have hlength := (List.subperm_of_subset keys.nodup_toList hsubset).length_le
  rwa [List.length_append, Std.ExtTreeSet.length_toList, Std.ExtTreeSet.length_toList] at hlength

theorem size_le_of_subset {keys old : SectionKeySet} (h : ∀ key ∈ keys, key ∈ old) :
    keys.size ≤ old.size :=
  size_le_of_covered keys old [] fun key hkey => .inl (h key hkey)

end SectionKeySet

namespace RegionPinManager

variable {manager manager' : RegionPinManager} {pinId : UInt64} {key : String}

/-! ## 2. What is covered -/

/-- An unreleased pin has the section. -/
def Covers (manager : RegionPinManager) (pinId : UInt64) (key : String) : Prop :=
  ∃ pin : RegionPin, manager.pins[pinId]? = some pin ∧ pin.readiness ≠ .released ∧
    key ∈ pin.sections

theorem mem_activeSections : key ∈ manager.activeSections ↔ ∃ pinId, manager.Covers pinId key := by
  have hfold : ∀ (items : List (UInt64 × RegionPin)) (active : SectionKeySet),
      key ∈ items.foldl (fun active item =>
        if item.2.readiness = .released then active else active ∪ item.2.sections) active ↔
      key ∈ active ∨ ∃ item ∈ items, item.2.readiness ≠ .released ∧ key ∈ item.2.sections := by
    intro items
    induction items with
    | nil =>
      intro active
      simp only [List.foldl_nil, List.not_mem_nil, false_and, exists_false, or_false]
    | cons item rest ih =>
      intro active
      rw [List.foldl_cons, ih, List.exists_mem_cons_iff]
      by_cases hreleased : item.2.readiness = .released
      · rw [if_pos hreleased]
        simp only [hreleased, ne_eq, not_true_eq_false, false_and, false_or]
      · rw [if_neg hreleased, Std.ExtTreeSet.mem_union_iff]
        simp only [hreleased, ne_eq, not_false_eq_true, true_and, or_assoc]
  unfold activeSections
  rw [hfold]
  constructor
  · rintro (hempty | ⟨item, hitem, hopen, hkey⟩)
    · exact absurd hempty Std.ExtTreeSet.not_mem_empty
    · exact ⟨item.1, item.2, BTreeMap.mem_toList.mp hitem, hopen, hkey⟩
  · rintro ⟨pinId, pin, hpin, hopen, hkey⟩
    exact .inr ⟨(pinId, pin), BTreeMap.mem_toList.mpr hpin, hopen, hkey⟩

/-- A section is reported pinned exactly when an unreleased pin covers it. -/
theorem isPinned_eq_ok {raw : String} {pinned : Bool} :
    manager.isPinned raw = .ok pinned ↔
      ∃ id : SectionId, raw = id.key ∧ (pinned = true ↔ ∃ pinId, manager.Covers pinId id.key) := by
  have hiff : ∀ id : SectionId, manager.covered (· != .released) id.key = true ↔
      ∃ pinId, manager.Covers pinId id.key := by
    intro id
    simp only [covered_iff, Covers, bne_iff_ne]
  simp only [isPinned, bind_eq_ok, mapError_eq_ok, SectionId.parse_eq_ok, pure_eq_ok]
  refine exists_congr fun id => and_congr_right fun _ => ?_
  rw [← hiff id, Bool.coe_iff_coe, eq_comm]

/-! ## 3. Operations and their outcomes -/

/-- What the owner's call returns, the manager it leaves included. -/
def outcome (manager : RegionPinManager) : PinOp → Except RegionPinError RegionPinManager
  | .declare sectionIds => (manager.declarePin sectionIds).map (·.2)
  | .declareWithBudget sectionIds budget =>
    (manager.declarePinWithBudget sectionIds budget).map (·.2)
  | .markReady pinId => manager.markReady pinId
  | .markReadyFromWorld pinId directory => manager.markReadyFromWorld pinId directory
  | .release pinId => manager.releasePin pinId

/-- The number an accepted declaration hands out. -/
def handedOut (manager : RegionPinManager) : PinOp → Option UInt64
  | .declare sectionIds => (manager.declarePin sectionIds).toOption.map (·.1)
  | .declareWithBudget sectionIds budget =>
    (manager.declarePinWithBudget sectionIds budget).toOption.map (·.1)
  | _ => none

/-- What one operation can do. -/
inductive Change (manager : RegionPinManager) (op : PinOp) : Prop
  | rejected (err : RegionPinError) (houtcome : manager.outcome op = .error err)
      (hkept : manager.perform op = manager) (hnone : manager.handedOut op = none)
  | declared (sectionIds : List String) (budget : PinBudget) (pinId : UInt64)
      (hdeclare : manager.declarePinWithBudget sectionIds budget = .ok (pinId, manager.perform op))
      (houtcome : manager.outcome op = .ok (manager.perform op))
      (hsome : manager.handedOut op = some pinId)
  | signalled (pinId : UInt64) (pin : RegionPin) (readiness : PinReadiness)
      (hop : ∀ otherId, op = .release otherId ↔ readiness = .released ∧ otherId = pinId)
      (hpin : manager.pins[pinId]? = some pin) (hopen : pin.readiness ≠ .released)
      (hset : manager.perform op = manager.setReadiness pinId pin readiness)
      (houtcome : manager.outcome op = .ok (manager.perform op))
      (hnone : manager.handedOut op = none)

theorem change (manager : RegionPinManager) (op : PinOp) : manager.Change op := by
  have hready : ∀ {pinId manager'}, manager.markReady pinId = .ok manager' →
      ∃ pin, manager.pins[pinId]? = some pin ∧ pin.readiness ≠ .released ∧
        manager' = manager.setReadiness pinId pin .ready := by
    intro pinId manager' hmark
    obtain ⟨pin, hpin, hnot, hset⟩ := markReady_eq_ok hmark
    exact ⟨pin, hpin, by rw [hnot]; decide, hset⟩
  have hkeeps : ∀ pinId otherId : UInt64, op ≠ .release otherId →
      (op = .release otherId ↔ PinReadiness.ready = .released ∧ otherId = pinId) :=
    fun _ _ hop => iff_of_false hop fun h => PinReadiness.noConfusion h.1
  cases op with
  | declare sectionIds =>
    cases hdeclare : manager.declarePin sectionIds with
    | error err =>
      refine .rejected err ?_ ?_ ?_
      · simp only [outcome, hdeclare, Except.map]
      · simp only [perform, hdeclare]
      · simp only [handedOut, hdeclare, Except.toOption, Option.map_none]
    | ok done =>
      refine .declared sectionIds manager.budget done.1 ?_ ?_ ?_
      · simp only [perform, hdeclare]
        exact hdeclare
      · simp only [outcome, perform, hdeclare, Except.map]
      · simp only [handedOut, hdeclare, Except.toOption, Option.map_some]
  | declareWithBudget sectionIds budget =>
    cases hdeclare : manager.declarePinWithBudget sectionIds budget with
    | error err =>
      refine .rejected err ?_ ?_ ?_
      · simp only [outcome, hdeclare, Except.map]
      · simp only [perform, hdeclare]
      · simp only [handedOut, hdeclare, Except.toOption, Option.map_none]
    | ok done =>
      refine .declared sectionIds budget done.1 ?_ ?_ ?_
      · simp only [perform, hdeclare]
      · simp only [outcome, perform, hdeclare, Except.map]
      · simp only [handedOut, hdeclare, Except.toOption, Option.map_some]
  | markReady pinId =>
    cases hmark : manager.markReady pinId with
    | error err => exact .rejected err hmark (by simp only [perform, hmark]) rfl
    | ok manager' =>
      obtain ⟨pin, hpin, hopen, rfl⟩ := hready hmark
      exact .signalled pinId pin .ready (fun _ => hkeeps _ _ PinOp.noConfusion) hpin hopen
        (by simp only [perform, hmark]) (by simp only [outcome, perform, hmark]) rfl
  | markReadyFromWorld pinId directory =>
    cases hmark : manager.markReadyFromWorld pinId directory with
    | error err => exact .rejected err hmark (by simp only [perform, hmark]) rfl
    | ok manager' =>
      obtain ⟨pin, hpin, hopen, rfl⟩ := hready (markReadyFromWorld_eq_ok hmark).1
      exact .signalled pinId pin .ready (fun _ => hkeeps _ _ PinOp.noConfusion) hpin hopen
        (by simp only [perform, hmark]) (by simp only [outcome, perform, hmark]) rfl
  | release pinId =>
    cases hrelease : manager.releasePin pinId with
    | error err => exact .rejected err hrelease (by simp only [perform, hrelease]) rfl
    | ok manager' =>
      obtain ⟨pin, hpin, hopen, rfl⟩ := releasePin_eq_ok hrelease
      have hsame : ∀ otherId, PinOp.release pinId = .release otherId ↔
          PinReadiness.released = .released ∧ otherId = pinId := fun otherId =>
        ⟨fun h => ⟨rfl, (PinOp.release.inj h).symm⟩, fun h => h.2 ▸ rfl⟩
      exact .signalled pinId pin .released hsame hpin hopen
        (by simp only [perform, hrelease]) (by simp only [outcome, perform, hrelease]) rfl

/-! ## 4. What a step preserves -/

/-- At most the given number of distinct sections is under unreleased pins. -/
def Within (manager : RegionPinManager) (limit : Nat) : Prop := manager.activeSections.size ≤ limit

/-- Signalling an unreleased pin covers nothing new. -/
theorem covers_of_setReadiness {pin : RegionPin} (hpin : manager.pins[pinId]? = some pin)
    (hopen : pin.readiness ≠ .released) {readiness : PinReadiness} {otherId : UInt64}
    (h : (manager.setReadiness pinId pin readiness).Covers otherId key) :
    manager.Covers otherId key := by
  obtain ⟨other, hother, hothers, hkey⟩ := h
  rw [setReadiness_pins, BTreeMap.getElem?_insert] at hother
  split at hother
  · rename_i hid
    obtain rfl := Option.some.inj hother
    exact ⟨pin, hid ▸ hpin, hopen, hkey⟩
  · exact ⟨other, hother, hothers, hkey⟩

/-- Releasing a pin leaves what the others cover. -/
theorem covers_setReadiness {pin : RegionPin} {readiness : PinReadiness} {otherId : UInt64}
    (h : manager.Covers otherId key) (hne : otherId ≠ pinId) :
    (manager.setReadiness pinId pin readiness).Covers otherId key := by
  obtain ⟨other, hother, hopen, hkey⟩ := h
  exact ⟨other, (BTreeMap.getElem?_insert_ne _ (Ne.symm hne) _).trans hother, hopen, hkey⟩

/-- **Admission.** An accepted declaration leaves the manager within the budget it was
given and within the manager's own. -/
theorem within_declare {sectionIds : List String} {given : PinBudget}
    (h : manager.declarePinWithBudget sectionIds given = .ok (pinId, manager')) :
    manager'.budget = manager.budget ∧
      manager'.Within (min given.callerSections given.hostSections) ∧
      manager'.Within (min manager.budget.callerSections manager.budget.hostSections) := by
  simp only [declarePinWithBudget, bind_eq_ok, require_eq_ok, someOr_eq_ok, pure_eq_ok,
    exists_and_left, exists_const] at h
  obtain ⟨sections, -, -, -, ⟨-, -, hcaller, hhost⟩, next, -, hout⟩ := h
  obtain ⟨-, rfl⟩ := Prod.mk.inj hout
  have hsize := SectionKeySet.size_le_of_covered
    (activeSections { manager with
      nextPinId := next, pins := manager.pins.insert manager.nextPinId ⟨sections, .notReady⟩ })
    manager.activeSections
    (sections.toList.filter fun key => !manager.activeSections.contains key) ?_
  · refine ⟨rfl, ?_, ?_⟩
    · unfold Within
      omega
    · unfold Within
      omega
  · intro key hkey
    obtain ⟨otherId, pin, hpin, hopen, hmem⟩ := mem_activeSections.mp hkey
    by_cases hold : key ∈ manager.activeSections
    · exact .inl hold
    · rw [BTreeMap.getElem?_insert] at hpin
      split at hpin
      · obtain rfl := Option.some.inj hpin
        refine .inr (List.mem_filter.mpr ⟨Std.ExtTreeSet.mem_toList.mpr hmem, ?_⟩)
        rw [Bool.eq_false_iff.mpr fun h => hold (Std.ExtTreeSet.mem_iff_contains.mpr h)]
        rfl
      · exact absurd (mem_activeSections.mpr ⟨otherId, pin, hpin, hopen, hmem⟩) hold

/-- The manager's own budget bounds what it covers. -/
structure Budgeted (budget : PinBudget) (manager : RegionPinManager) : Prop where
  own : manager.budget = budget
  within : manager.Within (min budget.callerSections budget.hostSections)

theorem budgeted_perform {budget : PinBudget} (h : Budgeted budget manager) (op : PinOp) :
    Budgeted budget (manager.perform op) := by
  cases manager.change op with
  | rejected err _ hkept _ => rwa [hkept]
  | declared sectionIds given pinId hdeclare _ _ =>
    obtain ⟨hbudget, -, hwithin⟩ := within_declare hdeclare
    exact ⟨hbudget.trans h.own, h.own ▸ hwithin⟩
  | signalled pinId pin readiness _ hpin hopen hset _ _ =>
    rw [hset]
    refine ⟨h.own, Nat.le_trans (SectionKeySet.size_le_of_subset fun key hkey => ?_) h.within⟩
    obtain ⟨otherId, hcovers⟩ := mem_activeSections.mp hkey
    exact mem_activeSections.mpr ⟨otherId, covers_of_setReadiness hpin hopen hcovers⟩

theorem declare_id {sectionIds : List String} {given : PinBudget}
    (h : manager.declarePinWithBudget sectionIds given = .ok (pinId, manager')) :
    pinId = manager.nextPinId ∧ manager'.nextPinId.toNat = manager.nextPinId.toNat + 1 := by
  refine ⟨?_, (declare_eq_ok h).choose_spec.2.2⟩
  simp only [declarePinWithBudget, bind_eq_ok, require_eq_ok, someOr_eq_ok, pure_eq_ok,
    exists_and_left, exists_const] at h
  obtain ⟨sections, -, -, -, -, next, -, hout⟩ := h
  exact (Prod.mk.inj hout).1.symm

/-- Numbers already handed out lie below the next one. -/
theorem handedOut_fresh {op : PinOp} (h : manager.handedOut op = some pinId) :
    ¬ pinId.toNat < manager.nextPinId.toNat ∧
      pinId.toNat < (manager.perform op).nextPinId.toNat := by
  cases manager.change op with
  | rejected err _ _ hnone =>
    rw [hnone] at h
    cases h
  | declared sectionIds given newId hdeclare _ hsome =>
    obtain rfl := Option.some.inj (hsome.symm.trans h)
    obtain ⟨hid, hnext⟩ := declare_id hdeclare
    rw [hid, hnext]
    omega
  | signalled pinId' pin readiness _ _ _ _ _ hnone =>
    rw [hnone] at h
    cases h

theorem nextPinId_mono (manager : RegionPinManager) (op : PinOp) :
    manager.nextPinId.toNat ≤ (manager.perform op).nextPinId.toNat := by
  cases manager.change op with
  | rejected err _ hkept _ => rw [hkept]
  | declared sectionIds given pinId hdeclare _ _ =>
    rw [(declare_id hdeclare).2]
    exact Nat.le_succ _
  | signalled pinId pin readiness _ _ _ hset _ _ =>
    rw [hset]
    exact Nat.le_refl _

/-! ## 5. What a pin covers -/

theorem mem_of_admitSections {limit : Nat} {sectionIds : List String} {old sections : SectionKeySet}
    (h : foldSteps (admitSection limit) old sectionIds = .ok sections) (key : String) :
    key ∈ sections ↔ key ∈ old ∨ key ∈ sectionIds := by
  induction sectionIds generalizing old with
  | nil =>
    obtain rfl := Except.ok.inj h
    simp only [List.not_mem_nil, or_false]
  | cons raw rest ih =>
    obtain ⟨next, hadmit, hrest⟩ := foldSteps_cons_eq_ok.mp h
    simp only [admitSection, bind_eq_ok, require_eq_ok, mapError_eq_ok, SectionId.parse_eq_ok,
      pure_eq_ok, exists_and_left, exists_const] at hadmit
    obtain ⟨-, id, rfl, -, rfl⟩ := hadmit
    rw [ih hrest, Std.ExtTreeSet.mem_insert, Std.compare_eq_iff_eq, List.mem_cons, or_assoc,
      or_left_comm, eq_comm]

/-- A declared pin has the sections it was asked for. -/
theorem pin_of_declare {sectionIds : List String} {given : PinBudget}
    (h : manager.declarePinWithBudget sectionIds given = .ok (pinId, manager')) :
    ∃ pin : RegionPin, manager'.pins[pinId]? = some pin ∧ pin.readiness = .notReady ∧
      ∀ key, key ∈ pin.sections ↔ key ∈ sectionIds := by
  simp only [declarePinWithBudget, bind_eq_ok, require_eq_ok, someOr_eq_ok, pure_eq_ok,
    exists_and_left, exists_const] at h
  obtain ⟨sections, hadmit, -, -, -, next, -, hout⟩ := h
  obtain ⟨rfl, rfl⟩ := Prod.mk.inj hout
  refine ⟨⟨sections, .notReady⟩, Std.ExtTreeMap.getElem?_insert_self, rfl, ?_⟩
  intro key
  rw [mem_of_admitSections hadmit key, or_iff_right Std.ExtTreeSet.not_mem_empty]

/-- A pin keeps its sections whatever is called, and is released by its own release. -/
theorem pin_perform (h : manager.Wf) {pin : RegionPin} (hpin : manager.pins[pinId]? = some pin)
    (op : PinOp) : ∃ pin' : RegionPin, (manager.perform op).pins[pinId]? = some pin' ∧
      pin'.sections = pin.sections ∧
      (pin'.readiness = .released ↔ pin.readiness = .released ∨ op = .release pinId) := by
  cases manager.change op with
  | rejected err houtcome hkept _ =>
    rw [hkept]
    refine ⟨pin, hpin, rfl, (or_iff_left_of_imp ?_).symm⟩
    rintro rfl
    by_contra hopen
    simp only [outcome, releasePin, hpin, someOr, ok_bind, require_of hopen] at houtcome
    cases houtcome
  | declared sectionIds given newId hdeclare _ hsome =>
    obtain ⟨sections, -, hpins, -⟩ := declare_eq_ok hdeclare
    have hne : manager.nextPinId ≠ pinId := by
      rintro rfl
      exact absurd (h _ pin hpin).1 (Nat.lt_irrefl _)
    rw [hpins]
    refine ⟨pin, (BTreeMap.getElem?_insert_ne _ hne _).trans hpin, rfl, (or_iff_left ?_).symm⟩
    rintro rfl
    cases hsome
  | signalled otherId other readiness hop hother hopen hset _ _ =>
    rw [hset, setReadiness_pins, hop]
    by_cases hid : otherId = pinId
    · subst hid
      obtain rfl := Option.some.inj (hother.symm.trans hpin)
      refine ⟨_, Std.ExtTreeMap.getElem?_insert_self, rfl, ?_⟩
      simp only [hopen, and_true, false_or]
    · refine ⟨pin, (BTreeMap.getElem?_insert_ne _ hid _).trans hpin, rfl, ?_⟩
      simp only [Ne.symm hid, and_false, or_false]

theorem pin_run (h : manager.Wf) {pin : RegionPin} (hpin : manager.pins[pinId]? = some pin)
    (ops : List PinOp) : ∃ pin' : RegionPin, (run perform manager ops).pins[pinId]? = some pin' ∧
      pin'.sections = pin.sections ∧
      (pin'.readiness = .released ↔ pin.readiness = .released ∨ .release pinId ∈ ops) := by
  induction ops generalizing manager pin with
  | nil => exact ⟨pin, hpin, rfl, (or_iff_left List.not_mem_nil).symm⟩
  | cons op rest ih =>
    obtain ⟨next, hnext, hsections, hreleased⟩ := pin_perform h hpin op
    obtain ⟨last, hlast, hsame, hdone⟩ := ih (wf_perform h op) hnext
    refine ⟨last, hlast, hsame.trans hsections, ?_⟩
    rw [hdone, hreleased, or_assoc, List.mem_cons, @eq_comm _ op]

/-- A declared pin covers what it was asked for until it is released. -/
theorem covers_of_declare (h : manager.Wf) {sectionIds : List String} {given : PinBudget}
    (hdeclare : manager.declarePinWithBudget sectionIds given = .ok (pinId, manager'))
    (ops : List PinOp) :
    (run perform manager' ops).Covers pinId key ↔ key ∈ sectionIds ∧ .release pinId ∉ ops := by
  obtain ⟨pin, hpin, hnotReady, hasked⟩ := pin_of_declare hdeclare
  obtain ⟨last, hlast, hsections, hreleased⟩ := pin_run (wf_declare h hdeclare) hpin ops
  have hopen : last.readiness ≠ .released ↔ .release pinId ∉ ops := by
    rw [ne_eq, hreleased, hnotReady]
    simp only [reduceCtorEq, false_or]
  rw [Covers]
  simp only [hlast, Option.some.injEq, exists_eq_left', hopen, hsections, hasked]
  exact and_comm

/-! ## 6. Whole runs -/

/-- **Pins over every sequence of calls.** From a fresh manager, however declarations,
signals and releases follow one another and however their sections overlap: the
distinct sections under unreleased pins never exceed either budget, nor after an
accepted declaration the budget it was given; a rejected call changes nothing; no
number is handed out twice; the pin of an accepted declaration covers the sections
it was asked for until its release, and no others; and a section is reported pinned
exactly while an unreleased pin covers it, so releasing one of two such pins leaves it
pinned. -/
theorem pins_stay_within_budget (budget : PinBudget) (ops : List PinOp) :
    let manager := run perform (fromBudget budget) ops
    manager.activeSections.size ≤ min budget.callerSections budget.hostSections ∧
    (∀ sectionIds given pinId manager',
      manager.declarePinWithBudget sectionIds given = .ok (pinId, manager') →
        manager'.activeSections.size ≤ min given.callerSections given.hostSections) ∧
    (∀ op err, manager.outcome op = .error err → manager.perform op = manager) ∧
    (trace perform handedOut (fromBudget budget) ops).Nodup ∧
    (∀ sectionIds given pinId manager',
      manager.declarePinWithBudget sectionIds given = .ok (pinId, manager') →
        ∀ later key, (run perform manager' later).Covers pinId key ↔
          key ∈ sectionIds ∧ .release pinId ∉ later) ∧
    (∀ raw pinned, manager.isPinned raw = .ok pinned ↔
      ∃ id : SectionId, raw = id.key ∧ (pinned = true ↔ ∃ pinId, manager.Covers pinId id.key)) ∧
    ∀ (id : SectionId) first second manager', first ≠ second → manager.Covers first id.key →
      manager.Covers second id.key → manager.releasePin first = .ok manager' →
        manager'.isPinned id.key = .ok true := by
  intro manager
  have hfresh : Budgeted budget (fromBudget budget) := by
    refine ⟨rfl, ?_⟩
    have hnone : (fromBudget budget).pins.toList = [] := BTreeMap.toList_empty
    rw [Within, activeSections, hnone]
    exact Nat.zero_le _
  have hstep : ∀ (manager : RegionPinManager) (op : PinOp), Budgeted budget manager →
      Budgeted budget (manager.perform op) := fun manager op h => budgeted_perform h op
  have hbudgeted : Budgeted budget manager := run_invariant hstep hfresh ops
  refine ⟨hbudgeted.within, ?_, ?_, ?_, ?_, fun raw pinned => isPinned_eq_ok, ?_⟩
  · intro sectionIds given pinId manager' hdeclare
    exact (within_declare hdeclare).2.1
  · intro op err herr
    cases manager.change op with
    | rejected _ _ hkept _ => exact hkept
    | declared _ _ _ _ houtcome _ => cases houtcome.symm.trans herr
    | signalled _ _ _ _ _ _ _ houtcome _ => cases houtcome.symm.trans herr
  · have hstable : ∀ (manager : RegionPinManager) (op : PinOp) (pinId : UInt64),
        pinId.toNat < manager.nextPinId.toNat →
        pinId.toNat < (manager.perform op).nextPinId.toNat :=
      fun manager op pinId h => Nat.lt_of_lt_of_le h (nextPinId_mono manager op)
    exact trace_nodup hstable (fun manager op pinId h => handedOut_fresh h) _ ops
  · intro sectionIds given pinId manager' hdeclare later key
    have hfresh : (fromBudget budget).Wf := wf_after budget []
    have hkeeps : ∀ (manager : RegionPinManager) (op : PinOp), manager.Wf → (manager.perform op).Wf :=
      fun manager op h => wf_perform h op
    exact covers_of_declare (run_invariant hkeeps hfresh ops) hdeclare later
  · intro id first second manager' hne _ hsecond hrelease
    obtain ⟨pin, hpin, hopen, rfl⟩ := releasePin_eq_ok hrelease
    exact isPinned_eq_ok.mpr ⟨id, rfl, iff_of_true rfl
      ⟨second, covers_setReadiness hsecond (Ne.symm hne)⟩⟩

end RegionPinManager

end LumioVoxel
