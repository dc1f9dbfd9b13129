import LumioVoxel.WorldProgress

/-!
# Pinned residency

A pin signalled ready promises that its sections stay resident.  Commits keep
ready sections ready, acknowledgements keep the directory, and an unload asks the
attached policy; a restore asks nobody, and the cut it publishes has no ready
section.  So the promise holds along a run exactly when no restore goes through.
-/

namespace LumioVoxel

open DebugText Fallible StepRuns

/-! ## 1. Pin managers -/

namespace RegionPinManager

/-- A manager as its owner's calls left it. -/
def after (budget : PinBudget) (setup : List PinOp) : RegionPinManager :=
  setup.foldl perform (fromBudget budget)

/-- Pins are numbered below the next number, and none is empty. -/
def Wf (manager : RegionPinManager) : Prop :=
  ∀ (pinId : UInt64) (pin : RegionPin), manager.pins[pinId]? = some pin →
    pinId.toNat < manager.nextPinId.toNat ∧ pin.sections.isEmpty = false

variable {manager manager' : RegionPinManager} {pinId : UInt64}

theorem declare_eq_ok {sectionIds : List String} {budget : PinBudget}
    (h : manager.declarePinWithBudget sectionIds budget = .ok (pinId, manager')) :
    ∃ sections : SectionKeySet, sections.isEmpty = false ∧
      manager'.pins = manager.pins.insert manager.nextPinId ⟨sections, .notReady⟩ ∧
      manager'.nextPinId.toNat = manager.nextPinId.toNat + 1 := by
  simp only [declarePinWithBudget, bind_eq_ok, require_eq_ok, someOr_eq_ok, pure_eq_ok,
    exists_and_left, exists_const] at h
  obtain ⟨sections, -, hnonempty, -, -, next, hnext, hout⟩ := h
  obtain ⟨-, rfl⟩ := Prod.mk.inj hout
  exact ⟨sections, hnonempty, rfl, checkedSucc_eq_some.mp hnext⟩

theorem setReadiness_pins (pin : RegionPin) (readiness : PinReadiness) :
    (manager.setReadiness pinId pin readiness).pins =
      manager.pins.insert pinId { pin with readiness } := rfl

theorem markReady_eq_ok (h : manager.markReady pinId = .ok manager') :
    ∃ pin, manager.pins[pinId]? = some pin ∧ pin.readiness = .notReady ∧
      manager' = manager.setReadiness pinId pin .ready := by
  simp only [markReady, bind_eq_ok, require_eq_ok, someOr_eq_ok, pure_eq_ok, exists_and_left,
    exists_const] at h
  obtain ⟨pin, hpin, hready, rfl⟩ := h
  exact ⟨pin, hpin, hready, rfl⟩

theorem releasePin_eq_ok (h : manager.releasePin pinId = .ok manager') :
    ∃ pin, manager.pins[pinId]? = some pin ∧ pin.readiness ≠ .released ∧
      manager' = manager.setReadiness pinId pin .released := by
  simp only [releasePin, bind_eq_ok, require_eq_ok, someOr_eq_ok, pure_eq_ok, exists_and_left,
    exists_const] at h
  obtain ⟨pin, hpin, hopen, rfl⟩ := h
  exact ⟨pin, hpin, hopen, rfl⟩

/-- Readiness is signalled from a directory that has every section of the pin. -/
theorem markReadyFromWorld_eq_ok {directory : SectionDirectoryRoot}
    (h : manager.markReadyFromWorld pinId directory = .ok manager') :
    manager.markReady pinId = .ok manager' ∧ ∀ pin, manager.pins[pinId]? = some pin →
      ∀ key ∈ pin.sections, ∃ id : SectionId, key = id.key ∧
        ∃ payload, directory.entries[id]? = some (.ready payload) := by
  simp only [markReadyFromWorld, bind_eq_ok, require_eq_ok, someOr_eq_ok, exists_and_left,
    exists_const] at h
  obtain ⟨pin, hpin, hall, hready⟩ := h
  refine ⟨hready, fun pin' hpin' key hkey => ?_⟩
  obtain rfl := Option.some.inj (hpin.symm.trans hpin')
  have hslot := List.all_eq_true.mp hall key (Std.ExtTreeSet.mem_toList.mpr hkey)
  split at hslot
  · rename_i slot hlookup
    simp only [SectionDirectoryRoot.lookup, bind_eq_ok, mapError_eq_ok, SectionId.parse_eq_ok,
      pure_eq_ok] at hlookup
    obtain ⟨id, hid, hentry⟩ := hlookup
    refine ⟨id, hid, ?_⟩
    cases slot with
    | ready payload => exact ⟨payload, hentry⟩
    | _ => cases of_decide_eq_true hslot
  · cases hslot

theorem wf_setReadiness (h : manager.Wf) {pin : RegionPin} (hpin : manager.pins[pinId]? = some pin)
    (readiness : PinReadiness) : (manager.setReadiness pinId pin readiness).Wf := by
  intro otherId other hother
  rw [setReadiness_pins, BTreeMap.getElem?_insert] at hother
  split at hother
  · rename_i hid
    obtain rfl := Option.some.inj hother
    exact hid ▸ h pinId pin hpin
  · exact h otherId other hother

theorem wf_declare (h : manager.Wf) {sectionIds : List String} {budget : PinBudget}
    (hdeclare : manager.declarePinWithBudget sectionIds budget = .ok (pinId, manager')) :
    manager'.Wf := by
  obtain ⟨sections, hnonempty, hpins, hnext⟩ := declare_eq_ok hdeclare
  intro otherId other hother
  rw [hpins, BTreeMap.getElem?_insert] at hother
  split at hother
  · rename_i hid
    obtain rfl := Option.some.inj hother
    rw [← hid, hnext]
    exact ⟨Nat.lt_succ_self _, hnonempty⟩
  · obtain ⟨hlt, hsections⟩ := h otherId other hother
    exact ⟨by rw [hnext]; omega, hsections⟩

theorem wf_perform (h : manager.Wf) (op : PinOp) : (manager.perform op).Wf := by
  cases op with
  | declare sectionIds =>
    simp only [perform]
    split
    · rename_i hdeclare
      exact wf_declare h hdeclare
    · exact h
  | declareWithBudget sectionIds budget =>
    simp only [perform]
    split
    · rename_i hdeclare
      exact wf_declare h hdeclare
    · exact h
  | markReady pinId =>
    simp only [perform]
    split
    · rename_i hready
      obtain ⟨pin, hpin, -, rfl⟩ := markReady_eq_ok hready
      exact wf_setReadiness h hpin .ready
    · exact h
  | markReadyFromWorld pinId directory =>
    simp only [perform]
    split
    · rename_i hready
      obtain ⟨pin, hpin, -, rfl⟩ := markReady_eq_ok (markReadyFromWorld_eq_ok hready).1
      exact wf_setReadiness h hpin .ready
    · exact h
  | release pinId =>
    simp only [perform]
    split
    · rename_i hrelease
      obtain ⟨pin, hpin, -, rfl⟩ := releasePin_eq_ok hrelease
      exact wf_setReadiness h hpin .released
    · exact h

theorem wf_after (budget : PinBudget) (setup : List PinOp) : (after budget setup).Wf := by
  have hstart : (fromBudget budget).Wf := by
    intro pinId pin hpin
    rw [fromBudget, BTreeMap.getElem?_empty] at hpin
    cases hpin
  have hrun : ∀ manager : RegionPinManager, manager.Wf → (setup.foldl perform manager).Wf := by
    intro manager h
    induction setup generalizing manager with
    | nil => exact h
    | cons op rest ih => exact ih _ (wf_perform h op)
  exact hrun _ hstart

/-- A ready pin stays as it is until it is released. -/
theorem ready_perform (h : manager.Wf) {pin : RegionPin} (hready : pin.readiness = .ready)
    (hpin : manager.pins[pinId]? = some pin) {op : PinOp} (hop : op ≠ .release pinId) :
    (manager.perform op).pins[pinId]? = some pin := by
  have hset : ∀ {otherId other readiness}, manager.pins[otherId]? = some other →
      otherId ≠ pinId → (manager.setReadiness otherId other readiness).pins[pinId]? = some pin :=
    fun _ hne => (BTreeMap.getElem?_insert_ne _ hne _).trans hpin
  have hmark : ∀ {otherId manager'}, manager.markReady otherId = .ok manager' →
      manager'.pins[pinId]? = some pin := by
    intro otherId manager' hmarked
    obtain ⟨other, hother, hnot, rfl⟩ := markReady_eq_ok hmarked
    apply hset hother
    rintro rfl
    obtain rfl := Option.some.inj (hpin.symm.trans hother)
    rw [hready] at hnot
    cases hnot
  have hdeclare : ∀ {sectionIds budget newId manager'},
      manager.declarePinWithBudget sectionIds budget = .ok (newId, manager') →
      manager'.pins[pinId]? = some pin := by
    intro sectionIds budget newId manager' hdeclared
    obtain ⟨sections, -, hpins, -⟩ := declare_eq_ok hdeclared
    rw [hpins]
    refine (BTreeMap.getElem?_insert_ne _ ?_ _).trans hpin
    rintro rfl
    exact absurd (h _ pin hpin).1 (Nat.lt_irrefl _)
  cases op with
  | declare sectionIds =>
    simp only [perform]
    split
    · rename_i hdeclared
      exact hdeclare hdeclared
    · exact hpin
  | declareWithBudget sectionIds budget =>
    simp only [perform]
    split
    · rename_i hdeclared
      exact hdeclare hdeclared
    · exact hpin
  | markReady otherId =>
    simp only [perform]
    split
    · rename_i hmarked
      exact hmark hmarked
    · exact hpin
  | markReadyFromWorld otherId directory =>
    simp only [perform]
    split
    · rename_i hmarked
      exact hmark (markReadyFromWorld_eq_ok hmarked).1
    · exact hpin
  | release otherId =>
    simp only [perform]
    split
    · rename_i hreleased
      obtain ⟨other, hother, -, rfl⟩ := releasePin_eq_ok hreleased
      exact hset hother fun hid => hop (congrArg PinOp.release hid)
    · exact hpin

/-- The policy lets no section of an unreleased pin go. -/
theorem not_exempt {pin : RegionPin} (hpin : manager.pins[pinId]? = some pin)
    (hready : pin.readiness = .ready) {id : SectionId} (hkey : id.key ∈ pin.sections) :
    manager.checkPinExemption id.key ≠ .ok () := by
  intro hexempt
  have hcovered : manager.covered (· != .released) id.key = true :=
    covered_iff.mpr ⟨pinId, pin, hpin, by rw [hready]; rfl, hkey⟩
  simp only [checkPinExemption, isPinned, SectionId.parse_key, mapError_ok, ok_bind, hcovered]
    at hexempt
  cases hexempt

end RegionPinManager

/-! ## 2. Worlds under a pin -/

section Pinned

variable [UnicodeTables]

/-- The step does not release the pin, and the manager stays attached. -/
def WorldOp.KeepsPin (pinId : UInt64) : WorldOp → Prop
  | .attach _ => False
  | .pins op => op ≠ .release pinId
  | _ => True

namespace WorldSession

variable {s : WorldSession} {pinId : UInt64} {sections : SectionKeySet}

/-- Every section is in the published directory, and ready. -/
def AllReady (sections : SectionKeySet) (s : WorldSession) : Prop :=
  ∀ key ∈ sections, ∃ slot, s.root.directory.lookup key = .ok (some slot) ∧ slot.presence = .ready

/-- The pin is attached and ready, and its sections are. -/
structure Held (pinId : UInt64) (sections : SectionKeySet) (s : WorldSession) : Prop where
  known : Known (fun _ => True) s
  attached : ∃ manager, s.world.regionPins = some manager ∧ manager.Wf ∧
    manager.pins[pinId]? = some ⟨sections, .ready⟩
  resident : ∀ key ∈ sections, ∃ id : SectionId, key = id.key ∧
    ∃ payload, s.root.directory.entries[id]? = some (.ready payload)

theorem Held.allReady (h : Held pinId sections s) : AllReady sections s := by
  intro key hkey
  obtain ⟨id, rfl, payload, hentry⟩ := h.resident key hkey
  exact ⟨.ready payload, by rw [SectionDirectoryRoot.lookup_key, hentry], rfl⟩

/-- **The pinned step.** Everything but a restore keeps the promise. -/
theorem held_step (h : Held pinId sections s) {op : WorldOp} (hkeeps : op.KeepsPin pinId)
    (hno : ¬ s.TakesRestore op) : Held pinId sections (s.step op) := by
  obtain ⟨manager, hmanager, hwf, hpin⟩ := h.attached
  refine ⟨known_step h.known trivial, ?_, fun key hkey => ?_⟩
  · rw [pins_step]
    cases op with
    | attach other => exact absurd hkeeps id
    | pins change =>
      refine ⟨manager.perform change, ?_, RegionPinManager.wf_perform hwf change,
        RegionPinManager.ready_perform hwf rfl hpin hkeeps⟩
      simp only [hmanager, Option.map_some]
    | _ => exact ⟨manager, hmanager, hwf, hpin⟩
  · obtain ⟨id, rfl, payload, hentry⟩ := h.resident key hkey
    refine ⟨id, rfl, ?_⟩
    cases effect_step s op with
    | kept hroot _ =>
      rw [hroot]
      exact ⟨payload, hentry⟩
    | committed token d receipt hcommits =>
      rcases hcommits.slots h.known id with ⟨-, -, hready⟩ | ⟨-, hsame⟩
      · exact hready
      · rw [hsame]
        exact ⟨payload, hentry⟩
    | acked evidence coverage _ hacked _ =>
      rw [hacked.directory]
      exact ⟨payload, hentry⟩
    | unloaded hook other _ hunloaded hpolicy _ =>
      -- the attached policy was asked for the unloaded section
      rw [hmanager] at hpolicy
      have hne : id ≠ other := by
        rintro rfl
        exact RegionPinManager.not_exempt hpin rfl hkey (mapError_eq_ok.mp hpolicy)
      rw [hunloaded.others id hne]
      exact ⟨payload, hentry⟩
    | restored snapshot candidate hrestores _ => exact absurd ⟨snapshot, candidate, hrestores⟩ hno

theorem not_allReady_of_cold (hsections : sections.isEmpty = false) (hcold : Cold s.root) :
    ¬ AllReady sections s := by
  intro hready
  obtain ⟨key, hkey⟩ : ∃ key, key ∈ sections := by
    by_contra hnone
    apply Std.ExtTreeSet.isEmpty_eq_false_iff.mp hsections
    exact Std.ExtTreeSet.eq_empty_iff_forall_not_mem.mpr fun key hkey => hnone ⟨key, hkey⟩
  obtain ⟨slot, hlookup, hslot⟩ := hready key hkey
  simp only [SectionDirectoryRoot.lookup, bind_eq_ok, mapError_eq_ok, SectionId.parse_eq_ok,
    pure_eq_ok] at hlookup
  obtain ⟨id, rfl, hentry⟩ := hlookup
  cases slot with
  | ready payload => exact hcold id payload hentry
  | _ => cases hslot

/-- **The pin guarantee.** Let a pin be signalled ready from the world's directory
and its manager attached.  Along a run that neither releases the pin nor replaces
the manager, its sections are ready in every published root exactly when no
restore goes through. -/
theorem pinned_sections_ready_iff (budget : PinBudget) (setup : List PinOp) (world : WorldInstance)
    (manager : RegionPinManager) (pinId : UInt64) (pin : RegionPin)
    (hpin : (RegionPinManager.after budget setup).pins[pinId]? = some pin)
    (hready : (RegionPinManager.after budget setup).markReadyFromWorld pinId world.root.directory =
      .ok manager)
    (ops : List WorldOp) (hkeeps : ∀ op ∈ ops, op.KeepsPin pinId) :
    (∀ t ∈ visited step (.start (world.setRegionPinManager manager)) ops,
        AllReady pin.sections t) ↔
      Along step (fun s op => ¬ s.TakesRestore op)
        (.start (world.setRegionPinManager manager)) ops := by
  have hwf := RegionPinManager.wf_after budget setup
  obtain ⟨hmarked, hresident⟩ := RegionPinManager.markReadyFromWorld_eq_ok hready
  obtain ⟨pin', hpin', -, rfl⟩ := RegionPinManager.markReady_eq_ok hmarked
  obtain rfl := Option.some.inj (hpin'.symm.trans hpin)
  have hstart : Held pinId pin'.sections (.start (world.setRegionPinManager
      ((RegionPinManager.after budget setup).setReadiness pinId pin' .ready))) := {
    known := known_start trivial
    attached := ⟨_, rfl, RegionPinManager.wf_setReadiness hwf hpin' .ready,
      Std.ExtTreeMap.getElem?_insert_self⟩
    resident := hresident pin' hpin' }
  constructor
  · intro hall
    refine along_mono (fun s op hnow hrestore => ?_) (along_of_visited hall)
    exact not_allReady_of_cold (hwf pinId pin' hpin').2 (cold_of_takesRestore hrestore) hnow
  · intro hno t ht
    have hstep : ∀ (s : WorldSession) op, Held pinId pin'.sections s →
        op.KeepsPin pinId ∧ ¬ s.TakesRestore op → Held pinId pin'.sections (s.step op) :=
      fun s op hheld hop => held_step hheld hop.1 hop.2
    exact (visited_invariant_along hstep hstart (along_and (along_of_mem hkeeps _) hno)
      t ht).allReady

/-! ## 3. One pinned section -/

omit [UnicodeTables] in
theorem after_declare_origin : RegionPinManager.after ⟨1, 1⟩ [.declare [originSection.key]] =
    .solePin originSection .notReady := by
  show RegionPinManager.perform (.withBudgets 1 1) (.declare [originSection.key]) = _
  rw [RegionPinManager.perform, RegionPinManager.declarePin_sole]

omit [UnicodeTables] in
theorem markReadyFromWorld_origin (block : BlockId) :
    (RegionPinManager.after ⟨1, 1⟩ [.declare [originSection.key]]).markReadyFromWorld 1
        (oneSectionRoot block).directory = .ok (.solePin originSection .ready) := by
  rw [after_declare_origin, RegionPinManager.markReadyFromWorld, RegionPinManager.solePin_pin]
  refine (ok_bind _ _).trans ?_
  refine (congrArg (· >>= fun _ => (RegionPinManager.solePin originSection .notReady).markReady 1)
    (require_of (List.all_eq_true.mpr ?_) .pinRegionNotReady)).trans
      (RegionPinManager.markReady_sole originSection)
  intro key hkey
  have hsame : key = originSection.key := by
    rcases Std.ExtTreeSet.mem_insert.mp (Std.ExtTreeSet.mem_toList.mp hkey) with hcmp | hnone
    · exact (Std.LawfulEqCmp.eq_of_compare hcmp).symm
    · exact absurd hnone Std.ExtTreeSet.not_mem_empty
  have hentry : (oneSectionRoot block).directory.entries[originSection]? =
      some (.ready (.ofStorage (.uniform block))) :=
    Std.ExtTreeMap.getElem?_insert_self
  rw [hsame, SectionDirectoryRoot.lookup_key, hentry]
  rfl

omit [UnicodeTables] in
/-- The pin refuses an unload that no other hook would. -/
theorem pinned_sections_ready_iff_unload : letI := asciiOnly
    ∃ authority, ∀ t ∈ visited step (.start (WorldInstance.setRegionPinManager
        (runningWorld authority none) (.solePin originSection .ready)))
        [.unload originSection.key fun _ => .ok ()],
      AllReady ((∅ : SectionKeySet).insert originSection.key) t := by
  let _ := asciiOnly
  obtain ⟨authority, hroot, -⟩ := exists_runningWorld (oneSectionRoot ⟨7⟩)
    ⟨rfl, rfl, rfl, rfl⟩ none
  have hpin : (RegionPinManager.after ⟨1, 1⟩ [.declare [originSection.key]]).pins[(1 : UInt64)]? =
      some ⟨(∅ : SectionKeySet).insert originSection.key, .notReady⟩ := by
    rw [after_declare_origin, RegionPinManager.solePin_pin]
  have hready : (RegionPinManager.after ⟨1, 1⟩ [.declare [originSection.key]]).markReadyFromWorld 1
      (runningWorld authority none).root.directory = .ok (.solePin originSection .ready) := by
    rw [WorldInstance.root, runningWorld, hroot]
    exact markReadyFromWorld_origin ⟨7⟩
  refine ⟨authority, (pinned_sections_ready_iff ⟨1, 1⟩ [.declare [originSection.key]]
    (runningWorld authority none) (.solePin originSection .ready) 1 _ hpin hready _ ?_).mpr
    ⟨?_, trivial⟩⟩
  · intro op hop
    obtain rfl := List.mem_singleton.mp hop
    trivial
  · rintro ⟨snapshot, candidate, hrestores⟩
    obtain ⟨j, worldId, generation, config, hop, -⟩ := hrestores.named
    cases hop

omit [UnicodeTables] in
/-- A section pinned and ready is gone after its own world's snapshot is restored. -/
theorem restore_drops_pinned_section : letI := asciiOnly
    ∃ authority cap, let world := runningWorld authority none
      (RegionPinManager.after ⟨1, 1⟩ [.declare [originSection.key]]).markReadyFromWorld 1
          world.root.directory = .ok (.solePin originSection .ready) ∧
      ¬ ∀ t ∈ visited step (.start (world.setRegionPinManager (.solePin originSection .ready)))
          [.capture (.fromLive world "cut"), .encode 0 cap, .restore 0 "world" 1 approvedConfig],
        AllReady ((∅ : SectionKeySet).insert originSection.key) t := by
  let _ := asciiOnly
  obtain ⟨authority, hroot, hserves⟩ := exists_runningWorld (oneSectionRoot ⟨7⟩)
    ⟨rfl, rfl, rfl, rfl⟩ (some (.solePin originSection .ready))
  obtain ⟨cap, snapshot, candidate, hrestores, -⟩ := save_restore_step
    (s := .start (runningWorld authority (some (.solePin originSection .ready)))) hserves
    (show "cut" ≠ "" by decide) fun key revision hkey => by
      apply oneSectionRoot_keys ⟨7⟩ key
      rw [← hroot]
      exact fun hnone => nomatch hnone.symm.trans hkey
  refine ⟨authority, cap, ?_, fun hall => ?_⟩
  · rw [WorldInstance.root, runningWorld, hroot]
    exact markReadyFromWorld_origin ⟨7⟩
  · exact not_allReady_of_cold
      (Std.ExtTreeSet.isEmpty_eq_false_iff.mpr Std.ExtTreeSet.insert_ne_empty)
      (cold_of_takesRestore ⟨snapshot, candidate, hrestores⟩) (hall _ (run_mem_visited _ _))

end WorldSession

end Pinned

end LumioVoxel
