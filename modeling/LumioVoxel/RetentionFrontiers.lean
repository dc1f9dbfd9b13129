import LumioVoxel.PinBalance
import LumioVoxel.RevisionHistory

/-!
# Retention frontiers

Every cut that can still be read is pinned, and what is older than all of them can be let go.
A world keeps the published cut and those of the captures around; a new pin is always on the
published cut, so the oldest one only moves forward, until a restore goes back.
-/

namespace LumioVoxel

open DebugText Fallible StepRuns

section Frontiers

variable [UnicodeTables]

namespace WorldSession

variable {s t : WorldSession} {roots : PublishedStateRoot → Prop} {maxPins : Nat}
  {stamp : RevisionStamp}

/-! ## 1. The oldest live pin -/

/-- The cuts that can still be read: the published one, and those of the captures. -/
def cutsHeld (s : WorldSession) : List PublishedStateRoot := s.root :: s.captures.map (·.root)

/-- The oldest live stamp is that of a cut held, and no cut held is older. -/
structure Frontier (s : WorldSession) (stamp : RevisionStamp) : Prop where
  oldest : s.world.authority.pins.oldestLive = some stamp
  held : ∃ cut ∈ s.cutsHeld, cut.stamp = stamp
  least : ∀ cut ∈ s.cutsHeld, (stamp.compareAge cut.stamp).isLE

/-- Pins and cuts have the same stamps. -/
theorem stamps_pinsHeld (h : s.world.authority.Pinned) :
    s.pinsHeld.map (·.stamp) = s.cutsHeld.map (·.stamp) := by
  have hcaptures : (s.captures.map (·.pin)).map (·.stamp) =
      (s.captures.map (·.root)).map (·.stamp) := by
    rw [List.map_map, List.map_map]
    exact List.map_congr_left fun captured _ => captured.pin_stamp
  have hpublished : s.world.authority.pin.stamp = s.root.stamp := h
  rw [pinsHeld, cutsHeld, List.map_cons, List.map_cons, hcaptures, hpublished]

/-- A slot is live exactly for the stamps of the cuts held. -/
theorem Balanced.live_stamp_iff (h : s.Balanced maxPins) :
    (∃ (id : UInt64) (slot : LivePin), s.world.authority.pins.slots[id]? = some slot ∧
        slot.stamp = stamp) ↔ ∃ cut ∈ s.cutsHeld, cut.stamp = stamp := by
  rw [← List.mem_map, ← stamps_pinsHeld h.pinned, List.mem_map]
  constructor
  · rintro ⟨id, slot, hslot, rfl⟩
    obtain ⟨pin, hpin, rfl⟩ := holders_pos.mp (h.tracks.counted id slot hslot).2
    obtain ⟨live, hlive, hstamp⟩ := h.tracks.held pin hpin
    obtain rfl := Option.some.inj (hslot.symm.trans hlive)
    exact ⟨pin, hpin, hstamp.symm⟩
  · rintro ⟨pin, hpin, rfl⟩
    obtain ⟨slot, hslot, hstamp⟩ := h.tracks.held pin hpin
    exact ⟨pin.id, slot, hslot, hstamp⟩

theorem Balanced.exists_frontier (h : s.Balanced maxPins) : ∃ stamp, s.Frontier stamp := by
  cases holdest : s.world.authority.pins.oldestLive with
  | none =>
    -- the published cut is held, so it has a slot
    obtain ⟨id, slot, hslot, -⟩ := h.live_stamp_iff.mpr ⟨s.root, List.mem_cons_self, rfl⟩
    cases (RegistryState.oldestLive_eq_none.mp holdest id).symm.trans hslot
  | some stamp =>
    have hleast := RegistryState.leastLive_of_oldestLive holdest
    refine ⟨stamp, holdest, h.live_stamp_iff.mp hleast.live, ?_⟩
    intro cut hcut
    obtain ⟨id, slot, hslot, hstamp⟩ := h.live_stamp_iff.mpr ⟨cut, hcut, rfl⟩
    rw [← hstamp]
    exact hleast.least id slot hslot

/-! ## 2. Steps -/

/-- For each cut held at the end an older one, or one of its age, was held before. -/
def Covers (s t : WorldSession) : Prop :=
  ∀ new ∈ t.cutsHeld, ∃ old ∈ s.cutsHeld, (old.stamp.compareAge new.stamp).isLE

omit [UnicodeTables] in
theorem isLE_compareAge_self (stamp : RevisionStamp) : (stamp.compareAge stamp).isLE := by
  rw [(Std.ReflCmp.compare_self : stamp.compareAge stamp = .eq)]
  rfl

theorem Covers.refl (s : WorldSession) : s.Covers s :=
  fun cut hcut => ⟨cut, hcut, isLE_compareAge_self cut.stamp⟩

theorem Covers.trans {u : WorldSession} (h : s.Covers t) (h' : t.Covers u) : s.Covers u := by
  intro new hnew
  obtain ⟨middle, hmiddle, hlater⟩ := h' new hnew
  obtain ⟨old, hold, hearlier⟩ := h middle hmiddle
  exact ⟨old, hold, Std.TransCmp.isLE_trans hearlier hlater⟩

/-- A commit makes the published cut younger, and only a restore can make it older. -/
theorem age_step (hfree : PublishedStateRoot.CollisionFree roots) (h : Known roots s)
    {op : WorldOp} (hno : ¬ s.TakesRestore op) :
    (s.root.stamp.compareAge (s.step op).root.stamp).isLE := by
  cases effect_step s op with
  | kept hroot _ =>
    rw [hroot]
    exact isLE_compareAge_self _
  | committed token d receipt hcommits =>
    have hworld := (hcommits.effect hfree h).world
    have hlt : s.root.stamp.worldRevision < (s.step op).root.stamp.worldRevision := by
      rw [UInt64.lt_iff_toNat_lt, hworld]
      exact Nat.lt_succ_self _
    have hcompare : compare s.root.stamp.worldRevision (s.step op).root.stamp.worldRevision =
        .lt := Std.compare_eq_lt.mpr hlt
    rw [RevisionStamp.compareAge, compareLex, compareOn, hcompare]
    rfl
  | acked evidence coverage _ hacked _ =>
    rw [hacked.stamp]
    exact isLE_compareAge_self _
  | unloaded hook id _ hunloaded _ _ =>
    rw [hunloaded.stamp]
    exact isLE_compareAge_self _
  | restored snapshot candidate hrestores _ => exact absurd ⟨snapshot, candidate, hrestores⟩ hno

theorem covers_step (hfree : PublishedStateRoot.CollisionFree roots) (h : Known roots s)
    {op : WorldOp} (hno : ¬ s.TakesRestore op) : s.Covers (s.step op) := by
  intro cut hcut
  rcases List.mem_cons.mp hcut with rfl | hcut
  · exact ⟨s.root, List.mem_cons_self, age_step hfree h hno⟩
  · obtain ⟨captured, hcaptured, rfl⟩ := List.mem_map.mp hcut
    refine ⟨captured.root, ?_, isLE_compareAge_self _⟩
    rcases captures_step hcaptured with hold | hnew
    · exact List.mem_cons_of_mem _ (List.mem_map_of_mem hold)
    · rw [hnew]
      exact List.mem_cons_self

theorem covers_run (hfree : PublishedStateRoot.CollisionFree roots) {ops : List WorldOp}
    (h : Known roots s) (hroots : ∀ t ∈ visited step s ops, roots t.root)
    (hops : Along step (fun s op => ¬ s.TakesRestore op) s ops) : s.Covers (run step s ops) := by
  have hknown : Along step (fun t _ => Known roots t) s ops :=
    along_of_invariant (fun t op ht hroot => known_step ht hroot) (fun t op ht _ => ht) h
      (along_of_visited hroots)
  exact run_relation_along Covers.refl (fun a b c hab hbc => hab.trans hbc)
    (fun t op ht => covers_step hfree ht.1 ht.2) (along_and hknown hops)

theorem Frontier.le_of_covers {new : RevisionStamp} (hold : s.Frontier stamp)
    (hnew : t.Frontier new) (h : s.Covers t) : (stamp.compareAge new).isLE := by
  obtain ⟨last, hlast, rfl⟩ := hnew.held
  obtain ⟨first, hfirst, hle⟩ := h last hlast
  exact Std.TransCmp.isLE_trans (hold.least first hfirst) hle

/-! ## 3. Runs -/

/-- Where the frontier is along a run. -/
structure Retention (s : WorldSession) (ops : List WorldOp) : Prop where
  frontier : ∀ t ∈ visited step s ops, ∃ stamp, t.Frontier stamp
  advances : ∀ first middle last, ops = first ++ (middle ++ last) →
    Along step (fun s op => ¬ s.TakesRestore op) (run step s first) middle →
    ∀ old new, (run step s first).Frontier old → (run step s (first ++ middle)).Frontier new →
      (old.compareAge new).isLE

/-- **The retention frontier.** In every state of any run the oldest live stamp is that of
the published cut or of a capture around, and none of these is older; and while no restore
goes back it never does either. -/
theorem retention_of_run (roots : PublishedStateRoot → Prop)
    (hfree : PublishedStateRoot.CollisionFree roots)
    (worldId contextId registryContext : String) (generation registryGeneration : UInt64)
    (maxPins : Nat) (initial : PublishedStateRoot) (world : WorldInstance) (ops : List WorldOp)
    (hnew : PublicationAuthority.new worldId contextId generation
      (.new maxPins registryContext registryGeneration) initial = .ok world.authority)
    (hmemory : ∀ s ∈ visited step (.start world) ops, s.HasMemory)
    (hroots : ∀ s ∈ visited step (.start world) ops, roots s.root) :
    (start world).Retention ops where
  frontier t ht := (balanced_visited hnew hmemory t ht).exists_frontier
  advances := by
    rintro first middle last rfl hops old new hold hnow
    have hfirst : ∀ t ∈ visited step (.start world) first, roots t.root :=
      fun t ht => hroots t (mem_visited_append_left _ ht)
    have hknown := known_visited hfirst _ (run_mem_visited _ first)
    have hmiddle : ∀ t ∈ visited step (run step (.start world) first) middle, roots t.root :=
      fun t ht => hroots t (mem_visited_append_right (mem_visited_append_left _ ht))
    rw [run_append] at hnow
    exact hold.le_of_covers hnow (covers_run hfree hknown hmiddle hops)

omit [UnicodeTables] in
/-- A younger cut counts at no lower world revision. -/
theorem worldRevision_le_of_compareAge {a b : RevisionStamp} (h : (a.compareAge b).isLE) :
    a.worldRevision ≤ b.worldRevision := by
  by_contra hlt
  have hcompare : compare a.worldRevision b.worldRevision = .gt :=
    Std.compare_eq_gt.mpr (UInt64.not_le.mp hlt)
  rw [RevisionStamp.compareAge, compareLex, compareOn, hcompare] at h
  cases h

omit [UnicodeTables] in
/-- In a section's life the frontier stays at the first fill while the capture of it is around,
moves to the second one when it is released, and goes back with the restore. -/
theorem retention_of_run_life : letI := asciiOnly
    ∃ authority cut cap, let s := start (runningWorld authority none)
      let held := run step s (written cut cap)
      let released := run step s (written cut cap ++ (settling ++ [.release 0]))
      s.Retention (lifeOps cut cap) ∧
      held.root.stamp.worldRevision = 2 ∧
      (∃ stamp, held.Frontier stamp ∧ stamp.worldRevision = 1) ∧
      (∃ stamp, released.Frontier stamp ∧ stamp.worldRevision = 2) ∧
      released.TakesRestore (.restore 0 "world" 1 approvedConfig) := by
  let _ := asciiOnly
  obtain ⟨authority, cut, cap, hnew, hroot, hlife⟩ := exists_lived
  let s : WorldSession := start (runningWorld authority none)
  have hretention : s.Retention (lifeOps cut cap) := by
    refine retention_of_run OfLife collisionFree_ofLife "world" "context" "context" 1 1 8
      (twoBlockRoot ⟨0⟩) (runningWorld authority none) (lifeOps cut cap) hnew (fun t ht => ?_)
      (hlife.roots [] (List.append_nil _).symm)
    have hle := length_captures_visited ht
    exact Nat.lt_of_le_of_lt (Nat.add_le_add_right hle 8) (show 0 + 11 + 8 < 2 ^ 64 by decide)
  obtain ⟨captured, -, hcaptured, hcaptures, -⟩ := hlife.holds
  obtain ⟨snapshot, candidate, hrestores, -⟩ := hlife.restores
  have hworld : (run step s (written cut cap)).root.stamp.worldRevision = 2 :=
    congrArg (·.worldRevision) hlife.refilled.alike.stamp
  have hfirst : captured.root.stamp.worldRevision = 1 :=
    congrArg (·.worldRevision) hcaptured.stamp
  obtain ⟨stamp, hfrontier⟩ := hretention.frontier _ (mem_visited_append_left
    (settling ++ [.release 0, .restore 0 "world" 1 approvedConfig])
    (run_mem_visited s (written cut cap)))
  obtain ⟨stamp', hfrontier'⟩ := hretention.frontier
    (run step s (written cut cap ++ (settling ++ [.release 0])))
    (mem_visited_iff.mpr ⟨_, [.restore 0 "world" 1 approvedConfig], rfl, rfl⟩)
  refine ⟨authority, cut, cap, hretention, hworld, ⟨stamp, hfrontier, ?_⟩,
    ⟨stamp', hfrontier', ?_⟩, snapshot, candidate, hrestores⟩
  · obtain ⟨cutHeld, hheld, rfl⟩ := hfrontier.held
    have hcuts : (run step s (written cut cap)).cutsHeld =
        [(run step s (written cut cap)).root, captured.root] := by
      rw [cutsHeld, hcaptures]
      rfl
    have hleast := worldRevision_le_of_compareAge
      (hfrontier.least captured.root (hcuts ▸ .tail _ (.head _)))
    rw [hcuts] at hheld
    rcases List.mem_pair.mp hheld with rfl | rfl
    · rw [hworld, hfirst] at hleast
      exact absurd hleast (by decide)
    · exact hfirst
  · obtain ⟨cutHeld, hheld, rfl⟩ := hfrontier'.held
    have hnone : (run step s (written cut cap ++ (settling ++ [.release 0]))).captures = [] :=
      congrArg (·.eraseIdx 0) hcaptures
    rw [cutsHeld, hnone] at hheld
    obtain rfl := List.mem_singleton.mp hheld
    exact congrArg (·.worldRevision) hlife.released.alike.stamp

end WorldSession

end Frontiers

end LumioVoxel
