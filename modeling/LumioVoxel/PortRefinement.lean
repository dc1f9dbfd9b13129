import LumioVoxel.SessionRefinement
import LumioVoxel.WorldPort

/-!
# The port as a versioned store

What callers do through the port, mixed with what they do to the world itself, comes to a
run of world operations that passes through the same states.  So the port publishes only
what the store behind it allows.
-/

namespace LumioVoxel

open DebugText StepRuns VersionedStores

section Port

variable [UnicodeTables]

namespace WorldSession

variable {s : WorldSession}

theorem root_beginShutdown (s : WorldSession) : (s.step .beginShutdown).root = s.root :=
  (WorldShutdown.begin_outcome s.world).root

theorem root_drain (s : WorldSession) : (s.step .drain).root = s.root :=
  (WorldShutdown.drain_outcome s.world).root

theorem root_finalize (s : WorldSession) : (s.step .finalize).root = s.root :=
  (WorldShutdown.finalize_outcome s.world).root

/-- A port operation is a run of world operations that shows no root of its own. -/
theorem exists_ops_of_portStep (s : WorldSession) (op : PortOp) :
    ∃ ops, s.portStep op = run step s ops ∧
      ∀ t ∈ visited step s ops, t.root = s.root ∨ t.root = (s.portStep op).root := by
  rcases s.portStep_expands op with hsame | ⟨op', hone⟩ | htwo | hthree
  · refine ⟨[], hsame, fun t ht => ?_⟩
    rw [List.mem_singleton.mp ht]
    exact .inl rfl
  · refine ⟨[op'], hone, fun t ht => ?_⟩
    rw [hone]
    simp only [visited, List.mem_cons, List.not_mem_nil, or_false] at ht
    rcases ht with rfl | rfl
    · exact .inl rfl
    · exact .inr rfl
  · refine ⟨_, htwo, fun t ht => .inl ?_⟩
    simp only [visited, List.mem_cons, List.not_mem_nil, or_false] at ht
    rcases ht with rfl | rfl | rfl
    · rfl
    · exact root_beginShutdown s
    · rw [root_drain, root_beginShutdown]
  · refine ⟨_, hthree, fun t ht => .inl ?_⟩
    simp only [visited, List.mem_cons, List.not_mem_nil, or_false] at ht
    rcases ht with rfl | rfl | rfl | rfl
    · rfl
    · exact root_beginShutdown s
    · rw [root_drain, root_beginShutdown]
    · rw [root_finalize, root_drain, root_beginShutdown]

/-- The port run is the world run, state by state, and the world run is a run of the store. -/
structure PortRefines (s : WorldSession) (ports : List PortOp) (ops : List WorldOp) : Prop where
  last : run portStep s ports = run step s ops
  passes : ∀ t ∈ visited portStep s ports, t ∈ visited step s ops
  refines : s.Refines ops

/-- **Port runs are world runs.** -/
theorem port_refines_store (roots : PublishedStateRoot → Prop)
    (hfree : PublishedStateRoot.CollisionFree roots) (world : WorldInstance) (ports : List PortOp)
    (hroots : ∀ s ∈ visited portStep (.start world) ports, roots s.root) :
    ∃ ops, (start world).PortRefines ports ops := by
  obtain ⟨ops, hrun, hpasses, hshown⟩ :=
    exists_run_of_expands root exists_ops_of_portStep (start world) ports
  have hall : ∀ t ∈ visited step (start world) ops, roots t.root := by
    intro t ht
    obtain ⟨u, hu, hsame⟩ := hshown t ht
    rw [hsame]
    exact hroots u hu
  exact ⟨ops, hrun, hpasses,
    refines_of_known hfree (known_start (hall _ (start_mem_visited _ _))) hall⟩

theorem root_quiesce (s : WorldSession) (reason : String) :
    (s.portStep (.quiesce reason)).root = s.root := by
  simp only [portStep, VoxelWorldPortAdapter.quiesce]
  split
  · rfl
  split
  · rfl
  split
  · rfl
  split
  · rfl
  · rename_i hadmit
    exact (admit_outcome hadmit).root

theorem visited_map_world (s : WorldSession) (ops : List WorldOp) :
    visited portStep s (ops.map .world) = visited step s ops := by
  induction ops generalizing s with
  | nil => rfl
  | cons op rest ih => exact congrArg (s :: ·) (ih (s.step op))

theorem run_map_world (s : WorldSession) (ops : List WorldOp) :
    run portStep s (ops.map .world) = run step s ops := by
  induction ops generalizing s with
  | nil => rfl
  | cons op rest ih => exact ih (s.step op)

omit [UnicodeTables] in
/-- A section is filled and filled back, and the world quiesced through the port. -/
theorem port_refines_store_quiesce : letI := asciiOnly
    ∃ authority cut cap ops, let s := start (runningWorld authority none)
      let ports := (written cut cap).map PortOp.world ++ [.quiesce "idle"]
      s.PortRefines ports ops ∧
      (run portStep s ports).root.stamp.worldRevision = 2 ∧
      ∀ offset, (run portStep s (firstFill.map .world)).root.readCell originSection offset =
          some ⟨1⟩ ∧
        (run portStep s ports).root.readCell originSection offset = some ⟨0⟩ := by
  let _ := asciiOnly
  obtain ⟨authority, cut, cap, -, -, hlife⟩ := exists_lived
  let s : WorldSession := start (runningWorld authority none)
  let ports := (written cut cap).map PortOp.world ++ [.quiesce "idle"]
  have hquiesced : (run portStep s ports).root = (run step s (written cut cap)).root := by
    rw [run_append, run_map_world, run_cons, run_nil]
    exact root_quiesce _ "idle"
  obtain ⟨ops, hops⟩ := port_refines_store OfLife collisionFree_ofLife (runningWorld authority none)
    ports (by
      intro t ht
      rcases mem_visited_append ht with hworld | hport
      · rw [visited_map_world] at hworld
        exact hlife.roots _ rfl t hworld
      · rw [run_map_world] at hport
        simp only [visited, List.mem_cons, List.not_mem_nil, or_false] at hport
        have hlast := hlife.roots _ rfl _ (run_mem_visited s (written cut cap))
        rcases hport with rfl | rfl
        · exact hlast
        · rw [root_quiesce]
          exact hlast)
  refine ⟨authority, cut, cap, ops, hops, ?_, fun offset => ⟨?_, ?_⟩⟩
  · rw [hquiesced]
    exact congrArg (·.worldRevision) hlife.refilled.alike.stamp
  · rw [run_map_world]
    exact (hlife.cells offset).2.1
  · rw [hquiesced]
    exact (hlife.cells offset).2.2.1

end WorldSession

end Port

end LumioVoxel
