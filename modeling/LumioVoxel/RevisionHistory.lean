import LumioVoxel.FillRuns
import LumioVoxel.QueryCuts

/-!
# The history of revisions

A commit moves the world revision and the revisions of the sections it names up by one;
acknowledgements and unloads copy them.  A restore goes back to the revisions of the root
its snapshot was captured at.  What a revision stands for stays the same all the same:
after a restore no section is resident, and none becomes resident again.
-/

namespace LumioVoxel

open DebugText StepRuns

/-- No revision is lost or moves down. -/
structure RevisionsLe (old new : PublishedStateRoot) : Prop where
  world : old.stamp.worldRevision ≤ new.stamp.worldRevision
  sections : ∀ (key : String) (revision : UInt64),
    old.stamp.sectionRevisionSet[key]? = some revision →
    ∃ next, new.stamp.sectionRevisionSet[key]? = some next ∧ revision ≤ next

theorem RevisionsLe.of_stamp {old new : PublishedStateRoot} (h : new.stamp = old.stamp) :
    RevisionsLe old new where
  world := by rw [h]; exact UInt64.le_refl _
  sections := by
    intro key revision hrevision
    rw [h]
    exact ⟨revision, hrevision, UInt64.le_refl _⟩

/-- Generation, world revision and section revision, as a reader of the section sees them. -/
def PublishedStateRoot.revisionTriple (root : PublishedStateRoot) (id : SectionId) :
    UInt64 × UInt64 × UInt64 :=
  (root.stamp.generation, root.stamp.worldRevision, root.stamp.effectiveRevision id.key)

section History

variable [UnicodeTables]

theorem CommitEffect.revisionsLe {request : MutationRequest} {old new : PublishedStateRoot}
    {receipt : MutationReceipt} (h : CommitEffect request old new receipt) :
    RevisionsLe old new := by
  constructor
  · rw [UInt64.le_iff_toNat_le, h.world]
    exact Nat.le_succ _
  · intro key revision hrevision
    by_cases hnamed : ∃ id, request.Names id ∧ key = id.key
    · obtain ⟨id, hname, rfl⟩ := hnamed
      obtain ⟨next, hnext, hsucc⟩ := h.named id hname
      refine ⟨next, hnext, ?_⟩
      rw [RevisionStamp.effectiveRevision, hrevision, Option.getD_some] at hsucc
      rw [UInt64.le_iff_toNat_le, hsucc]
      exact Nat.le_succ _
    · refine ⟨revision, ?_, UInt64.le_refl _⟩
      rw [h.unnamed key fun id hname hkey => hnamed ⟨id, hname, hkey⟩]
      exact hrevision

namespace WorldSession

variable {s : WorldSession} {roots : PublishedStateRoot → Prop}

/-! ## 1. Steps -/

/-- Only taking a snapshot back can move a revision down. -/
theorem revisionsLe_step (hfree : PublishedStateRoot.CollisionFree roots) (h : Known roots s)
    {op : WorldOp} (hno : ¬ s.TakesRestore op) : RevisionsLe s.root (s.step op).root := by
  cases effect_step s op with
  | kept hroot _ =>
    apply RevisionsLe.of_stamp
    rw [hroot]
  | committed token d receipt hcommits => exact (hcommits.effect hfree h).revisionsLe
  | acked evidence coverage _ hacked _ => exact .of_stamp hacked.stamp
  | unloaded hook id _ hunloaded _ _ => exact .of_stamp hunloaded.stamp
  | restored snapshot candidate hrestores _ => exact absurd ⟨snapshot, candidate, hrestores⟩ hno

theorem cold_run (h : Known roots s) (hcold : Cold s.root) {ops : List WorldOp}
    (hops : Along step (fun s op => roots (s.step op).root) s ops) : Cold (run step s ops).root := by
  have hstep : ∀ (s : WorldSession) op, Known roots s ∧ Cold s.root → roots (s.step op).root →
      Known roots (s.step op) ∧ Cold (s.step op).root :=
    fun s op hs hroot => ⟨known_step hs.1 hroot, cold_step hs.1 hs.2 op⟩
  exact (run_invariant_along hstep ⟨h, hcold⟩ hops).2

/-! ## 2. Runs -/

/-- The world revision has not moved down, unless no section is resident any more. -/
theorem cold_or_worldRevision_le (hfree : PublishedStateRoot.CollisionFree roots)
    {ops : List WorldOp} (h : Known roots s)
    (hops : Along step (fun s op => roots (s.step op).root) s ops) :
    Cold (run step s ops).root ∨
      s.root.stamp.worldRevision ≤ (run step s ops).root.stamp.worldRevision := by
  induction ops generalizing s with
  | nil => exact .inr (UInt64.le_refl _)
  | cons op rest ih =>
    have hknown := known_step h hops.1
    by_cases hrestore : s.TakesRestore op
    · exact .inl (cold_run hknown (cold_of_takesRestore hrestore) hops.2)
    · rcases ih hknown hops.2 with hcold | hle
      · exact .inl hcold
      · exact .inr (UInt64.le_trans (revisionsLe_step hfree h hrestore).world hle)

/-- Between two equal world revisions a resident section keeps its content. -/
theorem resident_run (hfree : PublishedStateRoot.CollisionFree roots) {ops : List WorldOp}
    (h : Known roots s) (hops : Along step (fun s op => roots (s.step op).root) s ops)
    (hrevision : (run step s ops).root.stamp.worldRevision = s.root.stamp.worldRevision)
    {id : SectionId} {payload : SectionPayload}
    (hready : (run step s ops).root.directory.entries[id]? = some (.ready payload)) :
    s.root.directory.entries[id]? = some (.ready payload) := by
  induction ops generalizing s with
  | nil => exact hready
  | cons op rest ih =>
    have hknown := known_step h hops.1
    -- a section is resident at the end, so nothing on the way took a snapshot back
    have hwarm : ¬ Cold (run step s (op :: rest)).root := fun hcold => hcold id payload hready
    have hno : ¬ s.TakesRestore op := fun hrestore =>
      hwarm (cold_run hknown (cold_of_takesRestore hrestore) hops.2)
    have hle := (cold_or_worldRevision_le hfree hknown hops.2).resolve_left hwarm
    rcases slot_step hfree h hno with hlt | ⟨heq, hslots⟩
    · rw [run_cons] at hrevision
      rw [hrevision] at hle
      exact absurd hlt (UInt64.not_lt.mpr hle)
    · have hafter := ih hknown hops.2 (hrevision.trans heq.symm) hready
      by_cases hunload : s.Unloads op id
      · cases hafter.symm.trans hunload.2.ticket
      · exact (hslots id hunload).symm.trans hafter

/-- Both states in one run, the second reached from the first or the other way. -/
theorem content_of_worldRevision (hfree : PublishedStateRoot.CollisionFree roots)
    {world : WorldInstance} {ops : List WorldOp}
    (hroots : ∀ s ∈ visited step (.start world) ops, roots s.root) {t u : WorldSession}
    (ht : t ∈ visited step (.start world) ops) (hu : u ∈ visited step (.start world) ops)
    (hrevision : t.root.stamp.worldRevision = u.root.stamp.worldRevision) {id : SectionId}
    {p q : SectionPayload} (hp : t.root.directory.entries[id]? = some (.ready p))
    (hq : u.root.directory.entries[id]? = some (.ready q)) : p = q := by
  have hlater : ∀ {a b : WorldSession} {before middle rest : List WorldOp} {x y : SectionPayload},
      ops = before ++ middle ++ rest → run step (.start world) before = a → run step a middle = b →
      a.root.stamp.worldRevision = b.root.stamp.worldRevision →
      a.root.directory.entries[id]? = some (.ready x) →
      b.root.directory.entries[id]? = some (.ready y) → x = y := by
    intro a b before middle rest x y hops ha hb hsame hx hy
    subst hops ha hb
    have hknown := known_visited hroots _
      (mem_visited_append_left rest (mem_visited_append_left middle (run_mem_visited _ before)))
    have halong := along_of_visited fun t ht =>
      hroots t (mem_visited_append_left rest (mem_visited_append_right ht))
    have hkept := resident_run hfree hknown halong hsame.symm hy
    rw [hx] at hkept
    exact SectionSlot.ready.inj (Option.some.inj hkept)
  obtain ⟨first, rest, rfl, hfirst⟩ := mem_visited_iff.mp ht
  obtain ⟨first', rest', hsplit, hfirst'⟩ := mem_visited_iff.mp hu
  rcases List.append_eq_append_iff.mp hsplit with ⟨middle, rfl, hrest⟩ | ⟨middle, rfl, hrest⟩
  · apply hlater hsplit hfirst _ hrevision hp hq
    rw [← hfirst, ← run_append]
    exact hfirst'
  · refine (hlater rfl hfirst' ?_ hrevision.symm hq hp).symm
    rw [← hfirst', ← run_append]
    exact hfirst

/-- How revisions move along a run, and what they stand for. -/
structure RevisionsTraced (world : WorldInstance) (ops : List WorldOp) : Prop where
  /-- A step that takes no snapshot back moves no revision down. -/
  kept : ∀ first op rest, ops = first ++ op :: rest →
    ¬ (run step (.start world) first).TakesRestore op →
    RevisionsLe (run step (.start world) first).root
      ((run step (.start world) first).step op).root
  /-- One that does goes back to the revisions of the root the snapshot was captured at. -/
  restored : ∀ first op rest, ops = first ++ op :: rest →
    (run step (.start world) first).TakesRestore op →
    ∃ t ∈ visited step (.start world) first,
      ((run step (.start world) first).step op).root.stamp.worldRevision =
        t.root.stamp.worldRevision ∧
      ((run step (.start world) first).step op).root.stamp.sectionRevisionSet =
        t.root.stamp.sectionRevisionSet
  /-- One triple of revisions stands for one resident content. -/
  content : ∀ t ∈ visited step (.start world) ops, ∀ u ∈ visited step (.start world) ops,
    ∀ (id : SectionId) (p q : SectionPayload),
      t.root.directory.entries[id]? = some (.ready p) →
      u.root.directory.entries[id]? = some (.ready q) →
      t.root.revisionTriple id = u.root.revisionTriple id → p = q

/-- **Revisions along a run.** Every step moves no revision down, unless it takes a
snapshot back; then the revisions are those of the root the snapshot was captured at,
which was published earlier in the run.  One triple of revisions never stands for two
resident contents of a section. -/
theorem revisions_of_run (roots : PublishedStateRoot → Prop)
    (hfree : PublishedStateRoot.CollisionFree roots) (world : WorldInstance) (ops : List WorldOp)
    (hroots : ∀ s ∈ visited step (.start world) ops, roots s.root) :
    RevisionsTraced world ops where
  kept := by
    intro first op rest hsplit hno
    subst hsplit
    have hvisited : ∀ t ∈ visited step (.start world) first, roots t.root :=
      fun t ht => hroots t (mem_visited_append_left _ ht)
    exact revisionsLe_step hfree (known_visited hvisited _ (run_mem_visited _ first)) hno
  restored := by
    rintro first op rest - ⟨snapshot, candidate, hrestores⟩
    -- what is kept was captured at a root this very run published
    have hpublished : ∀ u ∈ visited step (.start world) first,
        Known (fun root => ∃ t ∈ visited step (.start world) first, root = t.root) u :=
      known_visited fun t ht => ⟨t, ht, rfl⟩
    have hknown := hpublished _ (run_mem_visited _ first)
    obtain ⟨j, worldId, generation, config, -, hsnapshot, -⟩ := hrestores.named
    obtain ⟨t, ht, hroot⟩ := hknown.snapshots snapshot (List.mem_of_getElem? hsnapshot)
    refine ⟨t, ht, ?_, ?_⟩
    · rw [← hroot]
      exact hrestores.cut.world
    · rw [← hroot]
      exact hrestores.cut.revisions
  content := by
    intro t ht u hu id p q hp hq htriple
    have hrevision : t.root.stamp.worldRevision = u.root.stamp.worldRevision :=
      congrArg (fun triple => triple.2.1) htriple
    exact content_of_worldRevision hfree hroots ht hu hrevision hp hq

omit [UnicodeTables] in
/-- In a section's life both revisions rise with each of its two commits, and the restore
puts the captured ones back.  The triple is then that of the first fill again, and the section
is no longer there to be read. -/
theorem revisions_of_run_life : letI := asciiOnly
    ∃ authority cut cap, let s := start (runningWorld authority none)
      RevisionsTraced (runningWorld authority none) (lifeOps cut cap) ∧
      s.root.revisionTriple originSection = (1, 0, 0) ∧
      (run step s firstFill).root.revisionTriple originSection = (1, 1, 1) ∧
      (∀ offset, (run step s firstFill).root.readCell originSection offset = some ⟨1⟩) ∧
      (run step s (written cut cap)).root.revisionTriple originSection = (1, 2, 2) ∧
      (∀ offset, (run step s (written cut cap)).root.readCell originSection offset = some ⟨0⟩) ∧
      (run step s (written cut cap ++ (settling ++ [.release 0]))).TakesRestore
        (.restore 0 "world" 1 approvedConfig) ∧
      (run step s (lifeOps cut cap)).root.revisionTriple originSection = (1, 1, 1) ∧
      ∀ offset, (run step s (lifeOps cut cap)).root.readCell originSection offset = none := by
  let _ := asciiOnly
  obtain ⟨authority, cut, cap, -, hroot, hlife⟩ := exists_lived
  obtain ⟨snapshot, candidate, hrestores, -⟩ := hlife.restores
  have htriple : ∀ {root known : PublishedStateRoot}, root.Alike known →
      root.revisionTriple originSection = known.revisionTriple originSection := fun h =>
    congrArg (fun stamp : RevisionStamp => (stamp.generation, stamp.worldRevision,
      stamp.effectiveRevision originSection.key)) h.stamp
  refine ⟨authority, cut, cap, revisions_of_run OfLife collisionFree_ofLife _ _
    (hlife.roots [] (List.append_nil _).symm), ?_, ?_, fun offset => (hlife.cells offset).2.1, ?_,
    fun offset => (hlife.cells offset).2.2.1, ⟨snapshot, candidate, hrestores⟩, ?_,
    fun offset => (hlife.cells offset).2.2.2.2.2⟩
  · rw [htriple hlife.opened.alike, PublishedStateRoot.revisionTriple,
      effectiveRevision_twoBlockRoot]
    rfl
  · rw [htriple hlife.filled.alike, PublishedStateRoot.revisionTriple, effectiveRevision_filledRoot]
    rfl
  · rw [htriple hlife.refilled.alike, PublishedStateRoot.revisionTriple, refilledRoot,
      effectiveRevision_filled, effectiveRevision_filledRoot]
    rfl
  · rw [htriple hlife.rewound, PublishedStateRoot.revisionTriple,
      show (filledRoot.rewound originSection).stamp = filledRoot.stamp from rfl,
      effectiveRevision_filledRoot]
    rfl

omit [UnicodeTables] in
/-- A snapshot of the first cut put back after a commit: the world revision and the section's
revision, each one, are gone again. -/
theorem restore_lowers_revisions : letI := asciiOnly
    ∃ (authority : PublicationAuthority) (cut : RuntimeSnapshotCut) (cap : Nat) (worldId : String)
      (generation : UInt64) (config : VoxelConfigSnapshot),
      let committed := run step (.start (runningWorld authority none))
        [.prepare (originRequest "txn" [(⟨5, by decide⟩, ⟨1⟩)]), .capture cut, .encode 0 cap,
          .commit 0]
      let last := committed.step (.restore 0 worldId generation config)
      committed.root.stamp.worldRevision = 1 ∧
        committed.root.stamp.sectionRevisionSet[originSection.key]? = some 1 ∧
        last.root.stamp.worldRevision = 0 ∧
        last.root.stamp.sectionRevisionSet[originSection.key]? = none ∧
        ¬ RevisionsLe committed.root last.root := by
  let _ := asciiOnly
  obtain ⟨authority, cut, cap, worldId, generation, config, token, d, receipt, snapshot, candidate,
    ⟨hroot, hsame⟩, -, -, heffect, hrestores, hcut⟩ :=
    exists_overtaken [(⟨5, by decide⟩, ⟨1⟩)] (by decide)
  rw [hsame, hroot] at heffect hcut
  have hcommitted := UInt64.toNat_inj.mp (heffect.world.trans (show _ = (1 : UInt64).toNat from rfl))
  have hworld := hrestores.cut.world
  rw [hcut] at hworld
  have hnames : (originRequest "txn" [(⟨5, by decide⟩, ⟨1⟩)]).Names originSection :=
    List.ne_nil_of_mem (List.mem_filter.mpr ⟨List.mem_singleton.mpr rfl, decide_eq_true rfl⟩)
  obtain ⟨revision, hrevision, hsucc⟩ := heffect.named originSection hnames
  have hone : revision = 1 := UInt64.toNat_inj.mp (hsucc.trans rfl)
  rw [hone] at hrevision
  have hgone := congrArg (·[originSection.key]?) hrestores.cut.revisions
  simp only [hcut] at hgone
  refine ⟨authority, cut, cap, worldId, generation, config, hcommitted, hrevision, hworld, hgone, ?_⟩
  intro hle
  have hdown : (1 : UInt64) ≤ 0 :=
    calc (1 : UInt64) = _ := hcommitted.symm
      _ ≤ _ := hle.world
      _ = 0 := hworld
  exact absurd hdown (by decide)

end WorldSession

end History

end LumioVoxel
