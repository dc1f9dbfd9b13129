import LumioVoxel.FillRuns

/-!
# The durability fence

A commit marks the sections it writes dirty at their new revisions.  Only an
acknowledgement takes a mark away, with a bound that reaches the mark's latest
write, and no unload touches a marked section.  A restore drops every mark, and
leaves no section that a commit could mark again; so revisions never run backwards
under a mark, and an acknowledgement formed before a write never reaches it.
-/

namespace LumioVoxel

open DebugText Fallible StepRuns

section Fence

variable [UnicodeTables]

omit [UnicodeTables] in
/-- No commit lowers the revision at which a section counts. -/
theorem CommitEffect.effectiveRevision_le [UnicodeTables] {request : MutationRequest}
    {old new : PublishedStateRoot} {receipt : MutationReceipt}
    (h : CommitEffect request old new receipt) (id : SectionId) :
    old.stamp.effectiveRevision id.key ≤ new.stamp.effectiveRevision id.key := by
  rw [UInt64.le_iff_toNat_le]
  by_cases hname : request.Names id
  · obtain ⟨revision, hnew, hnext⟩ := h.named id hname
    rw [show new.stamp.effectiveRevision id.key = revision by
      rw [RevisionStamp.effectiveRevision, hnew, Option.getD_some], hnext]
    exact Nat.le_succ _
  · have hentry := h.unnamed id.key fun other hother hkey =>
      hname (SectionId.key_injective hkey ▸ hother)
    simp only [RevisionStamp.effectiveRevision, hentry]
    cases old.stamp.sectionRevisionSet[id.key]? with
    | some revision => exact Nat.le_refl _
    | none =>
      simp only [Option.getD_none, h.world]
      exact Nat.le_succ _

namespace WorldSession

variable {s : WorldSession} {roots : PublishedStateRoot → Prop}

/-! ## 1. One step and one mark -/

/-- The dirty mark of a section. -/
def mark (s : WorldSession) (id : SectionId) : Option DirtyEntry :=
  s.root.dirtyFrontier.entries[id]?

/-- The step publishes a commit that writes the section at this revision. -/
def Writes (s : WorldSession) (op : WorldOp) (id : SectionId) (revision : UInt64) : Prop :=
  ∃ token d receipt, s.Commits op token d receipt ∧ token.request.Names id ∧
    (s.step op).root.stamp.sectionRevisionSet[id.key]? = some revision

/-- The step is an accepted acknowledgement that names a marked section with a bound
at least its latest revision. -/
def Clears (s : WorldSession) (op : WorldOp) (id : SectionId) : Prop :=
  ∃ ack receipt entry bound, op = .ack ack ∧ (applyDurabilityAck s.world ack).1 = .ok receipt ∧
    s.mark id = some entry ∧ ⟨id.key, bound⟩ ∈ ack.coveredSections ∧ entry.latest ≤ bound

/-- A write is recorded on the mark, at a revision above the one the section counted at. -/
theorem Writes.marked (hfree : PublishedStateRoot.CollisionFree roots) (h : Known roots s)
    {op : WorldOp} {id : SectionId} {revision : UInt64} (hwrites : s.Writes op id revision) :
    (s.step op).mark id = some (DirtyFrontier.recordEntry (s.mark id) revision "mutation") ∧
      s.root.stamp.effectiveRevision id.key < revision := by
  obtain ⟨token, d, receipt, hcommits, hname, hrevision⟩ := hwrites
  have heffect := hcommits.effect hfree h
  refine ⟨heffect.dirtyNamed id hname revision hrevision, ?_⟩
  obtain ⟨revision', hnew, hnext⟩ := heffect.named id hname
  obtain rfl := Option.some.inj (hrevision.symm.trans hnew)
  rw [UInt64.lt_iff_toNat_lt, hnext]
  exact Nat.lt_succ_self _

/-- What an accepted acknowledgement does to the marks. -/
theorem mark_ack {ack : DurabilityAckEvidence} {receipt : DurabilityReceipt}
    (h : (applyDurabilityAck s.world ack).1 = .ok receipt) (id : SectionId) :
    ((∃ bound, ⟨id.key, bound⟩ ∈ ack.coveredSections) → (s.step (.ack ack)).mark id = none) ∧
    ((∀ bound, ⟨id.key, bound⟩ ∉ ack.coveredSections) →
      (s.step (.ack ack)).mark id = s.mark id) ∧
    ∀ entry bound, s.mark id = some entry → ⟨id.key, bound⟩ ∈ ack.coveredSections →
      entry.latest ≤ bound := by
  rcases ack_outcome s.world ack with ⟨err, herr, -⟩ | ⟨receipt', coverage, -, hacked, -⟩
  · rw [h] at herr
    cases herr
  have hmark : (s.step (.ack ack)).mark id =
      if coverage.covered[id]?.isSome then none else s.mark id := by
    have hfrontier := congrArg (fun frontier => frontier.entries[id]?) hacked.dirtyFrontier
    exact hfrontier.trans (DirtyFrontier.getElem?_exceptCovered _ _ _)
  refine ⟨fun ⟨bound, hbound⟩ => ?_, fun hno => ?_, hacked.covers.bound id⟩
  · rw [hmark]
    cases hentry : s.mark id with
    | none => exact ite_self _
    | some entry =>
      rw [(hacked.covers.covered_iff id entry.latest).mpr ⟨entry, hentry, rfl, bound, hbound⟩]
      rfl
  · rw [hmark]
    cases hcovered : coverage.covered[id]? with
    | none => rfl
    | some v =>
      obtain ⟨-, -, -, bound, hbound⟩ := (hacked.covers.covered_iff id v).mp hcovered
      exact absurd hbound (hno bound)

/-- One step and one mark: kept, written to, acknowledged, or dropped by a restore. -/
theorem mark_cases (hfree : PublishedStateRoot.CollisionFree roots) (h : Known roots s)
    (op : WorldOp) (id : SectionId) :
    (s.step op).mark id = s.mark id ∨
    (∃ revision, s.Writes op id revision) ∨
    (s.Clears op id ∧ (s.step op).mark id = none) ∨
    s.TakesRestore op ∧ (s.step op).mark id = none := by
  have hsame : (s.step op).root = s.root → (s.step op).mark id = s.mark id := fun hroot => by
    rw [mark, hroot, mark]
  cases effect_step s op with
  | kept hroot _ => exact .inl (hsame hroot)
  | committed token d receipt hcommits =>
    have heffect := hcommits.effect hfree h
    by_cases hname : token.request.Names id
    · obtain ⟨revision, hrevision, -⟩ := heffect.named id hname
      exact .inr (.inl ⟨revision, token, d, receipt, hcommits, hname, hrevision⟩)
    · exact .inl (heffect.dirtyUnnamed id hname)
  | acked ack coverage hop hacked _ =>
    subst hop
    rcases ack_outcome s.world ack with ⟨err, -, hkept⟩ | ⟨receipt, -, haccepted, -⟩
    · exact .inl (hsame hkept.root)
    obtain ⟨hnamed, hother, hbound⟩ := mark_ack haccepted id
    by_cases hnames : ∃ bound, ⟨id.key, bound⟩ ∈ ack.coveredSections
    · cases hentry : s.mark id with
      | none => exact .inl (hnamed hnames)
      | some entry =>
        obtain ⟨bound, hin⟩ := hnames
        exact .inr (.inr (.inl ⟨⟨ack, receipt, entry, bound, rfl, haccepted, hentry, hin,
          hbound entry bound hentry hin⟩, hnamed ⟨bound, hin⟩⟩))
    · exact .inl (hother (not_exists.mp hnames))
  | unloaded hook named hop hunloaded _ _ =>
    left
    rw [mark, hunloaded.dirtyFrontier, mark]
  | restored snapshot candidate hrestores _ =>
    refine .inr (.inr (.inr ⟨⟨snapshot, candidate, hrestores⟩, ?_⟩))
    rw [mark, hrestores.cut.clean, BTreeMap.getElem?_empty]

/-! ## 2. The fence -/

/-- The section is marked, and its mark reaches the revision. -/
def MarkedFrom (s : WorldSession) (id : SectionId) (revision : UInt64) : Prop :=
  ∃ entry, s.mark id = some entry ∧ revision ≤ entry.latest

theorem markedFrom_of_writes (hfree : PublishedStateRoot.CollisionFree roots) (h : Known roots s)
    {op : WorldOp} {id : SectionId} {revision : UInt64} (hwrites : s.Writes op id revision) :
    (s.step op).MarkedFrom id revision :=
  ⟨_, (hwrites.marked hfree h).1, (DirtyFrontier.latest_recordEntry _ _ _).1⟩

theorem markedFrom_step (hfree : PublishedStateRoot.CollisionFree roots) (h : Known roots s)
    {op : WorldOp} {id : SectionId} {revision : UInt64} (hmarked : s.MarkedFrom id revision)
    (hrestore : ¬ s.TakesRestore op) (hclears : ¬ s.Clears op id) :
    (s.step op).MarkedFrom id revision := by
  obtain ⟨entry, hentry, hreaches⟩ := hmarked
  rcases mark_cases hfree h op id with hsame | ⟨next, hwrites⟩ | ⟨hclear, -⟩ | ⟨htakes, -⟩
  · exact ⟨entry, hsame.trans hentry, hreaches⟩
  · refine ⟨_, (hwrites.marked hfree h).1, UInt64.le_trans hreaches ?_⟩
    exact (DirtyFrontier.latest_recordEntry _ _ _).2 entry hentry
  · exact absurd hclear hclears
  · exact absurd htakes hrestore

/-- A mark outlasts every run without a restore and without an acknowledgement that
clears it. -/
theorem markedFrom_run (hfree : PublishedStateRoot.CollisionFree roots) {id : SectionId}
    {revision : UInt64} {ops : List WorldOp} (h : Known roots s)
    (hmarked : s.MarkedFrom id revision) (hroots : ∀ t ∈ visited step s ops, roots t.root)
    (hrestore : Along step (fun s op => ¬ s.TakesRestore op) s ops)
    (hclears : Along step (fun s op => ¬ s.Clears op id) s ops) :
    (run step s ops).MarkedFrom id revision := by
  have hstep : ∀ (t : WorldSession) op, Known roots t ∧ t.MarkedFrom id revision →
      roots (t.step op).root ∧ ¬ t.TakesRestore op ∧ ¬ t.Clears op id →
      Known roots (t.step op) ∧ (t.step op).MarkedFrom id revision := by
    intro t op ⟨hknown, hmark⟩ ⟨hroot, hno, hnot⟩
    exact ⟨known_step hknown hroot, markedFrom_step hfree hknown hmark hno hnot⟩
  exact (run_invariant_along hstep ⟨h, hmarked⟩
    (along_and (along_of_visited hroots) (along_and hrestore hclears))).2

theorem known_split {world : WorldInstance} {first second : List WorldOp} {op : WorldOp}
    (hroots : ∀ t ∈ visited step (.start world) (first ++ op :: second), roots t.root) :
    Known roots (run step (.start world) first) ∧
      Known roots ((run step (.start world) first).step op) ∧
      ∀ t ∈ visited step ((run step (.start world) first).step op) second, roots t.root := by
  have hin : ∀ t ∈ visited step ((run step (.start world) first).step op) second,
      t ∈ visited step (.start world) (first ++ op :: second) := fun t ht =>
    mem_visited_append_right (List.mem_cons_of_mem _ ht)
  have hknown := known_visited hroots
  refine ⟨hknown _ (mem_visited_iff.mpr ⟨first, _, rfl, rfl⟩),
    hknown _ (hin _ (start_mem_visited _ _)), fun t ht => hroots t (hin t ht)⟩

/-- What holds of the dirty marks along a run. -/
structure Fenced (start : WorldSession) (ops : List WorldOp) : Prop where
  /-- A written section stays marked from that revision on, up to an acknowledgement
  that reaches its latest write. -/
  marked : ∀ first op second rest, ops = first ++ op :: (second ++ rest) → ∀ id revision,
    (run step start first).Writes op id revision →
    Along step (fun s op => ¬ s.Clears op id) (run step start (first ++ [op])) second →
    (run step start (first ++ op :: second)).MarkedFrom id revision
  /-- An accepted acknowledgement removes the marks it names. -/
  removed : ∀ s ∈ visited step start ops, ∀ ack receipt,
    (applyDurabilityAck s.world ack).1 = .ok receipt → ∀ id,
    (∃ bound, ⟨id.key, bound⟩ ∈ ack.coveredSections) → (s.step (.ack ack)).mark id = none
  /-- And no others. -/
  kept : ∀ s ∈ visited step start ops, ∀ ack receipt,
    (applyDurabilityAck s.world ack).1 = .ok receipt → ∀ id,
    (∀ bound, ⟨id.key, bound⟩ ∉ ack.coveredSections) → (s.step (.ack ack)).mark id = s.mark id
  rejected : ∀ s ∈ visited step start ops, ∀ ack err,
    (applyDurabilityAck s.world ack).1 = .error err → (s.step (.ack ack)).root = s.root
  /-- No unload of a marked section goes through. -/
  unload : ∀ s ∈ visited step start ops, ∀ (id : SectionId) hook receipt,
    s.mark id ≠ none → (unloadSection s.world id.key hook).1 ≠ .ok receipt

/-- **The durability fence.** Along a run in which no restore goes through. -/
theorem durability_fence (roots : PublishedStateRoot → Prop)
    (hfree : PublishedStateRoot.CollisionFree roots) (world : WorldInstance) (ops : List WorldOp)
    (hroots : ∀ s ∈ visited step (.start world) ops, roots s.root)
    (hrestore : Along step (fun s op => ¬ s.TakesRestore op) (.start world) ops) :
    Fenced (.start world) ops := by
  refine ⟨?_, ?_, ?_, ?_, ?_⟩
  · rintro first op second rest rfl id revision hwrites hclears
    obtain ⟨hbefore, hnext, hlater⟩ := known_split hroots
    have hmarked := markedFrom_of_writes hfree hbefore hwrites
    obtain ⟨-, -, hpart⟩ := along_append.mp hrestore
    rw [run_append, run_cons, run_nil] at hclears
    rw [run_append, run_cons]
    exact markedFrom_run hfree hnext hmarked (fun t ht => hlater t (mem_visited_append_left rest ht))
      (along_append.mp hpart).1 hclears
  · intro s _ ack receipt haccepted id
    exact (mark_ack haccepted id).1
  · intro s _ ack receipt haccepted id
    exact (mark_ack haccepted id).2.1
  · intro s _ ack err herr
    rcases ack_outcome s.world ack with ⟨err, -, hkept⟩ | ⟨receipt, coverage, hok, -⟩
    · exact hkept.root
    · rw [herr] at hok
      cases hok
  · intro s _ id hook receipt hmarked hok
    rcases unload_outcome s.world id.key hook with ⟨-, hclean⟩ |
      ⟨receipt', other, hkey, -, hunloaded, -⟩
    · obtain ⟨other, hkey, hnone, -⟩ := hclean receipt hok
      obtain rfl := SectionId.key_injective hkey
      exact hmarked hnone
    · obtain rfl := SectionId.key_injective hkey
      exact hmarked hunloaded.clean

/-- A run without the operation takes no snapshot back. -/
theorem along_no_restore {ops : List WorldOp}
    (h : ∀ j worldId generation config, WorldOp.restore j worldId generation config ∉ ops) :
    Along step (fun s op => ¬ s.TakesRestore op) s ops := by
  refine along_of_splits fun first op rest hsplit => ?_
  rintro ⟨snapshot, candidate, hrestores⟩
  obtain ⟨j, worldId, generation, config, rfl, -⟩ := hrestores.named
  apply h j worldId generation config
  rw [hsplit]
  exact List.mem_append_right _ List.mem_cons_self

/-- What a fill writes. -/
theorem Commits.writes_fill {op : WorldOp} {token : PreparedMutation} {d : CommitDraft}
    {receipt : MutationReceipt} (hcommits : s.Commits op token d receipt) {txnId : String}
    {id : SectionId} {block : BlockId} {expected revision : UInt64}
    (hrequest : token.request = fillRequest txnId id block expected)
    (hrevision : (s.step op).root.stamp.sectionRevisionSet[id.key]? = some revision) :
    s.Writes op id revision :=
  ⟨token, d, receipt, hcommits, hrequest ▸ (fillRequest_fills.names id).mpr rfl, hrevision⟩

theorem Life.revision_refilled {cut : RuntimeSnapshotCut} {cap : Nat} (h : s.Life cut cap) :
    (run step s (written cut cap)).root.stamp.sectionRevisionSet[originSection.key]? =
      some 2 := by
  rw [h.refilled.alike.stamp, refilledRoot, listed_revision_filled, if_pos rfl,
    effectiveRevision_filledRoot]
  rfl

theorem Life.mark_refilled {cut : RuntimeSnapshotCut} {cap : Nat} (h : s.Life cut cap) :
    (run step s (written cut cap)).mark originSection = some ⟨1, 2, "mutation"⟩ := by
  rw [mark, h.refilled.alike.dirtyFrontier, marks_refilledRoot]
  exact Std.ExtTreeMap.getElem?_insert_self

/-- The two fills of a section's life write it at revisions one and two. -/
theorem Life.writes {cut : RuntimeSnapshotCut} {cap : Nat} (h : s.Life cut cap) :
    (s.step (.prepare (fillRequest "first" originSection ⟨1⟩ 0))).Writes (.commit 0)
      originSection 1 ∧
    ((run step s (firstFill ++ saving cut cap)).step
      (.prepare (fillRequest "second" originSection ⟨0⟩ 1))).Writes (.commit 0)
        originSection 2 := by
  obtain ⟨token, d, receipt, hcommits, hrequest⟩ := h.fills
  obtain ⟨token', d', receipt', hcommits', hrequest'⟩ := h.refills
  refine ⟨hcommits.writes_fill hrequest ?_, hcommits'.writes_fill hrequest' h.revision_refilled⟩
  show (run step s firstFill).root.stamp.sectionRevisionSet[originSection.key]? = some 1
  rw [h.filled.alike.stamp, filledRoot, listed_revision_filled, if_pos rfl,
    effectiveRevision_twoBlockRoot]
  rfl

omit [UnicodeTables] in
/-- The fence in a section's life: the section is marked at its second fill when an
acknowledgement of the first one and an unload are refused, and once it is acknowledged in
full the mark is gone and the unload goes through. -/
theorem durability_fence_life : letI := asciiOnly
    ∃ authority cut cap, let s := start (runningWorld authority none)
      let filled := run step s (written cut cap)
      let settled := run step s (written cut cap ++ [.ack lateAck, .ack fullAck])
      let hook : PinExemptionHook := fun _ => .ok ()
      Fenced s (written cut cap ++ settling) ∧
      (s.step (.prepare (fillRequest "first" originSection ⟨1⟩ 0))).Writes (.commit 0)
        originSection 1 ∧
      ((run step s (firstFill ++ saving cut cap)).step
        (.prepare (fillRequest "second" originSection ⟨0⟩ 1))).Writes (.commit 0)
          originSection 2 ∧
      filled.mark originSection = some ⟨1, 2, "mutation"⟩ ∧
      (∃ err, (applyDurabilityAck filled.world lateAck).1 = .error err) ∧
      (∃ err, (unloadSection filled.world originSection.key hook).1 = .error err) ∧
      (∃ receipt, (applyDurabilityAck (filled.step (.ack lateAck)).world fullAck).1 =
        .ok receipt) ∧
      settled.mark originSection = none ∧
      Unloaded originSection settled.root (settled.step (.unload originSection.key hook)).root := by
  let _ := asciiOnly
  obtain ⟨authority, cut, cap, -, -, hlife⟩ := exists_lived
  have hfenced : Fenced (start (runningWorld authority none)) (written cut cap ++ settling) := by
    refine durability_fence OfLife collisionFree_ofLife _ _
      (hlife.roots _ (List.append_assoc ..).symm) (along_no_restore ?_)
    intro j worldId generation config hin
    simp [written, firstFill, saving, secondFill, settling] at hin
  obtain ⟨hwrites, hwrites'⟩ := hlife.writes
  refine ⟨authority, cut, cap, hfenced, hwrites, hwrites', hlife.mark_refilled, hlife.late, ?_,
    hlife.settles, ?_,
    hlife.unloads⟩
  · cases hunload : (unloadSection (run step (.start (runningWorld authority none))
        (written cut cap)).world originSection.key fun _ => .ok ()).1 with
    | error err => exact ⟨err, rfl⟩
    | ok receipt =>
      have hvisited : run step (.start (runningWorld authority none)) (written cut cap) ∈
          visited step (.start (runningWorld authority none)) (written cut cap ++ settling) :=
        mem_visited_append_left settling (run_mem_visited _ (written cut cap))
      exact absurd hunload (hfenced.unload _ hvisited originSection _ receipt
        (hlife.mark_refilled ▸ Option.some_ne_none _))
  · rw [mark, hlife.settled.alike.dirtyFrontier]
    exact BTreeMap.getElem?_empty _

/-! ## 3. Late acknowledgements -/

/-- An acknowledgement formed from a published root: its world revision, and for each
named section the revision it counts at. -/
structure FormedFrom (root : PublishedStateRoot) (ack : DurabilityAckEvidence) : Prop where
  world : ack.coveredWorldRevision = root.stamp.worldRevision
  bounds : ∀ covered ∈ ack.coveredSections,
    covered.upToSectionRevision = root.stamp.effectiveRevision covered.sectionId

/-- The section still counts at the bound or above; or a restore has gone through,
and nothing is marked or can be. -/
def CountsFrom (s : WorldSession) (id : SectionId) (bound : UInt64) : Prop :=
  bound ≤ s.root.stamp.effectiveRevision id.key ∨ Cold s.root ∧ s.mark id = none

/-- A mark, if there is one, is above the bound. -/
def MarkAbove (s : WorldSession) (id : SectionId) (bound : UInt64) : Prop :=
  ∀ entry, s.mark id = some entry → bound < entry.latest

theorem Writes.resident {op : WorldOp} {id : SectionId} {revision : UInt64} (h : Known roots s)
    (hwrites : s.Writes op id revision) : ¬ Cold s.root := by
  obtain ⟨token, d, receipt, hcommits, hname, -⟩ := hwrites
  intro hcold
  rcases hcommits.slots h id with ⟨-, ⟨payload, hready⟩, -⟩ | ⟨hno, -⟩
  · exact hcold id payload hready
  · exact hno hname

theorem countsFrom_step (hfree : PublishedStateRoot.CollisionFree roots) (h : Known roots s)
    {id : SectionId} {bound : UInt64} (hcounts : s.CountsFrom id bound) (op : WorldOp) :
    (s.step op).CountsFrom id bound := by
  rcases hcounts with hle | ⟨hcold, hnone⟩
  · cases effect_step s op with
    | kept hroot _ => exact .inl (by rw [hroot]; exact hle)
    | committed token d receipt hcommits =>
      exact .inl (UInt64.le_trans hle ((hcommits.effect hfree h).effectiveRevision_le id))
    | acked ack coverage _ hacked _ => exact .inl (by rw [hacked.stamp]; exact hle)
    | unloaded hook named _ hunloaded _ _ => exact .inl (by rw [hunloaded.stamp]; exact hle)
    | restored snapshot candidate hrestores _ =>
      refine .inr ⟨hrestores.cut.cold, ?_⟩
      rw [mark, hrestores.cut.clean, BTreeMap.getElem?_empty]
  · refine .inr ⟨cold_step h hcold op, ?_⟩
    rcases mark_cases hfree h op id with hsame | ⟨revision, hwrites⟩ | ⟨-, hgone⟩ | ⟨-, hgone⟩
    · exact hsame.trans hnone
    · exact absurd hcold (hwrites.resident h)
    · exact hgone
    · exact hgone

/-- A write goes above every bound the section counts from. -/
theorem markAbove_of_writes (hfree : PublishedStateRoot.CollisionFree roots) (h : Known roots s)
    {op : WorldOp} {id : SectionId} {bound revision : UInt64} (hcounts : s.CountsFrom id bound)
    (hwrites : s.Writes op id revision) : (s.step op).MarkAbove id bound := by
  obtain ⟨hmark, hlt⟩ := hwrites.marked hfree h
  rcases hcounts with hle | ⟨hcold, -⟩
  · intro entry hentry
    obtain rfl := Option.some.inj (hmark.symm.trans hentry)
    have hreaches := (DirtyFrontier.latest_recordEntry (s.mark id) revision "mutation").1
    exact UInt64.lt_of_le_of_lt hle (UInt64.lt_of_lt_of_le hlt hreaches)
  · exact absurd hcold (hwrites.resident h)

theorem markAbove_step (hfree : PublishedStateRoot.CollisionFree roots) (h : Known roots s)
    {id : SectionId} {bound : UInt64} (hcounts : s.CountsFrom id bound)
    (habove : s.MarkAbove id bound) (op : WorldOp) : (s.step op).MarkAbove id bound := by
  rcases mark_cases hfree h op id with hsame | ⟨revision, hwrites⟩ | ⟨-, hgone⟩ | ⟨-, hgone⟩
  · intro entry hentry
    exact habove entry (hsame.symm.trans hentry)
  · exact markAbove_of_writes hfree h hcounts hwrites
  · intro entry hentry
    cases hgone.symm.trans hentry
  · intro entry hentry
    cases hgone.symm.trans hentry

theorem countsFrom_run (hfree : PublishedStateRoot.CollisionFree roots) {id : SectionId}
    {bound : UInt64} {ops : List WorldOp} (h : Known roots s) (hcounts : s.CountsFrom id bound)
    (hroots : ∀ t ∈ visited step s ops, roots t.root) : (run step s ops).CountsFrom id bound := by
  have hstep : ∀ (t : WorldSession) op, Known roots t ∧ t.CountsFrom id bound →
      roots (t.step op).root → Known roots (t.step op) ∧ (t.step op).CountsFrom id bound := by
    intro t op ⟨hknown, hnow⟩ hroot
    exact ⟨known_step hknown hroot, countsFrom_step hfree hknown hnow op⟩
  exact (run_invariant_along hstep ⟨h, hcounts⟩ (along_of_visited hroots)).2

theorem markAbove_run (hfree : PublishedStateRoot.CollisionFree roots) {id : SectionId}
    {bound : UInt64} {ops : List WorldOp} (h : Known roots s) (hcounts : s.CountsFrom id bound)
    (habove : s.MarkAbove id bound) (hroots : ∀ t ∈ visited step s ops, roots t.root) :
    (run step s ops).MarkAbove id bound := by
  have hstep : ∀ (t : WorldSession) op,
      Known roots t ∧ t.CountsFrom id bound ∧ t.MarkAbove id bound → roots (t.step op).root →
      Known roots (t.step op) ∧ (t.step op).CountsFrom id bound ∧
        (t.step op).MarkAbove id bound := by
    intro t op ⟨hknown, hnow, hmark⟩ hroot
    exact ⟨known_step hknown hroot, countsFrom_step hfree hknown hnow op,
      markAbove_step hfree hknown hnow hmark op⟩
  exact (run_invariant_along hstep ⟨h, hcounts, habove⟩ (along_of_visited hroots)).2.2

/-- An acknowledgement with a lower bound leaves the mark where it is. -/
theorem mark_of_ack_below {id : SectionId} {bound : UInt64} (habove : s.MarkAbove id bound)
    {ack : DurabilityAckEvidence}
    (hbounds : ∀ up, ⟨id.key, up⟩ ∈ ack.coveredSections → up = bound) :
    (s.step (.ack ack)).mark id = s.mark id := by
  rcases ack_outcome s.world ack with ⟨err, -, hkept⟩ | ⟨receipt, coverage, haccepted, -, -⟩
  · exact congrArg (fun root => root.dirtyFrontier.entries[id]?) hkept.root
  obtain ⟨hnamed, hother, hreaches⟩ := mark_ack haccepted id
  by_cases hnames : ∃ up, ⟨id.key, up⟩ ∈ ack.coveredSections
  · obtain ⟨up, hin⟩ := hnames
    cases hentry : s.mark id with
    | none => exact hnamed ⟨up, hin⟩
    | some entry =>
      have hle := hreaches entry up hentry hin
      rw [hbounds up hin] at hle
      exact absurd hle (UInt64.not_le.mpr (habove entry hentry))
  · exact hother (not_exists.mp hnames)

/-- **A late acknowledgement never covers a later write.** -/
theorem late_ack_keeps_marks (roots : PublishedStateRoot → Prop)
    (hfree : PublishedStateRoot.CollisionFree roots) (world : WorldInstance)
    (early late : List WorldOp) (ack : DurabilityAckEvidence)
    (hroots : ∀ s ∈ visited step (.start world) (early ++ late), roots s.root)
    (hformed : FormedFrom (run step (.start world) early).root ack) :
    ∀ between op after, late = between ++ op :: after → ∀ id revision,
      (run step (.start world) (early ++ between)).Writes op id revision →
      ((run step (.start world) (early ++ late)).step (.ack ack)).mark id =
        (run step (.start world) (early ++ late)).mark id := by
  rintro between op after rfl id revision hwrites
  have hsplit : early ++ (between ++ op :: after) = (early ++ between) ++ op :: after :=
    (List.append_assoc ..).symm
  have hknown := known_visited hroots _ (mem_visited_append_left _ (run_mem_visited _ early))
  have hmiddle : ∀ s ∈ visited step (run step (.start world) early) between, roots s.root :=
    fun s hs => hroots s (mem_visited_append_right (mem_visited_append_left _ hs))
  have hstart : (run step (.start world) early).CountsFrom id
      ((run step (.start world) early).root.stamp.effectiveRevision id.key) := .inl (UInt64.le_refl _)
  have hcounts := countsFrom_run hfree hknown hstart hmiddle
  rw [← run_append] at hcounts
  rw [hsplit] at hroots ⊢
  obtain ⟨hbefore, hnext, hlater⟩ := known_split hroots
  rw [run_append _ (early ++ between), run_cons]
  refine mark_of_ack_below (markAbove_run hfree hnext (countsFrom_step hfree hbefore hcounts op)
    (markAbove_of_writes hfree hbefore hcounts hwrites) hlater) fun up hin => ?_
  exact hformed.bounds _ hin

theorem Life.formed_late {cut : RuntimeSnapshotCut} {cap : Nat} (h : s.Life cut cap) :
    FormedFrom (run step s firstFill).root lateAck := by
  refine ⟨?_, fun covered hin => ?_⟩
  · rw [h.filled.alike.stamp]
    rfl
  · obtain rfl := List.mem_singleton.mp hin
    rw [h.filled.alike.stamp, effectiveRevision_filledRoot]

omit [UnicodeTables] in
/-- An acknowledgement formed at the first fill and applied after the second leaves the second
one's mark. -/
theorem late_ack_keeps_marks_life : letI := asciiOnly
    ∃ authority cut cap, let s := start (runningWorld authority none)
      let late := saving cut cap ++ secondFill
      FormedFrom (run step s firstFill).root lateAck ∧
      (∀ between op after, late = between ++ op :: after → ∀ id revision,
        (run step s (firstFill ++ between)).Writes op id revision →
        ((run step s (firstFill ++ late)).step (.ack lateAck)).mark id =
          (run step s (firstFill ++ late)).mark id) ∧
      (∃ between, late = between ++ [.commit 0] ∧
        (run step s (firstFill ++ between)).Writes (.commit 0) originSection 2) ∧
      ((run step s (firstFill ++ late)).step (.ack lateAck)).mark originSection =
        some ⟨1, 2, "mutation"⟩ := by
  let _ := asciiOnly
  obtain ⟨authority, cut, cap, -, -, hlife⟩ := exists_lived
  have hkept := late_ack_keeps_marks OfLife collisionFree_ofLife (runningWorld authority none)
    firstFill (saving cut cap ++ secondFill) lateAck
    (hlife.roots (settling ++ [.release 0, .restore 0 "world" 1 approvedConfig]) rfl)
    hlife.formed_late
  let before := saving cut cap ++ [.prepare (fillRequest "second" originSection ⟨0⟩ 1)]
  have hsplit : saving cut cap ++ secondFill = before ++ [.commit 0] := rfl
  have hwrites : (run step (.start (runningWorld authority none)) (firstFill ++ before)).Writes
      (.commit 0) originSection 2 := hlife.writes.2
  refine ⟨authority, cut, cap, hlife.formed_late, hkept, ⟨before, hsplit, hwrites⟩, ?_⟩
  exact (hkept before (.commit 0) [] hsplit originSection 2 hwrites).trans hlife.mark_refilled

end WorldSession

end Fence

end LumioVoxel
