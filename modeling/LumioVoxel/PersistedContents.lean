import LumioVoxel.DurabilityFence
import LumioVoxel.UndisturbedCommits

/-!
# What clean sections hold

An acknowledgement says that a section has been stored as it was at some published root.
The fence only counts revisions.  Here they are tied to contents: a resident section that
carries no mark holds what it held at the start, or what it held at the root an accepted
acknowledgement was formed from.  An unload takes clean sections only, so nothing it drops
is lost.
-/

namespace LumioVoxel

open DebugText Fallible StepRuns

section Contents

variable [UnicodeTables]

namespace WorldSession

variable {s : WorldSession} {roots : PublishedStateRoot → Prop}

/-! ## 1. A section nobody writes -/

/-- The section is resident with this payload. -/
def Holds (s : WorldSession) (id : SectionId) (payload : SectionPayload) : Prop :=
  s.root.directory.entries[id]? = some (.ready payload)

/-- No commit writes the section. -/
def LeavesAlone (s : WorldSession) (op : WorldOp) (id : SectionId) : Prop :=
  ∀ revision, ¬ s.Writes op id revision

/-- What a section holds after a step that does not write it, it held before. -/
theorem holds_of_step (hfree : PublishedStateRoot.CollisionFree roots) (h : Known roots s)
    {op : WorldOp} {id : SectionId} {payload : SectionPayload} (halone : s.LeavesAlone op id)
    (hholds : (s.step op).Holds id payload) : s.Holds id payload := by
  cases effect_step s op with
  | kept hroot _ =>
    rw [Holds, hroot] at hholds
    exact hholds
  | committed token d receipt hcommits =>
    rcases hcommits.slots h id with ⟨hname, -, -⟩ | ⟨-, hsame⟩
    · obtain ⟨revision, hrevision, -⟩ := (hcommits.effect hfree h).named id hname
      exact absurd ⟨token, d, receipt, hcommits, hname, hrevision⟩ (halone revision)
    · exact hsame.symm.trans hholds
  | acked ack coverage _ hacked _ =>
    rw [Holds, hacked.directory] at hholds
    exact hholds
  | unloaded hook named _ hunloaded _ _ =>
    by_cases hname : id = named
    · subst hname
      cases hunloaded.ticket.symm.trans hholds
    · exact (hunloaded.others id hname).symm.trans hholds
  | restored snapshot candidate hrestores _ =>
    exact absurd hholds (hrestores.cut.cold id payload)

theorem holds_of_run (hfree : PublishedStateRoot.CollisionFree roots) {id : SectionId}
    {payload : SectionPayload} {ops : List WorldOp} (h : Known roots s)
    (hroots : ∀ t ∈ visited step s ops, roots t.root)
    (halone : Along step (fun s op => s.LeavesAlone op id) s ops)
    (hholds : (run step s ops).Holds id payload) : s.Holds id payload := by
  induction ops generalizing s with
  | nil => exact hholds
  | cons op rest ih =>
    have hrest : ∀ t ∈ visited step (s.step op) rest, roots t.root :=
      fun t ht => hroots t (List.mem_cons_of_mem s ht)
    have hknown := known_step h (hrest _ (start_mem_visited _ _))
    exact holds_of_step hfree h halone.1 (ih hknown hrest halone.2 hholds)

/-- A section written since a root was published is above the revision it counted at there,
as long as it is marked. -/
theorem markAbove_of_run (hfree : PublishedStateRoot.CollisionFree roots) (h : Known roots s)
    {between after : List WorldOp} {op : WorldOp} {id : SectionId} {revision : UInt64}
    (hroots : ∀ t ∈ visited step s (between ++ op :: after), roots t.root)
    (hwrites : (run step s between).Writes op id revision) :
    (run step s (between ++ op :: after)).MarkAbove id
      (s.root.stamp.effectiveRevision id.key) := by
  have hbetween : ∀ t ∈ visited step s between, roots t.root :=
    fun t ht => hroots t (mem_visited_append_left _ ht)
  have hafter : ∀ t ∈ visited step ((run step s between).step op) after, roots t.root :=
    fun t ht => hroots t (mem_visited_append_right (List.mem_cons_of_mem _ ht))
  have hstart : s.CountsFrom id (s.root.stamp.effectiveRevision id.key) :=
    .inl (UInt64.le_refl _)
  have hcounts := countsFrom_run hfree h hstart hbetween
  have hbefore := known_run h hbetween
  have hnext := known_step hbefore (hafter _ (start_mem_visited _ _))
  rw [run_append, run_cons]
  exact markAbove_run hfree hnext (countsFrom_step hfree hbefore hcounts op)
    (markAbove_of_writes hfree hbefore hcounts hwrites) hafter

/-! ## 2. Original and stored contents -/

/-- The section is as it was at the start, and no commit has written it. -/
structure Original (start : WorldSession) (ops : List WorldOp) (id : SectionId)
    (payload : SectionPayload) : Prop where
  holds : start.Holds id payload
  alone : Along step (fun s op => s.LeavesAlone op id) start ops

/-- An acknowledgement that names the section was accepted, and it was formed from a root
of the run where the section held the payload. -/
structure Stored (start : WorldSession) (ops : List WorldOp) (id : SectionId)
    (payload : SectionPayload) (early late after : List WorldOp) (ack : DurabilityAckEvidence) :
    Prop where
  split : ops = early ++ (late ++ .ack ack :: after)
  formed : FormedFrom (run step start early).root ack
  holds : (run step start early).Holds id payload
  named : ∃ bound, ⟨id.key, bound⟩ ∈ ack.coveredSections
  accepted : ∃ receipt,
    (applyDurabilityAck (run step start (early ++ late)).world ack).1 = .ok receipt

/-- Nothing of the section's content is only in memory. -/
def Safe (start : WorldSession) (ops : List WorldOp) (id : SectionId) (payload : SectionPayload) :
    Prop :=
  Original start ops id payload ∨ ∃ early late after ack,
    Stored start ops id payload early late after ack

/-- Every acknowledgement the world accepts was formed from a root published before. -/
def HonestAcks (start : WorldSession) (ops : List WorldOp) : Prop :=
  ∀ first ack rest, ops = first ++ .ack ack :: rest →
    (∃ receipt, (applyDurabilityAck (run step start first).world ack).1 = .ok receipt) →
    ∃ early late, first = early ++ late ∧ FormedFrom (run step start early).root ack

variable {t : WorldSession} {id : SectionId} {payload : SectionPayload}

theorem HonestAcks.of_append {first rest : List WorldOp} (h : HonestAcks t (first ++ rest)) :
    HonestAcks t first := by
  rintro before ack after rfl haccepted
  exact h before ack (after ++ rest) (List.append_assoc ..) haccepted

theorem Safe.concat {ops : List WorldOp} {op : WorldOp} (h : Safe t ops id payload)
    (halone : (run step t ops).LeavesAlone op id) : Safe t (ops ++ [op]) id payload := by
  rcases h with horiginal | ⟨early, late, after, ack, hstored⟩
  · exact .inl ⟨horiginal.holds, along_append.mpr ⟨horiginal.alone, halone, trivial⟩⟩
  · refine .inr ⟨early, late, after ++ [op], ack, ?_, hstored.formed, hstored.holds,
      hstored.named, hstored.accepted⟩
    rw [hstored.split]
    simp only [List.append_assoc, List.cons_append]

/-- What an honest acknowledgement clears holds what it held where the acknowledgement was
formed. -/
theorem holds_of_clears (hfree : PublishedStateRoot.CollisionFree roots) (h : Known roots s)
    {late : List WorldOp} {ack : DurabilityAckEvidence} {entry : DirtyEntry} {bound : UInt64}
    (hroots : ∀ t ∈ visited step s late, roots t.root) (hformed : FormedFrom s.root ack)
    (hentry : (run step s late).mark id = some entry)
    (hin : ⟨id.key, bound⟩ ∈ ack.coveredSections) (hreaches : entry.latest ≤ bound)
    (hholds : (run step s late).Holds id payload) : s.Holds id payload := by
  refine holds_of_run hfree h hroots (along_of_splits fun between op after hsplit => ?_) hholds
  subst hsplit
  intro revision hwrites
  -- a write in between would have marked the section above the bound
  have habove := markAbove_of_run hfree h hroots hwrites entry hentry
  have hbound : bound = s.root.stamp.effectiveRevision id.key := hformed.bounds _ hin
  rw [hbound] at hreaches
  exact absurd hreaches (UInt64.not_le.mpr habove)

theorem safe_of_clean (hfree : PublishedStateRoot.CollisionFree roots) (h : Known roots t)
    (ops : List WorldOp) (hroots : ∀ s ∈ visited step t ops, roots s.root)
    (honest : HonestAcks t ops) (hholds : (run step t ops).Holds id payload)
    (hclean : (run step t ops).mark id = none) : Safe t ops id payload := by
  induction ops using List.reverseRecOn with
  | nil => exact .inl ⟨hholds, trivial⟩
  | append_singleton ops op ih =>
    have hfirst : ∀ s ∈ visited step t ops, roots s.root :=
      fun s hs => hroots s (mem_visited_append_left _ hs)
    have hknown := known_run h hfirst
    rw [run_append, run_cons, run_nil] at hholds hclean
    have halone : (run step t ops).LeavesAlone op id := by
      intro revision hwrites
      cases (hwrites.marked hfree hknown).1.symm.trans hclean
    have hbefore := holds_of_step hfree hknown halone hholds
    rcases mark_cases hfree hknown op id with hsame | ⟨revision, hwrites⟩ | ⟨hclears, -⟩ |
      ⟨hrestore, -⟩
    · exact (ih hfirst honest.of_append hbefore (hsame.symm.trans hclean)).concat halone
    · exact absurd hwrites (halone revision)
    · obtain ⟨ack, receipt, entry, bound, rfl, haccepted, hentry, hin, hreaches⟩ := hclears
      obtain ⟨early, late, rfl, hformed⟩ := honest ops ack [] rfl ⟨receipt, haccepted⟩
      have hearly := known_run h fun s hs => hfirst s (mem_visited_append_left _ hs)
      have hlate : ∀ s ∈ visited step (run step t early) late, roots s.root :=
        fun s hs => hfirst s (mem_visited_append_right hs)
      rw [run_append] at hentry hbefore
      refine .inr ⟨early, late, [], ack, List.append_assoc .., hformed, ?_, ⟨bound, hin⟩,
        receipt, haccepted⟩
      exact holds_of_clears hfree hearly hlate hformed hentry hin hreaches hbefore
    · exact absurd hholds (cold_of_takesRestore hrestore id payload)

/-! ## 3. Whole runs -/

/-- What clean sections hold, and what unloads drop, along a run. -/
structure KeptSafe (start : WorldSession) (ops : List WorldOp) : Prop where
  clean : ∀ first rest, ops = first ++ rest → ∀ id payload,
    (run step start first).Holds id payload → (run step start first).mark id = none →
      Safe start first id payload
  unloaded : ∀ first op rest, ops = first ++ op :: rest → ∀ id,
    (run step start first).Unloads op id →
      ∃ payload, (run step start first).Holds id payload ∧ Safe start first id payload

/-- **Nothing unsaved is dropped.** While acknowledgements are formed from published roots, a
resident section without a mark holds what it held at the start or at the root an accepted
acknowledgement was formed from; so does every section at the moment it is unloaded. -/
theorem clean_contents_are_safe (roots : PublishedStateRoot → Prop)
    (hfree : PublishedStateRoot.CollisionFree roots) (world : WorldInstance) (ops : List WorldOp)
    (hroots : ∀ s ∈ visited step (.start world) ops, roots s.root)
    (honest : HonestAcks (.start world) ops) : KeptSafe (.start world) ops := by
  have hknown : Known roots (.start world) := known_start (hroots _ (start_mem_visited _ _))
  refine ⟨?_, ?_⟩
  · rintro first rest rfl id payload hholds hclean
    exact safe_of_clean hfree hknown first (fun s hs => hroots s (mem_visited_append_left _ hs))
      honest.of_append hholds hclean
  · rintro first op rest rfl id ⟨-, hunloaded⟩
    obtain ⟨payload, hholds⟩ := hunloaded.resident
    exact ⟨payload, hholds, safe_of_clean hfree hknown first
      (fun s hs => hroots s (mem_visited_append_left _ hs)) honest.of_append hholds hunloaded.clean⟩

/-! ## 4. A section's life -/

theorem honestAcks_of_none {ops : List WorldOp} (h : ∀ ack, WorldOp.ack ack ∉ ops) :
    HonestAcks t ops := by
  rintro first ack rest rfl -
  exact absurd (List.mem_append_right _ List.mem_cons_self) (h ack)

/-- A further acknowledgement that was formed from a root of the run. -/
theorem HonestAcks.concat {ops : List WorldOp} {op : WorldOp} (h : HonestAcks t ops)
    (hop : ∀ ack, op = .ack ack →
      ∃ early late, ops = early ++ late ∧ FormedFrom (run step t early).root ack) :
    HonestAcks t (ops ++ [op]) := by
  intro first ack rest hsplit haccepted
  rcases List.eq_nil_or_concat rest with rfl | ⟨before, last, rfl⟩
  · obtain ⟨rfl, hlast⟩ := List.append_inj' hsplit rfl
    exact hop ack (List.cons.inj hlast).1
  · have hassoc : ops ++ [op] = (first ++ .ack ack :: before) ++ [last] := by
      rw [hsplit, List.concat_eq_append, List.append_assoc, List.cons_append]
    obtain ⟨rfl, -⟩ := List.append_inj' hassoc rfl
    exact h first ack before rfl haccepted

/-- The acknowledgements of a section's life are formed at its two fills. -/
theorem Life.honest {cut : RuntimeSnapshotCut} {cap : Nat} (h : s.Life cut cap) :
    HonestAcks s (written cut cap ++ settling) := by
  have hsplit : written cut cap ++ settling = ((written cut cap ++ [.ack lateAck]) ++
      [.ack fullAck]) ++ [.unload originSection.key fun _ => .ok ()] := rfl
  have hnone : ∀ ack, WorldOp.ack ack ∉ written cut cap := by
    intro ack hin
    simp [written, firstFill, saving, secondFill] at hin
  rw [hsplit]
  refine (((honestAcks_of_none hnone).concat ?_).concat ?_).concat fun _ hop =>
    WorldOp.noConfusion hop
  · rintro ack hop
    obtain rfl := WorldOp.ack.inj hop
    exact ⟨firstFill, _, rfl, h.formed_late⟩
  · rintro ack hop
    obtain rfl := WorldOp.ack.inj hop
    refine ⟨written cut cap, _, rfl, ?_, fun covered hin => ?_⟩
    · rw [h.refilled.alike.stamp]
      rfl
    · obtain rfl := List.mem_singleton.mp hin
      rw [h.refilled.alike.stamp, refilledRoot, effectiveRevision_filled,
        effectiveRevision_filledRoot]
      rfl

omit [UnicodeTables] in
/-- A section that is written twice, acknowledged and unloaded: when it is dropped it holds what
it held at the root the accepted acknowledgement was formed from. -/
theorem clean_contents_are_safe_life : letI := asciiOnly
    ∃ authority cut cap, let s := start (runningWorld authority none)
      let settled := written cut cap ++ [.ack lateAck, .ack fullAck]
      KeptSafe s (written cut cap ++ settling) ∧
      (s.step (.prepare (fillRequest "first" originSection ⟨1⟩ 0))).Writes (.commit 0)
        originSection 1 ∧
      ((run step s (firstFill ++ saving cut cap)).step
        (.prepare (fillRequest "second" originSection ⟨0⟩ 1))).Writes (.commit 0)
          originSection 2 ∧
      (run step s (written cut cap)).mark originSection = some ⟨1, 2, "mutation"⟩ ∧
      (run step s settled).Unloads (.unload originSection.key fun _ => .ok ()) originSection ∧
      ∃ payload, (run step s settled).Holds originSection payload ∧
        (∀ offset, (run step s settled).root.readCell originSection offset = some ⟨0⟩) ∧
        ∃ early late after ack, Stored s settled originSection payload early late after ack := by
  let _ := asciiOnly
  obtain ⟨authority, cut, cap, -, -, hlife⟩ := exists_lived
  have hsafe := clean_contents_are_safe OfLife collisionFree_ofLife (runningWorld authority none)
    (written cut cap ++ settling) (hlife.roots _ (List.append_assoc ..).symm) hlife.honest
  obtain ⟨hwrites, hwrites'⟩ := hlife.writes
  let settled := written cut cap ++ [.ack lateAck, .ack fullAck]
  have hunloads : (run step (.start (runningWorld authority none)) settled).Unloads
      (.unload originSection.key fun _ => .ok ()) originSection := ⟨⟨_, rfl⟩, hlife.unloads⟩
  obtain ⟨payload, hholds, hstored⟩ := hsafe.unloaded settled _ [] rfl originSection hunloads
  refine ⟨authority, cut, cap, hsafe, hwrites, hwrites', hlife.mark_refilled, hunloads, payload,
    hholds, fun offset => (hlife.cells offset).2.2.2.1, ?_⟩
  -- it was written, so it is not the original content
  rcases hstored with horiginal | hstored
  · exact absurd hwrites (horiginal.alone.2.1 1)
  · exact hstored

end WorldSession

end Contents

end LumioVoxel
