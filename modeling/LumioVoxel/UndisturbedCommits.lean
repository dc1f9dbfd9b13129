import LumioVoxel.RevisionHistory

/-!
# Commits over an undisturbed cut

A token is prepared from one cut and committed over another that has the same identity.
Stamps only move up, and under one stamp residency and dirty marks only go away; so a cut
that has been left never comes back, except through a restore, after which no section is
there to be written.  A batch that names a section is therefore committed only if nothing
at all was published since it was prepared.
-/

namespace LumioVoxel

open DebugText StepRuns

/-! ## 1. Cuts left behind -/

/-- The published parts of two roots are the same. -/
structure PublishedStateRoot.SameParts (a b : PublishedStateRoot) : Prop where
  stamp : b.stamp = a.stamp
  directory : b.directory = a.directory
  dirtyFrontier : b.dirtyFrontier = a.dirtyFrontier

/-- One stamp, with less of it resident and less of it marked. -/
structure PublishedStateRoot.Thinned (old new : PublishedStateRoot) : Prop where
  stamp : new.stamp = old.stamp
  slots : ∀ id : SectionId, new.directory.entries[id]? = old.directory.entries[id]? ∨
    (∃ payload, old.directory.entries[id]? = some (.ready payload)) ∧
      new.directory.entries[id]? = some .unchanged
  marks : ∀ id : SectionId, new.dirtyFrontier.entries[id]? = old.dirtyFrontier.entries[id]? ∨
    new.dirtyFrontier.entries[id]? = none
  owner : new.dirtyFrontier.worldId = old.dirtyFrontier.worldId ∧
    new.dirtyFrontier.generation = old.dirtyFrontier.generation

/-- The cut is a later one of the same history. -/
def PublishedStateRoot.LeftFor (old new : PublishedStateRoot) : Prop :=
  old.stamp.worldRevision < new.stamp.worldRevision ∨ old.Thinned new

namespace PublishedStateRoot

variable {a b c : PublishedStateRoot}

theorem SameParts.thinned (h : a.SameParts b) : a.Thinned b where
  stamp := h.stamp
  slots := by
    intro id
    rw [h.directory]
    exact .inl rfl
  marks := by
    intro id
    rw [h.dirtyFrontier]
    exact .inl rfl
  owner := by
    rw [h.dirtyFrontier]
    exact ⟨rfl, rfl⟩

theorem Thinned.trans (h : a.Thinned b) (h' : b.Thinned c) : a.Thinned c where
  stamp := h'.stamp.trans h.stamp
  slots := by
    intro id
    rcases h'.slots id with hkept | ⟨⟨payload, hready⟩, hticket⟩
    · rw [hkept]
      exact h.slots id
    · rcases h.slots id with hkept | ⟨-, hticket'⟩
      · exact .inr ⟨⟨payload, hkept.symm.trans hready⟩, hticket⟩
      · cases hticket'.symm.trans hready
  marks := by
    intro id
    rcases h'.marks id with hkept | hgone
    · rw [hkept]
      exact h.marks id
    · exact .inr hgone
  owner := ⟨h'.owner.1.trans h.owner.1, h'.owner.2.trans h.owner.2⟩

theorem LeftFor.refl (a : PublishedStateRoot) : a.LeftFor a :=
  .inr (SameParts.thinned ⟨rfl, rfl, rfl⟩)

theorem LeftFor.trans (h : a.LeftFor b) (h' : b.LeftFor c) : a.LeftFor c := by
  rcases h with hlt | hthin
  · rcases h' with hlt' | hthin'
    · exact .inl (UInt64.lt_trans hlt hlt')
    · left
      rw [hthin'.stamp]
      exact hlt
  · rcases h' with hlt' | hthin'
    · left
      rw [← hthin.stamp]
      exact hlt'
    · exact .inr (hthin.trans hthin')

/-- A thinning of something that reads like its own thinning is no thinning. -/
theorem Thinned.sameParts (h : a.Thinned b) (h' : b.Thinned c) (hsame : c.SameCut a) :
    a.SameParts b := by
  have hslots : ∀ id : SectionId, b.directory.entries[id]? = a.directory.entries[id]? := by
    intro id
    rcases h.slots id with hkept | ⟨⟨payload, hready⟩, hticket⟩
    · exact hkept
    · -- a ticket stays a ticket, and shows
      have hlast : c.directory.entries[id]? = some .unchanged := by
        rcases h'.slots id with hkept | ⟨-, hticket'⟩
        · exact hkept.trans hticket
        · exact hticket'
      have hpresence := hsame.presence id
      rw [hlast, hready] at hpresence
      cases hpresence
  have hmarks : ∀ id : SectionId,
      b.dirtyFrontier.entries[id]? = a.dirtyFrontier.entries[id]? := by
    intro id
    rcases h.marks id with hkept | hgone
    · exact hkept
    · have hlast : c.dirtyFrontier.entries[id]? = none := by
        rcases h'.marks id with hkept | hgone'
        · exact hkept.trans hgone
        · exact hgone'
      rw [hgone, ← hlast, hsame.dirtyFrontier]
  refine ⟨h.stamp, ?_, ?_⟩
  · cases hb : b.directory
    cases ha : a.directory
    simp only [ha, hb] at hslots
    exact congrArg _ (Std.ExtTreeMap.ext_getElem? hslots)
  · obtain ⟨hworld, hgeneration⟩ := h.owner
    cases hb : b.dirtyFrontier
    cases ha : a.dirtyFrontier
    simp only [ha, hb] at hmarks hworld hgeneration
    rw [hworld, hgeneration, Std.ExtTreeMap.ext_getElem? hmarks]

/-- A cut that reads like one it was left for was never left. -/
theorem LeftFor.sameParts (h : a.LeftFor b) (h' : b.LeftFor c) (hsame : c.SameCut a) :
    a.SameParts b := by
  have hstamp := congrArg RevisionStamp.worldRevision hsame.stamp
  rcases h with hlt | hthin
  · rcases h' with hlt' | hthin'
    · have hcycle := UInt64.lt_trans hlt hlt'
      rw [hstamp] at hcycle
      exact absurd hcycle (UInt64.lt_irrefl _)
    · rw [← hthin'.stamp, hstamp] at hlt
      exact absurd hlt (UInt64.lt_irrefl _)
  · rcases h' with hlt' | hthin'
    · rw [hthin.stamp, hstamp] at hlt'
      exact absurd hlt' (UInt64.lt_irrefl _)
    · exact hthin.sameParts hthin' hsame

end PublishedStateRoot

/-! ## 2. Steps that take no snapshot back -/

section Undisturbed

variable [UnicodeTables]

theorem CommitEffect.leftFor {request : MutationRequest} {old new : PublishedStateRoot}
    {receipt : MutationReceipt} (h : CommitEffect request old new receipt) : old.LeftFor new := by
  left
  rw [UInt64.lt_iff_toNat_lt, h.world]
  exact Nat.lt_succ_self _

theorem Acked.thinned {ack : DurabilityAckEvidence} {coverage : DirtyCoverage}
    {old new : PublishedStateRoot} (h : Acked ack coverage old new) : old.Thinned new where
  stamp := h.stamp
  slots := by
    intro id
    rw [h.directory]
    exact .inl rfl
  marks := by
    intro id
    rw [h.dirtyFrontier, DirtyFrontier.getElem?_exceptCovered]
    split
    · exact .inr rfl
    · exact .inl rfl
  owner := by
    rw [h.dirtyFrontier]
    exact ⟨rfl, rfl⟩

theorem Unloaded.thinned {id : SectionId} {old new : PublishedStateRoot}
    (h : Unloaded id old new) : old.Thinned new where
  stamp := h.stamp
  slots := by
    intro other
    by_cases hother : other = id
    · subst hother
      exact .inr ⟨h.resident, h.ticket⟩
    · exact .inl (h.others other hother)
  marks := by
    intro other
    rw [h.dirtyFrontier]
    exact .inl rfl
  owner := by
    rw [h.dirtyFrontier]
    exact ⟨rfl, rfl⟩

namespace WorldSession

variable {s : WorldSession} {roots : PublishedStateRoot → Prop}

theorem leftFor_step (hfree : PublishedStateRoot.CollisionFree roots) (h : Known roots s)
    {op : WorldOp} (hno : ¬ s.TakesRestore op) : s.root.LeftFor (s.step op).root := by
  cases effect_step s op with
  | kept hroot _ =>
    rw [hroot]
    exact .refl _
  | committed token d receipt hcommits => exact (hcommits.effect hfree h).leftFor
  | acked evidence coverage _ hacked _ => exact .inr hacked.thinned
  | unloaded hook id _ hunloaded _ _ => exact .inr hunloaded.thinned
  | restored snapshot candidate hrestores _ => exact absurd ⟨snapshot, candidate, hrestores⟩ hno

/-- A run that ends with a resident section took no snapshot back. -/
theorem along_not_takesRestore (h : Known roots s) {ops : List WorldOp}
    (hops : Along step (fun s op => roots (s.step op).root) s ops)
    (hwarm : ¬ Cold (run step s ops).root) : Along step (fun s op => ¬ s.TakesRestore op) s ops := by
  induction ops generalizing s with
  | nil => trivial
  | cons op rest ih =>
    have hknown := known_step h hops.1
    refine ⟨fun hrestore => hwarm ?_, ih hknown hops.2 hwarm⟩
    exact cold_run hknown (cold_of_takesRestore hrestore) hops.2

/-- Every state of a run that took no snapshot back lies between its two ends. -/
theorem leftFor_visited (hfree : PublishedStateRoot.CollisionFree roots) (h : Known roots s)
    {ops : List WorldOp} (hroots : ∀ t ∈ visited step s ops, roots t.root)
    (hrestore : Along step (fun s op => ¬ s.TakesRestore op) s ops) :
    ∀ t ∈ visited step s ops, s.root.LeftFor t.root ∧ t.root.LeftFor (run step s ops).root := by
  have hkept : ∀ (t : WorldSession) op, Known roots t →
      roots (t.step op).root ∧ ¬ t.TakesRestore op → Known roots (t.step op) :=
    fun t op ht hop => known_step ht hop.1
  have hknown : Along step (fun s op => s.root.LeftFor (s.step op).root) s ops :=
    along_of_invariant hkept (fun t op ht hop => leftFor_step hfree ht hop.2) h
      (along_and (along_of_visited hroots) hrestore)
  have hbetween := visited_between_along (R := fun t u : WorldSession => t.root.LeftFor u.root)
    (fun t => .refl t.root) (fun _ _ _ hab hbc => hab.trans hbc) (fun _ _ hop => hop) hknown
  exact hbetween

/-! ## 3. Prepared and committed -/

/-- A fresh token holds the identity of the root it was prepared from. -/
theorem baseIdentity_of_prepare {request : MutationRequest} {token : PreparedMutation}
    (h : (WriteLease.prepare s.world request).1 = .ok token)
    (hfresh : token.replayReceipt = none) :
    token.request = request ∧ token.baseIdentity = s.root.identity := by
  obtain ⟨ledger', hprepare, -⟩ := (WriteLease.prepare_outcome s.world request).2 token h
  rcases prepare_cases request s.world.authority.capture.1 s.world.ledger with ⟨err, herr, -⟩ |
    ⟨receipt, made, -, hmade, -, hreplay, -⟩ | ⟨made, ledger₁, -, -, hmade, -, hsealed⟩
  · rw [hprepare] at herr
    cases herr
  · obtain rfl := Except.ok.inj (Prod.mk.inj (hprepare.symm.trans hmade)).1
    rw [hfresh] at hreplay
    cases hreplay
  · obtain rfl := Except.ok.inj (Prod.mk.inj (hprepare.symm.trans hmade)).1
    exact ⟨hsealed.request_eq, hsealed.baseIdentity_eq⟩

/-- The step publishes a commit. -/
def CommitsSome (s : WorldSession) (op : WorldOp) : Prop :=
  ∃ token d receipt, s.Commits op token d receipt

/-- Nothing is published along the run. -/
structure Undisturbed (s : WorldSession) (ops : List WorldOp) : Prop where
  parts : ∀ t ∈ visited step s ops, s.root.SameParts t.root
  commits : Along step (fun s op => ¬ s.CommitsSome op) s ops

theorem undisturbed_of_sameCut (hfree : PublishedStateRoot.CollisionFree roots)
    (h : Known roots s) {ops : List WorldOp} (hroots : ∀ t ∈ visited step s ops, roots t.root)
    (hrestore : Along step (fun s op => ¬ s.TakesRestore op) s ops)
    (hsame : (run step s ops).root.SameCut s.root) : s.Undisturbed ops := by
  have hparts : ∀ t ∈ visited step s ops, s.root.SameParts t.root := by
    intro t ht
    obtain ⟨hbefore, hafter⟩ := leftFor_visited hfree h hroots hrestore t ht
    exact hbefore.sameParts hafter hsame
  refine ⟨hparts, along_of_splits fun first op rest hsplit => ?_⟩
  subst hsplit
  rintro ⟨token, d, receipt, hcommits⟩
  have hknown : Known roots (run step s first) :=
    known_run h fun t ht => hroots t (mem_visited_append_left _ ht)
  have hhere := hparts _ (mem_visited_append_left _ (run_mem_visited s first))
  have hnext := hparts ((run step s first).step op)
    (mem_visited_append_right (List.mem_cons_of_mem _ (start_mem_visited _ _)))
  have hworld := (hcommits.effect hfree hknown).world
  rw [hnext.stamp, hhere.stamp] at hworld
  exact absurd hworld (Nat.ne_of_lt (Nat.lt_succ_self _))

/-- **A commit finds what its prepare left.** Whatever the world did since a batch that names
a section was prepared, it is committed only if none of it was published. -/
theorem undisturbed_of_commits (roots : PublishedStateRoot → Prop)
    (hfree : PublishedStateRoot.CollisionFree roots) (world : WorldInstance)
    (before middle : List WorldOp) (request : MutationRequest) (op : WorldOp)
    (token : PreparedMutation) (d : CommitDraft) (receipt : MutationReceipt)
    (hroots : ∀ s ∈ visited step (.start world) (before ++ .prepare request :: middle),
      roots s.root)
    (hprepared : (WriteLease.prepare (run step (.start world) before).world request).1 = .ok token)
    (hcommits : (run step (.start world) (before ++ .prepare request :: middle)).Commits op token d
      receipt) (hnames : ∃ id, request.Names id) :
    (run step (.start world) before).Undisturbed (.prepare request :: middle) := by
  have hknown := known_visited hroots
  have hbefore := hknown _ (mem_visited_append_left _ (run_mem_visited _ before))
  have hlast := hknown _ (run_mem_visited _ _)
  have hmiddle : ∀ t ∈ visited step (run step (.start world) before) (.prepare request :: middle),
      roots t.root := fun t ht => hroots t (mem_visited_append_right ht)
  obtain ⟨base, configHash, -, hsealed, -⟩ := hcommits.sealed hlast
  obtain ⟨hrequest, hidentity⟩ := baseIdentity_of_prepare hprepared hsealed.fresh
  -- the sections the batch names are resident when it is committed
  have hwarm : ¬ Cold (run step (.start world) (before ++ .prepare request :: middle)).root := by
    intro hcold
    obtain ⟨id, hname⟩ := hnames
    rw [← hrequest] at hname
    obtain ⟨payload, hready⟩ := hcommits.committed.draftOf.resident id hname
    exact hcold id payload hready
  have hsame : (run step (.start world) (before ++ .prepare request :: middle)).root.SameCut
      (run step (.start world) before).root := by
    apply hfree _ _ hlast.root hbefore.root
    exact hcommits.committed.draftOf.baseIdentity.symm.trans hidentity
  rw [run_append] at hwarm hsame
  exact undisturbed_of_sameCut hfree hbefore hmiddle
    (along_not_takesRestore hbefore (along_of_visited hmiddle) hwarm) hsame

omit [UnicodeTables] in
/-- A cut is captured and written while a batch waits for its commit. -/
theorem undisturbed_of_commits_captured : letI := asciiOnly
    ∃ (authority : PublicationAuthority) (cut : RuntimeSnapshotCut) (cap : Nat)
      (token : PreparedMutation) (d : CommitDraft) (receipt : MutationReceipt),
      let s := start (runningWorld authority none)
      let request := originRequest "txn" [(⟨5, by decide⟩, ⟨1⟩)]
      let waiting := [.prepare request, .capture cut, .encode 0 cap]
      authority.root = oneSectionRoot ⟨0⟩ ∧
      (run step s waiting).Commits (.commit 0) token d receipt ∧
      (run step s waiting).captures ≠ [] ∧ (run step s waiting).snapshots ≠ [] ∧
      s.Undisturbed waiting ∧
      ((run step s waiting).step (.commit 0)).root.stamp.worldRevision = 1 := by
  let _ := asciiOnly
  obtain ⟨authority, cut, cap, _, _, _, token, d, receipt, snapshot, candidate, ⟨hroot, hlast⟩,
    hcommits, -, heffect, hrestores, -⟩ := exists_overtaken [(⟨5, by decide⟩, ⟨1⟩)] (by decide)
  let s : WorldSession := start (runningWorld authority none)
  let request := originRequest "txn" [(⟨5, by decide⟩, ⟨1⟩)]
  have hfree : PublishedStateRoot.CollisionFree fun root => root = oneSectionRoot ⟨0⟩ := by
    rintro a b rfl rfl -
    exact .refl _
  have hprepared : (s.step (.prepare request)).root = oneSectionRoot ⟨0⟩ :=
    (WriteLease.prepare_outcome _ _).1.root.trans hroot
  have hcaptured : ((s.step (.prepare request)).step (.capture cut)).root = oneSectionRoot ⟨0⟩ :=
    (capture_outcome _ _).1.root.trans hprepared
  have hundisturbed : s.Undisturbed [.prepare request, .capture cut, .encode 0 cap] := by
    refine undisturbed_of_commits (fun root => root = oneSectionRoot ⟨0⟩) hfree
      (runningWorld authority none) [] [.capture cut, .encode 0 cap] request (.commit 0) token d
      receipt ?_ ?_ hcommits ⟨originSection, ?_⟩
    · intro t ht
      simp only [List.nil_append, visited, List.mem_cons, List.not_mem_nil, or_false] at ht
      rcases ht with rfl | rfl | rfl | rfl
      · exact hroot
      · exact hprepared
      · exact hcaptured
      · exact hlast.trans hroot
    · obtain ⟨i, -, htoken⟩ := hcommits.named
      have hmem := List.mem_of_getElem? htoken
      rw [run_nil]
      simp only [step, prepare, capture, encode, start, List.nil_append] at hmem
      exact Fallible.toOption_eq_some.mp (Option.mem_toList.mp hmem)
    · exact List.ne_nil_of_mem
        (List.mem_filter.mpr ⟨List.mem_singleton.mpr rfl, decide_eq_true rfl⟩)
  -- the snapshot that was written is one of the capture
  obtain ⟨j, worldId, generation, config, -, hsnapshot, -⟩ := hrestores.named
  have hsnapshots : (run step s [.prepare request, .capture cut, .encode 0 cap]).snapshots ≠ [] :=
    List.ne_nil_of_mem (List.mem_of_getElem? hsnapshot)
  have hcaptures : (run step s [.prepare request, .capture cut, .encode 0 cap]).captures ≠ [] := by
    intro hnone
    apply hsnapshots
    have hnone' : ((s.step (.prepare request)).step (.capture cut)).captures = [] := hnone
    show (((s.step (.prepare request)).step (.capture cut)).encode 0 cap).snapshots = []
    rw [encode, hnone']
    rfl
  refine ⟨authority, cut, cap, token, d, receipt, hroot, hcommits, hcaptures, hsnapshots,
    hundisturbed, ?_⟩
  have hworld := heffect.world
  rw [hlast, hroot] at hworld
  exact UInt64.toNat_inj.mp hworld

end WorldSession

end Undisturbed

end LumioVoxel
