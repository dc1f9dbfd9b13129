import LumioVoxel.WorldProgress

/-!
# The lineage of the published root

A commit, an acknowledgement and an unload publish a root on top of the one before.  A
restore does not: what it publishes goes back to the root its snapshot was captured at.
A session is followed here together with the transactions its published root carries,
and with what each capture and each snapshot carries; the ledger is then held against
that.
-/

namespace LumioVoxel

open DebugText Fallible StepRuns

section Lineage

variable [UnicodeTables]

/-! ## 1. Commits and restores that go through -/

namespace WorldSession

/-- The transaction that the step publishes. -/
def publishes (s : WorldSession) (op : WorldOp) : Option String :=
  match op with
  | .commit i => s.tokens[i]?.bind fun token =>
    if s.world.ledger.status token.txnId ≠ .applied ∧
        (s.step op).world.ledger.status token.txnId = .applied then
      some token.txnId
    else none
  | _ => none

/-- The snapshot that the step puts back. -/
def restores (s : WorldSession) (op : WorldOp) : Option Nat :=
  match op with
  | .restore j expectedWorldId expectedGeneration config =>
    (s.candidate j expectedWorldId expectedGeneration config).bind fun candidate =>
      match (LumioVoxel.restore s.world candidate).1 with
      | .ok _ => some j
      | .error _ => none
  | _ => none

variable {s : WorldSession} {op : WorldOp} {txnId : String} {j : Nat}

/-- A published transaction was not applied before. -/
theorem of_publishes (h : s.publishes op = some txnId) :
    ¬ s.Applied txnId ∧ (s.step op).Applied txnId := by
  cases op with
  | commit i =>
    obtain ⟨token, -, hsome⟩ := Option.bind_eq_some_iff.mp h
    split at hsome
    · rename_i hnew
      obtain rfl := Option.some.inj hsome
      exact hnew
    · cases hsome
  | _ => cases h

/-- What is applied after a step was applied before or is what the step published. -/
theorem applied_step_iff : (s.step op).Applied txnId ↔
    s.Applied txnId ∨ s.publishes op = some txnId := by
  constructor
  · intro happlied
    by_cases hold : s.Applied txnId
    · exact .inl hold
    right
    cases effect_step s op with
    | committed token d receipt hcommits =>
      obtain ⟨i, rfl, htoken⟩ := hcommits.named
      rcases (hcommits.committed.applied_iff txnId).mp happlied with hbefore | rfl
      · exact absurd hbefore hold
      · rw [publishes, htoken, Option.bind_some]
        exact if_pos ⟨hold, happlied⟩
    | kept _ hsame => exact absurd ((hsame txnId).mp happlied) hold
    | acked _ _ _ _ hsame => exact absurd ((hsame txnId).mp happlied) hold
    | unloaded _ _ _ _ _ hsame => exact absurd ((hsame txnId).mp happlied) hold
    | restored _ _ _ hsame => exact absurd ((hsame txnId).mp happlied) hold
  · rintro (hold | hnew)
    · exact applied_step hold op
    · exact (of_publishes hnew).2

/-- A snapshot is put back exactly by a restore that the world accepts. -/
theorem restores_eq_some : s.restores op = some j ↔
    ∃ expectedWorldId expectedGeneration config candidate,
      op = .restore j expectedWorldId expectedGeneration config ∧
        s.candidate j expectedWorldId expectedGeneration config = some candidate ∧
        RestoreAccepted s.world candidate := by
  constructor
  · intro h
    cases op with
    | restore j' expectedWorldId expectedGeneration config =>
      obtain ⟨candidate, hcandidate, hsome⟩ := Option.bind_eq_some_iff.mp h
      rcases restore_outcome s.world candidate with ⟨err, hrun, -⟩ | ⟨receipt, hrun, haccepted, -⟩
      · rw [hrun] at hsome
        cases hsome
      · rw [hrun] at hsome
        obtain rfl := Option.some.inj hsome
        exact ⟨expectedWorldId, expectedGeneration, config, candidate, rfl, hcandidate, haccepted⟩
    | _ => cases h
  · rintro ⟨expectedWorldId, expectedGeneration, config, candidate, rfl, hcandidate, haccepted⟩
    rcases restore_outcome s.world candidate with ⟨err, -, hno, -⟩ | ⟨receipt, hrun, -⟩
    · exact absurd haccepted hno
    · simp only [restores, hcandidate, Option.bind_some, hrun]

theorem Restores.restores_eq {worldId : String} {generation : UInt64}
    {config : VoxelConfigSnapshot} {snapshot : SavedSnapshot} {candidate : SealedRestoreCandidate}
    (h : s.Restores (.restore j worldId generation config) snapshot candidate) :
    s.restores (.restore j worldId generation config) = some j := by
  obtain ⟨_, _, _, _, hop, hsnapshot, hmade⟩ := h.named
  injection hop with hj hworld hgen hconfig
  subst hj hworld hgen hconfig
  have hcandidate : s.candidate j worldId generation config = some candidate := by
    rw [WorldSession.candidate, hsnapshot]
    exact toOption_eq_some.mpr hmade
  exact restores_eq_some.mpr ⟨worldId, generation, config, candidate, rfl, hcandidate, h.accepted⟩

theorem publishes_of_restores (h : s.restores op = some j) : s.publishes op = none := by
  obtain ⟨_, _, _, _, rfl, -⟩ := restores_eq_some.mp h
  rfl

theorem snapshot_of_restores (h : s.restores op = some j) : j < s.snapshots.length := by
  obtain ⟨_, _, _, _, -, hcandidate, -⟩ := restores_eq_some.mp h
  obtain ⟨snapshot, hsnapshot, -⟩ := Option.bind_eq_some_iff.mp hcandidate
  exact (List.getElem?_eq_some_iff.mp hsnapshot).1

end WorldSession

/-! ## 2. Sessions with their lineage -/

/-- The transactions a captured root carries, and how many commits there were before it. -/
structure CutNote where
  carried : List String
  commits : Nat

/-- A session with the transactions its published root carries: their commits published
it, or a root it was built on, or a root whose snapshot was put back.  Captures and
snapshots have one note each. -/
structure TracedSession where
  session : WorldSession
  carried : List String
  commits : Nat
  captures : List CutNote
  snapshots : List CutNote

def ReceiptLedger.appliedIds (ledger : ReceiptLedger) : List String :=
  (ledger.entries.toList.filter fun item => item.2.receipt.isSome).map (·.1)

omit [UnicodeTables] in
theorem ReceiptLedger.mem_appliedIds {ledger : ReceiptLedger} {txnId : String} :
    txnId ∈ ledger.appliedIds ↔ ledger.status txnId = .applied := by
  rw [status_applied_iff, appliedIds, List.mem_map]
  constructor
  · rintro ⟨item, hitem, rfl⟩
    obtain ⟨hin, hsome⟩ := List.mem_filter.mp hitem
    exact ⟨item.2, BTreeMap.mem_toList.mp hin, hsome⟩
  · rintro ⟨entry, hentry, hsome⟩
    exact ⟨(txnId, entry), List.mem_filter.mpr ⟨BTreeMap.mem_toList.mpr hentry, hsome⟩, rfl⟩

omit [UnicodeTables] in
theorem ReceiptLedger.not_applied_of_inFlight {ledger : ReceiptLedger} {request : MutationRequest}
    (h : ledger.lookup request = .ok .inFlight) : ledger.status request.txnId ≠ .applied := by
  intro happlied
  obtain ⟨-, entry, hentry, -, hnone⟩ := lookup_inFlight.mp h
  obtain ⟨entry', hentry', hsome⟩ := status_applied_iff.mp happlied
  obtain rfl := Option.some.inj (hentry.symm.trans hentry')
  rw [hnone] at hsome
  cases hsome

namespace TracedSession

/-- The first root carries what its ledger has applied. -/
def start (world : WorldInstance) : TracedSession :=
  ⟨.start world, world.ledger.appliedIds, 0, [], []⟩

def step (t : TracedSession) (op : WorldOp) : TracedSession where
  session := t.session.step op
  carried := match t.session.restores op with
    | some j => (t.snapshots[j]?.map CutNote.carried).getD []
    | none => t.carried ++ (t.session.publishes op).toList
  commits := t.commits + (t.session.publishes op).toList.length
  captures := match op with
    | .capture cut => t.captures ++
      ((LumioVoxel.capture t.session.world cut).1.toOption.map fun _ =>
        CutNote.mk t.carried t.commits).toList
    | .release k => t.captures.eraseIdx k
    | _ => t.captures
  snapshots := match op with
    | .encode k cap => t.snapshots ++
      ((t.session.captures[k]?.bind (·.save cap)).bind fun _ => t.captures[k]?).toList
    | _ => t.snapshots

/-- What the ledger reports applied is carried by the published root, and so is what is
answered as a replay. -/
def CoDurable (t : TracedSession) : Prop :=
  (∀ txnId, t.session.Applied txnId → txnId ∈ t.carried) ∧
    ∀ request receipt, t.session.world.ledger.lookup request = .ok (.duplicate receipt) →
      request.txnId ∈ t.carried

/-- The step has the world accept a snapshot after whose capture a commit was published. -/
def Overtaken (t : TracedSession) (op : WorldOp) : Prop :=
  ∃ j expectedWorldId expectedGeneration config candidate note,
    op = .restore j expectedWorldId expectedGeneration config ∧
      t.session.candidate j expectedWorldId expectedGeneration config = some candidate ∧
      RestoreAccepted t.session.world candidate ∧
      t.snapshots[j]? = some note ∧ note.commits < t.commits

/-! ## 3. What the notes say -/

variable {t : TracedSession} {op : WorldOp} {note : CutNote}

theorem mem_captures_step (h : note ∈ (t.step op).captures) :
    note ∈ t.captures ∨ t.session.publishes op = none ∧ note = ⟨t.carried, t.commits⟩ := by
  cases op with
  | capture cut =>
    rcases List.mem_append.mp h with hold | hnew
    · exact .inl hold
    · obtain ⟨-, -, rfl⟩ := Option.map_eq_some_iff.mp (Option.mem_toList.mp hnew)
      exact .inr ⟨rfl, rfl⟩
  | release k => exact .inl (List.mem_of_mem_eraseIdx h)
  | _ => exact .inl h

theorem mem_snapshots_step (h : note ∈ (t.step op).snapshots) :
    note ∈ t.snapshots ∨ note ∈ t.captures := by
  cases op with
  | encode k cap =>
    rcases List.mem_append.mp h with hold | hnew
    · exact .inl hold
    · obtain ⟨-, -, hnote⟩ := Option.bind_eq_some_iff.mp (Option.mem_toList.mp hnew)
      exact .inr (List.mem_of_getElem? hnote)
  | _ => exact .inl h

/-- A note is about the past, and what was committed since is missing from it. -/
structure NoteOf (t : TracedSession) (note : CutNote) : Prop where
  applied : ∀ txnId ∈ note.carried, t.session.Applied txnId
  past : note.commits ≤ t.commits
  missing : note.commits < t.commits → ∃ txnId, t.session.Applied txnId ∧ txnId ∉ note.carried

theorem noteOf_step (h : t.NoteOf note) (op : WorldOp) : (t.step op).NoteOf note := by
  constructor
  · intro txnId hcarried
    exact WorldSession.applied_step (h.applied txnId hcarried) op
  · exact h.past.trans (Nat.le_add_right _ _)
  · intro hlt
    cases hnew : t.session.publishes op with
    | none =>
      have hcommits : (t.step op).commits = t.commits := by simp only [step, hnew]; rfl
      rw [hcommits] at hlt
      obtain ⟨txnId, happlied, hmissing⟩ := h.missing hlt
      exact ⟨txnId, WorldSession.applied_step happlied op, hmissing⟩
    | some txnId =>
      obtain ⟨hnot, happlied⟩ := WorldSession.of_publishes hnew
      refine ⟨txnId, happlied, ?_⟩
      intro hcarried
      exact hnot (h.applied txnId hcarried)

/-- The notes are of what they stand for, and nothing is carried that is not applied. -/
structure Noted (t : TracedSession) : Prop where
  carried : ∀ txnId ∈ t.carried, t.session.Applied txnId
  captured : t.captures.length = t.session.captures.length
  saved : t.snapshots.length = t.session.snapshots.length
  captures : ∀ note ∈ t.captures, t.NoteOf note
  snapshots : ∀ note ∈ t.snapshots, t.NoteOf note

/-- The note of a capture made now. -/
theorem Noted.noteOf_now (h : t.Noted) : t.NoteOf ⟨t.carried, t.commits⟩ where
  applied := h.carried
  past := le_rfl
  missing := fun hlt => absurd hlt (lt_irrefl _)

theorem noted_start (world : WorldInstance) : (start world).Noted where
  carried := fun _ hcarried => ReceiptLedger.mem_appliedIds.mp hcarried
  captured := rfl
  saved := rfl
  captures := fun _ hnote => absurd hnote List.not_mem_nil
  snapshots := fun _ hnote => absurd hnote List.not_mem_nil

private theorem length_captures_step (h : t.captures.length = t.session.captures.length)
    (op : WorldOp) : (t.step op).captures.length = (t.step op).session.captures.length := by
  cases op with
  | capture cut =>
    simp only [step, WorldSession.step, WorldSession.capture, List.length_append, h]
    cases (LumioVoxel.capture t.session.world cut).1 with
    | error err => rfl
    | ok done => rfl
  | release k =>
    simp only [step, WorldSession.step, WorldSession.release, List.length_eraseIdx, h]
  | _ => exact h

private theorem length_snapshots_step (h : t.Noted) (op : WorldOp) :
    (t.step op).snapshots.length = (t.step op).session.snapshots.length := by
  cases op with
  | encode k cap =>
    simp only [step, WorldSession.step, WorldSession.encode, List.length_append, h.saved]
    cases hcaptured : t.session.captures[k]? with
    | none => rfl
    | some captured =>
      simp only [Option.bind_some]
      cases hsave : captured.save cap with
      | none => rfl
      | some snapshot =>
        have hlt : k < t.captures.length := by
          rw [h.captured]
          exact (List.getElem?_eq_some_iff.mp hcaptured).1
        simp only [Option.bind_some, List.getElem?_eq_getElem hlt]
        rfl
  | _ => exact h.saved

theorem noted_step (h : t.Noted) (op : WorldOp) : (t.step op).Noted := by
  have hcarried : ∀ txnId ∈ (t.step op).carried, (t.step op).session.Applied txnId := by
    intro txnId hmem
    apply WorldSession.applied_step_iff.mpr
    simp only [step] at hmem
    split at hmem
    · rename_i j hrestores
      cases hnote : t.snapshots[j]? with
      | none =>
        rw [hnote] at hmem
        exact absurd hmem List.not_mem_nil
      | some note =>
        rw [hnote] at hmem
        exact .inl ((h.snapshots note (List.mem_of_getElem? hnote)).applied txnId hmem)
    · rcases List.mem_append.mp hmem with hold | hnew
      · exact .inl (h.carried txnId hold)
      · exact .inr (Option.mem_toList.mp hnew)
  have hcaptures : ∀ note ∈ (t.step op).captures, (t.step op).NoteOf note := by
    intro note hnote
    rcases mem_captures_step hnote with hold | ⟨-, rfl⟩
    · exact noteOf_step (h.captures note hold) op
    · exact noteOf_step h.noteOf_now op
  have hsnapshots : ∀ note ∈ (t.step op).snapshots, (t.step op).NoteOf note := by
    intro note hnote
    rcases mem_snapshots_step hnote with hold | hnew
    · exact noteOf_step (h.snapshots note hold) op
    · exact noteOf_step (h.captures note hnew) op
  exact ⟨hcarried, length_captures_step h.captured op, length_snapshots_step h op, hcaptures,
    hsnapshots⟩

/-! ## 4. Receipts and lineage -/

/-- While no commit came after it, the note carries what is applied. -/
def Current (t : TracedSession) (note : CutNote) : Prop :=
  note.commits = t.commits → ∀ txnId, t.session.Applied txnId → txnId ∈ note.carried

theorem current_step (hnote : t.NoteOf note) (h : t.Current note) (op : WorldOp) :
    (t.step op).Current note := by
  intro hcommits txnId happlied
  simp only [step] at hcommits
  have hpast := hnote.past
  cases hnew : t.session.publishes op with
  | none =>
    rw [hnew] at hcommits
    rcases WorldSession.applied_step_iff.mp happlied with hold | hpublished
    · exact h hcommits txnId hold
    · rw [hnew] at hpublished
      cases hpublished
  | some published =>
    rw [hnew, Option.toList_some, List.length_singleton] at hcommits
    omega

/-- Everything applied is carried, by the root and by each note without later commits. -/
structure Faithful (t : TracedSession) : Prop extends Noted t where
  applied : ∀ txnId, t.session.Applied txnId → txnId ∈ t.carried
  currentCaptures : ∀ note ∈ t.captures, t.Current note
  currentSnapshots : ∀ note ∈ t.snapshots, t.Current note

theorem faithful_start (world : WorldInstance) : (start world).Faithful where
  toNoted := noted_start world
  applied := fun _ happlied => ReceiptLedger.mem_appliedIds.mpr happlied
  currentCaptures := fun _ hnote => absurd hnote List.not_mem_nil
  currentSnapshots := fun _ hnote => absurd hnote List.not_mem_nil

theorem faithful_step (h : t.Faithful) (hop : ¬ t.Overtaken op) : (t.step op).Faithful := by
  have happlied : ∀ txnId, (t.step op).session.Applied txnId → txnId ∈ (t.step op).carried := by
    intro txnId hnow
    simp only [step]
    split
    · rename_i j hrestores
      have hnew := WorldSession.publishes_of_restores hrestores
      have hlt : j < t.snapshots.length := by
        rw [h.saved]
        exact WorldSession.snapshot_of_restores hrestores
      have hnote := List.getElem?_eq_getElem hlt
      have hmem := List.getElem_mem hlt
      obtain ⟨worldId, generation, config, candidate, rfl, hcandidate, haccepted⟩ :=
        WorldSession.restores_eq_some.mp hrestores
      -- the snapshot was not overtaken, so its note is current
      have hcommits : t.snapshots[j].commits = t.commits := by
        apply le_antisymm (h.snapshots _ hmem).past
        apply not_lt.mp
        intro hbehind
        exact hop ⟨j, worldId, generation, config, candidate, _, rfl, hcandidate, haccepted, hnote,
          hbehind⟩
      rw [hnote]
      rcases WorldSession.applied_step_iff.mp hnow with hold | hpublished
      · exact h.currentSnapshots _ hmem hcommits txnId hold
      · rw [hnew] at hpublished
        cases hpublished
    · rcases WorldSession.applied_step_iff.mp hnow with hold | hpublished
      · exact List.mem_append_left _ (h.applied txnId hold)
      · exact List.mem_append_right _ (Option.mem_toList.mpr hpublished)
  have hcaptures : ∀ note ∈ (t.step op).captures, (t.step op).Current note := by
    intro note hnote
    rcases mem_captures_step hnote with hold | ⟨-, rfl⟩
    · exact current_step (h.captures note hold) (h.currentCaptures note hold) op
    · exact current_step h.noteOf_now (fun _ => h.applied) op
  have hsnapshots : ∀ note ∈ (t.step op).snapshots, (t.step op).Current note := by
    intro note hnote
    rcases mem_snapshots_step hnote with hold | hnew
    · exact current_step (h.snapshots note hold) (h.currentSnapshots note hold) op
    · exact current_step (h.captures note hnew) (h.currentCaptures note hnew) op
  exact ⟨noted_step h.toNoted op, happlied, hcaptures, hsnapshots⟩

theorem Faithful.coDurable (h : t.Faithful) : t.CoDurable := by
  constructor
  · exact h.applied
  · intro request receipt hdup
    obtain ⟨-, entry, hentry, -, hreceipt⟩ := ReceiptLedger.lookup_duplicate.mp hdup
    apply h.applied
    apply ReceiptLedger.status_applied_iff.mpr
    exact ⟨entry, hentry, by rw [hreceipt]; rfl⟩

/-- Putting back an overtaken snapshot loses a transaction that stays applied. -/
theorem not_coDurable_of_overtaken (h : t.Noted) (hop : t.Overtaken op) :
    ¬ (t.step op).CoDurable := by
  obtain ⟨j, worldId, generation, config, candidate, note, rfl, hcandidate, haccepted, hnote,
    hbehind⟩ := hop
  obtain ⟨txnId, happlied, hmissing⟩ :=
    (h.snapshots note (List.mem_of_getElem? hnote)).missing hbehind
  have hrestores : t.session.restores (.restore j worldId generation config) = some j :=
    WorldSession.restores_eq_some.mpr
      ⟨worldId, generation, config, candidate, rfl, hcandidate, haccepted⟩
  intro hdurable
  have hcarried := hdurable.1 txnId (WorldSession.applied_step happlied _)
  simp only [step, hrestores, hnote, Option.map_some, Option.getD_some] at hcarried
  exact hmissing hcarried

/-- **Receipts and the published root.** In every state of a run what the ledger reports
applied is carried by the published root exactly when no restore of the run puts back a
snapshot that a commit has overtaken. -/
theorem receipts_coDurable_iff (world : WorldInstance) (ops : List WorldOp) :
    (∀ t ∈ visited step (.start world) ops, t.CoDurable) ↔
      Along step (fun t op => ¬ t.Overtaken op) (.start world) ops := by
  constructor
  · intro hall
    have hafter := along_of_visited hall
    have hstep : ∀ (t : TracedSession) op, t.Noted → (t.step op).CoDurable → (t.step op).Noted :=
      fun t op h _ => noted_step h op
    apply along_of_invariant hstep _ (noted_start world) hafter
    intro t op hnoted hdurable hop
    exact not_coDurable_of_overtaken hnoted hop hdurable
  · intro hnone t ht
    have hstep : ∀ (t : TracedSession) op, t.Faithful → ¬ t.Overtaken op → (t.step op).Faithful :=
      fun t op h hop => faithful_step h hop
    exact (visited_invariant_along hstep (faithful_start world) hnone t ht).coDurable

omit [UnicodeTables] in
/-- A snapshot taken before a commit and put back after it: the world is at its first
revision again, and the transaction is applied. -/
theorem overtaken_receipt : letI := asciiOnly
    ∃ (authority : PublicationAuthority) (cut : RuntimeSnapshotCut) (cap : Nat)
      (worldId : String) (generation : UInt64) (config : VoxelConfigSnapshot),
      let last := run step (.start (runningWorld authority none))
        [.prepare (originRequest "txn" [(⟨5, by decide⟩, ⟨1⟩)]), .capture cut, .encode 0 cap,
          .commit 0, .restore 0 worldId generation config]
      last.session.root.stamp.worldRevision = 0 ∧ last.session.Applied "txn" ∧
        "txn" ∉ last.carried ∧ ¬ last.CoDurable := by
  let _ := asciiOnly
  obtain ⟨authority, cut, cap, worldId, generation, config, token, d, receipt, snapshot, candidate,
    ⟨hroot, hsame⟩, hcommits, htxn, -, hrestores, hcut⟩ :=
    WorldSession.exists_overtaken [(⟨5, by decide⟩, ⟨1⟩)] (by decide)
  let t₃ := (((TracedSession.start (runningWorld authority none)).step
    (.prepare (originRequest "txn" [(⟨5, by decide⟩, ⟨1⟩)]))).step (.capture cut)).step
    (.encode 0 cap)
  let last := (t₃.step (.commit 0)).step (.restore 0 worldId generation config)
  have happlied : last.session.Applied "txn" := by
    apply WorldSession.applied_step
    exact (hcommits.committed.applied_iff "txn").mpr (.inr htxn.symm)
  -- the note of the snapshot was made while the transaction was in flight
  have hmissing : "txn" ∉ last.carried := by
    have hnoted : t₃.Noted := noted_step (noted_step (noted_step (noted_start _) _) _) _
    have hnot : ¬ t₃.session.Applied "txn" :=
      htxn ▸ ReceiptLedger.not_applied_of_inFlight hcommits.inFlight
    have hrestored : (t₃.session.step (.commit 0)).restores (.restore 0 worldId generation config) =
        some 0 := hrestores.restores_eq
    have hcarried : last.carried = (t₃.snapshots[0]?.map CutNote.carried).getD [] := by
      simp only [last, step, hrestored]
    rw [hcarried]
    cases hnote : t₃.snapshots[0]? with
    | none => exact List.not_mem_nil
    | some note =>
      intro hmem
      exact hnot ((hnoted.snapshots note (List.mem_of_getElem? hnote)).applied "txn" hmem)
  refine ⟨authority, cut, cap, worldId, generation, config, ?_, happlied, hmissing, ?_⟩
  · have hworld := hrestores.cut.world
    rw [hcut, hsame, hroot] at hworld
    exact hworld
  · intro hdurable
    exact hmissing (hdurable.1 "txn" happlied)

end TracedSession

end Lineage

end LumioVoxel
