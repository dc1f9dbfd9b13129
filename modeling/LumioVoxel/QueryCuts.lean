import LumioVoxel.FillRuns
import LumioVoxel.QueryOrder

/-!
# Query cuts

A plan is walked on every view whose world revision is the one it was made for.
A commit moves that revision and an acknowledgement keeps the directory, but an
unload turns a ready section into a ticket under the same stamp.  So two walks of
one plan agree exactly as long as no section it names is unloaded in between.
-/

namespace LumioVoxel

open DebugText Fallible StepRuns

/-! ## 1. One walk -/

/-- Two views with the same slot for a section give the same answer for its key. -/
theorem access_congr {view₁ view₂ : PublishedReadView} {id : SectionId}
    (h : view₁.root.directory.entries[id]? = view₂.root.directory.entries[id]?) :
    access view₁ id.key = access view₂ id.key := by
  simp only [access, SectionDirectoryRoot.lookup_key, h]

/-- A key that is not canonical is refused alike on every view. -/
theorem access_of_not_key {raw : String} (h : ∀ id : SectionId, raw ≠ id.key) :
    ∃ err, ∀ view, access view raw = .error err := by
  cases hparse : SectionId.parse raw with
  | ok id => exact absurd (SectionId.parse_eq_ok.mp hparse) (h id)
  | error err =>
    refine ⟨.fromKey err, fun view => ?_⟩
    simp only [access, SectionDirectoryRoot.lookup, hparse]
    rfl

namespace QueryExecutor

variable {budget : Nat} {view view₁ view₂ : PublishedReadView}

/-- Charging the sections one by one stays within the budget and the counter, and
every key is canonical. -/
structure Fits (budget used : Nat) (sections : List String) : Prop where
  budget : ¬ budgetExceeds (used + sections.length) budget
  counter : used + sections.length < 2 ^ 64
  canonical : ∀ raw ∈ sections, ∃ id : SectionId, raw = id.key

theorem Fits.tail {used : Nat} {raw : String} {rest : List String}
    (h : Fits budget used (raw :: rest)) : Fits budget (used + 1) rest := by
  have hlength : used + 1 + rest.length = used + (raw :: rest).length := by
    rw [List.length_cons]
    omega
  refine ⟨hlength ▸ h.budget, hlength ▸ h.counter, fun other hother => ?_⟩
  exact h.canonical other (List.mem_cons_of_mem _ hother)

theorem walkSection_of {used : Nat} (items : List SectionAccessResult) {raw : String}
    {item : SectionAccessResult} (hcounter : used + 1 < 2 ^ 64)
    (hbudget : ¬ budgetExceeds (used + 1) budget) (hitem : access view raw = .ok item) :
    walkSection budget view none (used, items) raw = .ok (used + 1, items ++ [item]) := by
  simp only [walkSection, require_of hcounter, require_of hbudget, hitem, ok_bind, checkGuard]
  rfl

/-- A walk that fits reports the directory's answer for each section. -/
theorem walk_of_fits (view : PublishedReadView) {sections : List String} {used : Nat}
    (h : Fits budget used sections) (items : List SectionAccessResult) :
    ∃ found, foldSteps (walkSection budget view none) (used, items) sections =
        .ok (used + sections.length, items ++ found) ∧
      List.Forall₂ (fun raw item => access view raw = .ok item) sections found := by
  induction sections generalizing used items with
  | nil => exact ⟨[], by rw [List.append_nil]; rfl, .nil⟩
  | cons raw rest ih =>
    obtain ⟨id, rfl⟩ := h.canonical raw List.mem_cons_self
    obtain ⟨schemaId, hitem⟩ := access_key view id
    have hle : used + 1 ≤ used + (id.key :: rest).length := by
      rw [List.length_cons]
      omega
    have hbudget : ¬ budgetExceeds (used + 1) budget := fun hover =>
      h.budget (budgetExceeds_mono hle hover)
    obtain ⟨found, hwalk, hfound⟩ :=
      ih h.tail (items ++ [⟨id.key, accessPresence view.root id, schemaId⟩])
    refine ⟨_ :: found, foldSteps_cons_eq_ok.mpr
      ⟨_, walkSection_of items (Nat.lt_of_le_of_lt hle h.counter) hbudget hitem, ?_⟩,
      .cons hitem hfound⟩
    rw [hwalk, List.append_assoc, List.singleton_append, List.length_cons]
    congr 2
    omega

/-- A walk that does not fit is refused alike on every view. -/
theorem walk_of_not_fits {sections : List String} {used : Nat} (hne : sections ≠ [])
    (h : ¬ Fits budget used sections) : ∃ err, ∀ view items,
      foldSteps (walkSection budget view none) (used, items) sections = .error err := by
  induction sections generalizing used with
  | nil => exact absurd rfl hne
  | cons raw rest ih =>
    have hfirst : ∀ err : QueryError, (∀ view items,
        walkSection budget view none (used, items) raw = .error err) → ∃ err, ∀ view items,
        foldSteps (walkSection budget view none) (used, items) (raw :: rest) = .error err := by
      intro err hstep
      refine ⟨err, fun view items => ?_⟩
      rw [foldSteps, hstep view items]
    by_cases hcounter : used + 1 < 2 ^ 64
    swap
    · apply hfirst .budgetExceeded
      intro view items
      rw [walkSection, require_of_not hcounter]
      rfl
    by_cases hbudget : budgetExceeds (used + 1) budget
    · apply hfirst .budgetExceeded
      intro view items
      rw [walkSection, require_of hcounter, ok_bind, require_of_not (not_not.mpr hbudget)]
      rfl
    by_cases hkey : ∃ id : SectionId, raw = id.key
    swap
    · obtain ⟨err, herr⟩ := access_of_not_key (not_exists.mp hkey)
      apply hfirst err
      intro view items
      rw [walkSection, require_of hcounter, ok_bind, require_of hbudget, ok_bind, herr]
      rfl
    · have hlater : rest ≠ [] ∧ ¬ Fits budget (used + 1) rest := by
        have hlength : used + 1 + rest.length = used + (raw :: rest).length := by
          rw [List.length_cons]
          omega
        constructor
        · rintro rfl
          exact h ⟨hbudget, hcounter, fun other hother => List.mem_singleton.mp hother ▸ hkey⟩
        · intro hrest
          refine h ⟨hlength ▸ hrest.budget, hlength ▸ hrest.counter, fun other hother => ?_⟩
          rcases List.mem_cons.mp hother with rfl | hother
          · exact hkey
          · exact hrest.canonical other hother
      obtain ⟨err, hwalk⟩ := ih hlater.1 hlater.2
      obtain ⟨id, rfl⟩ := hkey
      refine ⟨err, fun view items => ?_⟩
      obtain ⟨schemaId, hitem⟩ := access_key view id
      rw [foldSteps, walkSection_of items hcounter hbudget hitem]
      exact hwalk view _

theorem worldRevision_of_bindCut {plan : QueryPlan} {u : Unit} (h : bindCut plan view = .ok u) :
    plan.readStamp.worldRevision = view.root.stamp.worldRevision := by
  simp only [bindCut, bind_eq_ok, require_eq_ok, exists_and_left, exists_const] at h
  exact h.1.2.2.2

/-- The walk is let in and fits. -/
def Walkable (plan : QueryPlan) (used : Nat) : Prop :=
  ¬ budgetExceeds used plan.budget ∧ Fits plan.budget used plan.canonicalSections

/-- The items of a walk, or its refusal. -/
def walkItems (plan : QueryPlan) (view : PublishedReadView) (used : Nat) :
    Except QueryError (List SectionAccessResult) :=
  (walkBound plan view used none).map (·.items)

theorem walkItems_of_walkable (view : PublishedReadView) {plan : QueryPlan} {used : Nat}
    (h : Walkable plan used) :
    ∃ found, walkItems plan view used = .ok found ∧
      List.Forall₂ (fun raw item => access view raw = .ok item) plan.canonicalSections found := by
  obtain ⟨found, hwalk, hfound⟩ := walk_of_fits view h.2 []
  refine ⟨found, ?_, hfound⟩
  simp only [walkItems, walkBound, require_of h.1, ok_bind, hwalk]
  rfl

/-- Refused alike on every view, or there is nothing to report. -/
theorem walkItems_of_not_walkable {plan : QueryPlan} {used : Nat} (h : ¬ Walkable plan used) :
    ∃ result, ∀ view, walkItems plan view used = result := by
  by_cases hin : budgetExceeds used plan.budget
  · refine ⟨.error .budgetExceeded, fun view => ?_⟩
    rw [walkItems, walkBound, require_of_not (not_not.mpr hin)]
    rfl
  by_cases hempty : plan.canonicalSections = []
  · refine ⟨.ok [], fun view => ?_⟩
    rw [walkItems, walkBound, require_of hin, hempty]
    rfl
  · obtain ⟨err, hwalk⟩ := walk_of_not_fits hempty fun hfits => h ⟨hin, hfits⟩
    refine ⟨.error err, fun view => ?_⟩
    rw [walkItems, walkBound, require_of hin, ok_bind, hwalk]
    rfl

/-- Walks that fit agree exactly when the directories answer alike for each section. -/
theorem walkItems_eq_iff {plan : QueryPlan} {used : Nat} (h : Walkable plan used) :
    walkItems plan view₁ used = walkItems plan view₂ used ↔
      ∀ raw ∈ plan.canonicalSections, access view₁ raw = access view₂ raw := by
  obtain ⟨found₁, hwalk₁, hfound₁⟩ := walkItems_of_walkable view₁ h
  obtain ⟨found₂, hwalk₂, hfound₂⟩ := walkItems_of_walkable view₂ h
  obtain ⟨hlength₁, hitem₁⟩ := List.forall₂_iff_get.mp hfound₁
  obtain ⟨hlength₂, hitem₂⟩ := List.forall₂_iff_get.mp hfound₂
  rw [hwalk₁, hwalk₂]
  constructor
  · intro hsame raw hraw
    obtain rfl := Except.ok.inj hsame
    obtain ⟨i, hi, rfl⟩ := List.getElem_of_mem hraw
    exact (hitem₁ i hi (hlength₁ ▸ hi)).trans (hitem₂ i hi (hlength₁ ▸ hi)).symm
  · intro hsame
    apply congrArg
    refine List.ext_get (hlength₁.symm.trans hlength₂) fun i h₁ h₂ => ?_
    have hi : i < plan.canonicalSections.length := hlength₁ ▸ h₁
    apply Except.ok.inj (ε := QueryError)
    rw [← hitem₁ i hi h₁, ← hitem₂ i hi h₂]
    exact hsame _ (List.get_mem _ _)

end QueryExecutor

/-! ## 2. The directory between two equal world revisions -/

section Cuts

variable [UnicodeTables]

/-- Every operation but a restore. -/
def WorldOp.KeepsHistory : WorldOp → Prop
  | .restore _ _ _ _ => False
  | _ => True

namespace WorldSession

variable {s : WorldSession} {roots : PublishedStateRoot → Prop}

/-- The step turns the section into a ticket. -/
def Unloads (s : WorldSession) (op : WorldOp) (id : SectionId) : Prop :=
  (∃ hook, op = .unload id.key hook) ∧ Unloaded id s.root (s.step op).root

/-- The slot is the same at both ends. -/
def SameSlot (s t : WorldSession) (id : SectionId) : Prop :=
  t.root.directory.entries[id]? = s.root.directory.entries[id]?

/-- The section went from ready to a ticket. -/
def Ticketed (s t : WorldSession) (id : SectionId) : Prop :=
  (∃ payload, s.root.directory.entries[id]? = some (.ready payload)) ∧
    t.root.directory.entries[id]? = some .unchanged

theorem Unloads.ticketed {op : WorldOp} {id : SectionId} (h : s.Unloads op id) :
    s.Ticketed (s.step op) id := ⟨h.2.resident, h.2.ticket⟩

/-- A step that takes no snapshot back moves the world revision up, or keeps it and every
slot but those it unloads. -/
theorem slot_step (hfree : PublishedStateRoot.CollisionFree roots) (h : Known roots s)
    {op : WorldOp} (hno : ¬ s.TakesRestore op) :
    s.root.stamp.worldRevision < (s.step op).root.stamp.worldRevision ∨
    (s.step op).root.stamp.worldRevision = s.root.stamp.worldRevision ∧
      ∀ id, ¬ s.Unloads op id → s.SameSlot (s.step op) id := by
  cases effect_step s op with
  | kept hroot _ => exact .inr ⟨by rw [hroot], fun id _ => by rw [SameSlot, hroot]⟩
  | committed token d receipt hcommits =>
    left
    rw [UInt64.lt_iff_toNat_lt, (hcommits.effect hfree h).world]
    exact Nat.lt_succ_self _
  | acked evidence coverage _ hacked _ =>
    exact .inr ⟨by rw [hacked.stamp], fun id _ => by rw [SameSlot, hacked.directory]⟩
  | unloaded hook named hop hunloaded _ _ =>
    refine .inr ⟨by rw [hunloaded.stamp], fun id hunload => ?_⟩
    by_cases hname : id = named
    · subst hname
      exact absurd ⟨⟨hook, hop⟩, hunloaded⟩ hunload
    · exact hunloaded.others id hname
  | restored snapshot candidate hrestores _ => exact absurd ⟨snapshot, candidate, hrestores⟩ hno

theorem not_takesRestore {op : WorldOp} (h : op.KeepsHistory) : ¬ s.TakesRestore op := by
  rintro ⟨snapshot, candidate, hrestores⟩
  obtain ⟨j, worldId, generation, config, rfl, -⟩ := hrestores.named
  exact h

/-- What a run without a restore carries. -/
structure Historic (roots : PublishedStateRoot → Prop) (s : WorldSession) (op : WorldOp) :
    Prop where
  keeps : op.KeepsHistory
  root : roots (s.step op).root

theorem worldRevision_le_run (hfree : PublishedStateRoot.CollisionFree roots) {ops : List WorldOp}
    (h : Known roots s) (hops : Along step (Historic roots) s ops) :
    s.root.stamp.worldRevision ≤ (run step s ops).root.stamp.worldRevision := by
  induction ops generalizing s with
  | nil => exact UInt64.le_refl _
  | cons op rest ih =>
    refine UInt64.le_trans ?_ (ih (known_step h hops.1.root) hops.2)
    rcases slot_step hfree h (not_takesRestore hops.1.keeps) with hlt | ⟨heq, -⟩
    · exact UInt64.le_of_lt hlt
    · exact UInt64.le_of_eq heq.symm

/-- Between two equal world revisions a slot changes only by an unload, for good. -/
theorem slot_run (hfree : PublishedStateRoot.CollisionFree roots) {ops : List WorldOp}
    (h : Known roots s) (hops : Along step (Historic roots) s ops)
    (hrevision : (run step s ops).root.stamp.worldRevision = s.root.stamp.worldRevision)
    (id : SectionId) :
    Along step (fun s op => ¬ s.Unloads op id) s ops ∧ s.SameSlot (run step s ops) id ∨
      ¬ Along step (fun s op => ¬ s.Unloads op id) s ops ∧ s.Ticketed (run step s ops) id := by
  induction ops generalizing s with
  | nil => exact .inl ⟨trivial, rfl⟩
  | cons op rest ih =>
    have hknown := known_step h hops.1.root
    rcases slot_step hfree h (not_takesRestore hops.1.keeps) with hlt | ⟨heq, hslots⟩
    · -- a commit is never undone
      have hle := worldRevision_le_run hfree hknown hops.2
      rw [show run step (s.step op) rest = run step s (op :: rest) from rfl, hrevision] at hle
      exact absurd hlt (UInt64.not_lt.mpr hle)
    · have hrest := ih hknown hops.2 (hrevision.trans heq.symm)
      by_cases hunload : s.Unloads op id
      · right
        obtain ⟨hready, hticket⟩ := hunload.ticketed
        refine ⟨fun halong => halong.1 hunload, hready, ?_⟩
        rcases hrest with ⟨-, hsame⟩ | ⟨-, ⟨payload, hagain⟩, -⟩
        · exact hsame.trans hticket
        · cases hagain.symm.trans hticket
      · have hsame := hslots id hunload
        rcases hrest with ⟨halong, hlater⟩ | ⟨hnot, ⟨payload, hready⟩, hticket⟩
        · exact .inl ⟨⟨hunload, halong⟩, hlater.trans hsame⟩
        · exact .inr ⟨fun halong => hnot halong.2, ⟨payload, hsame.symm.trans hready⟩, hticket⟩

/-- **The cut of a query.** Two published views of one run, the world revision the
same, give one plan the same items exactly when no section it names is unloaded
between them, or when the plan cannot be walked at all. -/
theorem same_items_iff (roots : PublishedStateRoot → Prop)
    (hfree : PublishedStateRoot.CollisionFree roots) (world : WorldInstance)
    (first second : List WorldOp)
    (hroots : ∀ s ∈ visited step (.start world) (first ++ second), roots s.root)
    (hkeeps : ∀ op ∈ second, op.KeepsHistory) (plan : QueryPlan) (view₁ view₂ : PublishedReadView)
    (hview₁ : view₁.root = (run step (.start world) first).root)
    (hview₂ : view₂.root = (run step (.start world) (first ++ second)).root)
    (hbind₁ : QueryExecutor.bindCut plan view₁ = .ok ())
    (hbind₂ : QueryExecutor.bindCut plan view₂ = .ok ()) (used : Nat) :
    QueryExecutor.walkItems plan view₁ used = QueryExecutor.walkItems plan view₂ used ↔
      ¬ QueryExecutor.Walkable plan used ∨
      Along step (fun s op => ∀ id : SectionId, id.key ∈ plan.canonicalSections → ¬ s.Unloads op id)
        (run step (.start world) first) second := by
  have hknown : Known roots (run step (.start world) first) :=
    known_visited hroots _ (mem_visited_append_left _ (run_mem_visited _ first))
  have hops : Along step (Historic roots) (run step (.start world) first) second := by
    have hlater := along_of_visited fun t ht => hroots t (mem_visited_append_right ht)
    exact along_mono (fun s op h => ⟨h.1, h.2⟩) (along_and (along_of_mem hkeeps _) hlater)
  rw [run_append] at hview₂
  have hrevision : (run step (run step (.start world) first) second).root.stamp.worldRevision =
      (run step (.start world) first).root.stamp.worldRevision := by
    rw [← hview₁, ← hview₂, ← QueryExecutor.worldRevision_of_bindCut hbind₁]
    exact (QueryExecutor.worldRevision_of_bindCut hbind₂).symm
  have hslots := slot_run hfree hknown hops hrevision
  by_cases hwalk : QueryExecutor.Walkable plan used
  swap
  · obtain ⟨result, hsame⟩ := QueryExecutor.walkItems_of_not_walkable hwalk
    exact iff_of_true ((hsame view₁).trans (hsame view₂).symm) (.inl hwalk)
  rw [QueryExecutor.walkItems_eq_iff hwalk, or_iff_right (not_not.mpr hwalk)]
  constructor
  · intro hsame
    apply along_forall
    intro id
    apply along_forall (κ := id.key ∈ plan.canonicalSections)
    intro hkey
    rcases hslots id with ⟨halong, -⟩ | ⟨-, ⟨payload, hready⟩, hticket⟩
    · exact halong
    · -- the two presences differ
      rw [← hview₁] at hready
      rw [← hview₂] at hticket
      obtain ⟨schemaId, hitem⟩ := access_key view₁ id
      have hpresence := access_presence ((hsame id.key hkey).symm.trans hitem)
      simp only [accessPresence, hready, hticket] at hpresence
      cases hpresence
  · intro halong raw hraw
    obtain ⟨id, rfl⟩ := hwalk.2.canonical raw hraw
    apply access_congr
    rcases hslots id with ⟨-, hsame⟩ | ⟨hnot, -⟩
    · rw [hview₁, hview₂]
      exact hsame.symm
    · exact absurd (along_mono (fun s op hno => hno id hraw) halong) hnot

/-! ## 3. One section unloaded -/

def sectionQuery (id : SectionId) : VoxelQueryRequest :=
  ⟨"query", "world", "context", [id.key], false⟩

omit [UnicodeTables] in
/-- A planned query for one section. -/
theorem exists_sectionPlan (id : SectionId) (view : PublishedReadView)
    (hvalid : validateRequest (sectionQuery id) view.root.stamp = .ok ()) :
    ∃ plan, (⟨nativeConfig, 8⟩ : QueryPlanner).plan (sectionQuery id) view nativeConfig = .ok plan ∧
      plan.canonicalSections = [id.key] ∧ plan.readStamp = view.root.stamp ∧ plan.budget = 8 ∧
      plan.cancelToken = "query" := by
  have hbudget : ¬ budgetExceeds (sectionQuery id).sectionIds.length 8 := by
    show ¬ budgetExceeds 1 8
    decide
  have hsection : SectionsOf (sectionQuery id).sectionIds [id] := by
    refine ⟨List.pairwise_singleton _ _, ?_⟩
    intro raw
    simp only [sectionQuery, List.mem_singleton, exists_eq_left]
  obtain ⟨plan, hplan⟩ : ∃ plan, QueryPlanner.plan ⟨nativeConfig, 8⟩ (sectionQuery id) view
      nativeConfig = .ok plan :=
    QueryPlanner.exists_plan_iff.mpr ⟨⟨hvalid, by decide, hbudget⟩, _, hsection⟩
  obtain ⟨-, ids, hash, hids, -, rfl⟩ := QueryPlanner.plan_eq_ok.mp hplan
  obtain rfl := hids.unique hsection
  exact ⟨_, hplan, rfl, rfl, rfl, rfl⟩

omit [UnicodeTables] in
theorem bindCut_of {plan : QueryPlan} {view : PublishedReadView}
    (hstamp : plan.readStamp = view.root.stamp) (htoken : plan.cancelToken = "query") :
    QueryExecutor.bindCut plan view = .ok () := by
  have hne : plan.cancelToken ≠ "" := by
    rw [htoken]
    decide
  simp only [QueryExecutor.bindCut, hstamp, require_of hne]
  rfl

omit [UnicodeTables] in
/-- A plan for one section goes through. -/
theorem walkable_of {plan : QueryPlan} {id : SectionId} (hsections : plan.canonicalSections =
    [id.key]) (hbudget : plan.budget = 8) : QueryExecutor.Walkable plan 0 := by
  refine ⟨by rw [hbudget]; decide, ?_, ?_, fun raw hraw => ?_⟩
  · rw [hbudget, hsections]
    show ¬ budgetExceeds 1 8
    decide
  · rw [hsections]
    show 0 + 1 < 2 ^ 64
    decide
  · rw [hsections, List.mem_singleton] at hraw
    exact ⟨id, hraw⟩

omit [UnicodeTables] in
/-- A section is acknowledged and unloaded, and a plan for its neighbour answers as before. -/
theorem same_items_iff_neighbour : letI := asciiOnly
    ∃ authority cut cap plan, let s := start (runningWorld authority none)
      let t := run step s (written cut cap)
      let u := run step s (written cut cap ++ settling)
      (⟨nativeConfig, 8⟩ : QueryPlanner).plan (sectionQuery neighbourSection)
          t.world.authority.capture.1 nativeConfig = .ok plan ∧
        QueryExecutor.Walkable plan 0 ∧
        QueryExecutor.bindCut plan t.world.authority.capture.1 = .ok () ∧
        QueryExecutor.bindCut plan u.world.authority.capture.1 = .ok () ∧
        (∃ payload, t.root.directory.entries[neighbourSection]? = some (.ready payload)) ∧
        u.root.directory.entries[originSection]? = some .unchanged ∧
        QueryExecutor.walkItems plan t.world.authority.capture.1 0 =
          QueryExecutor.walkItems plan u.world.authority.capture.1 0 := by
  let _ := asciiOnly
  obtain ⟨authority, cut, cap, -, -, hlife⟩ := exists_lived
  let s : WorldSession := start (runningWorld authority none)
  let t := run step s (written cut cap)
  let u := run step s (written cut cap ++ settling)
  have hshows : ∀ v : WorldSession, v.world.authority.capture.1.root = v.root := fun _ => rfl
  have hstamp : t.root.stamp = refilledRoot.stamp := hlife.refilled.alike.stamp
  have hlater : u.root.stamp = refilledRoot.stamp := hlife.ticketed.alike.stamp
  obtain ⟨plan, hplan, hsections, hread, hbudget, htoken⟩ := exists_sectionPlan neighbourSection
    t.world.authority.capture.1 (by rw [hshows, hstamp]; rfl)
  rw [hshows] at hread
  have hbind : QueryExecutor.bindCut plan t.world.authority.capture.1 = .ok () :=
    bindCut_of (hread.trans (congrArg (·.stamp) (hshows t).symm)) htoken
  have hbind' : QueryExecutor.bindCut plan u.world.authority.capture.1 = .ok () :=
    bindCut_of ((hread.trans (hstamp.trans hlater.symm)).trans
      (congrArg (·.stamp) (hshows u).symm)) htoken
  obtain ⟨payload, -, hready, -⟩ :=
    hlife.refilled.alike.resident (slot_refilled (slot_neighbour ⟨0⟩)) rfl
  refine ⟨authority, cut, cap, plan, hplan, walkable_of hsections hbudget, hbind, hbind',
    ⟨payload, hready⟩, hlife.unloads.ticket, ?_⟩
  refine (same_items_iff OfLife collisionFree_ofLife (runningWorld authority none) (written cut cap)
    settling (hlife.roots _ (List.append_assoc ..).symm) ?_ plan _ _ (hshows t) (hshows u) hbind
    hbind' 0).mpr (.inr (along_of_splits fun first op rest hsplit id hkey hunloads => ?_))
  · intro op hop
    simp only [settling, List.mem_cons, List.not_mem_nil, or_false] at hop
    rcases hop with rfl | rfl | rfl <;> trivial
  · obtain ⟨⟨hook, rfl⟩, -⟩ := hunloads
    have hin : WorldOp.unload id.key hook ∈ settling :=
      hsplit ▸ List.mem_append_right _ List.mem_cons_self
    simp only [settling, List.mem_cons, List.not_mem_nil, or_false, reduceCtorEq, false_or] at hin
    have hname : id = originSection := SectionId.key_injective (WorldOp.unload.inj hin).1
    rw [hsections, List.mem_singleton, hname] at hkey
    exact absurd (SectionId.key_injective hkey) (by decide)

omit [UnicodeTables] in
/-- The section of a world that just started is unloaded. -/
theorem exists_originUnload : letI := asciiOnly
    ∃ authority, authority.root = oneSectionRoot ⟨7⟩ ∧
      Unloaded originSection authority.root ((start (runningWorld authority none)).step
        (.unload originSection.key fun _ => .ok ())).root := by
  let _ := asciiOnly
  obtain ⟨authority, hroot, hserves⟩ :=
    exists_runningWorld (oneSectionRoot ⟨7⟩) ⟨rfl, rfl, rfl, rfl⟩ none
  have hready : authority.root.directory.entries[originSection]? =
      some (.ready (.ofStorage (.uniform ⟨7⟩))) := by
    rw [hroot]
    exact Std.ExtTreeMap.getElem?_insert_self
  have hclean : authority.root.dirtyFrontier.entries[originSection]? = none := by
    rw [hroot]
    exact BTreeMap.getElem?_empty originSection
  exact ⟨authority, hroot, (unload_step (s := start (runningWorld authority none)) hserves hready
    hclean rfl rfl).1⟩

omit [UnicodeTables] in
/-- One plan, two views it is bound to, two answers. -/
theorem unload_changes_items : letI := asciiOnly
    ∃ authority plan, let s := start (runningWorld authority none)
      let t := s.step (.unload originSection.key fun _ => .ok ())
      (⟨nativeConfig, 8⟩ : QueryPlanner).plan (sectionQuery originSection) s.world.authority.capture.1
          nativeConfig = .ok plan ∧
        QueryExecutor.bindCut plan s.world.authority.capture.1 = .ok () ∧
        QueryExecutor.bindCut plan t.world.authority.capture.1 = .ok () ∧
        QueryExecutor.walkItems plan s.world.authority.capture.1 0 ≠
          QueryExecutor.walkItems plan t.world.authority.capture.1 0 := by
  let _ := asciiOnly
  obtain ⟨authority, hroot, hunloaded⟩ := exists_originUnload
  have hview : (runningWorld authority none).authority.capture.1.root = oneSectionRoot ⟨7⟩ := hroot
  obtain ⟨plan, hplan, hsections, hstamp, hbudget, htoken⟩ := exists_sectionPlan originSection
    (runningWorld authority none).authority.capture.1 (by rw [hview]; rfl)
  refine ⟨authority, plan, hplan, bindCut_of hstamp htoken,
    bindCut_of (hstamp.trans hunloaded.stamp.symm) htoken, fun hsame => ?_⟩
  have hwalk : QueryExecutor.Walkable plan 0 := walkable_of hsections hbudget
  have hanswer := (QueryExecutor.walkItems_eq_iff hwalk).mp hsame originSection.key
    (hsections ▸ List.mem_singleton.mpr rfl)
  obtain ⟨payload, hready⟩ := hunloaded.resident
  obtain ⟨schemaId, hitem⟩ :=
    access_key (runningWorld authority none).authority.capture.1 originSection
  have hpresence := access_presence (hanswer.symm.trans hitem)
  have hnow : accessPresence (runningWorld authority none).authority.capture.1.root originSection =
      .ready := by
    simp only [accessPresence, show (runningWorld authority none).authority.capture.1.root =
      authority.root from rfl, hready]
    rfl
  have hlater : accessPresence ((start (runningWorld authority none)).step
      (.unload originSection.key fun _ => .ok ())).root originSection = .unchanged := by
    simp only [accessPresence, hunloaded.ticket]
    rfl
  exact absurd ((hpresence.symm.trans hnow).symm.trans hlater) (by decide)

end WorldSession

end Cuts

end LumioVoxel
