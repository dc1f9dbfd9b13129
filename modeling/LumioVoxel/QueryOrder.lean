import LumioVoxel.WorldProgress

/-!
# The order of a query's sections

A request lists section keys in any order and as often as it likes.  Admission counts the
list as it stands; the plan, its hash and its execution see the sections once each, in
section order.
-/

namespace LumioVoxel

open Fallible

/-! ## 1. The canonical list -/

/-- The sections a list of keys asks for, each once, in section order. -/
structure SectionsOf (raws : List String) (ids : List SectionId) : Prop where
  ordered : ids.Pairwise fun a b => compare a b = .lt
  listed : ∀ raw, raw ∈ raws ↔ ∃ id ∈ ids, raw = id.key

theorem SectionsOf.congr {raws raws' : List String} {ids : List SectionId}
    (h : SectionsOf raws ids) (hmem : ∀ raw, raw ∈ raws' ↔ raw ∈ raws) : SectionsOf raws' ids :=
  ⟨h.ordered, fun raw => (hmem raw).trans (h.listed raw)⟩

theorem SectionsOf.nodup {raws : List String} {ids : List SectionId} (h : SectionsOf raws ids) :
    ids.Nodup :=
  BTreeMap.nodup_of_ordered h.ordered

/-- A list asks for one ordered list of sections. -/
theorem SectionsOf.unique {raws : List String} {ids ids' : List SectionId}
    (h : SectionsOf raws ids) (h' : SectionsOf raws ids') : ids = ids' := by
  apply BTreeMap.eq_of_ordered h.ordered h'.ordered
  intro id
  have hid : ∀ {ids : List SectionId}, SectionsOf raws ids → (id.key ∈ raws ↔ id ∈ ids) := by
    intro ids h
    rw [h.listed]
    constructor
    · rintro ⟨other, hother, hkey⟩
      rw [SectionId.key_injective hkey]
      exact hother
    · intro hmem
      exact ⟨id, hmem, rfl⟩
  exact (hid h).symm.trans (hid h')

/-- Canonicalising refuses a text that is no key, and lists the sections otherwise. -/
theorem canonicalizeSections_eq_ok {raws sections : List String} :
    canonicalizeSections raws = .ok sections ↔
      ∃ ids, SectionsOf raws ids ∧ sections = ids.map SectionId.key := by
  have hparse : ∀ {raws : List String} {parsed : List SectionId},
      (raws.mapM fun raw => (SectionId.parse raw).mapError QueryError.fromKey) = .ok parsed ↔
        raws = parsed.map SectionId.key := by
    intro raws parsed
    simp only [mapM_eq_ok, mapError_eq_ok, SectionId.parse_eq_ok]
    rw [← List.forall₂_eq_eq_eq, List.forall₂_map_right_iff]
  have hcanonical : canonicalizeSections raws = .ok sections ↔
      ∃ parsed : List SectionId, raws = parsed.map SectionId.key ∧
        (BTreeMap.ascending parsed).map SectionId.key = sections := by
    simp only [canonicalizeSections, bind_eq_ok, hparse, pure_eq_ok, BTreeMap.ascending,
      List.map_map]
    rfl
  have hsections : ∀ parsed : List SectionId,
      SectionsOf (parsed.map SectionId.key) (BTreeMap.ascending parsed) := by
    intro parsed
    refine ⟨BTreeMap.ordered_ascending parsed, ?_⟩
    intro raw
    simp only [List.mem_map, BTreeMap.mem_ascending, eq_comm]
  rw [hcanonical]
  constructor
  · rintro ⟨parsed, rfl, rfl⟩
    exact ⟨_, hsections parsed, rfl⟩
  · rintro ⟨ids, hids, rfl⟩
    have hkeys : ∀ raw ∈ raws, ∃ id, (SectionId.parse raw).mapError QueryError.fromKey =
        .ok id := by
      intro raw hraw
      obtain ⟨id, -, rfl⟩ := (hids.listed raw).mp hraw
      exact ⟨id, by rw [SectionId.parse_key, mapError_ok]⟩
    obtain ⟨parsed, hparsed⟩ := exists_mapM hkeys
    obtain rfl := hparse.mp hparsed
    exact ⟨parsed, rfl, congrArg _ ((hsections parsed).unique hids)⟩

/-! ## 2. Plans -/

namespace QueryPlanner

variable {planner : QueryPlanner} {request : VoxelQueryRequest} {view : PublishedReadView}
  {config : VoxelConfigSnapshot}

/-- What a plan was made from: admission counts the ids as requested, everything after it sees
the canonical list. -/
theorem plan_eq_ok {plan : QueryPlan} :
    planner.plan request view config = .ok plan ↔
      (validateRequest request view.root.stamp = .ok () ∧ config.capabilities ≠ [] ∧
        ¬ budgetExceeds request.sectionIds.length planner.maxSections) ∧
      ∃ ids hash, SectionsOf request.sectionIds ids ∧
        computePlanHash request view.root.stamp (ids.map SectionId.key) config.configHash
          planner.maxSections = .ok hash ∧
        plan = ⟨ids.map SectionId.key, view.root.stamp, planner.maxSections, config.configHash,
          request.queryId, hash⟩ := by
  simp only [QueryPlanner.plan, bind_eq_ok, require_eq_ok, canonicalizeSections_eq_ok, pure_eq_ok,
    exists_and_left, exists_const, and_assoc]
  constructor
  · rintro ⟨_, hvalid, hcapable, hbudget, sections, ⟨ids, hids, rfl⟩, hash, hhash, rfl⟩
    exact ⟨hvalid, hcapable, hbudget, ids, hids, hash, hhash, rfl⟩
  · rintro ⟨hvalid, hcapable, hbudget, ids, hids, hash, hhash, rfl⟩
    exact ⟨(), hvalid, hcapable, hbudget, _, ⟨ids, hids, rfl⟩, hash, hhash, rfl⟩

/-- The members of a plan have different names: hashing one never fails. -/
theorem exists_computePlanHash (request : VoxelQueryRequest) (stamp : RevisionStamp)
    (sections : List String) (configHash : String) (budget : Nat) :
    ∃ hash, computePlanHash request stamp sections configHash budget = .ok hash := by
  have hnames : (planMembers request stamp sections configHash budget).Pairwise
      fun a b => a.1 ≠ b.1 := by
    rw [← List.pairwise_map (f := Prod.fst) (R := (· ≠ ·))]
    have hmap : (planMembers request stamp sections configHash budget).map Prod.fst =
        ["schemaId", "queryId", "worldId", "context", "canonicalSections", "stampWorldId",
          "stampContextId", "generation", "worldRevision"] ++
        (stamp.sectionRevisionSet.toList.map fun item => SECTION_REVISION ++ item.1) ++
        ["configHash", "maxSections"] := by
      simp [planMembers, SECTION_REVISION]
    rw [hmap]
    apply pairwise_around_sections
    · decide
    · decide
  obtain ⟨object, hobject, -⟩ := exists_insertAll hnames
  rw [computePlanHash, hobject]
  exact ⟨_, rfl⟩

/-- Which requests are admitted. -/
theorem exists_plan_iff :
    (∃ plan, planner.plan request view config = .ok plan) ↔
      (validateRequest request view.root.stamp = .ok () ∧ config.capabilities ≠ [] ∧
        ¬ budgetExceeds request.sectionIds.length planner.maxSections) ∧
      ∃ ids, SectionsOf request.sectionIds ids := by
  constructor
  · rintro ⟨plan, hplan⟩
    obtain ⟨hadmitted, ids, -, hids, -⟩ := plan_eq_ok.mp hplan
    exact ⟨hadmitted, ids, hids⟩
  · rintro ⟨hadmitted, ids, hids⟩
    obtain ⟨hash, hhash⟩ := exists_computePlanHash request view.root.stamp
      (ids.map SectionId.key) config.configHash planner.maxSections
    exact ⟨_, plan_eq_ok.mpr ⟨hadmitted, ids, hash, hids, hhash, rfl⟩⟩

/-- A list of the same keys makes the same plan. -/
theorem plan_congr {raws : List String} {plan plan' : QueryPlan}
    (hmem : ∀ raw, raw ∈ raws ↔ raw ∈ request.sectionIds)
    (h : planner.plan request view config = .ok plan)
    (h' : planner.plan { request with sectionIds := raws } view config = .ok plan') :
    plan' = plan := by
  obtain ⟨-, ids, hash, hids, hhash, rfl⟩ := plan_eq_ok.mp h
  obtain ⟨-, ids', hash', hids', hhash', rfl⟩ := plan_eq_ok.mp h'
  obtain rfl := hids'.unique (hids.congr hmem)
  -- no member of the hashed object but the canonical list depends on the ids
  have hsame : computePlanHash { request with sectionIds := raws } view.root.stamp
      (ids'.map SectionId.key) config.configHash planner.maxSections =
      computePlanHash request view.root.stamp (ids'.map SectionId.key) config.configHash
        planner.maxSections := rfl
  rw [hsame, hhash] at hhash'
  rw [Except.ok.inj hhash']

end QueryPlanner

/-! ## 3. Walks -/

namespace QueryExecutor

/-- Sections of a walk are charged one each and answered in the order they stand. -/
theorem walkSections_eq_ok {budget : Nat} {view : PublishedReadView}
    {guard : Option SectionPresenceGuard} {sections : List String}
    {progress final : Nat × List SectionAccessResult}
    (h : foldSteps (walkSection budget view guard) progress sections = .ok final) :
    final.1 = progress.1 + sections.length ∧
      final.2.map (·.sectionId) = progress.2.map (·.sectionId) ++ sections := by
  induction sections generalizing progress with
  | nil =>
    obtain rfl := Except.ok.inj h
    exact ⟨rfl, (List.append_nil _).symm⟩
  | cons raw rest ih =>
    obtain ⟨next, hstep, hrest⟩ := foldSteps_cons_eq_ok.mp h
    simp only [walkSection, bind_eq_ok, require_eq_ok, exists_and_left, exists_const,
      pure_eq_ok] at hstep
    obtain ⟨-, -, item, hitem, -, -, rfl⟩ := hstep
    obtain ⟨hused, hitems⟩ := ih hrest
    constructor
    · rw [hused, List.length_cons]
      omega
    · rw [hitems, List.map_append, List.map_singleton, access_sectionId hitem, List.append_assoc,
        List.singleton_append]

theorem walkBound_eq_ok {plan : QueryPlan} {view : PublishedReadView} {alreadyUsed : Nat}
    {guard : Option SectionPresenceGuard} {outcome : VoxelQueryOutcome}
    (h : walkBound plan view alreadyUsed guard = .ok outcome) :
    outcome.items.map (·.sectionId) = plan.canonicalSections ∧
      outcome.evidence.budgetUsed = alreadyUsed + plan.canonicalSections.length := by
  obtain ⟨-, -, h⟩ := bind_eq_ok.mp h
  obtain ⟨⟨used, items⟩, hwalk, houtcome⟩ := bind_eq_ok.mp h
  obtain rfl := Except.ok.inj houtcome
  obtain ⟨hused, hitems⟩ := walkSections_eq_ok hwalk
  exact ⟨hitems, hused⟩

theorem budgetExceeds_mono {a b budget : Nat} (h : a ≤ b) (ha : budgetExceeds a budget) :
    budgetExceeds b budget := by
  rcases ha with hzero | hlt
  · exact .inl hzero
  · exact .inr (Nat.lt_of_lt_of_le hlt h)

/-- The guard, if there is one, lets what the directory reports for the section pass. -/
def Passes (guard : Option SectionPresenceGuard) (view : PublishedReadView) (id : SectionId) : Prop :=
  ∀ gate, guard = some gate → gate id.key (accessPresence view.root id).name = .ok ()

/-- What one section of a walk takes. -/
theorem walkSection_key_eq_ok {budget : Nat} {view : PublishedReadView}
    {guard : Option SectionPresenceGuard} {progress next : Nat × List SectionAccessResult}
    {id : SectionId} : walkSection budget view guard progress id.key = .ok next ↔
      progress.1 + 1 < 2 ^ 64 ∧ ¬ budgetExceeds (progress.1 + 1) budget ∧ Passes guard view id ∧
        ∃ item, access view id.key = .ok item ∧ next = (progress.1 + 1, progress.2 ++ [item]) := by
  obtain ⟨schemaId, hitem⟩ := access_key view id
  have hguard : checkGuard guard ⟨id.key, accessPresence view.root id, schemaId⟩ = .ok () ↔
      Passes guard view id := by
    cases guard with
    | none => exact iff_of_true rfl nofun
    | some gate => simp only [checkGuard, mapError_eq_ok, Passes, Option.some.injEq, forall_eq']
  simp only [walkSection, bind_eq_ok, require_eq_ok, hitem, exists_const, Except.ok.injEq,
    exists_eq_left', pure_eq_ok, hguard, @eq_comm _ next]

/-- When a walk over sections goes through. -/
theorem exists_walkSections_iff {budget : Nat} {view : PublishedReadView}
    {guard : Option SectionPresenceGuard} {ids : List SectionId} {used : Nat}
    (items : List SectionAccessResult) (hstart : ¬ budgetExceeds used budget) :
    (∃ final, foldSteps (walkSection budget view guard) (used, items) (ids.map SectionId.key) =
        .ok final) ↔
      ¬ budgetExceeds (used + ids.length) budget ∧ (ids ≠ [] → used + ids.length < 2 ^ 64) ∧
        ∀ id ∈ ids, Passes guard view id := by
  induction ids generalizing used items with
  | nil => exact iff_of_true ⟨_, rfl⟩ ⟨hstart, fun h => absurd rfl h, fun _ h => nomatch h⟩
  | cons id rest ih =>
    have hlength : used + 1 + rest.length = used + (id :: rest).length := by
      rw [List.length_cons]
      omega
    rw [List.forall_mem_cons, ← hlength]
    have hcons : id :: rest ≠ [] := List.cons_ne_nil id rest
    constructor
    · rintro ⟨final, hwalk⟩
      obtain ⟨next, hstep, hrest⟩ := foldSteps_cons_eq_ok.mp hwalk
      obtain ⟨hnow, hroom, hpass, item, -, rfl⟩ := walkSection_key_eq_ok.mp hstep
      obtain ⟨hbudget, hcounter, hall⟩ := (ih _ hroom).mp ⟨final, hrest⟩
      refine ⟨hbudget, fun _ => ?_, hpass, hall⟩
      cases rest with
      | nil => exact hnow
      | cons other rest => exact hcounter (List.cons_ne_nil _ _)
    · rintro ⟨hbudget, hcounter, hpass, hrest⟩
      have hnow : used + 1 < 2 ^ 64 := by
        have hall := hcounter hcons
        omega
      have hroom : ¬ budgetExceeds (used + 1) budget := fun h =>
        hbudget (budgetExceeds_mono (Nat.le_add_right _ _) h)
      obtain ⟨schemaId, hitem⟩ := access_key view id
      have hlater : rest ≠ [] → used + 1 + rest.length < 2 ^ 64 := fun _ => hcounter hcons
      obtain ⟨final, hwalk⟩ := (ih _ hroom).mpr ⟨hbudget, hlater, hrest⟩
      exact ⟨final, foldSteps_cons_eq_ok.mpr
        ⟨_, walkSection_key_eq_ok.mpr ⟨hnow, hroom, hpass, _, hitem, rfl⟩, hwalk⟩⟩

/-- A walk with the guard its caller gave, if any. -/
def walkUnder (plan : QueryPlan) (view : PublishedReadView) (alreadyUsed : Nat) :
    Option SectionPresenceGuard → Except QueryError VoxelQueryOutcome
  | none => walk plan view alreadyUsed
  | some guard => walkWithPresenceGuard plan view alreadyUsed guard

theorem walkUnder_eq_ok {plan : QueryPlan} {view : PublishedReadView} {alreadyUsed : Nat}
    {guard : Option SectionPresenceGuard} {outcome : VoxelQueryOutcome}
    (h : walkUnder plan view alreadyUsed guard = .ok outcome) :
    outcome.items.map (·.sectionId) = plan.canonicalSections ∧
      outcome.evidence.budgetUsed = alreadyUsed + plan.canonicalSections.length := by
  cases guard with
  | none =>
    obtain ⟨-, -, h⟩ := bind_eq_ok.mp h
    exact walkBound_eq_ok h
  | some guard =>
    obtain ⟨-, -, h⟩ := bind_eq_ok.mp h
    exact walkBound_eq_ok h

/-- The view shows the plan's cut, the budget and the counter take the sections, and the guard
lets each of them pass. -/
structure GoesThrough (plan : QueryPlan) (view : PublishedReadView) (alreadyUsed : Nat)
    (guard : Option SectionPresenceGuard) (sections : List SectionId) : Prop where
  cut : bindCut plan view = .ok ()
  budget : ¬ budgetExceeds (alreadyUsed + sections.length) plan.budget
  counter : sections ≠ [] → alreadyUsed + sections.length < 2 ^ 64
  passes : ∀ id ∈ sections, Passes guard view id

theorem exists_walkUnder_iff {plan : QueryPlan} {view : PublishedReadView} {alreadyUsed : Nat}
    {guard : Option SectionPresenceGuard} {sections : List SectionId}
    (hsections : plan.canonicalSections = sections.map SectionId.key) :
    (∃ outcome, walkUnder plan view alreadyUsed guard = .ok outcome) ↔
      GoesThrough plan view alreadyUsed guard sections := by
  have hunder : walkUnder plan view alreadyUsed guard =
      bindCut plan view >>= fun _ => walkBound plan view alreadyUsed guard := by
    cases guard <;> rfl
  simp only [hunder, walkBound, hsections, bind_eq_ok, require_eq_ok, pure_eq_ok, exists_const]
  constructor
  · rintro ⟨outcome, _, hcut, hstart, final, hwalk, -⟩
    obtain ⟨hbudget, hcounter, hpasses⟩ :=
      (exists_walkSections_iff [] hstart).mp ⟨final, hwalk⟩
    exact ⟨hcut, hbudget, hcounter, hpasses⟩
  · rintro ⟨hcut, hbudget, hcounter, hpasses⟩
    have hstart : ¬ budgetExceeds alreadyUsed plan.budget := fun h =>
      hbudget (budgetExceeds_mono (Nat.le_add_right _ _) h)
    obtain ⟨final, hwalk⟩ := (exists_walkSections_iff [] hstart).mpr ⟨hbudget, hcounter, hpasses⟩
    exact ⟨_, (), hcut, hstart, final, hwalk, rfl⟩

end QueryExecutor

/-- **The order of a query's ids, and how often each stands, change nothing.**  Two admitted lists
of the same ids have one hash, one canonical list and one outcome on every view; an outcome
answers each section once, in section order, and charges one for each; and there is one exactly
when the view is of the plan's cut, the budget takes the sections and the guard passes them. -/
theorem query_order_independence {planner : QueryPlanner} {request : VoxelQueryRequest}
    {view : PublishedReadView} {config : VoxelConfigSnapshot} {ids : List String}
    {plan plan' : QueryPlan} (hids : ∀ raw, raw ∈ ids ↔ raw ∈ request.sectionIds)
    (hplan : planner.plan request view config = .ok plan)
    (hplan' : planner.plan { request with sectionIds := ids } view config = .ok plan') :
    plan'.planHash = plan.planHash ∧ plan'.canonicalSections = plan.canonicalSections ∧
      (∀ cut alreadyUsed guard, QueryExecutor.walkUnder plan' cut alreadyUsed guard =
        QueryExecutor.walkUnder plan cut alreadyUsed guard) ∧
      ∃ sections, SectionsOf request.sectionIds sections ∧
        plan.canonicalSections = sections.map SectionId.key ∧
        (∀ cut alreadyUsed guard,
          (∃ outcome, QueryExecutor.walkUnder plan cut alreadyUsed guard = .ok outcome) ↔
            QueryExecutor.GoesThrough plan cut alreadyUsed guard sections) ∧
        ∀ cut alreadyUsed guard outcome,
          QueryExecutor.walkUnder plan cut alreadyUsed guard = .ok outcome →
          outcome.items.map (·.sectionId) = sections.map SectionId.key ∧
            (outcome.items.map (·.sectionId)).Nodup ∧
            outcome.evidence.budgetUsed = alreadyUsed + sections.length := by
  obtain rfl := QueryPlanner.plan_congr hids hplan hplan'
  obtain ⟨-, sections, hash, hsections, -, rfl⟩ := QueryPlanner.plan_eq_ok.mp hplan
  refine ⟨rfl, rfl, fun _ _ _ => rfl, sections, hsections, rfl, fun _ _ _ =>
    QueryExecutor.exists_walkUnder_iff rfl, ?_⟩
  intro cut alreadyUsed guard outcome houtcome
  obtain ⟨hitems, hused⟩ := QueryExecutor.walkUnder_eq_ok houtcome
  refine ⟨hitems, ?_, ?_⟩
  · rw [hitems]
    exact hsections.nodup.map fun a b => SectionId.key_injective
  · rw [hused, List.length_map]

/-- Two sections, one of them asked for twice. -/
def repeatedQuery : VoxelQueryRequest :=
  ⟨"query", "world", "context",
    [neighbourSection.key, originSection.key, neighbourSection.key], false⟩

/-- The same two sections once each, the other way round; both are charged one by one. -/
theorem query_order_independence_repeated :
    ∃ plan plan' : QueryPlan,
      let planner : QueryPlanner := ⟨nativeConfig, 8⟩
      let view : PublishedReadView := ⟨twoSectionRoot, ⟨twoSectionRoot.stamp, 0⟩⟩
      let ids := [originSection.key, neighbourSection.key]
      (planner.plan repeatedQuery view nativeConfig = .ok plan ∧
        planner.plan { repeatedQuery with sectionIds := ids } view nativeConfig = .ok plan') ∧
      plan'.planHash = plan.planHash ∧ plan'.canonicalSections = ids ∧
      (∀ cut alreadyUsed guard, QueryExecutor.walkUnder plan' cut alreadyUsed guard =
        QueryExecutor.walkUnder plan cut alreadyUsed guard) ∧
      ∃ outcome, QueryExecutor.execute plan view = .ok outcome ∧
        outcome.items.map (·.sectionId) = ids ∧ outcome.evidence.budgetUsed = 2 := by
  have hids : ∀ raw, raw ∈ [originSection.key, neighbourSection.key] ↔
      raw ∈ repeatedQuery.sectionIds := by
    intro raw
    simp only [repeatedQuery, List.mem_cons, List.not_mem_nil, or_false]
    grind
  have hsections : SectionsOf [originSection.key, neighbourSection.key]
      [originSection, neighbourSection] := by
    refine ⟨by decide, ?_⟩
    intro raw
    simp only [List.mem_cons, List.not_mem_nil, or_false, exists_eq_or_imp, exists_eq_left]
  have hrepeated : SectionsOf repeatedQuery.sectionIds [originSection, neighbourSection] :=
    hsections.congr fun raw => (hids raw).symm
  obtain ⟨plan, hplan⟩ : ∃ plan, QueryPlanner.plan ⟨nativeConfig, 8⟩ repeatedQuery
      ⟨twoSectionRoot, ⟨twoSectionRoot.stamp, 0⟩⟩ nativeConfig = .ok plan := by
    apply QueryPlanner.exists_plan_iff.mpr
    exact ⟨⟨rfl, by decide, by decide⟩, _, hrepeated⟩
  obtain ⟨plan', hplan'⟩ : ∃ plan, QueryPlanner.plan ⟨nativeConfig, 8⟩
      { repeatedQuery with sectionIds := [originSection.key, neighbourSection.key] }
      ⟨twoSectionRoot, ⟨twoSectionRoot.stamp, 0⟩⟩ nativeConfig = .ok plan := by
    apply QueryPlanner.exists_plan_iff.mpr
    exact ⟨⟨rfl, by decide, by decide⟩, _, hsections⟩
  obtain ⟨hhash, hcanonical, hsame, sections, hlisted, hkeys, hwalks, hitems⟩ :=
    query_order_independence hids hplan hplan'
  obtain rfl := hlisted.unique hrepeated
  have hstamp : plan.readStamp = twoSectionRoot.stamp ∧ plan.budget = 8 ∧
      plan.cancelToken = "query" := by
    obtain ⟨-, _, _, -, -, rfl⟩ := QueryPlanner.plan_eq_ok.mp hplan
    exact ⟨rfl, rfl, rfl⟩
  obtain ⟨outcome, houtcome⟩ := (hwalks ⟨twoSectionRoot, ⟨twoSectionRoot.stamp, 0⟩⟩ 0 none).mpr
    { cut := by
        simp only [QueryExecutor.bindCut, hstamp]
        rfl
      budget := by
        rw [hstamp.2.1]
        decide
      counter := fun _ => by decide
      passes := fun _ _ _ hgate => nomatch hgate }
  obtain ⟨hanswers, -, hused⟩ := hitems _ _ _ _ houtcome
  exact ⟨plan, plan', ⟨hplan, hplan'⟩, hhash, hcanonical.trans hkeys, hsame, outcome, houtcome,
    hanswers, hused⟩

end LumioVoxel
