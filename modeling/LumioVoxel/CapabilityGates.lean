import LumioVoxel.WorldProcess
import Mathlib.Data.String.Basic

/-!
# Capability gates

Two gates stand between a host and a world.  A config document is frozen into a snapshot only
if it starts no capability the host did not declare, and a world is created only if it asks
for no capability the snapshot does not allow.  The names go through both as sorted lists
without repetitions, so the gates decide about sets: neither the order in which names are
given nor how often matters, and a refusal names the least name that is missing.
-/

namespace LumioVoxel

open Fallible

/-! ## 1. Sorted lists without repetitions -/

section SortedNames

variable {α : Type*} [LinearOrder α]

private theorem mem_loop {x : α} (a : α) (rest acc : List α) :
    x ∈ List.eraseRepsBy.loop (· == ·) a rest acc ↔ x ∈ a :: rest ∨ x ∈ acc := by
  induction rest generalizing a acc with
  | nil =>
    rw [List.eraseRepsBy.loop, List.mem_reverse]
    simp only [List.mem_cons, List.not_mem_nil, or_false]
  | cons b rest ih =>
    rw [List.eraseRepsBy.loop]
    by_cases heq : a = b
    · simp only [heq, beq_self_eq_true, ih, List.mem_cons]
      tauto
    · simp only [beq_eq_false_iff_ne.mpr heq, ih, List.mem_cons]
      tauto

/-- The last name kept is above all before it and not above those that follow. -/
private theorem pairwise_loop {a : α} {rest acc : List α} (hrest : (a :: rest).Pairwise (· ≤ ·))
    (hacc : (a :: acc).Pairwise (· > ·)) :
    (List.eraseRepsBy.loop (· == ·) a rest acc).Pairwise (· < ·) := by
  induction rest generalizing a acc with
  | nil =>
    rw [List.eraseRepsBy.loop, List.pairwise_reverse]
    exact hacc
  | cons b rest ih =>
    rw [List.eraseRepsBy.loop]
    have htail := (List.pairwise_cons.mp hrest).2
    have hle := (List.pairwise_cons.mp hrest).1 b List.mem_cons_self
    by_cases heq : a = b
    · subst heq
      simp only [beq_self_eq_true]
      exact ih htail hacc
    · simp only [beq_eq_false_iff_ne.mpr heq]
      have hlt := lt_of_le_of_ne hle heq
      refine ih htail (List.pairwise_cons.mpr ⟨?_, hacc⟩)
      intro c hc
      rcases List.mem_cons.mp hc with rfl | hc
      · exact hlt
      · exact lt_trans ((List.pairwise_cons.mp hacc).1 c hc) hlt

theorem mem_sortedNames {x : α} {names : List α} :
    x ∈ (names.mergeSort fun a b => decide (a ≤ b)).eraseReps ↔ x ∈ names := by
  have hsort : x ∈ names.mergeSort (fun a b => decide (a ≤ b)) ↔ x ∈ names := List.mem_mergeSort
  rw [← hsort]
  cases names.mergeSort fun a b => decide (a ≤ b) with
  | nil => rfl
  | cons a rest =>
    rw [List.eraseReps, List.eraseRepsBy, mem_loop]
    simp only [List.not_mem_nil, or_false]

theorem pairwise_sortedNames (names : List α) :
    ((names.mergeSort fun a b => decide (a ≤ b)).eraseReps).Pairwise (· < ·) := by
  have hsorted : (names.mergeSort fun a b => decide (a ≤ b)).Pairwise
      fun a b => decide (a ≤ b) = true := by
    refine List.pairwise_mergeSort ?_ ?_ names
    · intro a b c hab hbc
      exact decide_eq_true (le_trans (of_decide_eq_true hab) (of_decide_eq_true hbc))
    · intro a b
      rw [Bool.or_eq_true, decide_eq_true_eq, decide_eq_true_eq]
      exact le_total a b
  generalize names.mergeSort (fun a b => decide (a ≤ b)) = sorted at hsorted
  simp only [decide_eq_true_eq] at hsorted
  cases sorted with
  | nil => exact List.Pairwise.nil
  | cons a rest => exact pairwise_loop hsorted (List.pairwise_singleton _ a)

end SortedNames

namespace HostCapabilitySet

theorem mem_fromNames {name : String} {names : List String} :
    name ∈ (fromNames names).names ↔ name ∈ names := mem_sortedNames

theorem sorted_fromNames (names : List String) : (fromNames names).names.Pairwise (· < ·) :=
  pairwise_sortedNames names

/-- Sorted lists without repetitions are equal when they have the same members. -/
theorem fromNames_eq_iff {names other : List String} :
    fromNames names = fromNames other ↔ ∀ name, name ∈ names ↔ name ∈ other := by
  constructor
  · intro h name
    rw [← mem_fromNames, h, mem_fromNames]
  · intro h
    have hperm : List.Perm (fromNames names).names (fromNames other).names := by
      refine (List.perm_ext_iff_of_nodup (sorted_fromNames names).nodup
        (sorted_fromNames other).nodup).mpr fun name => ?_
      rw [mem_fromNames, mem_fromNames]
      exact h name
    exact congrArg mk (hperm.eq_of_pairwise' (sorted_fromNames names) (sorted_fromNames other))

end HostCapabilitySet

/-! ## 2. The config document -/

def CONFIG_TABLE_SCHEMA : String := "config-table"
def HOST_CAPABILITY_SCHEMA : String := "host-capability"

structure VoxelConfigInput where
  schemaId : String
  hostCapabilitySchemaId : String
  configHash : String
  hostCapability : HostCapabilitySet
  startCapabilities : List String
  deriving DecidableEq, Repr

inductive ConfigError where
  | hashMismatch (errorId gate : String)
  | unknownCapability (errorId name : String)
  deriving DecidableEq, Repr

def requireSchema (found expected : String) : Except ConfigError Unit :=
  require (found = expected) (.unknownCapability "CapabilityMissing" found)

/-- A validated config document, frozen. -/
def VoxelConfigSnapshot.load (config : VoxelConfigInput) :
    Except ConfigError VoxelConfigSnapshot := do
  requireSchema config.schemaId CONFIG_TABLE_SCHEMA
  requireSchema config.hostCapabilitySchemaId HOST_CAPABILITY_SCHEMA
  if hhash : isHash256 config.configHash = true then
    foldSteps (fun _ name => require (name ∈ config.hostCapability.names)
      (.unknownCapability "CapabilityMissing" name)) () config.startCapabilities
    return ⟨config.configHash, config.hostCapability.names, hhash⟩
  else .error (.hashMismatch "EvidenceDigestMismatch" "configHash")

/-- What a document must meet. -/
structure VoxelConfigInput.Valid (config : VoxelConfigInput) : Prop where
  schemaId : config.schemaId = CONFIG_TABLE_SCHEMA
  hostCapabilitySchemaId : config.hostCapabilitySchemaId = HOST_CAPABILITY_SCHEMA
  configHash : isHash256 config.configHash = true
  startCapabilities : ∀ name ∈ config.startCapabilities, name ∈ config.hostCapability.names

theorem foldSteps_require_eq_ok {ε : Type} {P : String → Prop} [DecidablePred P]
    {err : String → ε} {names : List String} :
    foldSteps (fun _ name => require (P name) (err name)) () names = .ok () ↔
      ∀ name ∈ names, P name := by
  induction names with
  | nil => exact iff_of_true rfl fun _ h => absurd h List.not_mem_nil
  | cons name rest ih =>
    rw [foldSteps_cons_eq_ok]
    simp only [require_eq_ok, exists_const, ih, List.forall_mem_cons]

theorem VoxelConfigSnapshot.load_eq_ok {config : VoxelConfigInput}
    {snapshot : VoxelConfigSnapshot} : load config = .ok snapshot ↔
      config.Valid ∧ snapshot.configHash = config.configHash ∧
        snapshot.capabilities = config.hostCapability.names := by
  unfold load
  simp only [bind_eq_ok, requireSchema, require_eq_ok, exists_const]
  constructor
  · rintro ⟨hschema, hhost, h⟩
    split at h
    · rename_i hhash
      simp only [bind_eq_ok, pure_eq_ok] at h
      obtain ⟨_, hstart, rfl⟩ := h
      exact ⟨⟨hschema, hhost, hhash, foldSteps_require_eq_ok.mp hstart⟩, rfl, rfl⟩
    · cases h
  · rintro ⟨hvalid, hhash, hnames⟩
    refine ⟨hvalid.schemaId, hvalid.hostCapabilitySchemaId, ?_⟩
    rw [dif_pos hvalid.configHash, foldSteps_require_eq_ok.mpr hvalid.startCapabilities]
    cases snapshot
    simp only at hhash hnames
    subst hhash hnames
    rfl

/-! ## 3. The view of a world -/

/-- The loop of `derive` enables every name, or stops at the first that is not allowed. -/
theorem derive_loop_cases (snapshot : VoxelConfigSnapshot) (names : List String)
    (enabled : BTreeMap String Unit) :
    let loop := names.foldlM (fun enabled name => do
      require (name ∈ snapshot.capabilities) (CapabilityError.mk "ClaimNotGranted" name)
      return enabled.insert name ()) enabled
    (∃ view, loop = .ok view ∧ (∀ name ∈ names, name ∈ snapshot.capabilities) ∧
      ∀ name, name ∈ view ↔ name ∈ names ∨ name ∈ enabled) ∨
    ∃ before name after, names = before ++ name :: after ∧
      (∀ earlier ∈ before, earlier ∈ snapshot.capabilities) ∧ name ∉ snapshot.capabilities ∧
      loop = .error ⟨"ClaimNotGranted", name⟩ := by
  induction names generalizing enabled with
  | nil =>
    refine Or.inl ⟨enabled, rfl, fun _ h => absurd h List.not_mem_nil, fun name => ?_⟩
    simp only [List.not_mem_nil, false_or]
  | cons name rest ih =>
    intro loop
    by_cases hname : name ∈ snapshot.capabilities
    · have hloop : loop = rest.foldlM (fun enabled name => do
          require (name ∈ snapshot.capabilities) (CapabilityError.mk "ClaimNotGranted" name)
          return enabled.insert name ()) (enabled.insert name ()) := by
        simp only [loop, List.foldlM_cons]
        rw [require_of hname]
        rfl
      rw [hloop]
      rcases ih (enabled.insert name ()) with
        ⟨view, hview, hall, hmem⟩ | ⟨before, missing, after, hrest, hbefore, hmissing, herror⟩
      · refine Or.inl ⟨view, hview, List.forall_mem_cons.mpr ⟨hname, hall⟩, fun other => ?_⟩
        rw [hmem, Std.ExtTreeMap.mem_insert, Std.compare_eq_iff_eq, List.mem_cons]
        tauto
      · refine Or.inr ⟨name :: before, missing, after, ?_, ?_, hmissing, herror⟩
        · rw [hrest, List.cons_append]
        · exact List.forall_mem_cons.mpr ⟨hname, hbefore⟩
    · refine Or.inr ⟨[], name, rest, rfl, fun _ h => absurd h List.not_mem_nil, hname, ?_⟩
      simp only [loop, List.foldlM_cons]
      rw [require, if_neg hname]
      rfl

/-- What the gate answers to the names it is asked for: the set of them, or the least that
the host did not declare. -/
def GateAnswers (host : HostCapabilitySet) (requested : List String) :
    Except CapabilityError (BTreeMap String Unit) → Prop
  | .ok view => (∀ name ∈ requested, name ∈ host.names) ∧ ∀ name, name ∈ view ↔ name ∈ requested
  | .error err => err.errorId = "ClaimNotGranted" ∧ err.name ∈ requested ∧
      err.name ∉ host.names ∧ ∀ name ∈ requested, name ∉ host.names → err.name ≤ name

theorem gateAnswers_derive {snapshot : VoxelConfigSnapshot} {host : HostCapabilitySet}
    (hnames : snapshot.capabilities = host.names) (requested : List String) :
    GateAnswers host requested (CapabilityView.derive (.fromNames requested) snapshot) := by
  have hsorted := HostCapabilitySet.sorted_fromNames requested
  have hmem : ∀ name, name ∈ (HostCapabilitySet.fromNames requested).names ↔ name ∈ requested :=
    fun _ => HostCapabilitySet.mem_fromNames
  unfold CapabilityView.derive
  rcases derive_loop_cases snapshot (HostCapabilitySet.fromNames requested).names ∅ with
    ⟨view, hview, hall, hview'⟩ | ⟨before, missing, after, hsplit, hbefore, hmissing, herror⟩
  · rw [hview]
    refine ⟨fun name hname => hnames ▸ hall name ((hmem name).mpr hname), fun name => ?_⟩
    rw [hview', hmem]
    simp only [Std.ExtTreeMap.not_mem_empty, or_false]
  · rw [herror]
    refine ⟨rfl, ?_, hnames ▸ hmissing, fun name hname hother => ?_⟩
    · rw [← hmem, hsplit]
      exact List.mem_append_right _ List.mem_cons_self
    · -- the names before the refused one are allowed, those after it are above
      rw [← hmem, hsplit] at hname
      rw [hsplit] at hsorted
      rcases List.mem_append.mp hname with hname | hname
      · exact absurd (hnames ▸ hbefore name hname) hother
      · rcases List.mem_cons.mp hname with rfl | hname
        · exact le_refl _
        · have hafter := (List.pairwise_append.mp hsorted).2.1
          exact le_of_lt ((List.pairwise_cons.mp hafter).1 name hname)

theorem requested_of_created {descriptor : WorldDescriptor} {snapshot : VoxelConfigSnapshot}
    {limits : WorldLimits} {counter next : UInt64} {world : WorldInstance}
    {host : HostCapabilitySet} (hnames : snapshot.capabilities = host.names)
    (h : createWithLimits counter descriptor snapshot limits = (.ok world, next)) :
    descriptor.capabilities ≠ [] ∧ ∀ name ∈ descriptor.capabilities, name ∈ host.names := by
  have hadmitted : ∃ checked, descriptor.admitted snapshot limits = .ok checked := by
    unfold createWithLimits at h
    split at h
    · cases h
    · exact ⟨_, by assumption⟩
  obtain ⟨checked, hadmitted⟩ := hadmitted
  simp only [WorldDescriptor.admitted, validateCapabilities, bind_eq_ok, require_eq_ok,
    mapError_eq_ok] at hadmitted
  obtain ⟨_, -, _, -, _, -, _, ⟨_, hsome, view, hview, -⟩, -⟩ := hadmitted
  have hanswer := gateAnswers_derive hnames descriptor.capabilities
  rw [hview] at hanswer
  exact ⟨hsome, hanswer.1⟩

/-- **The two gates.** A document is accepted exactly when it names its schemas, carries a
well-formed hash and starts nothing its host did not declare; under the snapshot of it, any
names are answered by the set of them or by the least that the host did not declare, however
they are ordered and repeated; and every world created under it asked for something, and for
nothing that the host did not declare. -/
theorem worlds_ask_for_what_is_granted (config : VoxelConfigInput) :
    ((∃ snapshot, VoxelConfigSnapshot.load config = .ok snapshot) ↔ config.Valid) ∧
      ∀ snapshot, VoxelConfigSnapshot.load config = .ok snapshot →
        (∀ requested, GateAnswers config.hostCapability requested
          (CapabilityView.derive (.fromNames requested) snapshot)) ∧
        (∀ requested other, (∀ name, name ∈ requested ↔ name ∈ other) →
          CapabilityView.derive (.fromNames requested) snapshot =
            CapabilityView.derive (.fromNames other) snapshot) ∧
        ∀ counter descriptor limits world next,
          createWithLimits counter descriptor snapshot limits = (.ok world, next) →
            descriptor.capabilities ≠ [] ∧
              ∀ name ∈ descriptor.capabilities, name ∈ config.hostCapability.names := by
  constructor
  · constructor
    · rintro ⟨snapshot, hload⟩
      exact (VoxelConfigSnapshot.load_eq_ok.mp hload).1
    · intro hvalid
      exact ⟨⟨config.configHash, config.hostCapability.names, hvalid.configHash⟩,
        VoxelConfigSnapshot.load_eq_ok.mpr ⟨hvalid, rfl, rfl⟩⟩
  · intro snapshot hload
    obtain ⟨-, -, hnames⟩ := VoxelConfigSnapshot.load_eq_ok.mp hload
    refine ⟨gateAnswers_derive hnames, ?_, ?_⟩
    · intro requested other hsame
      rw [HostCapabilitySet.fromNames_eq_iff.mpr hsame]
    · intro counter descriptor limits world next hcreate
      exact requested_of_created hnames hcreate

end LumioVoxel
