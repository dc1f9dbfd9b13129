import LumioVoxel.DirtyFrontier
import LumioVoxel.StepRuns

/-!
# Coverage applied late

A coverage is a value: it can be taken from one frontier and applied to a later one.  It
records for every section it covers the revision it covers; removing what is covered looks
at the sections alone.  So a section written again in between is removed with its later
write.
-/

namespace LumioVoxel

open Fallible StepRuns

namespace DirtyFrontier

/-- One call of `record`. -/
structure RecordCall where
  sectionId : String
  revision : UInt64
  reason : String

/-- The frontier after the call; a refused call leaves it as it was. -/
def recordCall (frontier : DirtyFrontier) (call : RecordCall) : DirtyFrontier :=
  match frontier.record call.sectionId call.revision call.reason with
  | .ok next => next
  | .error _ => frontier

/-- The call is accepted and for this section. -/
def RecordCall.Marks (call : RecordCall) (id : SectionId) : Prop :=
  call.reason ≠ "" ∧ call.sectionId = id.key

/-- The section's latest write is after `cut`. -/
def Above (frontier : DirtyFrontier) (id : SectionId) (cut : UInt64) : Prop :=
  ∃ entry : DirtyEntry, frontier.entries[id]? = some entry ∧ cut < entry.latest

/-! ## 1. What a call does -/

variable {frontier later : DirtyFrontier} {coverage : DirtyCoverage} {id : SectionId}
  {cut : UInt64}

theorem recordCall_of_marks {call : RecordCall} (h : call.Marks id) :
    frontier.recordCall call = { frontier with
      entries := frontier.entries.insert id
        (recordEntry frontier.entries[id]? call.revision call.reason) } := by
  have hrecord : frontier.record call.sectionId call.revision call.reason = .ok _ :=
    record_eq_ok.mpr ⟨h.1, id, h.2, rfl⟩
  simp only [recordCall, hrecord]

/-- A call that is refused, or for another section. -/
theorem getElem?_recordCall_of_not_marks {call : RecordCall} (h : ¬ call.Marks id) :
    (frontier.recordCall call).entries[id]? = frontier.entries[id]? := by
  unfold recordCall
  split
  · rename_i next hrecord
    obtain ⟨hreason, other, hother, rfl⟩ := record_eq_ok.mp hrecord
    have hne : other ≠ id := by
      rintro rfl
      exact h ⟨hreason, hother⟩
    exact BTreeMap.getElem?_insert_ne _ hne _
  · rfl

theorem lt_latest_recordEntry {prev : Option DirtyEntry} {revision : UInt64} {reason : String} :
    cut < (recordEntry prev revision reason).latest ↔
      (∃ entry, prev = some entry ∧ cut < entry.latest) ∨ cut < revision := by
  cases prev with
  | none => simp [recordEntry]
  | some prev =>
    simp only [recordEntry, Option.some.injEq, exists_eq_left']
    split
    · rename_i hlt
      exact ⟨.inr, fun h => h.elim (fun hprev => UInt64.lt_trans hprev hlt) id⟩
    · rename_i hge
      exact ⟨.inl, fun h => h.elim id fun hcut => UInt64.lt_of_lt_of_le hcut (UInt64.not_lt.mp hge)⟩

/-- A section's latest write gets past a revision by a call that does. -/
theorem above_recordCall (frontier : DirtyFrontier) (call : RecordCall) :
    (frontier.recordCall call).Above id cut ↔
      frontier.Above id cut ∨ call.Marks id ∧ cut < call.revision := by
  by_cases hmarks : call.Marks id
  · have hentry : (frontier.recordCall call).entries[id]? =
        some (recordEntry frontier.entries[id]? call.revision call.reason) := by
      rw [recordCall_of_marks hmarks]
      exact Std.ExtTreeMap.getElem?_insert_self
    simp only [Above, hentry, Option.some.injEq, exists_eq_left', lt_latest_recordEntry, hmarks,
      true_and]
  · simp only [Above, getElem?_recordCall_of_not_marks hmarks, hmarks, false_and, or_false]

theorem above_run (frontier : DirtyFrontier) (calls : List RecordCall) :
    (run recordCall frontier calls).Above id cut ↔
      frontier.Above id cut ∨ ∃ call ∈ calls, call.Marks id ∧ cut < call.revision :=
  run_iff_or_exists (Q := fun frontier => frontier.Above id cut)
    (P := fun call => call.Marks id ∧ cut < call.revision) above_recordCall frontier calls

/-! ## 2. What removing a coverage keeps -/

/-- Every section written after what the coverage has for it is still dirty, just as it was. -/
def KeepsLaterWrites (later : DirtyFrontier) (coverage : DirtyCoverage) : Prop :=
  ∀ (id : SectionId) (entry : DirtyEntry), later.entries[id]? = some entry →
    (∀ cut, coverage.covered[id]? = some cut → cut < entry.latest) →
    (later.exceptCovered coverage).entries[id]? = some entry

/-- Removal looks at the sections alone, so it keeps later writes if there are none. -/
theorem keepsLaterWrites_iff :
    later.KeepsLaterWrites coverage ↔
      ∀ (id : SectionId) (cut : UInt64), coverage.covered[id]? = some cut →
        ¬ later.Above id cut := by
  constructor
  · rintro hkeeps id cut hcut ⟨entry, hentry, hlt⟩
    have hkept := hkeeps id entry hentry fun cut' hcut' => by
      obtain rfl := Option.some.inj (hcut.symm.trans hcut')
      exact hlt
    rw [getElem?_exceptCovered, hcut, Option.isSome_some, if_pos rfl] at hkept
    cases hkept
  · intro hnone id entry hentry hlater
    rw [getElem?_exceptCovered]
    cases hcut : coverage.covered[id]? with
    | none => exact hentry
    | some cut => exact absurd ⟨entry, hentry, hlater cut hcut⟩ (hnone id cut hcut)

/-- **Stale coverage.** A coverage of a frontier, applied after more calls of `record`,
keeps every later write exactly when none of the calls marks a covered section past the
revision it is covered to. -/
theorem stale_coverage_iff {ack : DurabilityAckEvidence}
    (h : frontier.coveredBy ack = .ok coverage) (calls : List RecordCall) :
    (run recordCall frontier calls).KeepsLaterWrites coverage ↔
      ∀ call ∈ calls, ∀ (id : SectionId) (cut : UInt64), coverage.covered[id]? = some cut →
        call.Marks id → call.revision ≤ cut := by
  have hcovers := covers_of_coveredBy h
  have hstart : ∀ (id : SectionId) (cut : UInt64), coverage.covered[id]? = some cut →
      ¬ frontier.Above id cut := by
    rintro id cut hcut ⟨entry, hentry, hlt⟩
    obtain ⟨entry', hentry', rfl, -⟩ := (hcovers.covered_iff id cut).mp hcut
    obtain rfl := Option.some.inj (hentry.symm.trans hentry')
    exact UInt64.lt_irrefl _ hlt
  rw [keepsLaterWrites_iff]
  constructor
  · intro hnone call hcall id cut hcut hmarks
    apply UInt64.not_lt.mp
    intro hlt
    apply hnone id cut hcut
    exact (above_run frontier calls).mpr (.inr ⟨call, hcall, hmarks, hlt⟩)
  · intro hcalls id cut hcut habove
    rcases (above_run frontier calls).mp habove with hbefore | ⟨call, hcall, hmarks, hlt⟩
    · exact hstart id cut hcut hbefore
    · exact UInt64.not_lt.mpr (hcalls call hcall id cut hcut hmarks) hlt

def originFrontier : DirtyFrontier :=
  ⟨"world", 1, (∅ : BTreeMap SectionId DirtyEntry).insert originSection ⟨1, 1, "write"⟩⟩

def originAck : DurabilityAckEvidence :=
  ⟨ACK_KIND, "world", ⟨"context", 1⟩, 1, [⟨originSection.key, 1⟩]⟩

def originCoverage : DirtyCoverage := ⟨(∅ : BTreeMap SectionId UInt64).insert originSection 1⟩

theorem coveredBy_origin : originFrontier.coveredBy originAck = .ok originCoverage := by
  have hupTo : foldSteps upToStep ∅ originAck.coveredSections =
      .ok ((∅ : BTreeMap SectionId UInt64).insert originSection 1) := by
    simp only [originAck, foldSteps, upToStep, parseSection_key, ok_bind]
    rw [require_of (BTreeMap.getElem?_empty _)]
    rfl
  have hcover : foldSteps (coverStep ((∅ : BTreeMap SectionId UInt64).insert originSection 1)) ∅
      originFrontier.entries.toList =
        .ok ((∅ : BTreeMap SectionId UInt64).insert originSection 1) := by
    rw [originFrontier, BTreeMap.toList_insert_empty]
    simp only [foldSteps, coverStep, BTreeMap.getElem?_insert, if_pos]
    rfl
  simp only [coveredBy, require_of (show originAck.kind = ACK_KIND from rfl),
    require_of (show originAck.worldId = originFrontier.worldId from rfl),
    require_of (show originAck.context.generation = originFrontier.generation from rfl), ok_bind,
    hupTo, hcover]
  rfl

theorem stale_coverage_origin :
    (run recordCall originFrontier [⟨originSection.key, 1, "write"⟩]).KeepsLaterWrites
      originCoverage := by
  apply (stale_coverage_iff coveredBy_origin _).mpr
  intro call hcall id cut hcut _
  obtain rfl := List.mem_singleton.mp hcall
  rw [originCoverage, BTreeMap.getElem?_insert, BTreeMap.getElem?_empty] at hcut
  split at hcut
  · rw [← Option.some.inj hcut]
    exact UInt64.le_refl _
  · cases hcut

/-- The origin covered up to revision 1 and written at revision 2 is no longer dirty after
the coverage is applied. -/
theorem stale_coverage_forgets :
    ∃ coverage, originFrontier.coveredBy originAck = .ok coverage ∧
      let later := run recordCall originFrontier [⟨originSection.key, 2, "write"⟩]
      later.entries[originSection]? = some ⟨1, 2, "write"⟩ ∧
        coverage.covered[originSection]? = some 1 ∧
        (later.exceptCovered coverage).entries[originSection]? = none := by
  have hcut : originCoverage.covered[originSection]? = some 1 :=
    Std.ExtTreeMap.getElem?_insert_self
  refine ⟨originCoverage, coveredBy_origin, ?_, hcut, ?_⟩
  · have hmarks : RecordCall.Marks ⟨originSection.key, 2, "write"⟩ originSection := ⟨by decide, rfl⟩
    have hentry : originFrontier.entries[originSection]? = some ⟨1, 1, "write"⟩ :=
      Std.ExtTreeMap.getElem?_insert_self
    rw [run_cons, run_nil, recordCall_of_marks hmarks, BTreeMap.getElem?_insert, if_pos rfl, hentry]
    rfl
  · rw [getElem?_exceptCovered, hcut]
    rfl

end DirtyFrontier

end LumioVoxel
