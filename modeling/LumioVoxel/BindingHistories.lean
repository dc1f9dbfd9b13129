import LumioVoxel.BindingSteps

/-!
# Publishing bindings side by side

Any number of transactions are open at once, begun from whatever state their holders had at
hand, and publish in any order.  Those that publish might as well have run one after the other:
each is over the state the one before it published, and what is current in the end is the
initial state with their changes laid over it in that order.
-/

namespace LumioVoxel

open Fallible StepRuns

/-! ## 1. Changes laid over each other -/

/-- A transaction alone, which began from the current state. -/
def commitAlone (policy : BlockEntityTypePolicy) (state : BindingState)
    (tx : BindingTransaction) : Except BindingError BindingState :=
  if state = tx.base then tx.commit policy else .error .commitSplit

/-- The last change counts, and what none of them changes stays. -/
def laidOver {α : Type} (change : BindingTransaction → Option α) (txs : List BindingTransaction)
    (initial : α) : α :=
  txs.foldl (fun value tx => (change tx).getD value) initial

/-- The transactions one after the other lead from the initial state to the final one, which
has all their changes and no other. -/
structure Serial (policy : BlockEntityTypePolicy) (initial : BindingState)
    (txs : List BindingTransaction) (final : BindingState) : Prop where
  alone : foldSteps (commitAlone policy) initial txs = .ok final
  cells : ∀ offset, final.blocks.read offset =
    laidOver (·.blockChanges[offset]?) txs (initial.blocks.read offset)
  references : ∀ offset : CellOffset, final.references[offset]? =
    laidOver (·.referenceChanges[offset]?) txs initial.references[offset]?
  entities : ∀ id : String, final.entities[id]? =
    laidOver (·.entityChanges[id]?) txs initial.entities[id]?

variable {policy : BlockEntityTypePolicy} {initial middle final : BindingState}
  {tx : BindingTransaction} {txs : List BindingTransaction}

theorem Serial.refl (policy : BlockEntityTypePolicy) (state : BindingState) :
    Serial policy state [] state := ⟨rfl, fun _ => rfl, fun _ => rfl, fun _ => rfl⟩

theorem Serial.cons (hbase : tx.base = initial) (hcommit : tx.commit policy = .ok middle)
    (hshows : tx.Shows middle) (h : Serial policy middle txs final) :
    Serial policy initial (tx :: txs) final := by
  subst hbase
  constructor
  · rw [foldSteps_cons_eq_ok]
    exact ⟨middle, (if_pos rfl).trans hcommit, h.alone⟩
  · intro offset
    rw [h.cells, hshows.cells]
    rfl
  · intro offset
    rw [h.references, hshows.references]
    rfl
  · intro id
    rw [h.entities, hshows.entities]
    rfl

/-! ## 2. Staged entities -/

namespace BindingTransaction

theorem keyed_of_entityChanges (h : tx.Keyed) {next : BindingTransaction}
    (hsame : next.entityChanges = tx.entityChanges) : next.Keyed := by
  intro id entity hentity
  rw [hsame] at hentity
  exact h id entity hentity

theorem keyed_setEntityCommit (h : tx.Keyed) (commitId : UInt64) (entity : EntityRecord) :
    (tx.setEntityCommit commitId entity).Keyed := by
  intro id found hfound
  have hinsert : (tx.setEntityCommit commitId entity).entityChanges =
      tx.entityChanges.insert entity.id (some entity) := by
    rw [setEntityCommit, entityChanges_observe]
  rw [hinsert, BTreeMap.getElem?_insert] at hfound
  split at hfound
  · rename_i hid
    obtain rfl := Option.some.inj (Option.some.inj hfound)
    exact hid
  · exact h id found hfound

theorem keyed_setEntityRemovedCommit (h : tx.Keyed) (commitId : UInt64) (entityId : String) :
    (tx.setEntityRemovedCommit commitId entityId).Keyed := by
  intro id found hfound
  have hinsert : (tx.setEntityRemovedCommit commitId entityId).entityChanges =
      tx.entityChanges.insert entityId none := by
    rw [setEntityRemovedCommit, entityChanges_observe]
  rw [hinsert, BTreeMap.getElem?_insert] at hfound
  split at hfound
  · cases hfound
  · exact h id found hfound

/-- Every step stages entities under their own ids. -/
theorem keyed_apply (h : tx.Keyed) (step : BindingStep) : (tx.apply step).Keyed := by
  cases step with
  | place offset block entity => exact keyed_edit h (.place offset block entity)
  | remove offset replacement => exact keyed_edit h (.remove offset replacement)
  | block commitId offset block =>
    exact keyed_of_entityChanges h (entityChanges_observe tx commitId)
  | reference commitId offset entityId =>
    exact keyed_of_entityChanges h (entityChanges_observe tx commitId)
  | referenceRemoved commitId offset =>
    exact keyed_of_entityChanges h (entityChanges_observe tx commitId)
  | entity commitId entity => exact keyed_setEntityCommit h commitId entity
  | entityRemoved commitId entityId => exact keyed_setEntityRemovedCommit h commitId entityId

end BindingTransaction

/-! ## 3. Sessions -/

namespace BindingSession

variable {s : BindingSession}

/-- The transaction an operation publishes. -/
def committed (policy : BlockEntityTypePolicy) (s : BindingSession) :
    BindingOp → Option BindingTransaction
  | .publish i =>
    match s.opened[i]? with
    | none => none
    | some opened =>
      match s.publication.publish opened.tx policy with
      | (.ok _, _) => some opened.tx
      | (.error _, _) => none
  | _ => none

/-- All that are published, in the order in which they are. -/
def commits (policy : BlockEntityTypePolicy) (s : BindingSession) :
    List BindingOp → List BindingTransaction
  | [] => []
  | op :: ops => (s.committed policy op).toList ++ (s.step policy op).commits policy ops

/-- The current state is valid, and every open transaction stages entities under their ids. -/
structure Orderly (policy : BlockEntityTypePolicy) (s : BindingSession) : Prop where
  valid : s.publication.current.Valid policy
  keyed : ∀ opened ∈ s.opened, opened.tx.Keyed

/-- An operation publishes nothing, or one transaction over the current state. -/
theorem orderly_step (h : Orderly policy s) (op : BindingOp) :
    Orderly policy (s.step policy op) ∧
      (s.committed policy op = none ∧ (s.step policy op).publication = s.publication ∨
        ∃ tx next, s.committed policy op = some tx ∧ tx.base = s.publication.current ∧
          tx.commit policy = .ok next ∧ tx.Shows next ∧
          (s.step policy op).publication = ⟨next⟩) := by
  cases op with
  | begin base =>
    refine ⟨⟨h.valid, ?_⟩, .inl ⟨rfl, rfl⟩⟩
    intro opened hopened
    rcases List.mem_append.mp hopened with hold | hnew
    · exact h.keyed opened hold
    · obtain rfl := List.mem_singleton.mp hnew
      exact BindingTransaction.keyed_begin base
  | apply i step =>
    refine ⟨⟨h.valid, ?_⟩, .inl ⟨rfl, rfl⟩⟩
    intro opened hopened
    obtain ⟨k, hk⟩ := List.mem_iff_getElem?.mp hopened
    have hk : (s.opened.modify i (·.apply step))[k]? = some opened := hk
    rw [List.getElem?_modify] at hk
    obtain ⟨old, hold, rfl⟩ := Option.map_eq_some_iff.mp hk
    have hkeyed := h.keyed old (List.mem_of_getElem? hold)
    split
    · exact BindingTransaction.keyed_apply hkeyed step
    · exact hkeyed
  | clone i =>
    refine ⟨⟨h.valid, ?_⟩, .inl ⟨rfl, rfl⟩⟩
    intro opened hopened
    rcases List.mem_append.mp hopened with hold | hnew
    · exact h.keyed opened hold
    · exact h.keyed opened (List.mem_of_getElem? (Option.mem_toList.mp hnew))
  | rollback i =>
    refine ⟨⟨h.valid, ?_⟩, .inl ⟨rfl, rfl⟩⟩
    intro opened hopened
    exact h.keyed opened (List.mem_of_mem_eraseIdx hopened)
  | publish i =>
    have hkeyed : ∀ opened ∈ s.opened.eraseIdx i, opened.tx.Keyed := by
      intro opened hopened
      exact h.keyed opened (List.mem_of_mem_eraseIdx hopened)
    cases hopened : s.opened[i]? with
    | none =>
      have hsame : (s.step policy (.publish i)).publication = s.publication := by
        simp only [step, published, hopened, Option.map_none, Option.getD_none]
      refine ⟨⟨hsame ▸ h.valid, hkeyed⟩, .inl ⟨?_, hsame⟩⟩
      simp only [committed, hopened]
    | some opened =>
      rcases s.publication.publish_cases opened.tx policy with ⟨err, herr⟩ |
        ⟨next, hnext, hbase, -, -⟩
      · have hsame : (s.step policy (.publish i)).publication = s.publication := by
          simp only [step, published, hopened, Option.map_some, herr, Option.getD_some]
        refine ⟨⟨hsame ▸ h.valid, hkeyed⟩, .inl ⟨?_, hsame⟩⟩
        simp only [committed, hopened, herr]
      · have hafter : (s.step policy (.publish i)).publication = ⟨next⟩ := by
          simp only [step, published, hopened, Option.map_some, hnext, Option.getD_some]
        have hcommit : opened.tx.commit policy = .ok next := by
          have hpublish := congrArg Prod.fst hnext
          rw [BindingPublication.publish, if_neg (not_not.mpr hbase)] at hpublish
          cases hresult : opened.tx.commit policy with
          | error err =>
            rw [hresult] at hpublish
            cases hpublish
          | ok result =>
            rw [hresult] at hpublish
            exact hpublish
        obtain ⟨hvalid, hshows⟩ := BindingTransaction.shows_of_commit (hbase ▸ h.valid)
          (h.keyed opened (List.mem_of_getElem? hopened)) hcommit
        refine ⟨⟨hafter ▸ hvalid, hkeyed⟩, .inr ⟨opened.tx, next, ?_, hbase.symm, hcommit,
          hshows, hafter⟩⟩
        simp only [committed, hopened, hnext]

theorem serial_run (h : Orderly policy s) (ops : List BindingOp) :
    Serial policy s.publication.current (s.commits policy ops)
      (run (step policy) s ops).publication.current := by
  induction ops generalizing s with
  | nil => exact .refl policy _
  | cons op ops ih =>
    obtain ⟨horderly, hnothing | hone⟩ := orderly_step h op
    · obtain ⟨hnone, hsame⟩ := hnothing
      have hrest := ih horderly
      rw [hsame] at hrest
      rw [commits, hnone]
      exact hrest
    · obtain ⟨tx, next, hsome, hbase, hcommit, hshows, hafter⟩ := hone
      have hrest := ih horderly
      rw [hafter] at hrest
      rw [commits, hsome]
      exact .cons hbase hcommit hshows hrest

/-- **Publications are serial.** However the transactions of a session are interleaved, the
binding it ends with is what those it published make one after the other, each over the state
the one before it left: no published change is lost, and no other is made. -/
theorem publications_serial (policy : BlockEntityTypePolicy) (blocks : SectionStorage)
    (references : SparseReferenceTable) (entities : List EntityRecord) (initial : BindingState)
    (hnew : BindingState.new blocks references entities policy = .ok initial)
    (ops : List BindingOp) :
    Serial policy initial ((start initial).commits policy ops)
      (run (step policy) (start initial) ops).publication.current := by
  have horderly : Orderly policy (start initial) := by
    refine ⟨BindingState.valid_of_new hnew, ?_⟩
    intro opened hopened
    cases hopened
  exact serial_run horderly ops

theorem publications_serial_chest :
    Serial chestPolicy plainState ((start plainState).commits chestPolicy chestSteps)
      (run (step chestPolicy) (start plainState) chestSteps).publication.current :=
  publications_serial chestPolicy (.uniform ⟨0⟩) ∅ [] plainState (plainState_new (by decide))
    chestSteps

end BindingSession

end LumioVoxel
