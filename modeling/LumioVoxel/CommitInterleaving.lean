import LumioVoxel.SectionFills
import LumioVoxel.StepRuns
import Mathlib.Logic.Function.Basic

/-!
# Commits that interleave over one authority

Every call of `commit` captures a view, drafts a root from it, asks the authority
to prepare that root, seals it and publishes it; other publishers do the same
with roots of their own.  Each of these steps is atomic, and any number of
callers may interleave them over one shared authority.

The base identity that publishing compares is the one published when the
authority prepares, not the one the draft was built from.  A commit therefore
publishes over exactly the root it was built from when nobody published between
its capture and its prepare, and can overwrite another publication otherwise.
-/

namespace LumioVoxel

open DebugText Fallible StepRuns

section Interleaving

variable [UnicodeTables]

/-! ## 1. Publishers -/

/-- A commit call: its ledger, its token, and the view the token was made from. -/
structure CommitCall where
  prepared : PreparedMutation
  ledger : ReceiptLedger
  base : PublishedReadView
  made : ∃ request before after, prepare request base before = (.ok prepared, after)

/-- A call whose transaction is in flight. -/
structure OpenCall extends CommitCall where
  inFlight : ledger.lookup prepared.request = .ok .inFlight

/-- Where a publisher stands.  The last three are publishers other than commit. -/
inductive PublisherPhase where
  | idle
  | captured (call : OpenCall) (view : PublishedReadView)
  | built (call : OpenCall) (view : PublishedReadView) (d : CommitDraft)
  | bound (call : OpenCall) (view : PublishedReadView) (publication : PreparedPublication)
  | holding (call : OpenCall) (view : PublishedReadView) (token : PublicationToken)
      (receipt : Bytes)
  | finished (result : Except MutationError MutationReceipt) (ledger : ReceiptLedger)
  | observing (view : PublishedReadView)
  | proposed (view : PublishedReadView) (publication : PreparedPublication)
  | offering (view : PublishedReadView) (token : PublicationToken)

/-- What a publisher may do next: start a commit, capture a view, propose a root
of its own, or take the next step of what it is doing. -/
inductive PublisherMove where
  | commit (call : CommitCall)
  | observe
  | propose (target : UInt64) (newRoot : PublishedStateRoot) (replacement : SectionReplacement)
  | advance

namespace PublisherPhase

/-- The ledger is asked first; the view is captured only for an in-flight
transaction. -/
def start (call : CommitCall) (authority : PublicationAuthority) :
    PublisherPhase × PublicationAuthority :=
  match h : call.ledger.lookup call.prepared.request with
  | .error err => (.finished (.error (.fromLedger err)) call.ledger, authority)
  | .ok (.duplicate receipt) =>
    (.finished (.ok (duplicateReceipt call.prepared (call.prepared.replayReceipt.getD receipt)))
      call.ledger, authority)
  | .ok .vacant => (.finished (.error .invalidHandle) call.ledger, authority)
  | .ok .inFlight => (.captured ⟨call, h⟩ authority.capture.1, authority.capture.2)

theorem start_of_inFlight (call : OpenCall) (authority : PublicationAuthority) :
    start call.toCommitCall authority =
      (.captured call authority.capture.1, authority.capture.2) := by
  unfold start
  split <;> rename_i h <;> cases call.inFlight.symm.trans h
  rfl

/-- The next step of a commit call or of a proposal. -/
def advance : PublisherPhase × PublicationAuthority → PublisherPhase × PublicationAuthority
  | (.captured call view, authority) =>
    match draft call.prepared view call.ledger with
    | .error err => (.finished (.error err) call.ledger, authority.dropPin view.lease)
    | .ok d => (.built call view d, authority)
  | (.built call view d, authority) =>
    match authority.prepare d.world d.newRoot d.replacement with
    | .error err =>
      (.finished (.error (.fromPublish err)) call.ledger, authority.dropPin view.lease)
    | .ok (publication, authority) => (.bound call view publication, authority)
  | (.bound call view publication, authority) =>
    match receiptBytes call.prepared.txnId call.prepared.baseIdentity
        publication.newRoot.identity call.prepared.fingerprint.hash with
    | .error err => (.finished (.error err) call.ledger, authority.dropPin view.lease)
    | .ok receipt =>
      match authority.sealPublication publication with
      | .error err =>
        (.finished (.error (.fromPublish err)) call.ledger, authority.dropPin view.lease)
      | .ok (token, _, authority) => (.holding call view token receipt, authority)
  | (.holding call view token receipt, authority) =>
    let result := publishAndFinalize call.prepared authority call.ledger token receipt
      (ReceiptLedger.isSome_of_inFlight call.inFlight)
    (.finished result.1 result.2.2, result.2.1.dropPin view.lease)
  | (.proposed view publication, authority) =>
    match authority.sealPublication publication with
    | .error _ => (.idle, authority.dropPin view.lease)
    | .ok (token, _, authority) => (.offering view token, authority)
  | (.offering view token, authority) =>
    match authority.publishOnce token with
    | (.error _, authority) => (.idle, authority.dropPin view.lease)
    | (.ok published, authority) =>
      (.idle, (authority.dropPin published.lease).dropPin view.lease)
  | state => state

/-- A publisher starts something new only when it is done with the last. -/
def move (state : PublisherPhase × PublicationAuthority) :
    PublisherMove → PublisherPhase × PublicationAuthority
  | .commit call =>
    match state.1 with
    | .idle | .finished _ _ => start call state.2
    | _ => state
  | .observe =>
    match state.1 with
    | .idle | .finished _ _ => (.observing state.2.capture.1, state.2.capture.2)
    | _ => state
  | .propose target newRoot replacement =>
    match state.1 with
    | .observing view =>
      match state.2.prepare target newRoot replacement with
      | .error _ => (.idle, state.2.dropPin view.lease)
      | .ok (publication, authority) => (.proposed view publication, authority)
    | _ => state
  | .advance => advance state

end PublisherPhase

/-- One authority and everyone who publishes to it. -/
structure SharedAuthority (Who : Type) where
  authority : PublicationAuthority
  phase : Who → PublisherPhase

variable {Who : Type} [DecidableEq Who]

namespace SharedAuthority

def state (s : SharedAuthority Who) (who : Who) : PublisherPhase × PublicationAuthority :=
  (s.phase who, s.authority)

/-- Publisher `who` is now in this phase over this authority. -/
def put (s : SharedAuthority Who) (who : Who) (state : PublisherPhase × PublicationAuthority) :
    SharedAuthority Who :=
  ⟨state.2, Function.update s.phase who state.1⟩

def step (s : SharedAuthority Who) (input : Who × PublisherMove) : SharedAuthority Who :=
  s.put input.1 (PublisherPhase.move (s.state input.1) input.2)

@[simp] theorem put_authority (s : SharedAuthority Who) (who : Who)
    (state : PublisherPhase × PublicationAuthority) : (s.put who state).authority = state.2 := rfl

@[simp] theorem put_phase_self (s : SharedAuthority Who) (who : Who)
    (state : PublisherPhase × PublicationAuthority) : (s.put who state).phase who = state.1 :=
  Function.update_self ..

theorem put_phase_other (s : SharedAuthority Who) {who other : Who} (h : other ≠ who)
    (state : PublisherPhase × PublicationAuthority) :
    (s.put who state).phase other = s.phase other :=
  Function.update_of_ne h ..

@[simp] theorem state_put (s : SharedAuthority Who) (who : Who)
    (state : PublisherPhase × PublicationAuthority) : (s.put who state).state who = state := by
  rw [SharedAuthority.state, put_phase_self, put_authority]

@[simp] theorem put_put (s : SharedAuthority Who) (who : Who)
    (first second : PublisherPhase × PublicationAuthority) :
    (s.put who first).put who second = s.put who second := by
  simp only [put, Function.update_idem]

@[simp] theorem put_state (s : SharedAuthority Who) (who : Who) : s.put who (s.state who) = s := by
  simp only [put, SharedAuthority.state, Function.update_eq_self]

theorem step_put_advance (s : SharedAuthority Who) (who : Who)
    (state : PublisherPhase × PublicationAuthority) :
    step (s.put who state) (who, .advance) = s.put who (PublisherPhase.advance state) := by
  rw [step, state_put, put_put]
  rfl

/-! ## 2. Back to back, the steps are `commit` -/

theorem run_advance (s : SharedAuthority Who) (who : Who) (n : Nat) :
    run step s (List.replicate n (who, .advance)) =
      s.put who (PublisherPhase.advance^[n] (s.state who)) := by
  induction n generalizing s with
  | zero => exact (put_state s who).symm
  | succ n ih =>
    have hfirst := step_put_advance s who (s.state who)
    rw [put_state] at hfirst
    rw [List.replicate_succ, run_cons, hfirst, ih, state_put, put_put, Function.iterate_succ_apply]

end SharedAuthority

namespace PublisherPhase

/-- From a captured view on, the four steps are `commitView`. -/
theorem advance_captured (call : OpenCall) (view : PublishedReadView)
    (authority : PublicationAuthority) :
    advance^[4] (.captured call view, authority) =
      let result := commitView call.prepared view authority call.ledger
        (ReceiptLedger.isSome_of_inFlight call.inFlight)
      (.finished result.1 result.2.2, result.2.1.dropPin view.lease) := by
  show advance (advance (advance (advance (.captured call view, authority)))) = _
  cases hdraft : draft call.prepared view call.ledger with
  | error err => simp only [advance, commitView, hdraft]
  | ok d =>
    cases hprepare : authority.prepare d.world d.newRoot d.replacement with
    | error err => simp only [advance, commitView, hdraft, hprepare]
    | ok bound =>
      cases hbytes : receiptBytes call.prepared.txnId call.prepared.baseIdentity
          bound.1.newRoot.identity call.prepared.fingerprint.hash with
      | error err => simp only [advance, commitView, hdraft, hprepare, hbytes]
      | ok receipt =>
        cases hseal : bound.2.sealPublication bound.1 with
        | error err => simp only [advance, commitView, hdraft, hprepare, hbytes, hseal]
        | ok taken => simp only [advance, commitView, hdraft, hprepare, hbytes, hseal]

/-- A commit call that nobody interrupts computes `commit`. -/
theorem advance_start (call : CommitCall) (authority : PublicationAuthority) :
    advance^[4] (start call authority) =
      (.finished (commit call.prepared authority call.ledger).1
        (commit call.prepared authority call.ledger).2.2,
        (commit call.prepared authority call.ledger).2.1) := by
  unfold start
  split
  · rename_i hlookup
    rw [commit_of_error hlookup]
    rfl
  · rename_i hlookup
    rw [commit_of_duplicate hlookup]
    rfl
  · rename_i hlookup
    rw [commit_of_vacant hlookup]
    rfl
  · rename_i hlookup
    rw [commit_of_inFlight hlookup]
    exact advance_captured ⟨call, hlookup⟩ authority.capture.1 authority.capture.2

end PublisherPhase

/-- **Uninterrupted commits.** The steps of one call, run back to back, are the
function `commit`; nobody else is affected. -/
theorem run_commit (s : SharedAuthority Who) (who : Who) (hidle : s.phase who = .idle)
    (call : CommitCall) :
    run SharedAuthority.step s ((who, .commit call) :: List.replicate 4 (who, .advance)) =
      s.put who (.finished (commit call.prepared s.authority call.ledger).1
        (commit call.prepared s.authority call.ledger).2.2,
        (commit call.prepared s.authority call.ledger).2.1) := by
  have hstart : SharedAuthority.step s (who, .commit call) =
      s.put who (PublisherPhase.start call s.authority) := by
    simp only [SharedAuthority.step, PublisherPhase.move, SharedAuthority.state, hidle]
  rw [run_cons, hstart, SharedAuthority.run_advance, SharedAuthority.state_put,
    PublisherPhase.advance_start, SharedAuthority.put_put]

/-! ## 3. The root a commit replaces -/

/-- The new root was built from the root it replaced: what the old one held is
still there, except in the cells the request writes. -/
structure BuiltOver (request : MutationRequest) (view : PublishedReadView)
    (old new : PublishedStateRoot) : Prop where
  identity : view.root.identity = old.identity
  base : PublishedStateRoot.SameCut view.root old
  cells : ∀ id offset, new.readCell id offset =
    (request.lastWrite id offset).or (old.readCell id offset)
  presence : ∀ id : SectionId, ¬ request.Names id →
    new.directory.entries[id]?.map SectionSlot.presence =
      old.directory.entries[id]?.map SectionSlot.presence

namespace SharedAuthority

/-- With this input a commit call takes its last step and returns a receipt. -/
def Publishes (s : SharedAuthority Who) (input : Who × PublisherMove) (call : OpenCall)
    (view : PublishedReadView) : Prop :=
  ∃ token bytes receipt ledger, s.phase input.1 = .holding call view token bytes ∧
    input.2 = .advance ∧ (step s input).phase input.1 = .finished (.ok receipt) ledger

/-- Every commit that publishes was built from the root it replaces. -/
def NoLostUpdate (s : SharedAuthority Who) (input : Who × PublisherMove) : Prop :=
  ∀ call view, Publishes s input call view →
    BuiltOver call.prepared.request view s.authority.root (step s input).authority.root

/-- A commit that asks the authority to prepare does so while the root it
captured is still the published one. -/
def BaseCurrent (s : SharedAuthority Who) (input : Who × PublisherMove) : Prop :=
  ∀ call view d, s.phase input.1 = .built call view d → input.2 = .advance →
    s.authority.root.identity = view.root.identity

end SharedAuthority

/-! ## 4. What the phases know -/

variable {roots : PublishedStateRoot → Prop}

/-- A call past the authority's prepare step: its draft, and the captured root as
the base that publishing will compare. -/
def BoundTo (call : OpenCall) (view : PublishedReadView) (newRoot : PublishedStateRoot)
    (baseIdentity : Digest) : Prop :=
  baseIdentity = view.root.identity ∧ ∃ d, draft call.prepared view call.ledger = .ok d ∧
    newRoot = d.newRoot.incorporateReplacement d.replacement

/-- The views of a call are roots of the run, and it holds what its steps built. -/
def PhaseInv (roots : PublishedStateRoot → Prop) : PublisherPhase → Prop
  | .captured call view => roots view.root ∧ roots call.base.root
  | .built call view d => roots view.root ∧ roots call.base.root ∧
      draft call.prepared view call.ledger = .ok d
  | .bound call view publication => roots view.root ∧ roots call.base.root ∧
      BoundTo call view publication.newRoot publication.baseIdentity
  | .holding call view token _ => roots view.root ∧ roots call.base.root ∧
      BoundTo call view token.newRoot token.baseIdentity
  | _ => True

theorem phaseInv_start {call : CommitCall} {authority : PublicationAuthority}
    (hroot : roots authority.root) (hbase : roots call.base.root) :
    PhaseInv roots (PublisherPhase.start call authority).1 := by
  unfold PublisherPhase.start
  split
  · trivial
  · trivial
  · trivial
  · exact ⟨hroot, hbase⟩

/-- One step of a call's work: only the prepare step needs the published root to
be the captured one. -/
theorem phaseInv_advance {phase : PublisherPhase} {authority : PublicationAuthority}
    (hinv : PhaseInv roots phase)
    (hcurrent : ∀ call view d, phase = .built call view d →
      authority.root.identity = view.root.identity) :
    PhaseInv roots (PublisherPhase.advance (phase, authority)).1 := by
  cases phase with
  | captured call view =>
    obtain ⟨hview, hbase⟩ := hinv
    cases hdraft : draft call.prepared view call.ledger with
    | error err => simp only [PublisherPhase.advance, hdraft, PhaseInv]
    | ok d =>
      simp only [PublisherPhase.advance, hdraft]
      exact ⟨hview, hbase, hdraft⟩
  | built call view d =>
    obtain ⟨hview, hbase, hdraft⟩ := hinv
    cases hprepare : authority.prepare d.world d.newRoot d.replacement with
    | error err => simp only [PublisherPhase.advance, hprepare, PhaseInv]
    | ok result =>
      obtain ⟨-, hidentity, hnew, -⟩ := PublicationAuthority.prepare_eq_ok hprepare
      simp only [PublisherPhase.advance, hprepare]
      refine ⟨hview, hbase, hidentity.trans (hcurrent call view d rfl), d, hdraft, hnew⟩
  | bound call view publication =>
    obtain ⟨hview, hbase, hbound⟩ := hinv
    simp only [PublisherPhase.advance]
    split
    · trivial
    · split
      · trivial
      · rename_i hseal
        obtain ⟨hidentity, hnew, -⟩ := PublicationAuthority.sealPublication_eq_ok hseal
        refine ⟨hview, hbase, ?_⟩
        rw [hidentity, hnew]
        exact hbound
  | holding call view token receipt => trivial
  | proposed view publication =>
    simp only [PublisherPhase.advance]
    split <;> trivial
  | offering view token =>
    simp only [PublisherPhase.advance]
    split <;> trivial
  | idle => trivial
  | finished result ledger => trivial
  | observing view => trivial

theorem phaseInv_move {state : PublisherPhase × PublicationAuthority} {m : PublisherMove}
    (hroot : roots state.2.root) (hinv : PhaseInv roots state.1)
    (hstart : ∀ call, m = .commit call → roots call.base.root)
    (hcurrent : ∀ call view d, state.1 = .built call view d → m = .advance →
      state.2.root.identity = view.root.identity) :
    PhaseInv roots (PublisherPhase.move state m).1 := by
  cases m with
  | commit call =>
    simp only [PublisherPhase.move]
    split
    · exact phaseInv_start hroot (hstart call rfl)
    · exact phaseInv_start hroot (hstart call rfl)
    · exact hinv
  | observe =>
    simp only [PublisherPhase.move]
    split
    · trivial
    · trivial
    · exact hinv
  | propose target newRoot replacement =>
    simp only [PublisherPhase.move]
    split
    · split <;> trivial
    · exact hinv
  | advance => exact phaseInv_advance hinv fun call view d h => hcurrent call view d h rfl

/-- The cells of a call's draft: its last writes over the captured root. -/
theorem cells_of_call (hfree : PublishedStateRoot.CollisionFree roots) {call : CommitCall}
    {view : PublishedReadView} {d : CommitDraft} (hview : roots view.root)
    (hbase : roots call.base.root) (hdraft : DraftOf call.prepared view call.ledger d)
    (id : SectionId) (offset : CellOffset) :
    d.newRoot.readCell id offset =
      (call.prepared.request.lastWrite id offset).or (view.root.readCell id offset) := by
  obtain ⟨request, before, after, hmade⟩ := call.made
  rcases prepare_cases request call.base before with ⟨err, herr, -⟩ |
    ⟨stored, token, -, hreplay, -, -, hempty, -⟩ | ⟨token, ledger', -, -, hfresh, -, hsealed⟩
  · rw [hmade] at herr
    cases herr
  · -- a replaying token has no replacement, so a draft of it names no section
    rw [hmade] at hreplay
    obtain rfl := Except.ok.inj (Prod.mk.inj hreplay).1
    have hnone : ¬ call.prepared.request.Names id := by
      intro hname
      obtain ⟨slot, hslot⟩ := (hdraft.changed id hname).1
      rw [hempty] at hslot
      exact Option.some_ne_none _ (hslot.symm.trans (BTreeMap.getElem?_empty id))
    rw [MutationRequest.lastWrite_of_not_names hnone, PublishedStateRoot.readCell,
      hdraft.unchanged id hnone]
    rfl
  · rw [hmade] at hfresh
    obtain rfl := Except.ok.inj (Prod.mk.inj hfresh).1
    have hidentity : view.root.identity = call.base.root.identity :=
      hdraft.baseIdentity.symm.trans hsealed.baseIdentity_eq
    rw [hsealed.request_eq]
    exact cells_of_draft hsealed (hfree _ _ hview hbase hidentity) hdraft id offset

/-- **The publishing step.** A call whose recorded base is the root it captured
replaces a root that reads like the captured one. -/
theorem builtOver_of_publish (hfree : PublishedStateRoot.CollisionFree roots) {call : OpenCall}
    {view : PublishedReadView} {token : PublicationToken} {bytes : Bytes}
    {authority : PublicationAuthority} {receipt : MutationReceipt} {ledger : ReceiptLedger}
    (hroot : roots authority.root) (hinv : PhaseInv roots (.holding call view token bytes))
    (hdone : (PublisherPhase.advance (.holding call view token bytes, authority)).1 =
      .finished (.ok receipt) ledger) :
    BuiltOver call.prepared.request view authority.root
      (PublisherPhase.advance (.holding call view token bytes, authority)).2.root := by
  obtain ⟨hview, hbase, hidentity, d, hdraft, hnew⟩ := hinv
  obtain ⟨-, entry, hentry, -, hfresh⟩ := ReceiptLedger.lookup_inFlight.mp call.inFlight
  have hdraftOf := draft_eq_ok hdraft
  rcases publishAndFinalize_cases call.prepared authority token bytes hentry hfresh
    (ReceiptLedger.isSome_of_inFlight call.inFlight) with ⟨err, hlast⟩ |
    ⟨authority', ledger', hlast, hreplaced, hroot', -⟩
  · simp only [PublisherPhase.advance, hlast] at hdone
    cases hdone
  · have hsame : view.root.identity = authority.root.identity := hidentity.symm.trans hreplaced
    have hcut := hfree _ _ hview hroot hsame
    have hresult : (PublisherPhase.advance (.holding call view token bytes, authority)).2.root =
        d.newRoot.incorporateReplacement d.replacement := by
      simp only [PublisherPhase.advance, hlast, PublicationAuthority.dropPin_root, hroot', hnew]
    rw [hresult]
    refine ⟨hsame, hcut, fun id offset => ?_, fun id hname => ?_⟩
    · rw [← hcut.cells]
      exact cells_of_call hfree hview hbase hdraftOf id offset
    · rw [← hcut.presence, PublishedStateRoot.directory_incorporateReplacement,
        hdraftOf.unchanged id hname]

/-! ## 5. No lost update -/

open SharedAuthority

/-- Every root of the run, and every view the tokens were made from, is known. -/
structure SharedAuthority.Inv (roots : PublishedStateRoot → Prop) (s : SharedAuthority Who) :
    Prop where
  root : roots s.authority.root
  phases : ∀ who, PhaseInv roots (s.phase who)

theorem inv_step {s : SharedAuthority Who} {input : Who × PublisherMove} (hinv : s.Inv roots)
    (hroot : roots (step s input).authority.root)
    (hbase : ∀ call, input.2 = .commit call → roots call.base.root)
    (hcurrent : BaseCurrent s input) : (step s input).Inv roots := by
  refine ⟨hroot, fun who => ?_⟩
  by_cases hwho : who = input.1
  · subst hwho
    rw [step, put_phase_self]
    exact phaseInv_move hinv.root (hinv.phases input.1) hbase hcurrent
  · rw [step, put_phase_other _ hwho]
    exact hinv.phases who

theorem noLostUpdate_step (hfree : PublishedStateRoot.CollisionFree roots)
    {s : SharedAuthority Who} {input : Who × PublisherMove} (hinv : s.Inv roots) :
    NoLostUpdate s input := by
  rintro call view ⟨token, bytes, receipt, ledger, hphase, hmove, hdone⟩
  have hphaseInv := hinv.phases input.1
  rw [hphase] at hphaseInv
  have hstep : PublisherPhase.move (s.state input.1) input.2 =
      PublisherPhase.advance (.holding call view token bytes, s.authority) := by
    rw [hmove, SharedAuthority.state, hphase, PublisherPhase.move]
  simp only [step, put_phase_self, put_authority, hstep] at hdone ⊢
  exact builtOver_of_publish hfree hinv.root hphaseInv hdone

/-- **No lost update.** Where every commit asks the authority to prepare while the
root it captured is still published, every commit that publishes was built from
the root it replaces, however the callers interleave. -/
theorem no_lost_update (roots : PublishedStateRoot → Prop)
    (hfree : PublishedStateRoot.CollisionFree roots) (s : SharedAuthority Who)
    (inputs : List (Who × PublisherMove)) (hidle : ∀ who, s.phase who = .idle)
    (hroots : ∀ t ∈ visited step s inputs, roots t.authority.root)
    (hbases : ∀ who call, (who, PublisherMove.commit call) ∈ inputs → roots call.base.root)
    (hcurrent : Along step BaseCurrent s inputs) : Along step NoLostUpdate s inputs := by
  have hstart : s.Inv roots := by
    refine ⟨hroots s (start_mem_visited s inputs), fun who => ?_⟩
    rw [hidle who]
    trivial
  have hbase : ∀ input ∈ inputs, ∀ call, input.2 = PublisherMove.commit call →
      roots call.base.root := by
    intro input hin call hcall
    exact hbases input.1 call (hcall ▸ hin)
  have hconditions := along_and (along_of_visited hroots)
    (along_and (along_of_mem hbase s) hcurrent)
  refine along_of_invariant ?_ ?_ hstart hconditions
  · intro t input hinv h
    exact inv_step hinv h.1 h.2.1 h.2.2
  · intro t input hinv _
    exact noLostUpdate_step hfree hinv

/-! ## 6. Undisturbed and disturbed commits -/

/-- The steps of a call whose draft goes through, one by one, over whatever was
published since its view was captured. -/
theorem advances_of (call : OpenCall) {view : PublishedReadView} {d : CommitDraft} {n : Nat}
    (authority : PublicationAuthority) (hdraft : draft call.prepared view call.ledger = .ok d)
    (hbelongs : view.root.stamp.BelongsTo authority.worldId authority.contextId
      authority.generation) (hroom : authority.CanPublish (n + 1)) :
    ∃ publication authority₁ token bytes authority₂ receipt authority₃ ledger,
      PublisherPhase.advance (.captured call view, authority) = (.built call view d, authority) ∧
      PublisherPhase.advance (.built call view d, authority) =
        (.bound call view publication, authority₁) ∧
      PublisherPhase.advance (.bound call view publication, authority₁) =
        (.holding call view token bytes, authority₂) ∧
      PublisherPhase.advance (.holding call view token bytes, authority₂) =
        (.finished (.ok receipt) ledger, authority₃.dropPin view.lease) ∧
      authority₁.root = authority.root ∧ authority₂.root = authority.root ∧
      Committed call.prepared view authority call.ledger d receipt authority₃ ledger ∧
      authority₃.CanPublish n := by
  have hdraftOf := draft_eq_ok hdraft
  have hnew : d.newRoot.stamp.BelongsTo authority.worldId authority.contextId
      authority.generation := by
    obtain ⟨hschema, hworld, hcontext, hgen⟩ := hdraftOf.stamp.belongs
    obtain ⟨-, hworld', hcontext', hgen'⟩ := hbelongs
    exact ⟨hschema, hworld.trans hworld', hcontext.trans hcontext', hgen.trans hgen'⟩
  obtain ⟨publication, authority₁, token, publication', authority₂, -, -, hprepare, hseal, -⟩ :=
    PublicationAuthority.publish_of hroom d.replacement hnew
  obtain ⟨bytes, hbytes⟩ := exists_receiptBytes call.prepared.txnId call.prepared.baseIdentity
    publication.newRoot.identity call.prepared.fingerprint.hash
  have hworld : d.world = d.newRoot.stamp.worldRevision :=
    hdraftOf.world.trans hdraftOf.stamp.world.symm
  rw [← hworld] at hprepare
  obtain ⟨-, -, -, -, -, -, next, hfirst⟩ := PublicationAuthority.prepare_eq_ok hprepare
  obtain ⟨-, -, -, -, -, pins, hsecond⟩ := PublicationAuthority.sealPublication_eq_ok hseal
  obtain ⟨receipt, authority₃, ledger, hview, hdone, hroom₃⟩ :=
    commitView_of authority call.inFlight hdraft hbelongs hroom
  have hbuild : PublisherPhase.advance (.captured call view, authority) =
      (.built call view d, authority) := by
    simp only [PublisherPhase.advance, hdraft]
  have hbind : PublisherPhase.advance (.built call view d, authority) =
      (.bound call view publication, authority₁) := by
    simp only [PublisherPhase.advance, hprepare]
  have hhold : PublisherPhase.advance (.bound call view publication, authority₁) =
      (.holding call view token bytes, authority₂) := by
    simp only [PublisherPhase.advance, hbytes, hseal]
  have hpublish : PublisherPhase.advance (.holding call view token bytes, authority₂) =
      (.finished (.ok receipt) ledger, authority₃.dropPin view.lease) := by
    have hall := PublisherPhase.advance_captured call view authority
    rw [hview] at hall
    rw [← hhold, ← hbind, ← hbuild]
    exact hall
  refine ⟨publication, authority₁, token, bytes, authority₂, receipt, authority₃, ledger, hbuild,
    hbind, hhold, hpublish, ?_, ?_, hdone, hroom₃⟩
  · rw [hfirst]
  · rw [hsecond, hfirst]

/-- A call and the steps it needs. -/
def SharedAuthority.turns (who : Who) (call : CommitCall) : List (Who × PublisherMove) :=
  (who, .commit call) :: List.replicate 4 (who, .advance)

/-- A call that takes one cut to the next, with nobody in between. -/
structure SharedAuthority.Takes (s : SharedAuthority Who) (who : Who)
    (known next : PublishedStateRoot) (call : CommitCall) (authority : PublicationAuthority) :
    Prop where
  base : call.base.root.Alike known
  runs : ∃ receipt ledger,
    run step s (turns who call) = s.put who (.finished (.ok receipt) ledger, authority)
  root : authority.root.Alike next
  roots : ∀ t ∈ visited step s (turns who call),
    t.authority.root.Alike known ∨ t.authority.root.Alike next
  current : Along step BaseCurrent s (turns who call)

/-- **A fill publishes**, from its capture to its publication. -/
theorem publishes_fill (s : SharedAuthority Who) {who : Who} (hidle : s.phase who = .idle)
    {known : PublishedStateRoot} (hroot : s.authority.root.Alike known) {id : SectionId}
    (hfillable : known.Fillable id) {n : Nat} (hroom : s.authority.CanPublish (n + 1))
    {txnId : String} (htxn : txnId ≠ "") (block : BlockId) :
    ∃ (call : CommitCall) (authority : PublicationAuthority),
      call.prepared.request =
        fillRequest txnId id block (known.stamp.effectiveRevision id.key) ∧
      authority.CanPublish n ∧ s.Takes who known (known.filled id block) call authority := by
  have hview : s.authority.capture.1.root.Alike known := hroot
  have hprep : Preparable (fillRequest txnId id block (known.stamp.effectiveRevision id.key))
      s.authority.capture.1 emptyLedger :=
    fillRequest_preparable hview hfillable (fillRequest_vacant htxn id block _) (by decide)
  obtain ⟨token, ledger, hmade, hsealed, hflight, hdraftable⟩ := prepare_draft_of hprep
    (by rw [hview.stamp]; exact hfillable.canonical)
  obtain ⟨d, hdraft⟩ := hdraftable s.authority.capture.1 rfl
  let call : OpenCall := ⟨⟨token, ledger, s.authority.capture.1, _, _, _, hmade⟩, hflight⟩
  obtain ⟨publication, authority₁, published, bytes, authority₂, receipt, authority₃, ledger', hbuild,
    hbind, hhold, hpublish, hroot₁, hroot₂, hdone, hroom'⟩ := advances_of call s.authority.capture.2
      hdraft s.authority.root_belongs (PublicationAuthority.capture_canPublish hroom)
  have hstart : step s (who, .commit call.toCommitCall) =
      s.put who (.captured call s.authority.capture.1, s.authority.capture.2) := by
    rw [step, SharedAuthority.state, hidle]
    exact congrArg (s.put who) (PublisherPhase.start_of_inFlight call s.authority)
  have hnext : authority₃.root.Alike (known.filled id block) := by
    rw [hdone.root]
    exact alike_filled hsealed hdone.draftOf fillRequest_fills hview hview
  refine ⟨call.toCommitCall, authority₃.dropPin s.authority.capture.1.lease, hsealed.request_eq,
    PublicationAuthority.dropPin_canPublish hroom' _, hview, ⟨receipt, ledger', ?_⟩, hnext, ?_, ?_⟩
  · rw [turns, run_cons, hstart, run_advance, state_put, put_put]
    show s.put who (PublisherPhase.advance (PublisherPhase.advance (PublisherPhase.advance
      (PublisherPhase.advance _)))) = _
    rw [hbuild, hbind, hhold, hpublish]
  · intro t ht
    simp only [turns, List.replicate, visited, hstart, step_put_advance, hbuild, hbind, hhold,
      hpublish, List.mem_cons, List.not_mem_nil, or_false] at ht
    rcases ht with rfl | rfl | rfl | rfl | rfl | rfl
    · exact .inl hroot
    · exact .inl hroot
    · exact .inl hroot
    · exact .inl (hroot₁ ▸ hroot)
    · exact .inl (hroot₂ ▸ hroot)
    · exact .inr hnext
  · -- only the step that builds the draft asks whether the base is current
    simp only [turns, List.replicate, Along, hstart, step_put_advance, hbuild, hbind, hhold]
    refine ⟨?_, ?_, ?_, ?_, ?_, trivial⟩
    · intro call' view d' hphase
      cases hidle.symm.trans hphase
    · intro call' view d' hphase
      cases hphase.symm.trans (put_phase_self ..)
    · intro call' view d' hphase _
      cases hphase.symm.trans (put_phase_self ..)
      rfl
    · intro call' view d' hphase
      cases hphase.symm.trans (put_phase_self ..)
    · intro call' view d' hphase
      cases hphase.symm.trans (put_phase_self ..)

omit [DecidableEq Who] in
/-- The only call among its turns. -/
theorem eq_of_mem_turns {who who' : Who} {call call' : CommitCall}
    (h : (who', .commit call') ∈ turns who call) : call' = call := by
  simp only [turns, List.replicate, List.mem_cons, Prod.mk.injEq, PublisherMove.commit.injEq,
    reduceCtorEq, and_false, or_false, List.not_mem_nil] at h
  exact h.2

omit [UnicodeTables] in
/-- Two callers, each of whom fills the section, one after the other. -/
theorem no_lost_update_twoFills : letI := asciiOnly
    ∃ (s : SharedAuthority Bool) (first second : List (Bool × PublisherMove))
      (call₁ call₂ : CommitCall),
      (false, .commit call₁) ∈ first ∧
      call₁.prepared.request = fillRequest "first" originSection ⟨1⟩ 0 ∧
      (true, .commit call₂) ∈ second ∧
      call₂.prepared.request = fillRequest "second" originSection ⟨0⟩ 1 ∧
      (∀ who, ∃ receipt ledger,
        (run step s (first ++ second)).phase who = .finished (.ok receipt) ledger) ∧
      (∀ offset, s.authority.root.readCell originSection offset = some ⟨0⟩ ∧
        (run step s first).authority.root.readCell originSection offset = some ⟨1⟩ ∧
        (run step s (first ++ second)).authority.root.readCell originSection offset = some ⟨0⟩) ∧
      (run step s (first ++ second)).authority.root.stamp.worldRevision = 2 ∧
      Along step NoLostUpdate s (first ++ second) := by
  let _ := asciiOnly
  obtain ⟨authority, -, hroot, -, -, -, hroom⟩ := PublicationAuthority.new_of
    (show "world" ≠ "" ∧ "context" ≠ "" by decide)
    (show (twoBlockRoot ⟨0⟩).stamp.BelongsTo "world" "context" 1 from ⟨rfl, rfl, rfl, rfl⟩)
    (show 7 + 1 ≤ 8 by decide) (by decide)
  replace hroot : authority.root.Alike (twoBlockRoot ⟨0⟩) := by
    rw [hroot]
    exact .refl _
  let s : SharedAuthority Bool := ⟨authority, fun _ => .idle⟩
  obtain ⟨call₁, authority₁, hrequest₁, hroom₁, hfirst⟩ :=
    publishes_fill s (show s.phase false = .idle from rfl) hroot (fillable_twoBlockRoot ⟨0⟩) hroom
      (show "first" ≠ "" by decide) ⟨1⟩
  obtain ⟨receipt₁, ledger₁, hrun₁⟩ := hfirst.runs
  let t := s.put false (.finished (.ok receipt₁) ledger₁, authority₁)
  obtain ⟨call₂, authority₂, hrequest₂, -, hsecond⟩ :=
    publishes_fill t (show t.phase true = .idle from rfl) hfirst.root fillable_filledRoot hroom₁
      (show "second" ≠ "" by decide) ⟨0⟩
  obtain ⟨receipt₂, ledger₂, hrun₂⟩ := hsecond.runs
  have hrun : run step s (turns false call₁ ++ turns true call₂) =
      t.put true (.finished (.ok receipt₂) ledger₂, authority₂) := by
    rw [run_append, hrun₁, hrun₂]
  have hknown : ∀ root : PublishedStateRoot, root.Alike (twoBlockRoot ⟨0⟩) ∨
      root.Alike filledRoot ∨ root.Alike refilledRoot → ∃ k ∈ fillCuts, root.Alike k := by
    rintro root (h | h | h)
    · exact ⟨_, .head _, h⟩
    · exact ⟨_, .tail _ (.head _), h⟩
    · exact ⟨_, .tail _ (.tail _ (.head _)), h⟩
  refine ⟨s, turns false call₁, turns true call₂, call₁, call₂, List.mem_cons_self, ?_,
    List.mem_cons_self, ?_, ?_, ?_, ?_,
    no_lost_update (fun root => ∃ k ∈ fillCuts, root.Alike k)
      (PublishedStateRoot.collisionFree_alike nodup_fillCuts) s _ (fun _ => rfl) ?_ ?_ ?_⟩
  · rw [hrequest₁, effectiveRevision_twoBlockRoot]
  · rw [hrequest₂]
    exact congrArg (fillRequest "second" originSection ⟨0⟩) effectiveRevision_filledRoot
  · intro who
    rw [hrun]
    cases who with
    | false =>
      refine ⟨receipt₁, ledger₁, ?_⟩
      rw [put_phase_other _ (by decide), put_phase_self]
    | true => exact ⟨receipt₂, ledger₂, put_phase_self ..⟩
  · intro offset
    rw [hrun, hrun₁, put_authority, put_authority, hroot.sameCut.cells, hfirst.root.sameCut.cells,
      hsecond.root.sameCut.cells]
    exact ⟨PublishedStateRoot.readCell_ofBlock (slot_twoBlockRoot ⟨0⟩) offset,
      PublishedStateRoot.readCell_ofBlock (slot_filled ..) offset,
      PublishedStateRoot.readCell_ofBlock (slot_filled ..) offset⟩
  · rw [hrun, put_authority, hsecond.root.stamp]
    rfl
  · intro u hu
    rcases mem_visited_append hu with hu | hu
    · rcases hfirst.roots u hu with h | h
      · exact hknown _ (.inl h)
      · exact hknown _ (.inr (.inl h))
    · rw [hrun₁] at hu
      rcases hsecond.roots u hu with h | h
      · exact hknown _ (.inr (.inl h))
      · exact hknown _ (.inr (.inr h))
  · intro who call hin
    rcases List.mem_append.mp hin with hin | hin
    · rw [eq_of_mem_turns hin]
      exact hknown _ (.inl hfirst.base)
    · rw [eq_of_mem_turns hin]
      exact hknown _ (.inr (.inl hsecond.base))
  · rw [along_append, hrun₁]
    exact ⟨hfirst.current, hsecond.current⟩

omit [UnicodeTables] in
/-- Two calls prepared from one root.  The second publishes between the first
one's capture and its prepare; the first then replaces a root that it was not
built from, and the second one's write is gone. -/
theorem lost_update : letI := asciiOnly
    ∃ (s : SharedAuthority Bool) (inputs : List (Bool × PublisherMove)),
      (∀ who, s.phase who = .idle) ∧
      (∀ who, ∃ receipt ledger, (run step s inputs).phase who = .finished (.ok receipt) ledger) ∧
      (∃ who call, (who, PublisherMove.commit call) ∈ inputs ∧
        call.prepared.request = originRequest "second" [(⟨6, by decide⟩, ⟨2⟩)]) ∧
      (run step s inputs).authority.root.readCell originSection ⟨6, by decide⟩ = some ⟨0⟩ ∧
      ¬ Along step NoLostUpdate s inputs := by
  let _ := asciiOnly
  obtain ⟨authority, -, hroot, hroom⟩ := exists_oneSectionAuthority ⟨0⟩
  have hkeys : ∀ key : String, authority.capture.1.root.stamp.sectionRevisionSet[key]? ≠ none →
      ∃ id : SectionId, key = id.key := by
    rw [PublicationAuthority.capture_view_root, hroot]
    exact oneSectionRoot_keys ⟨0⟩
  have hprep₁ : Preparable (originRequest "first" [(⟨5, by decide⟩, ⟨1⟩)]) authority.capture.1
      emptyLedger := originRequest_preparable hroot (by decide) (by decide)
  have hprep₂ : Preparable (originRequest "second" [(⟨6, by decide⟩, ⟨2⟩)]) authority.capture.1
      emptyLedger := originRequest_preparable hroot (by decide) (by decide)
  obtain ⟨first, firstLedger, hmade₁, hsealed₁, hflight₁, hdraft₁⟩ := prepare_draft_of hprep₁ hkeys
  obtain ⟨second, secondLedger, hmade₂, hsealed₂, hflight₂, hdraft₂⟩ :=
    prepare_draft_of hprep₂ hkeys
  let call₁ : OpenCall := ⟨⟨first, firstLedger, authority.capture.1, _, _, _, hmade₁⟩, hflight₁⟩
  let call₂ : CommitCall := ⟨second, secondLedger, authority.capture.1, _, _, _, hmade₂⟩
  -- the second call runs from start to end over the authority the first captured from
  obtain ⟨d₂, hd₂⟩ := hdraft₂ authority.capture.2.capture.1 rfl
  obtain ⟨receipt₂, authority', ledger₂, hcommit₂, hdone₂, hroom'⟩ :=
    commit_of hflight₂ hd₂ (PublicationAuthority.capture_canPublish hroom)
  have hcell₂ : authority'.root.readCell originSection ⟨6, by decide⟩ = some ⟨2⟩ := by
    rw [(commitEffect_of_committed hsealed₂ (.refl _) hdone₂).cells]
    rfl
  -- the first call then goes on from its old view
  obtain ⟨d₁, hd₁⟩ := hdraft₁ authority.capture.1 rfl
  have hbelongs : authority.capture.1.root.stamp.BelongsTo authority'.worldId authority'.contextId
      authority'.generation := by
    obtain ⟨hworld, hcontext, hgen⟩ := hdone₂.sameWorld
    obtain ⟨hschema, hworld', hcontext', hgen'⟩ := authority.root_belongs
    exact ⟨hschema, hworld'.trans hworld, hcontext'.trans hcontext, hgen'.trans hgen⟩
  obtain ⟨publication, authority₁, token, bytes, authority₂, receipt₁, authority'', ledger₁, hbuild,
    hbind, hhold, hpublish, -, hsame, hdone₁, -⟩ := advances_of call₁ authority' hd₁ hbelongs hroom'
  have hcell₁ : authority''.root.readCell originSection ⟨6, by decide⟩ = some ⟨0⟩ := by
    rw [(commitEffect_of_committed hsealed₁ (.refl _) hdone₁).cells,
      PublicationAuthority.capture_view_root, hroot]
    rfl
  let s : SharedAuthority Bool := ⟨authority, fun _ => .idle⟩
  let early := (false, PublisherMove.commit call₁.toCommitCall) ::
    (true, .commit call₂) :: List.replicate 4 (true, .advance)
  have hearly : run step s early =
      (s.put false (.captured call₁ authority.capture.1, authority.capture.2)).put true
        (.finished (.ok receipt₂) ledger₂, authority') := by
    have hstart : step s (false, .commit call₁.toCommitCall) =
        s.put false (.captured call₁ authority.capture.1, authority.capture.2) :=
      congrArg (s.put false) (PublisherPhase.start_of_inFlight call₁ authority)
    rw [run_cons, hstart, run_commit _ true rfl call₂]
    simp only [put_authority, call₂, hcommit₂]
  have hlate : ∀ n, run step s (early ++ List.replicate n (false, .advance)) =
      (run step s early).put false
        (PublisherPhase.advance^[n] (.captured call₁ authority.capture.1, authority')) := by
    intro n
    rw [run_append, run_advance, hearly]
    rfl
  have hholding : PublisherPhase.advance^[3] (.captured call₁ authority.capture.1, authority') =
      (.holding call₁ authority.capture.1 token bytes, authority₂) := by
    show PublisherPhase.advance (PublisherPhase.advance (PublisherPhase.advance _)) = _
    rw [hbuild, hbind, hhold]
  have hfinished : PublisherPhase.advance^[4] (.captured call₁ authority.capture.1, authority') =
      (.finished (.ok receipt₁) ledger₁, authority''.dropPin authority.capture.1.lease) := by
    rw [Function.iterate_succ_apply', hholding, hpublish]
  refine ⟨s, early ++ List.replicate 4 (false, .advance), fun _ => rfl, fun who => ?_,
    ⟨true, call₂, ?_, hsealed₂.request_eq⟩, ?_, fun hnone => ?_⟩
  · rw [hlate, hfinished, hearly]
    cases who with
    | false => exact ⟨receipt₁, ledger₁, put_phase_self ..⟩
    | true =>
      refine ⟨receipt₂, ledger₂, ?_⟩
      rw [put_phase_other _ (by decide), put_phase_self]
  · exact List.mem_append_left _ (List.mem_cons_of_mem _ List.mem_cons_self)
  · rw [hlate, hfinished, put_authority, PublicationAuthority.dropPin_root]
    exact hcell₁
  · -- the last step publishes over a root whose cell 6 holds the second call's block
    rw [List.replicate_succ', ← List.append_assoc, along_append, hlate, hholding] at hnone
    obtain ⟨hlast, -⟩ := hnone.2
    have hstep : step ((run step s early).put false
        (.holding call₁ authority.capture.1 token bytes, authority₂)) (false, .advance) =
        (run step s early).put false
          (.finished (.ok receipt₁) ledger₁, authority''.dropPin authority.capture.1.lease) := by
      rw [step_put_advance, hpublish]
    have hover := hlast call₁ authority.capture.1
      ⟨token, bytes, receipt₁, ledger₁, put_phase_self .., rfl, by rw [hstep, put_phase_self]⟩
    have hcells := hover.cells originSection ⟨6, by decide⟩
    rw [hstep, put_authority, PublicationAuthority.dropPin_root, hcell₁, put_authority, hsame,
      hcell₂] at hcells
    have hno : call₁.prepared.request.lastWrite originSection ⟨6, by decide⟩ = none := by
      show first.request.lastWrite originSection ⟨6, by decide⟩ = none
      rw [hsealed₁.request_eq]
      rfl
    rw [hno] at hcells
    exact absurd hcells (by decide)

end Interleaving

end LumioVoxel
