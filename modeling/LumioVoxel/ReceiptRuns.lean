import LumioVoxel.CommitSemantics
import LumioVoxel.StepRuns

/-!
# Runs over one receipt ledger

One ledger, one authority and any number of live tokens, under every order of
prepare, commit, abort and the abort of all transactions in flight.  A
transaction can be aborted and prepared again while its first token is alive, so
several tokens may carry one transaction id; what keeps the ledger honest is that
a completed entry never changes and that publishing needs an entry in flight.
-/

namespace LumioVoxel

open DebugText Fallible StepRuns

section Session

variable [UnicodeTables]

/-! ## 1. The session -/

structure LedgerSession where
  authority : PublicationAuthority
  ledger : ReceiptLedger
  tokens : List PreparedMutation

/-- Prepare works on any captured view; commit and discard use up the token. -/
inductive SessionOp where
  | prepare (request : MutationRequest) (base : PublishedReadView)
  | commit (i : Nat)
  | abort (request : MutationRequest)
  | abortInFlight
  | discard (i : Nat)

inductive SessionReply where
  | prepared (result : Except MutationError PreparedMutation)
  | committed (result : Except MutationError MutationReceipt)
  | aborted (result : Except LedgerError Unit)
  | done

namespace LedgerSession

def perform (s : LedgerSession) : SessionOp → SessionReply × LedgerSession
  | .prepare request base =>
    match prepare request base s.ledger with
    | (.ok token, ledger) =>
      (.prepared (.ok token), { s with ledger := ledger, tokens := s.tokens ++ [token] })
    | (.error err, ledger) => (.prepared (.error err), { s with ledger := ledger })
  | .commit i =>
    match s.tokens[i]? with
    | none => (.done, s)
    | some token =>
      match commit token s.authority s.ledger with
      | (result, authority, ledger) =>
        (.committed result, ⟨authority, ledger, s.tokens.eraseIdx i⟩)
  | .abort request =>
    match s.ledger.abort request with
    | .ok ledger => (.aborted (.ok ()), { s with ledger := ledger })
    | .error err => (.aborted (.error err), s)
  | .abortInFlight => (.done, { s with ledger := s.ledger.abortInFlight })
  | .discard i => (.done, { s with tokens := s.tokens.eraseIdx i })

def step (s : LedgerSession) (op : SessionOp) : LedgerSession := (s.perform op).2

/-- The transaction whose batch this step publishes: a commit that finds it in
flight and succeeds. -/
def published (s : LedgerSession) : SessionOp → Option String
  | .commit i =>
    match s.tokens[i]? with
    | none => none
    | some token =>
      match s.ledger.lookup token.request, (commit token s.authority s.ledger).1 with
      | .ok .inFlight, .ok _ => some token.txnId
      | _, _ => none
  | _ => none

end LedgerSession

/-- The operation presents the request to the ledger. -/
def SessionOp.Presents (s : LedgerSession) (request : MutationRequest) : SessionOp → Prop
  | .prepare r _ => r = request
  | .commit i => ∃ token, s.tokens[i]? = some token ∧ token.request = request
  | .abort r => r = request
  | _ => False

def SessionReply.Rejected : SessionReply → Prop
  | .prepared (.error _) => True
  | .committed (.error _) => True
  | .aborted (.error _) => True
  | _ => False

/-! ## 2. What a step does -/

namespace LedgerSession

variable {s : LedgerSession}

/-- A commit step: refused, answered from the ledger, or publishing. -/
theorem commit_step_cases {i : Nat} {token : PreparedMutation} (htoken : s.tokens[i]? = some token) :
    (∃ err, (s.perform (.commit i)).1 = .committed (.error err) ∧
      (s.step (.commit i)).authority.root = s.authority.root ∧
      (s.step (.commit i)).ledger = s.ledger ∧ s.published (.commit i) = none) ∨
    (∃ receipt, s.ledger.lookup token.request = .ok (.duplicate receipt) ∧
      (s.perform (.commit i)).1 =
        .committed (.ok (duplicateReceipt token (token.replayReceipt.getD receipt))) ∧
      (s.step (.commit i)).authority.root = s.authority.root ∧
      (s.step (.commit i)).ledger = s.ledger ∧ s.published (.commit i) = none) ∨
    (∃ d receipt, s.ledger.lookup token.request = .ok .inFlight ∧
      (s.perform (.commit i)).1 = .committed (.ok receipt) ∧
      s.published (.commit i) = some token.txnId ∧
      Committed token s.authority.capture.1 s.authority s.ledger d receipt
        (s.step (.commit i)).authority (s.step (.commit i)).ledger) := by
  simp only [step, perform, published, htoken]
  rcases commit_cases token s.authority s.ledger with ⟨err, authority', hcommit, hroot, -⟩ |
    ⟨receipt, hdup, hcommit⟩ | ⟨d, receipt, authority', ledger', hflight, hcommit, hdone⟩
  · rw [hcommit]
    refine .inl ⟨err, rfl, hroot, rfl, ?_⟩
    cases s.ledger.lookup token.request with
    | error _ => rfl
    | ok outcome => cases outcome <;> rfl
  · rw [hcommit, hdup]
    exact .inr (.inl ⟨receipt, rfl, rfl, rfl, rfl, rfl⟩)
  · rw [hcommit, hflight]
    exact .inr (.inr ⟨d, receipt, rfl, rfl, rfl, hdone⟩)

/-- A completed entry is never changed again. -/
theorem entry_step {txnId : String} {entry : LedgerEntry}
    (hentry : s.ledger.entries[txnId]? = some entry) (hdone : entry.receipt ≠ none)
    (op : SessionOp) : (s.step op).ledger.entries[txnId]? = some entry := by
  cases op with
  | prepare request base =>
    simp only [step, perform]
    rcases prepare_cases request base s.ledger with ⟨err, herr, hentries, -⟩ |
      ⟨receipt, token, -, hprepare, -⟩ | ⟨token, ledger', hvacant, hreserve, hprepare, -⟩
    · split <;> rename_i hprepare <;> rw [hprepare] at hentries <;> exact hentries ▸ hentry
    · rw [hprepare]
      exact hentry
    · obtain ⟨-, hnone⟩ := ReceiptLedger.lookup_vacant.mp hvacant
      obtain ⟨-, hentries, -⟩ := ReceiptLedger.reserve_of_vacant hnone hreserve
      rw [hprepare, hentries]
      refine (BTreeMap.getElem?_insert_ne _ ?_ _).trans hentry
      rintro rfl
      rw [hnone] at hentry
      cases hentry
  | commit i =>
    cases htoken : s.tokens[i]? with
    | none => simpa only [step, perform, htoken] using hentry
    | some token =>
      rcases commit_step_cases htoken with ⟨err, -, -, hledger, -⟩ |
        ⟨receipt, -, -, -, hledger, -⟩ | ⟨d, receipt, hflight, -, -, hcommitted⟩
      · rw [hledger]
        exact hentry
      · rw [hledger]
        exact hentry
      · rw [hcommitted.others txnId, hentry]
        rintro rfl
        -- publishing needs an entry in flight
        obtain ⟨-, entry', hentry', -, hnone⟩ := ReceiptLedger.lookup_inFlight.mp hflight
        have hsame : entry = entry' := Option.some.inj (hentry.symm.trans hentry')
        exact hdone (hsame ▸ hnone)
  | abort request =>
    cases habort : s.ledger.abort request with
    | error err => simpa only [step, perform, habort] using hentry
    | ok ledger' =>
      simp only [step, perform, habort]
      obtain ⟨-, hcases⟩ := ReceiptLedger.abort_eq_ok.mp habort
      cases hown : s.ledger.entries[request.txnId]? with
      | none =>
        rw [hown] at hcases
        exact hcases ▸ hentry
      | some own =>
        rw [hown] at hcases
        obtain ⟨-, hledger⟩ := hcases
        rw [hledger]
        split
        · exact hentry
        · rename_i hfree
          rw [BTreeMap.getElem?_erase, if_neg, hentry]
          rintro rfl
          have hsame : own = entry := Option.some.inj (hown.symm.trans hentry)
          rw [hsame] at hfree
          exact hfree (Option.isSome_iff_ne_none.mpr hdone)
  | abortInFlight =>
    show s.ledger.abortInFlight.entries[txnId]? = some entry
    rw [ReceiptLedger.getElem?_abortInFlight, hentry, Option.filter_some,
      if_pos (Option.isSome_iff_ne_none.mpr hdone)]
  | discard i => exact hentry

/-- Publishing completes an entry that was in flight. -/
theorem published_eq_some {op : SessionOp} {txnId : String} (h : s.published op = some txnId) :
    ∃ entry entry', s.ledger.entries[txnId]? = some entry ∧ entry.receipt = none ∧
      (s.step op).ledger.entries[txnId]? = some entry' ∧ entry'.receipt ≠ none := by
  cases op with
  | commit i =>
    cases htoken : s.tokens[i]? with
    | none =>
      simp only [published, htoken] at h
      cases h
    | some token =>
      rcases commit_step_cases htoken with ⟨err, -, -, -, hnone⟩ |
        ⟨receipt, -, -, -, -, hnone⟩ | ⟨d, receipt, hflight, -, hsome, hcommitted⟩
      · rw [hnone] at h
        cases h
      · rw [hnone] at h
        cases h
      · obtain rfl := Option.some.inj (hsome.symm.trans h)
        obtain ⟨-, entry, hentry, -, hfree⟩ := ReceiptLedger.lookup_inFlight.mp hflight
        obtain ⟨-, entry', -, hentry', -, hreceipt, -⟩ := hcommitted.applied
        refine ⟨entry, entry', hentry, hfree, hentry', ?_⟩
        rw [hreceipt]
        exact Option.some_ne_none _
  | prepare request base => cases h
  | abort request => cases h
  | abortInFlight => cases h
  | discard i => cases h

/-- A step that publishes no transaction leaves the root as it was. -/
theorem root_of_not_published {op : SessionOp} (h : s.published op = none) :
    (s.step op).authority.root = s.authority.root := by
  cases op with
  | prepare request base =>
    simp only [step, perform]
    split <;> rfl
  | commit i =>
    cases htoken : s.tokens[i]? with
    | none => simp only [step, perform, htoken]
    | some token =>
      rcases commit_step_cases htoken with ⟨err, -, hroot, -⟩ | ⟨receipt, -, -, hroot, -⟩ |
        ⟨d, receipt, -, -, hsome, -⟩
      · exact hroot
      · exact hroot
      · rw [h] at hsome
        cases hsome
  | abort request =>
    simp only [step, perform]
    split <;> rfl
  | abortInFlight => rfl
  | discard i => rfl

end LedgerSession

/-! ## 3. Reused transaction ids -/

/-- The request's transaction is in the ledger for a request with another
fingerprint. -/
def Conflicting (ledger : ReceiptLedger) (request : MutationRequest) : Prop :=
  ∃ entry, ledger.entries[request.txnId]? = some entry ∧
    canonicalFingerprint request ≠ .ok entry.reservation.fingerprint

omit [UnicodeTables] in
theorem Conflicting.not_matches {ledger : ReceiptLedger} {request : MutationRequest}
    {entry : LedgerEntry} (h : Conflicting ledger request)
    (hentry : ledger.entries[request.txnId]? = some entry) :
    ¬ ReceiptLedger.Matches request entry := by
  obtain ⟨entry', hentry', hother⟩ := h
  obtain rfl := Option.some.inj (hentry.symm.trans hentry')
  exact fun hmatches => hother hmatches.2.2

omit [UnicodeTables] in
theorem Conflicting.lookup {ledger : ReceiptLedger} {request : MutationRequest}
    (h : Conflicting ledger request) (outcome : LookupOutcome) :
    ledger.lookup request ≠ .ok outcome := by
  intro hlookup
  cases outcome with
  | vacant =>
    obtain ⟨entry, hentry, -⟩ := h
    rw [(ReceiptLedger.lookup_vacant.mp hlookup).2] at hentry
    cases hentry
  | inFlight =>
    obtain ⟨-, entry, hentry, hmatches, -⟩ := ReceiptLedger.lookup_inFlight.mp hlookup
    exact h.not_matches hentry hmatches
  | duplicate receipt =>
    obtain ⟨-, entry, hentry, hmatches, -⟩ := ReceiptLedger.lookup_duplicate.mp hlookup
    exact h.not_matches hentry hmatches

/-- Whoever presents a conflicting request is rejected, and nothing changes. -/
theorem LedgerSession.conflict_rejected {s : LedgerSession} {request : MutationRequest}
    (h : Conflicting s.ledger request) {op : SessionOp} (hop : op.Presents s request) :
    (s.perform op).1.Rejected ∧ (s.step op).authority.root = s.authority.root ∧
      (s.step op).ledger.entries = s.ledger.entries := by
  cases op with
  | prepare r base =>
    obtain rfl : r = request := hop
    rcases prepare_cases r base s.ledger with ⟨err, herr, hentries, -⟩ |
      ⟨receipt, token, hdup, -⟩ | ⟨token, ledger', hvacant, -⟩
    · obtain ⟨⟨result, ledger'⟩, hprepare⟩ : ∃ outcome, prepare r base s.ledger = outcome :=
        ⟨_, rfl⟩
      rw [hprepare] at herr hentries
      obtain rfl : result = .error err := herr
      simp only [step, perform, hprepare]
      exact ⟨trivial, trivial, hentries⟩
    · exact absurd hdup (h.lookup _)
    · exact absurd hvacant (h.lookup _)
  | commit i =>
    obtain ⟨token, htoken, rfl⟩ := hop
    rcases commit_step_cases htoken with ⟨err, hreply, hroot, hledger, -⟩ |
      ⟨receipt, hdup, -⟩ | ⟨d, receipt, hflight, -⟩
    · rw [hreply, hledger]
      exact ⟨trivial, hroot, rfl⟩
    · exact absurd hdup (h.lookup _)
    · exact absurd hflight (h.lookup _)
  | abort r =>
    obtain rfl : r = request := hop
    cases habort : s.ledger.abort r with
    | error err =>
      simp only [step, perform, habort]
      exact ⟨trivial, trivial, trivial⟩
    | ok ledger' =>
      obtain ⟨entry, hentry, -⟩ := id h
      obtain ⟨-, hcases⟩ := ReceiptLedger.abort_eq_ok.mp habort
      rw [hentry] at hcases
      exact absurd hcases.1 (h.not_matches hentry)
  | abortInFlight => exact absurd hop id
  | discard i => exact absurd hop id

/-! ## 4. At most once -/

/-- **At most once.** Along every run each transaction is published at most once,
a step that publishes none leaves the root alone, and in every state a request
that reuses a transaction id with another fingerprint is rejected and changes
neither the root nor an entry. -/
theorem at_most_once (s : LedgerSession) (ops : List SessionOp) :
    (trace LedgerSession.step LedgerSession.published s ops).Nodup ∧
    Along LedgerSession.step (fun t op => t.published op = none →
      (t.step op).authority.root = t.authority.root) s ops ∧
    ∀ t ∈ visited LedgerSession.step s ops, ∀ request op, Conflicting t.ledger request →
      op.Presents t request → (t.perform op).1.Rejected ∧
        (t.step op).authority.root = t.authority.root ∧
        (t.step op).ledger.entries = t.ledger.entries := by
  refine ⟨?_, ?_, ?_⟩
  · let seen (t : LedgerSession) (txnId : String) : Prop :=
      ∃ entry, t.ledger.entries[txnId]? = some entry ∧ entry.receipt ≠ none
    have hstable : ∀ t op txnId, seen t txnId → seen (t.step op) txnId := by
      rintro t op txnId ⟨entry, hentry, hdone⟩
      exact ⟨entry, LedgerSession.entry_step hentry hdone op, hdone⟩
    have hout : ∀ t op txnId, t.published op = some txnId →
        ¬ seen t txnId ∧ seen (t.step op) txnId := by
      intro t op txnId hpublished
      obtain ⟨entry, entry', hentry, hfree, hentry', hdone⟩ :=
        LedgerSession.published_eq_some hpublished
      refine ⟨?_, entry', hentry', hdone⟩
      rintro ⟨other, hother, hreceipt⟩
      obtain rfl := Option.some.inj (hentry.symm.trans hother)
      exact hreceipt hfree
    exact trace_nodup hstable hout s ops
  · exact along_of_forall (fun t op h => LedgerSession.root_of_not_published h) s ops
  · intro t _ request op hconflict hop
    exact LedgerSession.conflict_rejected hconflict hop

/-! ## 5. Replayed receipts -/

/-- The ledger's entry for the receipt's transaction holds this very receipt. -/
def RecordedAs (ledger : ReceiptLedger) (receipt : MutationReceipt) : Prop :=
  ∃ entry, ledger.entries[receipt.txnId]? = some entry ∧ entry.receipt = some receipt.receipt ∧
    entry.evidence = some ⟨receipt.evidence.oldRoot, receipt.evidence.newRoot⟩ ∧
    receipt.evidence.txnId = receipt.txnId ∧
    receipt.evidence.receiptHash = sha256 receipt.receipt

/-- A token that replays holds the stored receipt and evidence; one that does not
holds neither. -/
def TokenSound (ledger : ReceiptLedger) (token : PreparedMutation) : Prop :=
  (∀ receipt, token.replayReceipt = some receipt →
    ∃ entry, ledger.entries[token.txnId]? = some entry ∧ entry.receipt = some receipt ∧
      token.replayEvidence = entry.evidence) ∧
  (token.replayReceipt = none → token.replayEvidence = none)

/-- Receipts and evidence are stored together, and every live token is sound. -/
structure LedgerSession.Sound (s : LedgerSession) : Prop where
  evidence : ∀ (txnId : String) entry, s.ledger.entries[txnId]? = some entry →
    (entry.receipt = none ↔ entry.evidence = none)
  tokens : ∀ token ∈ s.tokens, TokenSound s.ledger token

namespace LedgerSession

variable {s : LedgerSession}

/-- Live tokens stay sound, whatever the step does. -/
theorem tokenSound_step {token : PreparedMutation} (h : TokenSound s.ledger token)
    (op : SessionOp) : TokenSound (s.step op).ledger token := by
  refine ⟨fun receipt hreceipt => ?_, h.2⟩
  obtain ⟨entry, hentry, hstored, hevidence⟩ := h.1 receipt hreceipt
  refine ⟨entry, entry_step hentry ?_ op, hstored, hevidence⟩
  rw [hstored]
  exact Option.some_ne_none _

/-- A step stores receipt and evidence together. -/
theorem evidence_step (hsound : s.Sound) (op : SessionOp) (txnId : String) (entry : LedgerEntry)
    (hentry : (s.step op).ledger.entries[txnId]? = some entry) :
    entry.receipt = none ↔ entry.evidence = none := by
  cases op with
  | prepare request base =>
    simp only [step, perform] at hentry
    rcases prepare_cases request base s.ledger with ⟨err, herr, hentries, -⟩ |
      ⟨receipt, token, -, hprepare, -⟩ | ⟨token, ledger', hvacant, hreserve, hprepare, -⟩
    · refine hsound.evidence txnId entry ?_
      rw [← hentry, ← hentries]
      split <;> rename_i hprepare <;> rw [hprepare]
    · rw [hprepare] at hentry
      exact hsound.evidence txnId entry hentry
    · obtain ⟨-, hnone⟩ := ReceiptLedger.lookup_vacant.mp hvacant
      obtain ⟨-, hentries, -⟩ := ReceiptLedger.reserve_of_vacant hnone hreserve
      rw [hprepare, hentries, BTreeMap.getElem?_insert] at hentry
      split at hentry
      · obtain rfl := Option.some.inj hentry
        exact ⟨fun _ => rfl, fun _ => rfl⟩
      · exact hsound.evidence txnId entry hentry
  | commit i =>
    cases htoken : s.tokens[i]? with
    | none =>
      simp only [step, perform, htoken] at hentry
      exact hsound.evidence txnId entry hentry
    | some token =>
      rcases commit_step_cases htoken with ⟨err, -, -, hledger, -⟩ |
        ⟨receipt, -, -, -, hledger, -⟩ | ⟨d, receipt, hflight, -, -, hcommitted⟩
      · rw [hledger] at hentry
        exact hsound.evidence txnId entry hentry
      · rw [hledger] at hentry
        exact hsound.evidence txnId entry hentry
      · by_cases hown : txnId = token.txnId
        · subst hown
          obtain ⟨-, free, hfree, -, hnone⟩ := ReceiptLedger.lookup_inFlight.mp hflight
          obtain ⟨before, after, hbefore, hafter, -, hreceipt, hevidence⟩ := hcommitted.applied
          obtain rfl := Option.some.inj (hentry.symm.trans hafter)
          obtain rfl := Option.some.inj (hfree.symm.trans hbefore)
          rw [hreceipt, hevidence ((hsound.evidence _ free hfree).mp hnone)]
          exact ⟨fun h => (nomatch h), fun h => (nomatch h)⟩
        · rw [hcommitted.others txnId hown] at hentry
          exact hsound.evidence txnId entry hentry
  | abort request =>
    cases habort : s.ledger.abort request with
    | error err =>
      simp only [step, perform, habort] at hentry
      exact hsound.evidence txnId entry hentry
    | ok ledger' =>
      simp only [step, perform, habort] at hentry
      obtain ⟨-, hcases⟩ := ReceiptLedger.abort_eq_ok.mp habort
      refine hsound.evidence txnId entry ?_
      cases hown : s.ledger.entries[request.txnId]? with
      | none =>
        rw [hown] at hcases
        exact hcases ▸ hentry
      | some own =>
        rw [hown] at hcases
        rw [hcases.2] at hentry
        split at hentry
        · exact hentry
        · rw [BTreeMap.getElem?_erase] at hentry
          split at hentry
          · cases hentry
          · exact hentry
  | abortInFlight =>
    have hkept : s.ledger.abortInFlight.entries[txnId]? = some entry := hentry
    rw [ReceiptLedger.getElem?_abortInFlight] at hkept
    exact hsound.evidence txnId entry (Option.filter_eq_some_iff.mp hkept).1
  | discard i => exact hsound.evidence txnId entry hentry

/-- Every token of the next state was live before or was just prepared soundly. -/
theorem tokens_step (hsound : s.Sound) (op : SessionOp) :
    ∀ token ∈ (s.step op).tokens, TokenSound (s.step op).ledger token := by
  have hold : ∀ token ∈ s.tokens, TokenSound (s.step op).ledger token :=
    fun token htoken => tokenSound_step (hsound.tokens token htoken) op
  intro token htoken
  cases op with
  | prepare request base =>
    rcases prepare_cases request base s.ledger with ⟨err, herr, -⟩ |
      ⟨receipt, made, hdup, hprepare, hrequest, hreceipt, -, hevidence⟩ |
      ⟨made, ledger', -, -, hprepare, -, hsealed⟩
    · obtain ⟨⟨result, ledger'⟩, hprepare⟩ : ∃ outcome, prepare request base s.ledger = outcome :=
        ⟨_, rfl⟩
      rw [hprepare] at herr
      obtain rfl : result = .error err := herr
      simp only [step, perform, hprepare] at htoken
      exact hold token htoken
    · simp only [step, perform, hprepare] at htoken hold ⊢
      rcases List.mem_append.mp htoken with htoken | htoken
      · exact hold token htoken
      · obtain rfl := List.mem_singleton.mp htoken
        obtain ⟨-, entry, hentry, -, hstored⟩ := ReceiptLedger.lookup_duplicate.mp hdup
        refine ⟨fun receipt' hreceipt' => ⟨entry, ?_, ?_, ?_⟩, fun hnone => ?_⟩
        · rw [PreparedMutation.txnId, hrequest]
          exact hentry
        · rw [hstored, ← hreceipt, hreceipt']
        · rw [hevidence, hentry]
          rfl
        · rw [hreceipt] at hnone
          cases hnone
    · simp only [step, perform, hprepare] at htoken hold ⊢
      rcases List.mem_append.mp htoken with htoken | htoken
      · exact hold token htoken
      · obtain rfl := List.mem_singleton.mp htoken
        refine ⟨fun receipt hreceipt => ?_, fun _ => hsealed.freshEvidence⟩
        rw [hsealed.fresh] at hreceipt
        cases hreceipt
  | commit i =>
    cases hpick : s.tokens[i]? with
    | none =>
      simp only [step, perform, hpick] at htoken
      exact hold token htoken
    | some picked =>
      simp only [step, perform, hpick] at htoken
      exact hold token (List.mem_of_mem_eraseIdx htoken)
  | abort request =>
    refine hold token ?_
    simp only [step, perform] at htoken
    split at htoken <;> exact htoken
  | abortInFlight => exact hold token htoken
  | discard i => exact hold token (List.mem_of_mem_eraseIdx htoken)

theorem sound_step (hsound : s.Sound) (op : SessionOp) : (s.step op).Sound :=
  ⟨evidence_step hsound op, tokens_step hsound op⟩

/-- A published receipt is the one its entry holds from then on. -/
theorem recordedAs_of_published (hsound : s.Sound) {i : Nat} {receipt : MutationReceipt}
    (hpublished : s.published (.commit i) ≠ none)
    (hreply : (s.perform (.commit i)).1 = .committed (.ok receipt)) :
    RecordedAs (s.step (.commit i)).ledger receipt := by
  cases htoken : s.tokens[i]? with
  | none =>
    simp only [perform, htoken] at hreply
    cases hreply
  | some token =>
    rcases commit_step_cases htoken with ⟨err, -, -, -, hnone⟩ |
      ⟨stored, -, -, -, -, hnone⟩ | ⟨d, receipt', hflight, hok, -, hcommitted⟩
    · exact absurd hnone hpublished
    · exact absurd hnone hpublished
    · rw [hok] at hreply
      obtain rfl : receipt' = receipt := by injection hreply with hresult; exact Except.ok.inj hresult
      obtain ⟨-, free, hfree, -, hnone⟩ := ReceiptLedger.lookup_inFlight.mp hflight
      obtain ⟨before, after, hbefore, hafter, -, hreceipt, hevidence⟩ := hcommitted.applied
      obtain rfl := Option.some.inj (hfree.symm.trans hbefore)
      refine ⟨after, ?_, hreceipt, ?_, ?_, ?_⟩
      · rw [hcommitted.txnId]
        exact hafter
      · rw [hevidence ((hsound.evidence _ free hfree).mp hnone), hcommitted.evidence]
      · rw [hcommitted.evidence, hcommitted.txnId]
      · rw [hcommitted.evidence]

theorem recordedAs_step {receipt : MutationReceipt} (h : RecordedAs s.ledger receipt)
    (op : SessionOp) : RecordedAs (s.step op).ledger receipt := by
  obtain ⟨entry, hentry, hreceipt, hrest⟩ := h
  refine ⟨entry, entry_step hentry ?_ op, hreceipt, hrest⟩
  rw [hreceipt]
  exact Option.some_ne_none _

/-- Committing a token of a completed transaction returns the stored receipt; the
evidence is the stored one exactly when the token was prepared as a replay, or
its base happens to be both recorded roots. -/
theorem replay_of_recorded (hsound : s.Sound) {first later : MutationReceipt}
    (hfirst : RecordedAs s.ledger first) {j : Nat} {token : PreparedMutation}
    (htoken : s.tokens[j]? = some token) (hsame : token.txnId = first.txnId)
    (hlater : (s.perform (.commit j)).1 = .committed (.ok later)) :
    later = first ↔ token.replayReceipt.isSome ∨
      (first.evidence.oldRoot = token.baseIdentity ∧
        first.evidence.newRoot = token.baseIdentity) := by
  obtain ⟨entry, hentry, hreceipt, hevidence, htxn, hhash⟩ := hfirst
  rw [← hsame] at hentry
  rcases first with ⟨txnId, receipt, ⟨oldRoot, newRoot, evidenceTxn, receiptHash⟩⟩
  obtain rfl : token.txnId = txnId := hsame
  obtain rfl : evidenceTxn = token.txnId := htxn
  obtain rfl : receiptHash = sha256 receipt := hhash
  rcases commit_step_cases htoken with ⟨err, herr, -⟩ | ⟨stored, hdup, hok, -⟩ |
    ⟨d, receipt', hflight, -⟩
  · rw [herr] at hlater
    cases hlater
  · obtain ⟨-, entry', hentry', -, hstored⟩ := ReceiptLedger.lookup_duplicate.mp hdup
    obtain rfl := Option.some.inj (hentry.symm.trans hentry')
    obtain rfl : stored = receipt := Option.some.inj (hstored.symm.trans hreceipt)
    rw [hok] at hlater
    obtain rfl : duplicateReceipt token (token.replayReceipt.getD stored) = later := by
      injection hlater with hresult
      exact Except.ok.inj hresult
    obtain ⟨hreplay, hfresh⟩ := hsound.tokens token (List.mem_of_getElem? htoken)
    cases hkind : token.replayReceipt with
    | some replayed =>
      obtain ⟨entry', hentry', hreplayed, hroots⟩ := hreplay replayed hkind
      obtain rfl := Option.some.inj (hentry.symm.trans hentry')
      obtain rfl : replayed = stored := Option.some.inj (hreplayed.symm.trans hreceipt)
      simp only [duplicateReceipt, hroots, hevidence, Option.getD_some, Option.isSome_some,
        true_or]
    | none =>
      simp only [duplicateReceipt, hfresh hkind, Option.getD_none, Option.isSome_none,
        Bool.false_eq_true, false_or, MutationReceipt.mk.injEq, CommitEvidence.mk.injEq, true_and,
        and_true]
      exact ⟨fun h => ⟨h.1.symm, h.2.symm⟩, fun h => ⟨h.1.symm, h.2.symm⟩⟩
  · obtain ⟨-, entry', hentry', -, hnone⟩ := ReceiptLedger.lookup_inFlight.mp hflight
    obtain rfl := Option.some.inj (hentry.symm.trans hentry')
    rw [hreceipt] at hnone
    cases hnone

end LedgerSession

/-- The start of a run: a fresh ledger, and no token yet. -/
def LedgerSession.start (authority : PublicationAuthority) (ledger : ReceiptLedger) :
    LedgerSession := ⟨authority, ledger, []⟩

omit [UnicodeTables] in
theorem LedgerSession.start_sound {configHash : String} {maxEntries : Nat} {ledger : ReceiptLedger}
    (hledger : ReceiptLedger.fromApprovedSnapshot configHash maxEntries = .ok ledger)
    (authority : PublicationAuthority) : (start authority ledger).Sound := by
  simp only [ReceiptLedger.fromApprovedSnapshot, bind_eq_ok, pure_eq_ok] at hledger
  obtain ⟨-, -, rfl⟩ := hledger
  refine ⟨fun txnId entry hentry => ?_, fun token htoken => absurd htoken List.not_mem_nil⟩
  have hempty : (∅ : BTreeMap String LedgerEntry)[txnId]? = some entry := hentry
  rw [BTreeMap.getElem?_empty] at hempty
  cases hempty

/-- **Replayed receipts.** Once a commit has applied a transaction, a later
successful commit of it returns the same receipt exactly when its token was
prepared as a replay (or its base is both of the recorded roots). -/
theorem replayed_receipt (configHash : String) (maxEntries : Nat) (ledger : ReceiptLedger)
    (hledger : ReceiptLedger.fromApprovedSnapshot configHash maxEntries = .ok ledger)
    (authority : PublicationAuthority) (before between : List SessionOp) (i j : Nat)
    (first later : MutationReceipt) (token : PreparedMutation)
    (happlied : (run LedgerSession.step (.start authority ledger) before).published (.commit i) ≠
      none)
    (hfirst : ((run LedgerSession.step (.start authority ledger) before).perform (.commit i)).1 =
      .committed (.ok first))
    (htoken : (run LedgerSession.step (.start authority ledger)
      (before ++ .commit i :: between)).tokens[j]? = some token)
    (hsame : token.txnId = first.txnId)
    (hlater : ((run LedgerSession.step (.start authority ledger)
      (before ++ .commit i :: between)).perform (.commit j)).1 = .committed (.ok later)) :
    later = first ↔ token.replayReceipt.isSome ∨
      (first.evidence.oldRoot = token.baseIdentity ∧
        first.evidence.newRoot = token.baseIdentity) := by
  have hsoundStep : ∀ (s : LedgerSession) op, s.Sound → (LedgerSession.step s op).Sound :=
    fun s op h => LedgerSession.sound_step h op
  have hrecordedStep : ∀ (s : LedgerSession) op, RecordedAs s.ledger first →
      RecordedAs (LedgerSession.step s op).ledger first :=
    fun s op h => LedgerSession.recordedAs_step h op
  have hsound : ∀ ops, (run LedgerSession.step (.start authority ledger) ops).Sound :=
    run_invariant hsoundStep (LedgerSession.start_sound hledger authority)
  have hrecorded := LedgerSession.recordedAs_of_published (hsound before) happlied hfirst
  have hkept : RecordedAs (run LedgerSession.step (.start authority ledger)
      (before ++ .commit i :: between)).ledger first := by
    rw [run_append, run_cons]
    exact run_invariant hrecordedStep hrecorded between
  exact LedgerSession.replay_of_recorded (hsound _) hkept htoken hsame hlater

/-! ## 6. A token from before the abort -/

/-- Prepared, aborted and prepared again. -/
def preparedTwice (view : PublishedReadView) : List SessionOp :=
  [.prepare (originRequest "txn" []) view, .abort (originRequest "txn" []),
    .prepare (originRequest "txn" []) view]

omit [UnicodeTables] in
/-- Two fresh tokens of one transaction: the first commit publishes, the second
is answered with its own base as evidence. -/
theorem preparedTwice_run : letI := asciiOnly
    ∃ (authority : PublicationAuthority) (first later : MutationReceipt) (token : PreparedMutation),
      let s := run LedgerSession.step (.start authority emptyLedger)
        (preparedTwice authority.capture.1)
      s.published (.commit 0) ≠ none ∧ (s.perform (.commit 0)).1 = .committed (.ok first) ∧
      (s.step (.commit 0)).tokens[0]? = some token ∧ token.txnId = first.txnId ∧
      ((s.step (.commit 0)).perform (.commit 0)).1 = .committed (.ok later) ∧
      token.replayReceipt = none ∧ first.evidence.newRoot = bareNext.identity ∧
      token.baseIdentity = bareRoot.identity ∧ later.txnId = first.txnId ∧
      later.evidence.newRoot = bareRoot.identity := by
  let _ := asciiOnly
  obtain ⟨authority, -, hroot, -, -, -, hroom⟩ :=
    PublicationAuthority.new_of (show "world" ≠ "" ∧ "context" ≠ "" by decide)
      (show bareRoot.stamp.BelongsTo "world" "context" 1 from ⟨rfl, rfl, rfl, rfl⟩)
      (show 7 + 1 ≤ 8 by decide) (by decide)
  have hview : authority.capture.1.root = bareRoot := hroot
  have hvacant₁ := emptyLedger_vacant (show "txn" ≠ "" by decide) []
  obtain ⟨token₁, ledger₁, hprepare₁, hreserve₁, hsealed₁⟩ :=
    prepare_of (bareRoot_preparable hview hvacant₁ (by decide))
  obtain ⟨hadmits, hnone⟩ := ReceiptLedger.lookup_vacant.mp hvacant₁
  -- the abort takes the reservation back
  obtain ⟨ledger₂, habort, hadmits₂, hentries₂, hconfig₁, hmax₂⟩ :=
    ReceiptLedger.abort_of_reserved hadmits hnone hreserve₁
  have hvacant₂ : ledger₂.lookup (originRequest "txn" []) = .ok .vacant := by
    refine ReceiptLedger.lookup_vacant.mpr ⟨hadmits₂, ?_⟩
    rw [hentries₂]
    exact hnone
  have hsize₂ : ledger₂.entries.size < ledger₂.maxEntries := by
    rw [hentries₂, hmax₂]
    decide
  have hprep₂ := bareRoot_preparable hview hvacant₂ hsize₂
  obtain ⟨token₂, ledger₃, hprepare₂, hreserve₂, hsealed₂⟩ := prepare_of hprep₂
  obtain ⟨-, -, hconfig₂, -⟩ :=
    ReceiptLedger.reserve_of_vacant (ReceiptLedger.lookup_vacant.mp hvacant₂).2 hreserve₂
  have hflight₂ := ReceiptLedger.lookup_of_reserved (ReceiptLedger.lookup_vacant.mp hvacant₂).1
    (ReceiptLedger.lookup_vacant.mp hvacant₂).2 hreserve₂
  obtain ⟨d, hdraft⟩ := draft_of authority.capture.1 ledger₃ hsealed₁ rfl
    (hconfig₁.symm.trans hconfig₂.symm) hprep₂.worldId hprep₂.generation hprep₂.expected
    (fun key hkey => by
      rw [hview] at hkey
      exact absurd (BTreeMap.getElem?_empty key) hkey)
  have hlookup₁ : ledger₃.lookup token₁.request = .ok .inFlight := by
    rw [hsealed₁.request_eq]
    exact hflight₂
  obtain ⟨first, authority', ledger₄, hcommit₁, hdone, -⟩ := commit_of hlookup₁ hdraft hroom
  have hdup : ledger₄.lookup token₂.request = .ok (.duplicate first.receipt) := by
    rw [hsealed₂.request_eq]
    apply hdone.lookup_duplicate _ hflight₂
    rw [PreparedMutation.txnId, hsealed₁.request_eq]
  have hcommit₂ : commit token₂ authority' ledger₄ =
      (.ok (duplicateReceipt token₂ (token₂.replayReceipt.getD first.receipt)), authority',
        ledger₄) :=
    commit_of_duplicate hdup
  have hrun : run LedgerSession.step (.start authority emptyLedger)
      (preparedTwice authority.capture.1) = ⟨authority, ledger₃, [token₁, token₂]⟩ := by
    simp only [preparedTwice, run, LedgerSession.step, LedgerSession.perform, LedgerSession.start,
      hprepare₁, habort]
    rw [hprepare₂]
    rfl
  have hnext : LedgerSession.perform ⟨authority, ledger₃, [token₁, token₂]⟩ (.commit 0) =
      (.committed (.ok first), ⟨authority', ledger₄, [token₂]⟩) := by
    simp only [LedgerSession.perform, List.getElem?_cons_zero, hcommit₁, List.eraseIdx_cons_zero]
  have hsame : token₂.txnId = first.txnId := by
    rw [hdone.txnId, PreparedMutation.txnId, PreparedMutation.txnId, hsealed₁.request_eq,
      hsealed₂.request_eq]
  have hbase : token₂.baseIdentity = bareRoot.identity := by
    rw [hsealed₂.baseIdentity_eq, hview]
  refine ⟨authority, first, duplicateReceipt token₂ (token₂.replayReceipt.getD first.receipt),
    token₂, ?_, ?_, ?_, hsame, ?_, hsealed₂.fresh, ?_, hbase, hsame, ?_⟩
  · rw [hrun]
    simp only [LedgerSession.published, List.getElem?_cons_zero, hlookup₁, hcommit₁]
    exact Option.some_ne_none _
  · rw [hrun, hnext]
  · rw [hrun, LedgerSession.step, hnext]
    rfl
  · rw [hrun, LedgerSession.step, hnext]
    simp only [LedgerSession.perform, List.getElem?_cons_zero, hcommit₂]
  · rw [hdone.evidence, hdone.root, bareNext_of_draft hview hview hsealed₁ hdone.draftOf]
  · rw [duplicateReceipt, hsealed₂.freshEvidence, ← hbase]
    rfl

omit [UnicodeTables] in
/-- The receipt of the second commit is not the first one's: its evidence says
that nothing was replaced. -/
theorem replayed_receipt_differs : letI := asciiOnly
    ∃ (authority : PublicationAuthority) (first later : MutationReceipt),
      let s := run LedgerSession.step (.start authority emptyLedger)
        (preparedTwice authority.capture.1)
      s.published (.commit 0) ≠ none ∧ (s.perform (.commit 0)).1 = .committed (.ok first) ∧
      ((s.step (.commit 0)).perform (.commit 0)).1 = .committed (.ok later) ∧
      later.txnId = first.txnId ∧ later ≠ first := by
  let _ := asciiOnly
  obtain ⟨authority, first, later, token, hpublished, hfirst, -, -, hlater, -, hnew, -, hsame,
    hroots⟩ := preparedTwice_run
  refine ⟨authority, first, later, hpublished, hfirst, hlater, hsame, ?_⟩
  rintro rfl
  exact bareRoot_identity_ne (hroots.symm.trans hnew)

omit [UnicodeTables] in
/-- The same run, through the general theorem. -/
theorem replayed_receipt_preparedTwice : letI := asciiOnly
    ∃ (first later : MutationReceipt) (token : PreparedMutation),
      later.txnId = first.txnId ∧ later.evidence ≠ first.evidence ∧
      (later = first ↔ token.replayReceipt.isSome ∨
        (first.evidence.oldRoot = token.baseIdentity ∧
          first.evidence.newRoot = token.baseIdentity)) := by
  let _ := asciiOnly
  obtain ⟨authority, first, later, token, hpublished, hfirst, htoken, hsame, hlater, -, hnew, -,
    htxn, hroots⟩ := preparedTwice_run
  have hledger : ReceiptLedger.fromApprovedSnapshot "config" 8 = .ok emptyLedger := by decide
  have hdiffer : later.evidence ≠ first.evidence := by
    intro heq
    rw [heq] at hroots
    exact bareRoot_identity_ne (hroots.symm.trans hnew)
  refine ⟨first, later, token, htxn, hdiffer, ?_⟩
  have hstep : run LedgerSession.step (.start authority emptyLedger)
      (preparedTwice authority.capture.1 ++ .commit 0 :: []) =
      LedgerSession.step (run LedgerSession.step (.start authority emptyLedger)
        (preparedTwice authority.capture.1)) (.commit 0) := by
    rw [run_append]
    rfl
  exact replayed_receipt "config" 8 emptyLedger hledger authority
    (preparedTwice authority.capture.1) [] 0 0 first later token hpublished hfirst
    (by rw [hstep]; exact htoken) hsame (by rw [hstep]; exact hlater)

end Session

end LumioVoxel
