import LumioVoxel.ReceiptRuns

/-!
# What a receipt ledger keeps

The ledger by itself, under every order of its own operations and of the two
transaction operations that borrow it.  A commit comes with any token and any
authority, so nothing here depends on where the token was prepared.  Each
operation changes the table in one of five ways; the rules of a run are read off
these.
-/

namespace LumioVoxel

open DebugText Fallible StepRuns

section Ledger

variable [UnicodeTables]

/-! ## 1. Operations -/

inductive LedgerOp where
  | lookup (request : MutationRequest)
  | reserve (request : MutationRequest)
  | finalize (request : MutationRequest) (receipt : Bytes)
  | prepare (request : MutationRequest) (base : PublishedReadView)
  | commit (token : PreparedMutation) (authority : PublicationAuthority)
  | abort (request : MutationRequest)
  | abortInFlight

/-- The transaction an operation is about; dropping all in flight is about none. -/
def LedgerOp.txnId : LedgerOp → Option String
  | .lookup request => some request.txnId
  | .reserve request => some request.txnId
  | .finalize request _ => some request.txnId
  | .prepare request _ => some request.txnId
  | .commit token _ => some token.txnId
  | .abort request => some request.txnId
  | .abortInFlight => none

inductive LedgerReply where
  | found (result : Except LedgerError LookupOutcome)
  | reserved (result : Except LedgerError MutationReservation)
  | finalized (result : Except LedgerError FinalizeOutcome)
  | prepared (result : Except MutationError PreparedMutation)
  | committed (result : Except MutationError MutationReceipt)
  | aborted (result : Except LedgerError Unit)
  | done

def LedgerReply.Refused : LedgerReply → Prop
  | .found (.error _) => True
  | .reserved (.error _) => True
  | .finalized (.error _) => True
  | .prepared (.error _) => True
  | .committed (.error _) => True
  | .aborted (.error _) => True
  | _ => False

namespace ReceiptLedger

def perform (ledger : ReceiptLedger) : LedgerOp → LedgerReply × ReceiptLedger
  | .lookup request => (.found (ledger.lookup request), ledger)
  | .reserve request =>
    match ledger.reserve request with
    | .ok (reservation, ledger') => (.reserved (.ok reservation), ledger')
    | .error err => (.reserved (.error err), ledger)
  | .finalize request receipt =>
    match ledger.finalize request receipt with
    | .ok (outcome, ledger') => (.finalized (.ok outcome), ledger')
    | .error err => (.finalized (.error err), ledger)
  | .prepare request base =>
    ((.prepared (LumioVoxel.prepare request base ledger).1),
      (LumioVoxel.prepare request base ledger).2)
  | .commit token authority =>
    ((.committed (LumioVoxel.commit token authority ledger).1),
      (LumioVoxel.commit token authority ledger).2.2)
  | .abort request =>
    match ledger.abort request with
    | .ok ledger' => (.aborted (.ok ()), ledger')
    | .error err => (.aborted (.error err), ledger)
  | .abortInFlight => (.done, ledger.abortInFlight)

def step (ledger : ReceiptLedger) (op : LedgerOp) : ReceiptLedger := (ledger.perform op).2

end ReceiptLedger

/-! ## 2. What an operation changes -/

/-- Everything an operation can do to the table: nothing, a new in-flight entry
for a vacant transaction, a receipt for an in-flight one, the release of an
in-flight one by its own request, or the release of all of them. -/
inductive TableChange (ledger : ReceiptLedger) (op : LedgerOp)
    (entries : BTreeMap String LedgerEntry) : Prop
  | unchanged (hentries : entries = ledger.entries) (hop : op ≠ .abortInFlight)
  | reserved (request : MutationRequest) (reservation : MutationReservation)
      (hop : op.txnId = some request.txnId) (hvacant : ledger.entries[request.txnId]? = none)
      (hroom : ledger.entries.size < ledger.maxEntries)
      (hentries : entries = ledger.entries.insert request.txnId ⟨reservation, none, none⟩)
  | completed (txnId : String) (entry entry' : LedgerEntry) (hop : op.txnId = some txnId)
      (hentry : ledger.entries[txnId]? = some entry) (hfree : entry.receipt = none)
      (hentry' : entries[txnId]? = some entry') (hsame : entry'.reservation = entry.reservation)
      (hdone : entry'.receipt ≠ none)
      (hothers : ∀ other, other ≠ txnId → entries[other]? = ledger.entries[other]?)
  | released (request : MutationRequest) (entry : LedgerEntry) (hop : op = .abort request)
      (hentry : ledger.entries[request.txnId]? = some entry) (hfree : entry.receipt = none)
      (hmatches : ReceiptLedger.Matches request entry)
      (hentries : entries = ledger.entries.erase request.txnId)
  | dropped (hop : op = .abortInFlight) (hentries : entries = ledger.abortInFlight.entries)

/-- The limit is fixed when the ledger is made. -/
theorem maxEntries_prepare (request : MutationRequest) (base : PublishedReadView)
    (ledger : ReceiptLedger) :
    (prepare request base ledger).2.maxEntries = ledger.maxEntries := by
  unfold prepare
  cases MutationPreconditions.check request base ledger with
  | error err => rfl
  | ok _ =>
    cases ledger.lookup request with
    | error err => rfl
    | ok outcome =>
      -- both successful branches reserve, and only the second can abort again
      cases hreserve : ledger.reserve request with
      | error err => cases outcome <;> cases MutationPlanner.build request <;> rfl
      | ok reserved =>
        have hmax := ReceiptLedger.maxEntries_reserve hreserve
        cases outcome with
        | duplicate receipt => exact hmax
        | _ =>
          cases MutationPlanner.build request with
          | error err => rfl
          | ok plan =>
            dsimp only
            split
            · exact hmax
            · split
              · rename_i habort
                exact (ReceiptLedger.maxEntries_abort habort).trans hmax
              · exact hmax

theorem maxEntries_commit (token : PreparedMutation) (authority : PublicationAuthority)
    (ledger : ReceiptLedger) :
    (commit token authority ledger).2.2.maxEntries = ledger.maxEntries := by
  have hpublish : ∀ authority publication bytes h,
      (publishAndFinalize token authority ledger publication bytes h).2.2.maxEntries =
        ledger.maxEntries := by
    intro authority publication bytes h
    unfold publishAndFinalize
    split
    · rfl
    · dsimp only [ReceiptLedger.recordEvidenceAfterPublish]
      split <;> (dsimp only [ReceiptLedger.finalizeAfterPublish]; split <;> rfl)
  cases hlookup : ledger.lookup token.request with
  | error err =>
    rw [commit_of_error hlookup]
  | ok outcome =>
    cases outcome with
    | vacant => rw [commit_of_vacant hlookup]
    | duplicate receipt => rw [commit_of_duplicate hlookup]
    | inFlight =>
      rw [commit_of_inFlight hlookup]
      dsimp only
      unfold commitView
      split
      · rfl
      · split
        · rfl
        · split
          · rfl
          · split
            · rfl
            · exact hpublish _ _ _ _

namespace ReceiptLedger

theorem maxEntries_step (ledger : ReceiptLedger) (op : LedgerOp) :
    (ledger.step op).maxEntries = ledger.maxEntries := by
  cases op with
  | lookup request => rfl
  | reserve request =>
    simp only [step, perform]
    split
    · rename_i hreserve
      exact maxEntries_reserve hreserve
    · rfl
  | finalize request receipt =>
    simp only [step, perform]
    split
    · rename_i outcome ledger' hfinalize
      obtain ⟨-, entry, -, -, hcases⟩ := finalize_eq_ok.mp hfinalize
      split at hcases
      · rw [hcases.2]
      · rw [hcases.2]
    · rfl
  | prepare request base => exact maxEntries_prepare request base ledger
  | commit token authority => exact maxEntries_commit token authority ledger
  | abort request =>
    simp only [step, perform]
    split
    · rename_i habort
      exact maxEntries_abort habort
    · rfl
  | abortInFlight => rfl

/-- Every operation changes the table in one of the five ways. -/
theorem step_change (ledger : ReceiptLedger) (op : LedgerOp) :
    TableChange ledger op (ledger.step op).entries := by
  cases op with
  | lookup request => exact .unchanged rfl nofun
  | reserve request =>
    cases hreserve : ledger.reserve request with
    | error err =>
      simp only [step, perform, hreserve]
      exact .unchanged rfl nofun
    | ok reserved =>
      simp only [step, perform, hreserve]
      cases hentry : ledger.entries[request.txnId]? with
      | none =>
        obtain ⟨-, hentries, -⟩ := reserve_of_vacant hentry hreserve
        exact .reserved request reserved.1 rfl hentry (size_lt_of_reserve hentry hreserve) hentries
      | some entry =>
        obtain ⟨-, hledger⟩ := reserve_of_present hentry hreserve
        exact .unchanged (congrArg entries hledger) nofun
  | finalize request receipt =>
    cases hfinalize : ledger.finalize request receipt with
    | error err =>
      simp only [step, perform, hfinalize]
      exact .unchanged rfl nofun
    | ok finalized =>
      simp only [step, perform, hfinalize]
      obtain ⟨-, entry, hentry, -, hcases⟩ := finalize_eq_ok.mp hfinalize
      cases hreceipt : entry.receipt with
      | some stored =>
        rw [hreceipt] at hcases
        exact .unchanged (congrArg entries hcases.2) nofun
      | none =>
        rw [hreceipt] at hcases
        refine .completed request.txnId entry { entry with receipt := some receipt } rfl hentry
          hreceipt ?_ rfl (Option.some_ne_none _) fun other hother => ?_
        · rw [hcases.2]
          exact Std.ExtTreeMap.getElem?_insert_self
        · rw [hcases.2]
          exact BTreeMap.getElem?_insert_ne _ (Ne.symm hother) _
  | prepare request base =>
    rcases prepare_cases request base ledger with ⟨err, -, hentries, -⟩ |
      ⟨receipt, token, -, hprepare, -⟩ | ⟨token, ledger', hvacant, hreserve, hprepare, -⟩
    · exact .unchanged hentries nofun
    · refine .unchanged ?_ nofun
      simp only [step, perform, hprepare]
    · obtain ⟨-, hnone⟩ := lookup_vacant.mp hvacant
      obtain ⟨-, hentries, -⟩ := reserve_of_vacant hnone hreserve
      refine .reserved request token.reservation rfl hnone (size_lt_of_reserve hnone hreserve) ?_
      simp only [step, perform, hprepare]
      exact hentries
  | commit token authority =>
    rcases commit_cases token authority ledger with ⟨err, authority', hcommit, -⟩ |
      ⟨receipt, -, hcommit⟩ | ⟨d, receipt, authority', ledger', hflight, hcommit, hdone⟩
    · simp only [step, perform, hcommit]
      exact .unchanged rfl nofun
    · simp only [step, perform, hcommit]
      exact .unchanged rfl nofun
    · simp only [step, perform, hcommit]
      obtain ⟨entry, entry', hentry, hentry', hsame, hreceipt, -⟩ := hdone.applied
      obtain ⟨-, found, hfound, -, hfree⟩ := lookup_inFlight.mp hflight
      obtain rfl : found = entry := Option.some.inj (hfound.symm.trans hentry)
      exact .completed token.txnId found entry' rfl hentry hfree hentry' hsame
        (hreceipt ▸ Option.some_ne_none _) hdone.others
  | abort request =>
    cases habort : ledger.abort request with
    | error err =>
      simp only [step, perform, habort]
      exact .unchanged rfl nofun
    | ok ledger' =>
      simp only [step, perform, habort]
      obtain ⟨-, hcases⟩ := abort_eq_ok.mp habort
      cases hentry : ledger.entries[request.txnId]? with
      | none =>
        rw [hentry] at hcases
        exact .unchanged (congrArg entries hcases) nofun
      | some entry =>
        rw [hentry] at hcases
        obtain ⟨hmatches, hledger⟩ := hcases
        cases hreceipt : entry.receipt with
        | some stored =>
          rw [hreceipt] at hledger
          exact .unchanged (congrArg entries hledger) nofun
        | none =>
          rw [hreceipt] at hledger
          exact .released request entry rfl hentry hreceipt hmatches (congrArg entries hledger)
  | abortInFlight => exact .dropped rfl rfl

end ReceiptLedger

/-- What is refused leaves every entry as it was. -/
theorem ReceiptLedger.refused_unchanged (ledger : ReceiptLedger) (op : LedgerOp)
    (h : (ledger.perform op).1.Refused) : (ledger.step op).entries = ledger.entries := by
  cases op with
  | lookup request => rfl
  | reserve request =>
    cases hreserve : ledger.reserve request with
    | error err => simp only [step, perform, hreserve]
    | ok reserved =>
      simp only [perform, hreserve] at h
      exact absurd h id
  | finalize request receipt =>
    cases hfinalize : ledger.finalize request receipt with
    | error err => simp only [step, perform, hfinalize]
    | ok finalized =>
      simp only [perform, hfinalize] at h
      exact absurd h id
  | prepare request base =>
    rcases prepare_cases request base ledger with ⟨err, -, hentries, -⟩ |
      ⟨receipt, token, -, hprepare, -⟩ | ⟨token, ledger', -, -, hprepare, -⟩
    · exact hentries
    · simp only [perform, hprepare] at h
      exact absurd h id
    · simp only [perform, hprepare] at h
      exact absurd h id
  | commit token authority =>
    rcases commit_cases token authority ledger with ⟨err, authority', hcommit, -⟩ |
      ⟨receipt, -, hcommit⟩ | ⟨d, receipt, authority', ledger', -, hcommit, -⟩
    · simp only [step, perform, hcommit]
    · simp only [perform, hcommit] at h
      exact absurd h id
    · simp only [perform, hcommit] at h
      exact absurd h id
  | abort request =>
    cases habort : ledger.abort request with
    | error err => simp only [step, perform, habort]
    | ok ledger' =>
      simp only [perform, habort] at h
      exact absurd h id
  | abortInFlight => exact absurd h id

/-! ## 3. The rules of the table -/

namespace TableChange

variable {ledger : ReceiptLedger} {op : LedgerOp} {entries : BTreeMap String LedgerEntry}

omit [UnicodeTables]

/-- A completed entry stays as it is. -/
theorem completed_stays (h : TableChange ledger op entries) {txnId : String} {entry : LedgerEntry}
    (hentry : ledger.entries[txnId]? = some entry) (hdone : entry.receipt ≠ none) :
    entries[txnId]? = some entry := by
  cases h with
  | unchanged hentries _ => exact hentries ▸ hentry
  | reserved request reservation _ hvacant _ hentries =>
    rw [hentries]
    refine (BTreeMap.getElem?_insert_ne _ ?_ _).trans hentry
    rintro rfl
    cases hvacant.symm.trans hentry
  | completed own found entry' _ hfound hfree _ _ _ hothers =>
    rw [hothers txnId, hentry]
    rintro rfl
    obtain rfl := Option.some.inj (hfound.symm.trans hentry)
    exact hdone hfree
  | released request found _ hfound hfree _ hentries =>
    rw [hentries, BTreeMap.getElem?_erase, if_neg, hentry]
    rintro rfl
    obtain rfl := Option.some.inj (hfound.symm.trans hentry)
    exact hdone hfree
  | dropped _ hentries =>
    rw [hentries, ReceiptLedger.getElem?_abortInFlight, hentry, Option.filter_some,
      if_pos (Option.isSome_iff_ne_none.mpr hdone)]

/-- Only an in-flight entry disappears, and only to its own request's abort or
to the abort of all. -/
theorem of_vanished (h : TableChange ledger op entries) {txnId : String} {entry : LedgerEntry}
    (hentry : ledger.entries[txnId]? = some entry) (hgone : entries[txnId]? = none) :
    entry.receipt = none ∧ (op = .abortInFlight ∨ ∃ request, op = .abort request ∧
      request.txnId = txnId ∧ ReceiptLedger.Matches request entry) := by
  have hfree : entry.receipt = none := by
    by_contra hdone
    cases hgone.symm.trans (h.completed_stays hentry hdone)
  refine ⟨hfree, ?_⟩
  cases h with
  | unchanged hentries _ =>
    rw [hentries, hentry] at hgone
    cases hgone
  | reserved request reservation _ _ _ hentries =>
    rw [hentries, BTreeMap.getElem?_insert] at hgone
    split at hgone
    · cases hgone
    · cases hgone.symm.trans hentry
  | completed own found entry' _ hfound _ hentry' _ _ hothers =>
    by_cases htxn : txnId = own
    · subst htxn
      cases hgone.symm.trans hentry'
    · cases (hothers txnId htxn).symm.trans hgone |>.symm.trans hentry
  | released request found hop hfound _ hmatches hentries =>
    rw [hentries, BTreeMap.getElem?_erase] at hgone
    split at hgone
    · rename_i htxn
      subst htxn
      obtain rfl := Option.some.inj (hfound.symm.trans hentry)
      exact .inr ⟨request, hop, rfl, hmatches⟩
    · cases hgone.symm.trans hentry
  | dropped hop _ => exact .inl hop

/-- An entry that stays keeps its reservation, and with it its fingerprint. -/
theorem reservation_kept (h : TableChange ledger op entries) {txnId : String}
    {entry entry' : LedgerEntry} (hentry : ledger.entries[txnId]? = some entry)
    (hentry' : entries[txnId]? = some entry') : entry'.reservation = entry.reservation := by
  cases h with
  | unchanged hentries _ =>
    rw [hentries, hentry] at hentry'
    rw [Option.some.inj hentry']
  | reserved request reservation _ hvacant _ hentries =>
    rw [hentries, BTreeMap.getElem?_insert, if_neg, hentry] at hentry'
    · rw [Option.some.inj hentry']
    · rintro rfl
      cases hvacant.symm.trans hentry
  | completed own found final _ hfound _ hfinal hsame _ hothers =>
    by_cases htxn : txnId = own
    · subst htxn
      obtain rfl := Option.some.inj (hfound.symm.trans hentry)
      obtain rfl := Option.some.inj (hfinal.symm.trans hentry')
      exact hsame
    · rw [hothers txnId htxn, hentry] at hentry'
      rw [Option.some.inj hentry']
  | released request found _ _ _ _ hentries =>
    rw [hentries, BTreeMap.getElem?_erase] at hentry'
    split at hentry'
    · cases hentry'
    · rw [Option.some.inj (hentry.symm.trans hentry')]
  | dropped _ hentries =>
    rw [hentries, ReceiptLedger.getElem?_abortInFlight, hentry, Option.filter_some] at hentry'
    split at hentry'
    · rw [Option.some.inj hentry']
    · cases hentry'

/-- An operation on one transaction leaves the entries of all others alone. -/
theorem others_kept (h : TableChange ledger op entries) {own txnId : String}
    (hown : op.txnId = some own) (hne : txnId ≠ own) : entries[txnId]? = ledger.entries[txnId]? := by
  cases h with
  | unchanged hentries _ => rw [hentries]
  | reserved request reservation hop _ _ hentries =>
    obtain rfl := Option.some.inj (hop.symm.trans hown)
    rw [hentries]
    exact BTreeMap.getElem?_insert_ne _ (Ne.symm hne) _
  | completed txn found entry' hop _ _ _ _ _ hothers =>
    obtain rfl := Option.some.inj (hop.symm.trans hown)
    exact hothers txnId hne
  | released request found hop _ _ _ hentries =>
    subst hop
    obtain rfl := Option.some.inj hown
    rw [hentries, BTreeMap.getElem?_erase, if_neg (Ne.symm hne)]
  | dropped hop _ =>
    subst hop
    cases hown

/-- The abort of all keeps exactly the completed entries. -/
theorem of_abortInFlight (h : TableChange ledger .abortInFlight entries) (txnId : String) :
    entries[txnId]? = ledger.entries[txnId]?.filter fun entry => entry.receipt.isSome := by
  cases h with
  | unchanged _ hop => exact absurd rfl hop
  | reserved _ _ hop _ _ _ => cases hop
  | completed _ _ _ hop _ _ _ _ _ _ => cases hop
  | released _ _ hop _ _ _ _ => cases hop
  | dropped _ hentries =>
    rw [hentries]
    exact ReceiptLedger.getElem?_abortInFlight ledger txnId

/-- Only a reservation adds an entry, and it has checked the limit. -/
theorem size_le (h : TableChange ledger op entries)
    (hsize : ledger.entries.size ≤ ledger.maxEntries) : entries.size ≤ ledger.maxEntries := by
  cases h with
  | unchanged hentries _ => exact hentries ▸ hsize
  | reserved request reservation _ _ hroom hentries =>
    rw [hentries]
    exact Std.ExtTreeMap.size_insert_le.trans hroom
  | completed txnId entry entry' _ hentry _ _ _ _ hothers =>
    refine (BTreeMap.size_le_of_keys fun other hnone => ?_).trans hsize
    rw [hothers other, hnone]
    rintro rfl
    cases hnone.symm.trans hentry
  | released request entry _ _ _ _ hentries =>
    rw [hentries]
    exact Std.ExtTreeMap.size_erase_le.trans hsize
  | dropped _ hentries =>
    rw [hentries]
    exact Std.ExtTreeMap.size_filter_le_size.trans hsize

end TableChange

/-! ## 4. Runs -/

/-- What one operation keeps to. -/
structure LedgerStepRules (ledger : ReceiptLedger) (op : LedgerOp) : Prop where
  completed : ∀ (txnId : String) (entry : LedgerEntry), ledger.entries[txnId]? = some entry →
    entry.receipt ≠ none →
    (ledger.step op).entries[txnId]? = some entry
  vanished : ∀ (txnId : String) (entry : LedgerEntry), ledger.entries[txnId]? = some entry →
    (ledger.step op).entries[txnId]? = none → entry.receipt = none ∧
      (op = .abortInFlight ∨ ∃ request, op = .abort request ∧ request.txnId = txnId ∧
        ReceiptLedger.Matches request entry)
  reservation : ∀ (txnId : String) (entry entry' : LedgerEntry), ledger.entries[txnId]? = some entry →
    (ledger.step op).entries[txnId]? = some entry' → entry'.reservation = entry.reservation
  others : ∀ own, op.txnId = some own → ∀ txnId : String, txnId ≠ own →
    (ledger.step op).entries[txnId]? = ledger.entries[txnId]?
  inFlight : op = .abortInFlight → ∀ txnId : String, (ledger.step op).entries[txnId]? =
    ledger.entries[txnId]?.filter fun entry => entry.receipt.isSome
  refused : (ledger.perform op).1.Refused → (ledger.step op).entries = ledger.entries

theorem ledgerStepRules (ledger : ReceiptLedger) (op : LedgerOp) : LedgerStepRules ledger op where
  completed _ _ hentry hdone := (ledger.step_change op).completed_stays hentry hdone
  vanished _ _ hentry hgone := (ledger.step_change op).of_vanished hentry hgone
  reservation _ _ _ hentry hentry' := (ledger.step_change op).reservation_kept hentry hentry'
  others _ hown _ hne := (ledger.step_change op).others_kept hown hne
  inFlight hop txnId := by
    subst hop
    exact (ledger.step_change .abortInFlight).of_abortInFlight txnId
  refused := ledger.refused_unchanged op

/-- A completed entry survives every run. -/
theorem completed_run {ledger : ReceiptLedger} {txnId : String} {entry : LedgerEntry}
    (hentry : ledger.entries[txnId]? = some entry) (hdone : entry.receipt ≠ none)
    (ops : List LedgerOp) : (run ReceiptLedger.step ledger ops).entries[txnId]? = some entry := by
  have hstep : ∀ (t : ReceiptLedger) op, t.entries[txnId]? = some entry →
      (t.step op).entries[txnId]? = some entry := by
    intro t op ht
    exact (t.step_change op).completed_stays ht hdone
  exact run_invariant hstep hentry ops

/-- A transaction that is never vacant in between keeps its reservation. -/
theorem reservation_run {ledger : ReceiptLedger} {txnId : String} {entry entry' : LedgerEntry}
    (hentry : ledger.entries[txnId]? = some entry) {ops : List LedgerOp}
    (hlive : ∀ t ∈ visited ReceiptLedger.step ledger ops, t.entries[txnId]? ≠ none)
    (hentry' : (run ReceiptLedger.step ledger ops).entries[txnId]? = some entry') :
    entry'.reservation = entry.reservation := by
  induction ops generalizing ledger entry with
  | nil => rw [Option.some.inj (hentry.symm.trans hentry')]
  | cons op rest ih =>
    have hnext : (ledger.step op).entries[txnId]? ≠ none :=
      hlive _ (List.mem_cons_of_mem _ (start_mem_visited _ _))
    obtain ⟨middle, hmiddle⟩ := Option.ne_none_iff_exists'.mp hnext
    have hlast := ih hmiddle (fun t ht => hlive t (List.mem_cons_of_mem _ ht)) hentry'
    exact hlast.trans ((ledger.step_change op).reservation_kept hentry hmiddle)

/-- The bound on the table. -/
theorem size_run {ledger : ReceiptLedger} (hsize : ledger.entries.size ≤ ledger.maxEntries)
    (ops : List LedgerOp) : ∀ t ∈ visited ReceiptLedger.step ledger ops,
      t.entries.size ≤ ledger.maxEntries := by
  have hstep : ∀ (t : ReceiptLedger) op,
      t.entries.size ≤ t.maxEntries ∧ t.maxEntries = ledger.maxEntries →
      (t.step op).entries.size ≤ (t.step op).maxEntries ∧
        (t.step op).maxEntries = ledger.maxEntries := by
    rintro t op ⟨ht, hmax⟩
    rw [ReceiptLedger.maxEntries_step]
    exact ⟨(t.step_change op).size_le ht, hmax⟩
  intro t ht
  obtain ⟨first, second, -, rfl⟩ := mem_visited_iff.mp ht
  have hrun := run_invariant hstep ⟨hsize, rfl⟩ first
  exact hrun.1.trans (le_of_eq hrun.2)

/-- **The ledger's invariant.** Along every run of a new ledger a stored receipt
stays, byte for byte, and its transaction is never in flight or vacant again; the
table stays within its limit; every operation keeps to the rules above; and an
entry has one fingerprint for as long as it lives. -/
theorem ledger_invariant {configHash : String} {maxEntries : Nat} {ledger : ReceiptLedger}
    (hstart : ReceiptLedger.fromApprovedSnapshot configHash maxEntries = .ok ledger)
    (ops : List LedgerOp) :
    (∀ before more, ops = before ++ more → ∀ txnId receipt,
      (run ReceiptLedger.step ledger before).storedReceipt txnId = some receipt →
      (run ReceiptLedger.step ledger ops).storedReceipt txnId = some receipt ∧
        (run ReceiptLedger.step ledger ops).status txnId = .applied ∧
        ∀ request outcome, request.txnId = txnId →
          (run ReceiptLedger.step ledger ops).lookup request = .ok outcome →
          outcome = .duplicate receipt) ∧
    (∀ t ∈ visited ReceiptLedger.step ledger ops, t.entries.size ≤ maxEntries) ∧
    Along ReceiptLedger.step LedgerStepRules ledger ops ∧
    ∀ before more, ops = before ++ more → ∀ (txnId : String) (entry entry' : LedgerEntry),
      (run ReceiptLedger.step ledger before).entries[txnId]? = some entry →
      (∀ t ∈ visited ReceiptLedger.step (run ReceiptLedger.step ledger before) more,
        t.entries[txnId]? ≠ none) →
      (run ReceiptLedger.step ledger ops).entries[txnId]? = some entry' →
      entry'.reservation = entry.reservation := by
  have hempty : ledger.entries.size ≤ ledger.maxEntries ∧ ledger.maxEntries = maxEntries := by
    simp only [ReceiptLedger.fromApprovedSnapshot, bind_eq_ok, pure_eq_ok] at hstart
    obtain ⟨-, -, rfl⟩ := hstart
    exact ⟨Nat.zero_le _, rfl⟩
  refine ⟨?_, ?_, along_of_forall ledgerStepRules ledger ops, ?_⟩
  · rintro before more rfl txnId receipt hstored
    obtain ⟨entry, hentry, hreceipt⟩ := Option.bind_eq_some_iff.mp hstored
    have hlast := completed_run hentry (hreceipt ▸ Option.some_ne_none receipt) more
    rw [← run_append] at hlast
    refine ⟨?_, ?_, ?_⟩
    · simp only [ReceiptLedger.storedReceipt, hlast, Option.bind_some, hreceipt]
    · simp only [ReceiptLedger.status, hlast, hreceipt, Option.isSome_some, if_true]
    · rintro request outcome rfl hlookup
      cases outcome with
      | vacant => cases hlast.symm.trans (ReceiptLedger.lookup_vacant.mp hlookup).2
      | inFlight =>
        obtain ⟨-, found, hfound, -, hfree⟩ := ReceiptLedger.lookup_inFlight.mp hlookup
        obtain rfl := Option.some.inj (hlast.symm.trans hfound)
        cases hreceipt.symm.trans hfree
      | duplicate stored =>
        obtain ⟨-, found, hfound, -, hstored'⟩ := ReceiptLedger.lookup_duplicate.mp hlookup
        obtain rfl := Option.some.inj (hlast.symm.trans hfound)
        rw [Option.some.inj (hreceipt.symm.trans hstored')]
  · exact hempty.2 ▸ size_run hempty.1 ops
  · rintro before more rfl txnId entry entry' hentry hlive hentry'
    rw [run_append] at hentry'
    exact reservation_run hentry hlive hentry'

end Ledger

/-- A ledger with room for one transaction turns the second away. -/
theorem ledger_invariant_single : letI := asciiOnly
    ReceiptLedger.fromApprovedSnapshot "config" 1 = .ok ⟨"config", 1, ∅, 0, none, none⟩ ∧
      (run ReceiptLedger.step ⟨"config", 1, ∅, 0, none, none⟩
        [.reserve (originRequest "first" []), .reserve (originRequest "second" []),
          .finalize (originRequest "first" []) [], .abortInFlight]).entries.size ≤ 1 := by
  let := asciiOnly
  have hstart : ReceiptLedger.fromApprovedSnapshot "config" 1 =
      .ok ⟨"config", 1, ∅, 0, none, none⟩ := rfl
  exact ⟨hstart, (ledger_invariant hstart _).2.1 _ (run_mem_visited _ _)⟩

end LumioVoxel
