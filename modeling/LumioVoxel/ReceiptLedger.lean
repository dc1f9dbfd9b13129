import LumioVoxel.MutationRequest

/-!
# The receipt ledger

One entry for each transaction that is in flight or completed.  An entry holds
the reservation of the request that made it; every later use of the transaction
id has to present a request with the same fingerprint.  Completed entries are
never removed.
-/

namespace LumioVoxel

open Fallible

/-! ## 1. Reservations and entries -/

structure MutationReservation where
  txnId : String
  worldId : String
  generation : UInt64
  fingerprint : RequestFingerprint
  deriving DecidableEq

namespace MutationReservation

def fromRequest (request : MutationRequest) : Except DuplicateMember MutationReservation := do
  let fingerprint ← canonicalFingerprint request
  return ⟨request.txnId, request.worldId, request.generation, fingerprint⟩

/-- Reservations expire by generation, never by the clock. -/
def isExpired (reservation : MutationReservation) (generation : UInt64) : Bool :=
  generation != reservation.generation

end MutationReservation

/-- The identities of the root a commit replaced and of the one it published. -/
structure ReceiptEvidence where
  oldRoot : Digest
  newRoot : Digest
  deriving DecidableEq

structure LedgerEntry where
  reservation : MutationReservation
  receipt : Option Bytes
  evidence : Option ReceiptEvidence
  deriving DecidableEq

inductive LookupOutcome where
  | vacant
  | inFlight
  | duplicate (receipt : Bytes)
  deriving DecidableEq

inductive ReceiptStatus where
  | unknown
  | prepared
  | applied
  deriving DecidableEq, Repr

structure FinalizeOutcome where
  disposition : ReplayDisposition
  receipt : Bytes
  deriving DecidableEq

structure LedgerError where
  errorId : String
  disposition : Option ReplayDisposition
  deriving DecidableEq, Repr

namespace LedgerError

def conflict : LedgerError := ⟨"RevisionConflict", some .conflict⟩
def budget : LedgerError := ⟨"BudgetExceeded", none⟩
def invalidHandle : LedgerError := ⟨"InvalidHandle", none⟩
def sessionMismatch : LedgerError := ⟨"SessionMismatch", none⟩

end LedgerError

def MutationError.fromLedger (err : LedgerError) : MutationError := ⟨err.errorId, err.disposition⟩

structure ReceiptLedger where
  configHash : String
  maxEntries : Nat
  entries : BTreeMap String LedgerEntry
  reserveCount : Nat
  boundWorldId : Option String
  boundGeneration : Option UInt64
  deriving DecidableEq

/-! ## 2. Operations -/

namespace ReceiptLedger

def fromApprovedSnapshot (configHash : String) (maxEntries : Nat) :
    Except LedgerError ReceiptLedger := do
  require (maxEntries ≠ 0) .budget
  return ⟨configHash, maxEntries, ∅, 0, none, none⟩

def checkRequest (ledger : ReceiptLedger) (request : MutationRequest) :
    Except LedgerError Unit := do
  require (request.txnId ≠ "" ∧ request.worldId ≠ "") .invalidHandle
  require (ledger.boundWorldId.all (· = request.worldId)) .sessionMismatch
  require (ledger.boundGeneration.all (· = request.generation)) .invalidHandle

def checkEntry (request : MutationRequest) (entry : LedgerEntry) : Except LedgerError Unit := do
  require (entry.reservation.worldId = request.worldId) .sessionMismatch
  require (entry.reservation.isExpired request.generation = false) .invalidHandle
  let fingerprint ← (canonicalFingerprint request).mapError fun _ => LedgerError.invalidHandle
  require (fingerprint = entry.reservation.fingerprint) .conflict

def lookup (ledger : ReceiptLedger) (request : MutationRequest) :
    Except LedgerError LookupOutcome := do
  ledger.checkRequest request
  match ledger.entries[request.txnId]? with
  | none => return .vacant
  | some entry =>
    checkEntry request entry
    match entry.receipt with
    | some receipt => return .duplicate receipt
    | none => return .inFlight

/-- The public status of a transaction, without its request. -/
def status (ledger : ReceiptLedger) (txnId : String) : ReceiptStatus :=
  match ledger.entries[txnId]? with
  | none => .unknown
  | some entry => if entry.receipt.isSome then .applied else .prepared

/-- The first reservation fixes the ledger's world and generation. -/
def bind (ledger : ReceiptLedger) (request : MutationRequest) : ReceiptLedger :=
  { ledger with
    boundWorldId := some (ledger.boundWorldId.getD request.worldId)
    boundGeneration := some (ledger.boundGeneration.getD request.generation) }

def reserve (ledger : ReceiptLedger) (request : MutationRequest) :
    Except LedgerError (MutationReservation × ReceiptLedger) := do
  ledger.checkRequest request
  match ledger.entries[request.txnId]? with
  | some entry =>
    checkEntry request entry
    return (entry.reservation, ledger)
  | none =>
    require (ledger.entries.size < ledger.maxEntries) .budget
    let reservation ← (MutationReservation.fromRequest request).mapError
      fun _ => LedgerError.invalidHandle
    return (reservation, { ledger.bind request with
      entries := ledger.entries.insert request.txnId ⟨reservation, none, none⟩
      reserveCount := ledger.reserveCount + 1 })

/-- The public completion: the first receipt stays. -/
def finalize (ledger : ReceiptLedger) (request : MutationRequest) (receipt : Bytes) :
    Except LedgerError (FinalizeOutcome × ReceiptLedger) := do
  ledger.checkRequest request
  let entry ← someOr ledger.entries[request.txnId]? .invalidHandle
  checkEntry request entry
  match entry.receipt with
  | some stored => return (⟨.duplicate, stored⟩, ledger)
  | none =>
    return (⟨.original, receipt⟩, { ledger with
      entries := ledger.entries.insert request.txnId { entry with receipt := some receipt } })

def evidence (ledger : ReceiptLedger) (request : MutationRequest) :
    Except LedgerError (Option ReceiptEvidence) := do
  ledger.checkRequest request
  let entry ← someOr ledger.entries[request.txnId]? .invalidHandle
  checkEntry request entry
  return entry.evidence

/-- Runs after the authority's swap.  The source expects the reservation to be
there and panics otherwise; here the caller has to show it. -/
def finalizeAfterPublish (ledger : ReceiptLedger) (request : MutationRequest) (receipt : Bytes)
    (h : ledger.entries[request.txnId]?.isSome) : Bytes × ReceiptLedger :=
  let entry := ledger.entries[request.txnId]?.get h
  match entry.receipt with
  | some stored => (stored, ledger)
  | none =>
    (receipt, { ledger with
      entries := ledger.entries.insert request.txnId { entry with receipt := some receipt } })

def recordEvidenceAfterPublish (ledger : ReceiptLedger) (request : MutationRequest)
    (evidence : ReceiptEvidence) (h : ledger.entries[request.txnId]?.isSome) : ReceiptLedger :=
  let entry := ledger.entries[request.txnId]?.get h
  if entry.receipt.isSome ∧ entry.evidence = none then
    { ledger with
      entries := ledger.entries.insert request.txnId { entry with evidence := some evidence } }
  else
    ledger

/-- Releases an in-flight entry; a completed one stays. -/
def abort (ledger : ReceiptLedger) (request : MutationRequest) :
    Except LedgerError ReceiptLedger := do
  ledger.checkRequest request
  match ledger.entries[request.txnId]? with
  | none => return ledger
  | some entry =>
    checkEntry request entry
    if entry.receipt.isSome then return ledger
    else return { ledger with entries := ledger.entries.erase request.txnId }

def abortInFlight (ledger : ReceiptLedger) : ReceiptLedger :=
  { ledger with entries := ledger.entries.filter fun _ entry => entry.receipt.isSome }

def inFlightCount (ledger : ReceiptLedger) : Nat :=
  (ledger.entries.filter fun _ entry => entry.receipt.isNone).size

/-! ## 3. What the checks accept -/

/-- The request is complete and for the world and generation the ledger serves. -/
def Admits (ledger : ReceiptLedger) (request : MutationRequest) : Prop :=
  (request.txnId ≠ "" ∧ request.worldId ≠ "") ∧
    (∀ worldId ∈ ledger.boundWorldId, worldId = request.worldId) ∧
    ∀ generation ∈ ledger.boundGeneration, generation = request.generation

/-- The request is the one the entry was reserved for. -/
def Matches (request : MutationRequest) (entry : LedgerEntry) : Prop :=
  entry.reservation.worldId = request.worldId ∧
    entry.reservation.generation = request.generation ∧
    canonicalFingerprint request = .ok entry.reservation.fingerprint

theorem checkRequest_eq_ok {ledger : ReceiptLedger} {request : MutationRequest} {u : Unit} :
    ledger.checkRequest request = .ok u ↔ ledger.Admits request := by
  simp only [checkRequest, bind_eq_ok, require_eq_ok, exists_and_left, exists_const, Admits,
    Option.all_eq_true, Option.mem_def, decide_eq_true_eq]

theorem checkEntry_eq_ok {request : MutationRequest} {entry : LedgerEntry} {u : Unit} :
    checkEntry request entry = .ok u ↔ Matches request entry := by
  simp only [checkEntry, bind_eq_ok, require_eq_ok, mapError_eq_ok, exists_and_left, exists_const,
    Matches, MutationReservation.isExpired, bne_eq_false_iff_eq]
  constructor
  · rintro ⟨hworld, hgen, fingerprint, hf, rfl⟩
    exact ⟨hworld, hgen.symm, hf⟩
  · rintro ⟨hworld, hgen, hf⟩
    exact ⟨hworld, hgen.symm, _, hf, rfl⟩

theorem lookup_vacant {ledger : ReceiptLedger} {request : MutationRequest} :
    ledger.lookup request = .ok .vacant ↔
      ledger.Admits request ∧ ledger.entries[request.txnId]? = none := by
  unfold lookup
  rw [bind_eq_ok]
  simp only [checkRequest_eq_ok, exists_and_left, exists_const]
  refine and_congr_right fun _ => ?_
  cases hentry : ledger.entries[request.txnId]? with
  | none => simp [pure, Except.pure]
  | some entry =>
    simp only [bind_eq_ok, reduceCtorEq, iff_false, not_exists, not_and]
    intro _ _
    cases entry.receipt <;> simp [pure, Except.pure]

theorem lookup_inFlight {ledger : ReceiptLedger} {request : MutationRequest} :
    ledger.lookup request = .ok .inFlight ↔
      ledger.Admits request ∧ ∃ entry, ledger.entries[request.txnId]? = some entry ∧
        Matches request entry ∧ entry.receipt = none := by
  unfold lookup
  rw [bind_eq_ok]
  simp only [checkRequest_eq_ok, exists_and_left, exists_const]
  refine and_congr_right fun _ => ?_
  cases hentry : ledger.entries[request.txnId]? with
  | none => simp [pure, Except.pure]
  | some entry =>
    simp only [bind_eq_ok, checkEntry_eq_ok, exists_and_left, exists_const, Option.some.injEq,
      exists_eq_left']
    refine and_congr_right fun _ => ?_
    cases entry.receipt <;> simp [pure, Except.pure]

theorem lookup_duplicate {ledger : ReceiptLedger} {request : MutationRequest} {receipt : Bytes} :
    ledger.lookup request = .ok (.duplicate receipt) ↔
      ledger.Admits request ∧ ∃ entry, ledger.entries[request.txnId]? = some entry ∧
        Matches request entry ∧ entry.receipt = some receipt := by
  unfold lookup
  rw [bind_eq_ok]
  simp only [checkRequest_eq_ok, exists_and_left, exists_const]
  refine and_congr_right fun _ => ?_
  cases hentry : ledger.entries[request.txnId]? with
  | none => simp [pure, Except.pure]
  | some entry =>
    simp only [bind_eq_ok, checkEntry_eq_ok, exists_and_left, exists_const, Option.some.injEq,
      exists_eq_left']
    refine and_congr_right fun _ => ?_
    cases entry.receipt <;> simp [pure, Except.pure]

theorem evidence_of_present {ledger : ReceiptLedger} {request : MutationRequest}
    {entry : LedgerEntry} (hadmits : ledger.Admits request)
    (hentry : ledger.entries[request.txnId]? = some entry) (hmatches : Matches request entry) :
    ledger.evidence request = .ok entry.evidence := by
  simp only [evidence, checkRequest_eq_ok (u := ()) |>.mpr hadmits, ok_bind, hentry, someOr,
    checkEntry_eq_ok (u := ()) |>.mpr hmatches]
  rfl

theorem isSome_of_inFlight {ledger : ReceiptLedger} {request : MutationRequest}
    (h : ledger.lookup request = .ok .inFlight) : ledger.entries[request.txnId]?.isSome := by
  obtain ⟨-, entry, hentry, -⟩ := lookup_inFlight.mp h
  rw [hentry]
  rfl

/-! ## 4. What the operations change -/

/-- Reserving a vacant transaction adds its in-flight entry and nothing else. -/
theorem reserve_of_vacant {ledger ledger' : ReceiptLedger} {request : MutationRequest}
    {reservation : MutationReservation} (hvacant : ledger.entries[request.txnId]? = none)
    (h : ledger.reserve request = .ok (reservation, ledger')) :
    MutationReservation.fromRequest request = .ok reservation ∧
      ledger'.entries = ledger.entries.insert request.txnId ⟨reservation, none, none⟩ ∧
      ledger'.configHash = ledger.configHash ∧
      ledger'.boundWorldId = some request.worldId ∧
      ledger'.boundGeneration = some request.generation := by
  unfold reserve at h
  simp only [hvacant, bind_eq_ok, checkRequest_eq_ok, require_eq_ok, mapError_eq_ok, pure_eq_ok,
    exists_and_left, exists_const, Prod.mk.injEq] at h
  obtain ⟨⟨-, hworld, hgen⟩, -, reservation', hres, rfl, rfl⟩ := h
  refine ⟨hres, rfl, rfl, ?_, ?_⟩
  · cases hbound : ledger.boundWorldId with
    | none => simp [bind, hbound]
    | some worldId => simp [bind, hbound, hworld worldId hbound]
  · cases hbound : ledger.boundGeneration with
    | none => simp [bind, hbound]
    | some generation => simp [bind, hbound, hgen generation hbound]

theorem maxEntries_reserve {ledger ledger' : ReceiptLedger} {request : MutationRequest}
    {reservation : MutationReservation} (h : ledger.reserve request = .ok (reservation, ledger')) :
    ledger'.maxEntries = ledger.maxEntries := by
  unfold reserve at h
  simp only [bind_eq_ok] at h
  obtain ⟨-, -, h⟩ := h
  split at h
  · simp only [bind_eq_ok, pure_eq_ok, Prod.mk.injEq] at h
    obtain ⟨-, -, -, rfl⟩ := h
    rfl
  · simp only [bind_eq_ok, pure_eq_ok, Prod.mk.injEq] at h
    obtain ⟨-, -, -, -, -, rfl⟩ := h
    rfl

theorem size_lt_of_reserve {ledger ledger' : ReceiptLedger} {request : MutationRequest}
    {reservation : MutationReservation} (hvacant : ledger.entries[request.txnId]? = none)
    (h : ledger.reserve request = .ok (reservation, ledger')) :
    ledger.entries.size < ledger.maxEntries := by
  unfold reserve at h
  simp only [hvacant, bind_eq_ok, require_eq_ok] at h
  obtain ⟨-, -, -, hroom, -⟩ := h
  exact hroom

/-- Reserving a transaction that has an entry changes nothing. -/
theorem reserve_of_present {ledger ledger' : ReceiptLedger} {request : MutationRequest}
    {reservation : MutationReservation} {entry : LedgerEntry}
    (hentry : ledger.entries[request.txnId]? = some entry)
    (h : ledger.reserve request = .ok (reservation, ledger')) :
    reservation = entry.reservation ∧ ledger' = ledger := by
  unfold reserve at h
  simp only [hentry, bind_eq_ok, pure_eq_ok, Prod.mk.injEq] at h
  obtain ⟨-, -, -, -, rfl, rfl⟩ := h
  exact ⟨rfl, rfl⟩

theorem fromRequest_eq_ok {request : MutationRequest} {reservation : MutationReservation} :
    MutationReservation.fromRequest request = .ok reservation ↔
      ∃ fingerprint, canonicalFingerprint request = .ok fingerprint ∧
        reservation = ⟨request.txnId, request.worldId, request.generation, fingerprint⟩ := by
  simp only [MutationReservation.fromRequest, bind_eq_ok, pure_eq_ok, eq_comm (b := reservation)]

theorem exists_reservation (request : MutationRequest) :
    ∃ reservation, MutationReservation.fromRequest request = .ok reservation := by
  obtain ⟨fingerprint, hf⟩ := exists_canonicalFingerprint request
  exact ⟨_, fromRequest_eq_ok.mpr ⟨fingerprint, hf, rfl⟩⟩

/-- The reservation of a request accepts that request again. -/
theorem matches_of_fromRequest {request : MutationRequest} {reservation : MutationReservation}
    (h : MutationReservation.fromRequest request = .ok reservation) (receipt : Option Bytes)
    (evidence : Option ReceiptEvidence) : Matches request ⟨reservation, receipt, evidence⟩ := by
  obtain ⟨fingerprint, hf, rfl⟩ := fromRequest_eq_ok.mp h
  exact ⟨rfl, rfl, hf⟩

/-- A transaction just reserved is in flight. -/
theorem lookup_of_reserved {ledger ledger' : ReceiptLedger} {request : MutationRequest}
    {reservation : MutationReservation} (hadmits : ledger.Admits request)
    (hvacant : ledger.entries[request.txnId]? = none)
    (h : ledger.reserve request = .ok (reservation, ledger')) :
    ledger'.lookup request = .ok .inFlight := by
  obtain ⟨hres, hentries, -, hworld, hgen⟩ := reserve_of_vacant hvacant h
  refine lookup_inFlight.mpr ⟨⟨hadmits.1, ?_, ?_⟩, ⟨reservation, none, none⟩, ?_,
    matches_of_fromRequest hres _ _, rfl⟩
  · rw [hworld]
    exact fun worldId hw => (Option.some.inj hw).symm
  · rw [hgen]
    exact fun generation hg => (Option.some.inj hg).symm
  · rw [hentries, BTreeMap.getElem?_insert, if_pos rfl]

/-- Aborting removes at most the request's own in-flight entry. -/
theorem abort_eq_ok {ledger ledger' : ReceiptLedger} {request : MutationRequest} :
    ledger.abort request = .ok ledger' ↔ ledger.Admits request ∧
      match ledger.entries[request.txnId]? with
      | none => ledger' = ledger
      | some entry => Matches request entry ∧ ledger' = if entry.receipt.isSome then ledger
          else { ledger with entries := ledger.entries.erase request.txnId } := by
  unfold abort
  rw [bind_eq_ok]
  simp only [checkRequest_eq_ok, exists_and_left, exists_const]
  refine and_congr_right fun _ => ?_
  cases hentry : ledger.entries[request.txnId]? with
  | none => rw [pure_eq_ok, eq_comm]
  | some entry =>
    simp only [bind_eq_ok, checkEntry_eq_ok, exists_and_left, exists_const]
    refine and_congr_right fun _ => ?_
    by_cases hreceipt : entry.receipt.isSome = true
    · rw [if_pos hreceipt, if_pos hreceipt, pure_eq_ok, eq_comm]
    · rw [if_neg hreceipt, if_neg hreceipt, pure_eq_ok, eq_comm]

/-- Aborting what was just reserved gives the reservation back. -/
theorem abort_of_reserved {ledger ledger' : ReceiptLedger} {request : MutationRequest}
    {reservation : MutationReservation} (hadmits : ledger.Admits request)
    (hvacant : ledger.entries[request.txnId]? = none)
    (h : ledger.reserve request = .ok (reservation, ledger')) :
    ∃ back, ledger'.abort request = .ok back ∧ back.Admits request ∧
      back.entries = ledger.entries ∧ back.configHash = ledger.configHash ∧
      back.maxEntries = ledger.maxEntries := by
  obtain ⟨-, hentries, hconfig, -, -⟩ := reserve_of_vacant hvacant h
  have hmax := maxEntries_reserve h
  obtain ⟨hadmits', entry, hentry, hmatches, hopen⟩ :=
    lookup_inFlight.mp (lookup_of_reserved hadmits hvacant h)
  refine ⟨{ ledger' with entries := ledger'.entries.erase request.txnId },
    abort_eq_ok.mpr ⟨hadmits', ?_⟩, hadmits', ?_, hconfig, hmax⟩
  · rw [hentry]
    refine ⟨hmatches, ?_⟩
    rw [hopen]
    rfl
  · rw [hentries]
    exact BTreeMap.erase_insert_of_none hvacant _

theorem maxEntries_abort {ledger ledger' : ReceiptLedger} {request : MutationRequest}
    (h : ledger.abort request = .ok ledger') : ledger'.maxEntries = ledger.maxEntries := by
  obtain ⟨-, hcases⟩ := abort_eq_ok.mp h
  split at hcases
  · rw [hcases]
  · rw [hcases.2]
    split <;> rfl

theorem getElem?_abortInFlight (ledger : ReceiptLedger) (txnId : String) :
    ledger.abortInFlight.entries[txnId]? =
      ledger.entries[txnId]?.filter fun entry => entry.receipt.isSome :=
  BTreeMap.getElem?_filter_value ledger.entries (fun entry => entry.receipt.isSome) txnId

/-- A public completion answers from the stored receipt or stores its own. -/
theorem finalize_eq_ok {ledger ledger' : ReceiptLedger} {request : MutationRequest}
    {receipt : Bytes} {outcome : FinalizeOutcome} :
    ledger.finalize request receipt = .ok (outcome, ledger') ↔ ledger.Admits request ∧
      ∃ entry, ledger.entries[request.txnId]? = some entry ∧ Matches request entry ∧
        match entry.receipt with
        | some stored => outcome = ⟨.duplicate, stored⟩ ∧ ledger' = ledger
        | none => outcome = ⟨.original, receipt⟩ ∧ ledger' = { ledger with
            entries := ledger.entries.insert request.txnId
              { entry with receipt := some receipt } } := by
  simp only [finalize, bind_eq_ok, checkRequest_eq_ok, someOr_eq_ok, checkEntry_eq_ok,
    exists_and_left, exists_const]
  refine and_congr_right fun _ => exists_congr fun entry => and_congr_right fun _ =>
    and_congr_right fun _ => ?_
  cases entry.receipt with
  | none => rw [pure_eq_ok, eq_comm, Prod.mk.injEq]
  | some stored => rw [pure_eq_ok, eq_comm, Prod.mk.injEq]

/-- Finalizing an in-flight entry stores the receipt in it. -/
theorem finalizeAfterPublish_of_inFlight {ledger : ReceiptLedger} {request : MutationRequest}
    {entry : LedgerEntry} (hentry : ledger.entries[request.txnId]? = some entry)
    (hreceipt : entry.receipt = none) (receipt : Bytes)
    (h : ledger.entries[request.txnId]?.isSome) :
    ledger.finalizeAfterPublish request receipt h = (receipt, { ledger with
      entries := ledger.entries.insert request.txnId { entry with receipt := some receipt } }) := by
  have hget : ledger.entries[request.txnId]?.get h = entry := by simp only [hentry, Option.get_some]
  simp only [finalizeAfterPublish, hget, hreceipt]

theorem isSome_finalizeAfterPublish (ledger : ReceiptLedger) (request : MutationRequest)
    (receipt : Bytes) (h : ledger.entries[request.txnId]?.isSome) :
    (ledger.finalizeAfterPublish request receipt h).2.entries[request.txnId]?.isSome := by
  simp only [finalizeAfterPublish]
  split
  · exact h
  · rw [BTreeMap.getElem?_insert, if_pos rfl]
    rfl

/-- Evidence only fills the request's own completed entry. -/
theorem getElem?_recordEvidence (ledger : ReceiptLedger) (request : MutationRequest)
    (evidence : ReceiptEvidence) (h : ledger.entries[request.txnId]?.isSome) {entry : LedgerEntry}
    (hentry : ledger.entries[request.txnId]? = some entry) (txnId : String) :
    (ledger.recordEvidenceAfterPublish request evidence h).entries[txnId]? =
      if request.txnId = txnId ∧ entry.receipt.isSome ∧ entry.evidence = none then
        some { entry with evidence := some evidence }
      else ledger.entries[txnId]? := by
  have hget : ledger.entries[request.txnId]?.get h = entry := by simp only [hentry, Option.get_some]
  simp only [recordEvidenceAfterPublish, hget]
  by_cases hfill : entry.receipt.isSome = true ∧ entry.evidence = none
  · rw [if_pos hfill, BTreeMap.getElem?_insert]
    simp only [hfill, and_true]
  · rw [if_neg hfill, if_neg fun hh => hfill hh.2]

end ReceiptLedger

end LumioVoxel
