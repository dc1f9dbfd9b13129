import LumioVoxel.ContractTerms
import LumioVoxel.FallibleSteps
import LumioVoxel.StepRuns
import Mathlib.Data.List.Nodup
import Mathlib.Data.List.Perm.Basic

/-!
# Revision reservations

Revisions of worlds and revisions of sections are two numberings of one allocator.  A
reservation takes the next number for good, whether it is finalized or abandoned: so what is
finalized is never two times the same number, in whatever order the holders come back.
-/

namespace LumioVoxel

open Fallible StepRuns

/-! ## 1. Reservations and the allocator -/

structure WorldRevision where
  value : UInt64
  deriving DecidableEq, Repr

structure SectionRevision where
  value : UInt64
  deriving DecidableEq, Repr

inductive RevisionError where
  | overflow
  | doubleFinalize
  | abandoned
  deriving DecidableEq, Repr

def RevisionError.errorId : RevisionError → String
  | .overflow => "InvalidHandle"
  | .doubleFinalize => "HandleDoubleRelease"
  | .abandoned => "InvalidHandle"

structure RevisionReservation (T : Type) where
  value : T
  finalized : Bool
  abandoned : Bool

namespace RevisionReservation

variable {T : Type}

def finalize (ticket : RevisionReservation T) : Except RevisionError T × RevisionReservation T :=
  if ticket.abandoned then (.error .abandoned, ticket)
  else if ticket.finalized then (.error .doubleFinalize, ticket)
  else (.ok ticket.value, { ticket with finalized := true })

def abandon (ticket : RevisionReservation T) : RevisionReservation T :=
  { ticket with abandoned := true }

@[simp] theorem value_finalize (ticket : RevisionReservation T) :
    ticket.finalize.2.value = ticket.value := by
  unfold finalize
  split
  · rfl
  · split
    · rfl
    · rfl

@[simp] theorem abandoned_finalize (ticket : RevisionReservation T) :
    ticket.finalize.2.abandoned = ticket.abandoned := by
  unfold finalize
  split
  · rfl
  · split
    · rfl
    · rfl

theorem finalize_eq_ok {ticket : RevisionReservation T} {value : T} :
    ticket.finalize.1 = .ok value ↔
      ticket.abandoned = false ∧ ticket.finalized = false ∧ value = ticket.value := by
  unfold finalize
  split
  · rename_i habandoned
    simp [habandoned]
  · rename_i habandoned
    split
    · rename_i hfinalized
      simp [hfinalized]
    · rename_i hfinalized
      simp [habandoned, hfinalized, eq_comm]

end RevisionReservation

/-- The reservation of the next number of one numbering. -/
def reserveNext {T : Type} (make : UInt64 → T) (next : UInt64) :
    Except RevisionError (RevisionReservation T × UInt64) := do
  let after ← someOr (checkedSucc next) .overflow
  return (⟨make next, false, false⟩, after)

structure RevisionAllocator where
  nextWorld : UInt64
  nextSection : UInt64

namespace RevisionAllocator

def new : RevisionAllocator := ⟨0, 0⟩

def reserveWorld (allocator : RevisionAllocator) :
    Except RevisionError (RevisionReservation WorldRevision) × RevisionAllocator :=
  match reserveNext WorldRevision.mk allocator.nextWorld with
  | .ok (ticket, next) => (.ok ticket, { allocator with nextWorld := next })
  | .error err => (.error err, allocator)

def reserveSection (allocator : RevisionAllocator) :
    Except RevisionError (RevisionReservation SectionRevision) × RevisionAllocator :=
  match reserveNext SectionRevision.mk allocator.nextSection with
  | .ok (ticket, next) => (.ok ticket, { allocator with nextSection := next })
  | .error err => (.error err, allocator)

end RevisionAllocator

/-! ## 2. One numbering -/

inductive TicketCall where
  | reserve
  | finalize (i : Nat)
  | abandon (i : Nat)
  deriving DecidableEq

/-- The next number and every ticket handed out, in order. -/
structure RevisionLine (T : Type) where
  next : UInt64
  tickets : List (RevisionReservation T)

namespace RevisionLine

variable {T : Type} {make : UInt64 → T}

def new : RevisionLine T := ⟨0, []⟩

def step (make : UInt64 → T) (line : RevisionLine T) : TicketCall → RevisionLine T
  | .reserve =>
    match reserveNext make line.next with
    | .ok (ticket, next) => ⟨next, line.tickets ++ [ticket]⟩
    | .error _ => line
  | .finalize i => { line with tickets := line.tickets.modify i fun ticket => ticket.finalize.2 }
  | .abandon i => { line with tickets := line.tickets.modify i fun ticket => ticket.abandon }

/-- The revision a call hands to its caller. -/
def issued (line : RevisionLine T) : TicketCall → Option T
  | .finalize i => line.tickets[i]?.bind fun ticket => ticket.finalize.1.toOption
  | _ => none

/-- The numbers handed out are the first ones, in order. -/
def Counts (make : UInt64 → T) (line : RevisionLine T) (n : Nat) : Prop :=
  line.next.toNat = n ∧
    line.tickets.map (·.value) = (List.range n).map fun k => make (UInt64.ofNat k)

theorem counts_reserve {line : RevisionLine T} {n : Nat} (h : line.Counts make n) :
    (line.step make .reserve).Counts make (min (n + 1) (2 ^ 64 - 1)) := by
  obtain ⟨hnext, hvalues⟩ := h
  rw [step, reserveNext]
  cases hsucc : checkedSucc line.next with
  | none =>
    have hspent : ¬ line.next.toNat + 1 < 2 ^ 64 := by
      rw [← isSome_checkedSucc, hsucc]
      exact Bool.false_ne_true
    have hlt := line.next.toNat_lt
    rw [show min (n + 1) (2 ^ 64 - 1) = n by omega]
    exact ⟨hnext, hvalues⟩
  | some after =>
    have hafter := checkedSucc_eq_some.mp hsucc
    have hlt := after.toNat_lt
    rw [show min (n + 1) (2 ^ 64 - 1) = n + 1 by omega]
    refine ⟨by rw [← hnext]; exact hafter, ?_⟩
    have hnumber : UInt64.ofNat n = line.next := by
      rw [← hnext]
      exact UInt64.ofNat_toNat
    rw [List.range_succ, List.map_append, ← hvalues, List.map_singleton, hnumber]
    exact List.map_append

theorem map_value_modify (tickets : List (RevisionReservation T)) (i : Nat)
    {f : RevisionReservation T → RevisionReservation T}
    (h : ∀ ticket, (f ticket).value = ticket.value) :
    (tickets.modify i f).map (·.value) = tickets.map (·.value) := by
  induction tickets generalizing i with
  | nil => rw [List.modify_nil]
  | cons ticket rest ih =>
    cases i with
    | zero => simp only [List.modify_zero_cons, List.map_cons, h]
    | succ i => simp only [List.modify_succ_cons, List.map_cons, ih]

theorem counts_step {line : RevisionLine T} {n : Nat} (h : line.Counts make n) (call : TicketCall) :
    (line.step make call).Counts make
      (if call = .reserve then min (n + 1) (2 ^ 64 - 1) else n) := by
  cases call with
  | reserve => exact counts_reserve h
  | finalize i =>
    exact ⟨h.1, (map_value_modify _ _ RevisionReservation.value_finalize).trans h.2⟩
  | abandon i =>
    exact ⟨h.1, (map_value_modify (f := RevisionReservation.abandon) _ _ fun _ => rfl).trans h.2⟩

/-- Every reservation counts, until the numbers have run out. -/
theorem counts_run {line : RevisionLine T} {n : Nat} (h : line.Counts make n)
    (calls : List TicketCall) :
    (run (step make) line calls).Counts make (min (n + calls.count .reserve) (2 ^ 64 - 1)) := by
  have hle : n ≤ 2 ^ 64 - 1 := by
    have hlt := line.next.toNat_lt
    have hnext := h.1
    omega
  induction calls generalizing line n with
  | nil =>
    rw [List.count_nil, Nat.add_zero, Nat.min_eq_left hle]
    exact h
  | cons call rest ih =>
    have hstep := counts_step h call
    rw [run_cons, List.count_cons]
    by_cases hcall : call = .reserve
    · rw [if_pos hcall] at hstep
      have hrest := ih hstep (Nat.min_le_right _ _)
      rw [if_pos (beq_iff_eq.mpr hcall)]
      rwa [show min (n + (rest.count .reserve + 1)) (2 ^ 64 - 1) =
        min (min (n + 1) (2 ^ 64 - 1) + rest.count .reserve) (2 ^ 64 - 1) by omega]
    · rw [if_neg hcall] at hstep
      rw [if_neg (mt beq_iff_eq.mp hcall)]
      exact ih hstep hle

theorem nodup_values {line : RevisionLine T} {n : Nat} (h : line.Counts make n)
    (hmake : Function.Injective make) : (line.tickets.map (·.value)).Nodup := by
  have hlt := line.next.toNat_lt
  rw [h.2]
  refine List.Nodup.map_on ?_ List.nodup_range
  intro j hj k hk heq
  rw [List.mem_range] at hj hk
  have hsame := congrArg UInt64.toNat (hmake heq)
  have hnext := h.1
  simp only [UInt64.toNat_ofNat'] at hsame
  omega

/-- The revisions of the finalized tickets. -/
def finals (line : RevisionLine T) : List T :=
  (line.tickets.filter (·.finalized)).map (·.value)

theorem finals_append (tickets : List (RevisionReservation T)) (next next' : UInt64) (value : T) :
    finals ⟨next, tickets ++ [⟨value, false, false⟩]⟩ = finals ⟨next', tickets⟩ := by
  simp [finals]

theorem finals_reserve (line : RevisionLine T) :
    (line.step make .reserve).finals = line.finals := by
  rw [step, reserveNext]
  cases checkedSucc line.next with
  | none => rfl
  | some after => exact finals_append line.tickets after line.next (make line.next)

theorem finals_abandon (line : RevisionLine T) (i : Nat) :
    (line.step make (.abandon i)).finals = line.finals := by
  simp only [finals, step]
  induction line.tickets generalizing i with
  | nil => rw [List.modify_nil]
  | cons ticket rest ih =>
    cases i with
    | zero =>
      simp only [List.modify_zero_cons, List.filter_cons, RevisionReservation.abandon]
      split
      · rfl
      · rfl
    | succ i =>
      simp only [List.modify_succ_cons, List.filter_cons]
      split
      · rw [List.map_cons, List.map_cons, ih]
      · exact ih i

/-- Finalizing hands out the revision of a ticket that was not final and is now. -/
theorem finals_finalize (line : RevisionLine T) (i : Nat) :
    (line.step make (.finalize i)).finals.Perm
      ((line.issued (.finalize i)).toList ++ line.finals) := by
  simp only [finals, step, issued]
  induction line.tickets generalizing i with
  | nil =>
    rw [List.modify_nil]
    exact .refl _
  | cons ticket rest ih =>
    cases i with
    | zero =>
      simp only [List.modify_zero_cons, List.getElem?_cons_zero, Option.bind_some]
      cases hresult : ticket.finalize.1 with
      | ok value =>
        obtain ⟨habandoned, hfinalized, rfl⟩ := RevisionReservation.finalize_eq_ok.mp hresult
        have hnow : ticket.finalize.2 = { ticket with finalized := true } := by
          simp only [RevisionReservation.finalize, habandoned, hfinalized, Bool.false_eq_true,
            if_false]
        simp only [hnow, List.filter_cons, hfinalized, Bool.false_eq_true, if_false, if_true,
          List.map_cons]
        exact .refl _
      | error err =>
        have hkept : ticket.finalize.2 = ticket := by
          unfold RevisionReservation.finalize at hresult ⊢
          split
          · rfl
          · rename_i habandoned
            rw [if_neg habandoned] at hresult
            split
            · rfl
            · rename_i hfinalized
              rw [if_neg hfinalized] at hresult
              cases hresult
        rw [hkept]
        exact .refl _
    | succ i =>
      simp only [List.modify_succ_cons, List.getElem?_cons_succ, List.filter_cons]
      split
      · rw [List.map_cons, List.map_cons]
        exact ((ih i).cons _).trans List.perm_middle.symm
      · exact ih i

theorem finals_step (line : RevisionLine T) (call : TicketCall) :
    (line.step make call).finals.Perm ((line.issued call).toList ++ line.finals) := by
  cases call with
  | reserve => exact .of_eq (finals_reserve line)
  | finalize i => exact finals_finalize line i
  | abandon i => exact .of_eq (finals_abandon line i)

/-- What a run hands out is what became final on the way. -/
theorem finals_run (line : RevisionLine T) (calls : List TicketCall) :
    (run (step make) line calls).finals.Perm
      (trace (step make) issued line calls ++ line.finals) := by
  induction calls generalizing line with
  | nil => exact .refl _
  | cons call rest ih =>
    refine (ih (line.step make call)).trans ?_
    refine ((finals_step line call).append_left _).trans ?_
    rw [trace, ← List.append_assoc]
    exact List.perm_append_comm.append_right _

/-- The ticket is given up. -/
def Void (line : RevisionLine T) (i : Nat) : Prop :=
  ∃ ticket, line.tickets[i]? = some ticket ∧ ticket.abandoned = true

theorem void_modify {tickets : List (RevisionReservation T)} {i j : Nat}
    {f : RevisionReservation T → RevisionReservation T}
    (hf : ∀ ticket, ticket.abandoned = true → (f ticket).abandoned = true)
    (h : ∃ ticket, tickets[i]? = some ticket ∧ ticket.abandoned = true) :
    ∃ ticket, (tickets.modify j f)[i]? = some ticket ∧ ticket.abandoned = true := by
  obtain ⟨ticket, hticket, habandoned⟩ := h
  rw [List.getElem?_modify, hticket]
  split
  · exact ⟨_, rfl, hf ticket habandoned⟩
  · exact ⟨ticket, rfl, habandoned⟩

theorem void_step {line : RevisionLine T} {i : Nat} (h : line.Void i) (call : TicketCall) :
    (line.step make call).Void i := by
  cases call with
  | reserve =>
    rw [step, reserveNext]
    cases checkedSucc line.next with
    | none => exact h
    | some after =>
      obtain ⟨ticket, hticket, habandoned⟩ := h
      obtain ⟨hlt, -⟩ := List.getElem?_eq_some_iff.mp hticket
      exact ⟨ticket, (List.getElem?_append_left hlt).trans hticket, habandoned⟩
  | finalize j =>
    exact void_modify (fun ticket h => (RevisionReservation.abandoned_finalize ticket).trans h) h
  | abandon j => exact void_modify (fun _ _ => rfl) h

theorem void_abandon {line : RevisionLine T} {i : Nat} (h : i < line.tickets.length) :
    (line.step make (.abandon i)).Void i := by
  have hticket : (line.tickets.modify i fun ticket => ticket.abandon)[i]? =
      some (line.tickets.get ⟨i, h⟩).abandon := by
    rw [List.getElem?_modify, List.getElem?_eq_getElem h]
    exact congrArg some (if_pos rfl)
  exact ⟨_, hticket, rfl⟩

theorem issued_of_void {line : RevisionLine T} {i : Nat} (h : line.Void i) :
    line.issued (.finalize i) = none := by
  obtain ⟨ticket, hticket, habandoned⟩ := h
  rw [issued, hticket, Option.bind_some]
  simp only [RevisionReservation.finalize, habandoned, if_true]
  rfl

/-- What a line owes its callers. -/
structure Account (make : UInt64 → T) (calls : List TicketCall) (line : RevisionLine T)
    (handed : List T) : Prop where
  values : line.tickets.map (·.value) =
    (List.range (min (calls.count .reserve) (2 ^ 64 - 1))).map fun k => make (UInt64.ofNat k)
  final : handed.Perm line.finals
  once : handed.Nodup
  void : ∀ first middle last i, calls = first ++ .abandon i :: (middle ++ .finalize i :: last) →
    i < (run (step make) new first).tickets.length →
      (run (step make) new (first ++ .abandon i :: middle)).issued (.finalize i) = none

theorem account_run (hmake : Function.Injective make) (calls : List TicketCall) :
    Account make calls (run (step make) new calls) (trace (step make) issued new calls) := by
  have hnew : (new : RevisionLine T).Counts make 0 := ⟨rfl, rfl⟩
  have hcounts := counts_run hnew calls
  have hperm : (trace (step make) issued new calls).Perm (run (step make) new calls).finals := by
    have hrun : (run (step make) new calls).finals.Perm
        (trace (step make) issued new calls ++ (new : RevisionLine T).finals) :=
      finals_run new calls
    rw [show (new : RevisionLine T).finals = [] from rfl, List.append_nil] at hrun
    exact hrun.symm
  refine ⟨?_, hperm, ?_, ?_⟩
  · rw [Nat.zero_add] at hcounts
    exact hcounts.2
  · rw [hperm.nodup_iff]
    exact (nodup_values hcounts hmake).sublist (List.filter_sublist.map _)
  · rintro first middle last i - hlt
    have hstep : ∀ (line : RevisionLine T) call, line.Void i → (line.step make call).Void i :=
      fun line call h => void_step h call
    rw [run_append, run_cons]
    exact issued_of_void (run_invariant hstep (void_abandon hlt) middle)

end RevisionLine

/-! ## 3. The allocator and its holders -/

inductive RevisionCall where
  | ofWorld (call : TicketCall)
  | ofSection (call : TicketCall)

namespace RevisionCall

def world? : RevisionCall → Option TicketCall
  | .ofWorld call => some call
  | .ofSection _ => none

def section? : RevisionCall → Option TicketCall
  | .ofWorld _ => none
  | .ofSection call => some call

end RevisionCall

/-- The allocator and the reservations it has made, in order. -/
structure RevisionDesk where
  allocator : RevisionAllocator
  worlds : List (RevisionReservation WorldRevision)
  sections : List (RevisionReservation SectionRevision)

namespace RevisionDesk

def new : RevisionDesk := ⟨.new, [], []⟩

def step (desk : RevisionDesk) : RevisionCall → RevisionDesk
  | .ofWorld .reserve =>
    match desk.allocator.reserveWorld with
    | (.ok ticket, allocator) => { desk with allocator, worlds := desk.worlds ++ [ticket] }
    | (.error _, allocator) => { desk with allocator }
  | .ofWorld (.finalize i) =>
    { desk with worlds := desk.worlds.modify i fun ticket => ticket.finalize.2 }
  | .ofWorld (.abandon i) =>
    { desk with worlds := desk.worlds.modify i fun ticket => ticket.abandon }
  | .ofSection .reserve =>
    match desk.allocator.reserveSection with
    | (.ok ticket, allocator) => { desk with allocator, sections := desk.sections ++ [ticket] }
    | (.error _, allocator) => { desk with allocator }
  | .ofSection (.finalize i) =>
    { desk with sections := desk.sections.modify i fun ticket => ticket.finalize.2 }
  | .ofSection (.abandon i) =>
    { desk with sections := desk.sections.modify i fun ticket => ticket.abandon }

/-- The world revision a call hands to its caller. -/
def issuedWorld (desk : RevisionDesk) : RevisionCall → Option WorldRevision
  | .ofWorld (.finalize i) => desk.worlds[i]?.bind fun ticket => ticket.finalize.1.toOption
  | _ => none

def issuedSection (desk : RevisionDesk) : RevisionCall → Option SectionRevision
  | .ofSection (.finalize i) => desk.sections[i]?.bind fun ticket => ticket.finalize.1.toOption
  | _ => none

def worldLine (desk : RevisionDesk) : RevisionLine WorldRevision :=
  ⟨desk.allocator.nextWorld, desk.worlds⟩

def sectionLine (desk : RevisionDesk) : RevisionLine SectionRevision :=
  ⟨desk.allocator.nextSection, desk.sections⟩

theorem lines_reserveWorld (desk : RevisionDesk) :
    (desk.step (.ofWorld .reserve)).worldLine = desk.worldLine.step WorldRevision.mk .reserve ∧
      (desk.step (.ofWorld .reserve)).sectionLine = desk.sectionLine := by
  simp only [step, RevisionAllocator.reserveWorld, RevisionLine.step, worldLine, sectionLine]
  cases reserveNext WorldRevision.mk desk.allocator.nextWorld with
  | error err => exact ⟨rfl, rfl⟩
  | ok reserved => exact ⟨rfl, rfl⟩

theorem lines_reserveSection (desk : RevisionDesk) :
    (desk.step (.ofSection .reserve)).sectionLine =
        desk.sectionLine.step SectionRevision.mk .reserve ∧
      (desk.step (.ofSection .reserve)).worldLine = desk.worldLine := by
  simp only [step, RevisionAllocator.reserveSection, RevisionLine.step, worldLine, sectionLine]
  cases reserveNext SectionRevision.mk desk.allocator.nextSection with
  | error err => exact ⟨rfl, rfl⟩
  | ok reserved => exact ⟨rfl, rfl⟩

theorem worldLine_step (desk : RevisionDesk) (call : RevisionCall) :
    (desk.step call).worldLine =
      run (RevisionLine.step WorldRevision.mk) desk.worldLine call.world?.toList := by
  rcases call with (_ | i | i) | (_ | i | i)
  · exact desk.lines_reserveWorld.1
  · rfl
  · rfl
  · exact desk.lines_reserveSection.2
  · rfl
  · rfl

theorem sectionLine_step (desk : RevisionDesk) (call : RevisionCall) :
    (desk.step call).sectionLine =
      run (RevisionLine.step SectionRevision.mk) desk.sectionLine call.section?.toList := by
  rcases call with (_ | i | i) | (_ | i | i)
  · exact desk.lines_reserveWorld.2
  · rfl
  · rfl
  · exact desk.lines_reserveSection.1
  · rfl
  · rfl

theorem issuedWorld_eq (desk : RevisionDesk) (call : RevisionCall) :
    desk.issuedWorld call = call.world?.bind desk.worldLine.issued := by
  rcases call with (_ | i | i) | (_ | i | i)
  all_goals rfl

theorem issuedSection_eq (desk : RevisionDesk) (call : RevisionCall) :
    desk.issuedSection call = call.section?.bind desk.sectionLine.issued := by
  rcases call with (_ | i | i) | (_ | i | i)
  all_goals rfl

/-- **Two numberings, each number once.** Whatever is asked for in whatever order, the
reservations of either kind have the first numbers, one each, as long as there are any; what
is finalized is each of them at most once, and none that was abandoned; and the two kinds do
not touch each other. -/
theorem revisions_of_calls (calls : List RevisionCall) :
    RevisionLine.Account WorldRevision.mk (calls.filterMap RevisionCall.world?)
        (run step new calls).worldLine (trace step issuedWorld new calls) ∧
      RevisionLine.Account SectionRevision.mk (calls.filterMap RevisionCall.section?)
        (run step new calls).sectionLine (trace step issuedSection new calls) := by
  constructor
  · rw [run_component worldLine worldLine_step,
      trace_component worldLine worldLine_step issuedWorld_eq]
    exact RevisionLine.account_run (fun _ _ h => congrArg WorldRevision.value h) _
  · rw [run_component sectionLine sectionLine_step,
      trace_component sectionLine sectionLine_step issuedSection_eq]
    exact RevisionLine.account_run (fun _ _ h => congrArg SectionRevision.value h) _

end RevisionDesk

end LumioVoxel
