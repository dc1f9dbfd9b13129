import LumioVoxel.Attempts
import LumioVoxel.LifecycleGate
import LumioVoxel.StepRuns
import LumioVoxel.WorldPort

/-!
# Job ports

Jobs for the workers go through a port with a fixed number of slots.  The port counts the
taken slots in a byte buffer that cannot give a slot back, so it builds the buffer anew
from the length of its queue whenever a job is handed out.  Whatever the callers do, jobs
come out in the order they were accepted, each once, and never more of them wait than
there are slots.
-/

namespace LumioVoxel

open Attempts Fallible StepRuns

/-! ## 1. Buffers that do not grow -/

structure BoundedBuffer where
  inner : Bytes
  cap : Nat
  deriving DecidableEq

inductive BufferFull where
  | full
  deriving DecidableEq

namespace BoundedBuffer

def new (cap : Nat) : BoundedBuffer := ⟨[], cap⟩

def push (buffer : BoundedBuffer) (byte : UInt8) : Except BufferFull BoundedBuffer :=
  if buffer.inner.length ≥ buffer.cap then .error .full
  else .ok { buffer with inner := buffer.inner ++ [byte] }

theorem push_of_lt {buffer : BoundedBuffer} (h : buffer.inner.length < buffer.cap)
    (byte : UInt8) : buffer.push byte = .ok { buffer with inner := buffer.inner ++ [byte] } :=
  if_neg (Nat.not_le.mpr h)

theorem push_of_full {buffer : BoundedBuffer} (h : buffer.cap ≤ buffer.inner.length)
    (byte : UInt8) : buffer.push byte = .error .full := if_pos h

end BoundedBuffer

/-! ## 2. The port -/

def fullLoadAction : String := "QueueFull"

structure BoundedJobPort (T : Type) where
  snapshot : VoxelConfigSnapshot
  slots : Nat
  bound : BoundedBuffer
  queue : List (OriginEnvelope T)

/-- The buffer for a live occupancy, filled one byte at a time. -/
def occupancyBound (slots occupancy : Nat) : Attempt String BoundedBuffer := do
  if slots < occupancy then .panicked
  Attempt.foldSteps (fun bound _ => .expect (bound.push 1).toOption) (.new slots)
    (List.range occupancy)

namespace BoundedJobPort

variable {T : Type}

def fromApprovedSnapshot (snapshot : VoxelConfigSnapshot) (slots : Nat) :
    Attempt String (BoundedJobPort T) := do
  Attempt.check (slots ≠ 0) fullLoadAction
  let bound ← occupancyBound slots 0
  return ⟨snapshot, slots, bound, []⟩

def trySubmit (port : BoundedJobPort T) (job : OriginEnvelope T) :
    Except String Unit × BoundedJobPort T :=
  if job.configHash ≠ port.snapshot.configHash then (.error "EvidenceDigestMismatch", port)
  else
    match port.bound.push 1 with
    | .ok bound => (.ok (), { port with bound := bound, queue := port.queue ++ [job] })
    | .error .full => (.error fullLoadAction, port)

/-- `pop`: an empty queue hands nothing out and leaves the port alone. -/
def pop (port : BoundedJobPort T) :
    Attempt String (Option (OriginEnvelope T) × BoundedJobPort T) :=
  match port.queue with
  | [] => .value (none, port)
  | job :: queue => do
    let bound ← occupancyBound port.slots queue.length
    return (some job, { port with bound := bound, queue := queue })

end BoundedJobPort

/-! ## 3. What the port counts -/

/-- The buffer holds one byte for each taken slot. -/
def BoundedBuffer.Counts (bound : BoundedBuffer) (slots occupancy : Nat) : Prop :=
  bound.cap = slots ∧ bound.inner.length = occupancy

theorem occupancyBound_counts {slots occupancy : Nat} (h : occupancy ≤ slots) :
    ∃ bound, occupancyBound slots occupancy = .value bound ∧ bound.Counts slots occupancy := by
  have hstep : ∀ before n after (bound : BoundedBuffer),
      List.range occupancy = before ++ n :: after → bound.Counts slots before.length →
      ∃ next, (.expect (bound.push 1).toOption : Attempt String BoundedBuffer) = .value next ∧
        next.Counts slots (before ++ [n]).length := by
    rintro before n after bound hitems ⟨hcap, hlength⟩
    have hcount := congrArg List.length hitems
    rw [List.length_range, List.length_append, List.length_cons] at hcount
    have hroom : bound.inner.length < bound.cap := by omega
    refine ⟨{ bound with inner := bound.inner ++ [1] }, ?_, hcap, ?_⟩
    · rw [BoundedBuffer.push_of_lt hroom]
      rfl
    · rw [List.length_append, List.length_append, hlength]
      rfl
  have hnew : (BoundedBuffer.new slots).Counts slots ([] : List Nat).length := ⟨rfl, rfl⟩
  obtain ⟨bound, hloop, hcounts⟩ := Attempt.foldSteps_invariant hstep hnew
  rw [List.length_range] at hcounts
  refine ⟨bound, ?_, hcounts⟩
  rw [occupancyBound, if_neg (Nat.not_lt.mpr h)]
  exact hloop

namespace BoundedJobPort

variable {T : Type}

/-- The invariant of a port: its buffer counts its queue, which fits the slots. -/
structure Counted (port : BoundedJobPort T) : Prop where
  bound : port.bound.Counts port.slots port.queue.length
  fits : port.queue.length ≤ port.slots

theorem counted_of_fromApprovedSnapshot {snapshot : VoxelConfigSnapshot} {slots : Nat}
    {port : BoundedJobPort T} (h : fromApprovedSnapshot snapshot slots = .value port) :
    port.Counted ∧ port.snapshot = snapshot ∧ port.slots = slots ∧ port.queue = [] := by
  obtain ⟨bound, hbound, hcounts⟩ := occupancyBound_counts (Nat.zero_le slots)
  rw [fromApprovedSnapshot, hbound] at h
  rcases Attempt.bind_eq_value.mp h with ⟨-, -, hport⟩
  rw [Attempt.value_bind, Attempt.pure_eq_value] at hport
  subst hport
  exact ⟨⟨hcounts, Nat.zero_le _⟩, rfl, rfl, rfl⟩

/-- What a call to `trySubmit` does: a job of another configuration is refused, then a job
for which there is no slot; any other waits behind those that came before it. -/
theorem trySubmit_cases {port : BoundedJobPort T} (h : port.Counted) (job : OriginEnvelope T) :
    (job.configHash ≠ port.snapshot.configHash ∧
      port.trySubmit job = (.error "EvidenceDigestMismatch", port)) ∨
    (job.configHash = port.snapshot.configHash ∧ port.queue.length = port.slots ∧
      port.trySubmit job = (.error fullLoadAction, port)) ∨
    (job.configHash = port.snapshot.configHash ∧ port.queue.length < port.slots ∧
      ∃ bound, bound.Counts port.slots (port.queue.length + 1) ∧ port.trySubmit job =
        (.ok (), { port with bound := bound, queue := port.queue ++ [job] })) := by
  rcases h with ⟨⟨hcap, hlength⟩, hfits⟩
  by_cases hhash : job.configHash = port.snapshot.configHash
  · by_cases hroom : port.queue.length < port.slots
    · have hbelow : port.bound.inner.length < port.bound.cap := by omega
      have hpush := BoundedBuffer.push_of_lt hbelow 1
      refine .inr (.inr ⟨hhash, hroom, { port.bound with inner := port.bound.inner ++ [1] },
        ⟨hcap, by rw [List.length_append, hlength]; rfl⟩, ?_⟩)
      rw [trySubmit, if_neg (not_not.mpr hhash), hpush]
    · have hfull : port.bound.cap ≤ port.bound.inner.length := by omega
      have hpush := BoundedBuffer.push_of_full hfull 1
      refine .inr (.inl ⟨hhash, by omega, ?_⟩)
      rw [trySubmit, if_neg (not_not.mpr hhash), hpush]
  · exact .inl ⟨hhash, by rw [trySubmit, if_pos hhash]⟩

/-- What a call to `pop` does; it never panics. -/
theorem pop_cases {port : BoundedJobPort T} (h : port.Counted) :
    (port.queue = [] ∧ port.pop = .value (none, port)) ∨
    ∃ job queue bound, port.queue = job :: queue ∧ bound.Counts port.slots queue.length ∧
      port.pop = .value (some job, { port with bound := bound, queue := queue }) := by
  cases hqueue : port.queue with
  | nil =>
    refine .inl ⟨rfl, ?_⟩
    rw [pop, hqueue]
  | cons job queue =>
    have hfits := h.fits
    rw [hqueue, List.length_cons] at hfits
    obtain ⟨bound, hbound, hcounts⟩ :=
      occupancyBound_counts (Nat.le_of_succ_le hfits : queue.length ≤ port.slots)
    refine .inr ⟨job, queue, bound, rfl, hcounts, ?_⟩
    rw [pop, hqueue]
    simp only [hbound]
    rfl

/-! ## 4. Runs of calls -/

inductive Call (T : Type) where
  | trySubmit (job : OriginEnvelope T)
  | pop

/-- The port after a call.  A panicking `pop` leaves no port; it does not happen. -/
def step (port : BoundedJobPort T) : Call T → BoundedJobPort T
  | .trySubmit job => (port.trySubmit job).2
  | .pop =>
    match port.pop with
    | .value (_, next) => next
    | .refused _ | .panicked => port

/-- The job a call accepts. -/
def accepted (port : BoundedJobPort T) : Call T → Option (OriginEnvelope T)
  | .trySubmit job =>
    match port.trySubmit job with
    | (.ok (), _) => some job
    | (.error _, _) => none
  | .pop => none

/-- The job a call hands out. -/
def handedOut (port : BoundedJobPort T) : Call T → Option (OriginEnvelope T)
  | .trySubmit _ => none
  | .pop =>
    match port.pop with
    | .value (job, _) => job
    | .refused _ | .panicked => none

theorem step_spec {port : BoundedJobPort T} (h : port.Counted) (call : Call T) :
    (port.step call).Counted ∧ (port.step call).snapshot = port.snapshot ∧
      (port.step call).slots = port.slots ∧
      port.queue ++ (port.accepted call).toList =
        (port.handedOut call).toList ++ (port.step call).queue := by
  cases call with
  | trySubmit job =>
    simp only [step, accepted, handedOut]
    rcases trySubmit_cases h job with ⟨-, hcall⟩ | ⟨-, -, hcall⟩ | ⟨-, hroom, bound, hcounts, hcall⟩
    · rw [hcall]
      exact ⟨h, rfl, rfl, List.append_nil _⟩
    · rw [hcall]
      exact ⟨h, rfl, rfl, List.append_nil _⟩
    · rw [hcall]
      have hlength : (port.queue ++ [job]).length = port.queue.length + 1 := List.length_append
      exact ⟨⟨hlength ▸ hcounts, hlength ▸ hroom⟩, rfl, rfl, rfl⟩
  | pop =>
    simp only [step, accepted, handedOut]
    rcases pop_cases h with ⟨hqueue, hcall⟩ | ⟨job, queue, bound, hqueue, hcounts, hcall⟩
    · rw [hcall]
      exact ⟨h, rfl, rfl, List.append_nil _⟩
    · rw [hcall]
      have hfits := h.fits
      rw [hqueue, List.length_cons] at hfits
      refine ⟨⟨hcounts, Nat.le_of_succ_le hfits⟩, rfl, rfl, ?_⟩
      rw [hqueue]
      exact List.append_nil _

theorem configHash_of_accepted {port : BoundedJobPort T} (h : port.Counted) {call : Call T}
    {job : OriginEnvelope T} (hjob : port.accepted call = some job) :
    job.configHash = port.snapshot.configHash := by
  cases call with
  | pop => cases hjob
  | trySubmit submitted =>
    simp only [accepted] at hjob
    rcases trySubmit_cases h submitted with ⟨-, hcall⟩ | ⟨-, -, hcall⟩ | ⟨hhash, -, bound, -, hcall⟩
    · rw [hcall] at hjob
      cases hjob
    · rw [hcall] at hjob
      cases hjob
    · rw [hcall] at hjob
      cases hjob
      exact hhash

/-- **First in, first out, within the slots.**  After any run of calls on a new port: the
jobs accepted so far are those handed out, in the same order, and then those that wait; they
all carry the port's configuration; no more wait than there are slots; a submission is
refused for its configuration or for want of a free slot, and for nothing else; and `pop`
hands out the oldest job accepted and not handed out yet. -/
theorem port_is_bounded_fifo {snapshot : VoxelConfigSnapshot} {slots : Nat}
    {port : BoundedJobPort T} (hport : fromApprovedSnapshot snapshot slots = .value port)
    (calls : List (Call T)) :
    trace step accepted port calls =
      trace step handedOut port calls ++ (run step port calls).queue ∧
    (∀ job ∈ trace step accepted port calls, job.configHash = snapshot.configHash) ∧
    (run step port calls).queue.length ≤ slots ∧
    (∀ job, ((run step port calls).trySubmit job).1 =
      if job.configHash ≠ snapshot.configHash then .error "EvidenceDigestMismatch"
      else if (trace step accepted port calls).length <
        (trace step handedOut port calls).length + slots then .ok ()
      else .error "QueueFull") ∧
    ∃ next, (run step port calls).pop = .value
      ((trace step accepted port calls)[(trace step handedOut port calls).length]?, next) := by
  rcases counted_of_fromApprovedSnapshot hport with ⟨hcounted, hsnapshot, hslots, hempty⟩
  have hstep : ∀ (port : BoundedJobPort T) (call : Call T),
      (port.Counted ∧ port.snapshot = snapshot ∧ port.slots = slots) →
      (port.step call).Counted ∧ (port.step call).snapshot = snapshot ∧
        (port.step call).slots = slots := by
    rintro port call ⟨h, rfl, rfl⟩
    have hspec := step_spec h call
    exact ⟨hspec.1, hspec.2.1, hspec.2.2.1⟩
  have hinv := run_invariant hstep ⟨hcounted, hsnapshot, hslots⟩ calls
  have hout : ∀ (port : BoundedJobPort T) (call : Call T) (job : OriginEnvelope T),
      (port.Counted ∧ port.snapshot = snapshot ∧ port.slots = slots) →
      port.accepted call = some job → job.configHash = snapshot.configHash := by
    rintro port call job ⟨h, rfl, -⟩ hjob
    exact configHash_of_accepted h hjob
  have hhashes := forall_mem_trace hstep hout ⟨hcounted, hsnapshot, hslots⟩ calls
  have hconserved := trace_conserved (fun port : BoundedJobPort T => port.queue)
    (fun port call h => (step_spec h call).1) (fun port call h => (step_spec h call).2.2.2)
    hcounted calls
  rw [hempty, List.nil_append] at hconserved
  rcases hinv with ⟨hlast, hlastSnapshot, hlastSlots⟩
  refine ⟨hconserved, hhashes, hlastSlots ▸ hlast.fits, ?_, ?_⟩
  · intro job
    have hwaiting := congrArg List.length hconserved
    rw [List.length_append] at hwaiting
    rw [← hlastSnapshot, ← hlastSlots]
    rcases trySubmit_cases hlast job with ⟨hhash, hcall⟩ | ⟨hhash, hfull, hcall⟩ |
        ⟨hhash, hroom, bound, -, hcall⟩
    · rw [hcall, if_pos hhash]
    · rw [hcall, if_neg (not_not.mpr hhash), if_neg (by omega)]
      rfl
    · rw [hcall, if_neg (not_not.mpr hhash), if_pos (by omega)]
  · rw [hconserved, List.getElem?_append_right (Nat.le_refl _), Nat.sub_self]
    rcases pop_cases hlast with ⟨hqueue, hcall⟩ | ⟨job, queue, bound, hqueue, -, hcall⟩
    · rw [hcall, hqueue]
      exact ⟨_, rfl⟩
    · rw [hcall, hqueue]
      exact ⟨_, rfl⟩

/-- One slot: a second job is refused while the first waits. -/
theorem port_is_bounded_fifo_oneSlot :
    ∃ port : BoundedJobPort Nat, fromApprovedSnapshot approvedConfig 1 = .value port ∧
      ((run step port [.trySubmit ⟨WorldSession.driverOrigin, zeroHash, 1⟩]).trySubmit
        ⟨WorldSession.driverOrigin, zeroHash, 2⟩).1 = .error "QueueFull" := by
  have hport : fromApprovedSnapshot approvedConfig 1 =
      .value (⟨approvedConfig, 1, .new 1, []⟩ : BoundedJobPort Nat) := rfl
  have hfifo := port_is_bounded_fifo hport [.trySubmit ⟨WorldSession.driverOrigin, zeroHash, 1⟩]
  refine ⟨_, hport, ?_⟩
  rw [hfifo.2.2.2.1 ⟨WorldSession.driverOrigin, zeroHash, 2⟩]
  rfl

end BoundedJobPort

end LumioVoxel
