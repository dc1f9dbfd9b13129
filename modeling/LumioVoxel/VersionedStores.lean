import LumioVoxel.StepRuns
import Mathlib.Data.List.Basic

/-!
# Versioned stores

A store of keyed shelves under one clock.  A commit moves the clock up by one, edits the
resident shelves it names, gives each a version above the one it counted at, and marks it;
a settlement takes marks away, an unload a resident shelf, and a rewind goes back to an
earlier clock and earlier versions with nothing resident.  A key that was never given a
version counts at the clock.

The laws say what a history of such events amounts to, whatever its order.
-/

namespace VersionedStores

open StepRuns

universe u v w

variable {κ : Type u} {γ : Type v} {ν : Type w}

/-! ## 1. Stores and events -/

/-- What a store has for one key. -/
inductive Shelf (γ : Type v) (ν : Type w) where
  | absent
  | resident (cells : γ → Option ν)
  | ticket
  | pending
  | unavailable

def Shelf.read : Shelf γ ν → γ → Option ν
  | .resident cells, c => cells c
  | _, _ => none

def Shelf.IsResident (shelf : Shelf γ ν) : Prop := ∃ cells, shelf = .resident cells

/-- The first and the last version that is not settled yet. -/
structure Mark where
  first : Nat
  latest : Nat
  deriving DecidableEq

/-- The mark of a key after one more version. -/
def Mark.record (prev : Option Mark) (version : Nat) : Mark :=
  match prev with
  | none => ⟨version, version⟩
  | some prev => ⟨min version prev.first, max prev.latest version⟩

@[ext] structure Store (κ : Type u) (γ : Type v) (ν : Type w) where
  clock : Nat
  version : κ → Option Nat
  shelf : κ → Shelf γ ν
  mark : κ → Option Mark

/-- The version a key counts at. -/
def Store.current (s : Store κ γ ν) (k : κ) : Nat := (s.version k).getD s.clock

inductive Event (κ : Type u) (γ : Type v) (ν : Type w) where
  | commit (names : κ → Bool) (writes : κ → γ → Option ν)
  | settle (bound : κ → Option Nat)
  | unload (key : κ)
  | rewind (clock : Nat) (version : κ → Option Nat)

namespace Event

def isCommit : Event κ γ ν → Bool
  | .commit _ _ => true
  | _ => false

/-- The event is a commit that names the key. -/
def commitsTo (k : κ) : Event κ γ ν → Bool
  | .commit names _ => names k
  | _ => false

/-- What the event writes into one cell. -/
def write (k : κ) (c : γ) : Event κ γ ν → Option ν
  | .commit names writes => if names k then writes k c else none
  | _ => none

def isRewind : Event κ γ ν → Bool
  | .rewind _ _ => true
  | _ => false

end Event

section Steps

variable [DecidableEq κ]

def Store.apply (s : Store κ γ ν) : Event κ γ ν → Store κ γ ν
  | .commit names writes => {
      clock := s.clock + 1
      version := fun k => if names k then some (s.current k + 1) else s.version k
      shelf := fun k =>
        if names k then .resident fun c => (writes k c).or ((s.shelf k).read c) else s.shelf k
      mark := fun k => if names k then some (.record (s.mark k) (s.current k + 1)) else s.mark k }
  | .settle bound => { s with mark := fun k => if (bound k).isSome then none else s.mark k }
  | .unload key => { s with shelf := fun k => if k = key then .ticket else s.shelf k }
  | .rewind clock version => {
      clock, version
      shelf := fun k => if (version k).isSome then .ticket else .absent
      mark := fun _ => none }

/-- Only resident shelves are written, only unmarked ones unloaded, and no settlement stops
short of a mark. -/
def Store.Allows (s : Store κ γ ν) : Event κ γ ν → Prop
  | .commit names _ => ∀ k, names k → (s.shelf k).IsResident
  | .settle bound => ∀ k mark b, s.mark k = some mark → bound k = some b → mark.latest ≤ b
  | .unload key => s.mark key = none ∧ ((s.shelf key).IsResident ∨ s.shelf key = .ticket)
  | .rewind _ _ => True

/-! ## 2. What histories amount to -/

/-- The number of commits. -/
def commits (events : List (Event κ γ ν)) : Nat := events.countP Event.isCommit

/-- The number of commits that name the key. -/
def commitsTo (k : κ) (events : List (Event κ γ ν)) : Nat := events.countP (Event.commitsTo k)

/-- The number of commits before the first that names the key. -/
def commitsBefore (k : κ) (events : List (Event κ γ ν)) : Nat :=
  commits (events.takeWhile fun event => !event.commitsTo k)

/-- The last value written into one cell. -/
def lastWrite (k : κ) (c : γ) : List (Event κ γ ν) → Option ν
  | [] => none
  | event :: rest => (lastWrite k c rest).or (event.write k c)

omit [DecidableEq κ] in
theorem commits_cons (event : Event κ γ ν) (rest : List (Event κ γ ν)) :
    commits (event :: rest) = commits rest + if event.isCommit then 1 else 0 :=
  List.countP_cons ..

omit [DecidableEq κ] in
theorem commitsTo_cons (k : κ) (event : Event κ γ ν) (rest : List (Event κ γ ν)) :
    commitsTo k (event :: rest) = commitsTo k rest + if event.commitsTo k then 1 else 0 :=
  List.countP_cons ..

omit [DecidableEq κ] in
theorem commitsBefore_cons (k : κ) (event : Event κ γ ν) (rest : List (Event κ γ ν)) :
    commitsBefore k (event :: rest) = if event.commitsTo k then 0
      else commitsBefore k rest + if event.isCommit then 1 else 0 := by
  unfold commitsBefore
  by_cases hto : event.commitsTo k = true
  · simp only [List.takeWhile_cons, hto, Bool.not_true, Bool.false_eq_true, if_false, if_true]
    rfl
  · simp only [List.takeWhile_cons, Bool.not_eq_true _ |>.mp hto, Bool.not_false,
      Bool.false_eq_true, if_false, if_true, commits_cons]

variable {s : Store κ γ ν} {events : List (Event κ γ ν)}

/-- The clock counts the commits. -/
theorem clock_run (hevents : ∀ event ∈ events, event.isRewind = false) :
    (run Store.apply s events).clock = s.clock + commits events := by
  induction events generalizing s with
  | nil => rfl
  | cons event rest ih =>
    have hrest := fun e he => hevents e (List.mem_cons_of_mem event he)
    rw [run_cons, ih hrest, commits_cons]
    cases event with
    | commit names writes =>
      simp only [Store.apply, Event.isCommit, if_true]
      omega
    | settle bound => rfl
    | unload key => rfl
    | rewind clock version => cases hevents _ List.mem_cons_self

/-- The version of a key counts the commits that name it, from where the key counted when
the first of them came. -/
theorem version_run (hevents : ∀ event ∈ events, event.isRewind = false) (k : κ) :
    (run Store.apply s events).version k =
      if commitsTo k events = 0 then s.version k
      else some ((s.version k).getD (s.clock + commitsBefore k events) + commitsTo k events) := by
  induction events generalizing s with
  | nil => rfl
  | cons event rest ih =>
    have hrest := fun e he => hevents e (List.mem_cons_of_mem event he)
    rw [run_cons, ih hrest, commitsTo_cons, commitsBefore_cons]
    cases event with
    | commit names writes =>
      have hclock : (s.apply (.commit names writes)).clock = s.clock + 1 := rfl
      have hcommit : (Event.commit names writes).isCommit = true := rfl
      rw [hclock, if_pos hcommit]
      by_cases hto : (Event.commit names writes).commitsTo k = true
      · have hversion : (s.apply (.commit names writes)).version k = some (s.current k + 1) :=
          if_pos hto
        rw [hversion, if_pos hto, if_pos hto, if_neg (Nat.succ_ne_zero _), Option.getD_some,
          Store.current]
        split
        · rename_i hzero
          rw [hzero]
          rfl
        · congr 1
          exact (Nat.succ_add _ _).trans (Nat.add_succ _ _).symm
      · have hversion : (s.apply (.commit names writes)).version k = s.version k := if_neg hto
        rw [hversion, if_neg hto, if_neg hto, Nat.add_assoc, Nat.add_comm 1]
        rfl
    | settle bound => rfl
    | unload key => rfl
    | rewind clock version => cases hevents _ List.mem_cons_self

/-- What is resident in the end has been resident throughout: nothing rewound the store, and
a cell holds the last value written into it, or else what it held in the beginning. -/
theorem resident_run (hallows : Along Store.apply Store.Allows s events) {k : κ}
    (hresident : ((run Store.apply s events).shelf k).IsResident) :
    (s.shelf k).IsResident ∧ (∀ event ∈ events, event.isRewind = false) ∧
      ∀ c, ((run Store.apply s events).shelf k).read c =
        (lastWrite k c events).or ((s.shelf k).read c) := by
  induction events generalizing s with
  | nil => exact ⟨hresident, by simp, fun _ => rfl⟩
  | cons event rest ih =>
    obtain ⟨hnext, hrest, hcells⟩ := ih hallows.2 hresident
    have hevents : event.isRewind = false →
        ∀ e ∈ event :: rest, e.isRewind = false := by
      intro hevent e he
      rcases List.mem_cons.mp he with rfl | he
      · exact hevent
      · exact hrest e he
    have hlast : ∀ c, (lastWrite k c (event :: rest)).or ((s.shelf k).read c) =
        (lastWrite k c rest).or ((event.write k c).or ((s.shelf k).read c)) :=
      fun c => Option.or_assoc
    simp only [hlast]
    cases event with
    | commit names writes =>
      cases hnames : names k with
      | true =>
        refine ⟨hallows.1 k hnames, hevents rfl, fun c => ?_⟩
        rw [run_cons, hcells c]
        simp only [Store.apply, hnames, if_true, Shelf.read, Event.write]
      | false =>
        simp only [Store.apply, hnames, Bool.false_eq_true, if_false] at hnext
        refine ⟨hnext, hevents rfl, fun c => ?_⟩
        rw [run_cons, hcells c]
        simp only [Store.apply, hnames, Bool.false_eq_true, if_false, Event.write, Option.none_or]
    | settle bound => exact ⟨hnext, hevents rfl, hcells⟩
    | unload key =>
      simp only [Store.apply] at hnext
      split at hnext
      · obtain ⟨cells, hcells⟩ := hnext
        cases hcells
      · rename_i hother
        refine ⟨hnext, hevents rfl, fun c => ?_⟩
        rw [run_cons, hcells c]
        simp only [Store.apply, if_neg hother, Event.write, Option.none_or]
    | rewind clock version =>
      obtain ⟨cells, hcells⟩ := hnext
      simp only [Store.apply] at hcells
      split at hcells
      · cases hcells
      · cases hcells

end Steps

end VersionedStores
