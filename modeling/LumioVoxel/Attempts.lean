import Mathlib.Data.List.Basic

/-!
# Attempts

A call that hands back a value, refuses with an error, or panics.  Attempts are chained
like fallible calls: the first that hands back no value ends the chain, and a chain whose
links never panic does not panic.
-/

namespace Attempts

inductive Attempt (ε α : Type) where
  | value (a : α)
  | refused (err : ε)
  | panicked
  deriving DecidableEq

namespace Attempt

variable {ε α β : Type}

def bind (x : Attempt ε α) (next : α → Attempt ε β) : Attempt ε β :=
  match x with
  | .value a => next a
  | .refused err => .refused err
  | .panicked => .panicked

instance : Monad (Attempt ε) where
  pure := .value
  bind := Attempt.bind

/-- A fallible call that cannot panic. -/
def call : Except ε α → Attempt ε α
  | .ok a => .value a
  | .error err => .refused err

/-- `Option::expect`: a missing value panics. -/
def expect : Option α → Attempt ε α
  | some a => .value a
  | none => .panicked

/-- Refuses with `err` unless the condition holds. -/
def check (c : Prop) [Decidable c] (err : ε) : Attempt ε Unit :=
  if c then .value () else .refused err

@[simp] theorem value_bind (a : α) (next : α → Attempt ε β) :
    (Attempt.value a >>= next) = next a := rfl

@[simp] theorem refused_bind (err : ε) (next : α → Attempt ε β) :
    (Attempt.refused err >>= next) = .refused err := rfl

@[simp] theorem panicked_bind (next : α → Attempt ε β) :
    ((Attempt.panicked : Attempt ε α) >>= next) = .panicked := rfl

theorem bind_eq_value {x : Attempt ε α} {next : α → Attempt ε β} {b : β} :
    (x >>= next) = .value b ↔ ∃ a, x = .value a ∧ next a = .value b := by
  cases x with
  | value a => simp only [value_bind, Attempt.value.injEq, exists_eq_left']
  | refused err => simp only [refused_bind, reduceCtorEq, false_and, exists_false]
  | panicked => simp only [panicked_bind, reduceCtorEq, false_and, exists_false]

/-- A chain panics exactly when a link it reaches does. -/
theorem bind_eq_panicked {x : Attempt ε α} {next : α → Attempt ε β} :
    (x >>= next) = .panicked ↔ x = .panicked ∨ ∃ a, x = .value a ∧ next a = .panicked := by
  cases x with
  | value a => simp only [value_bind, reduceCtorEq, Attempt.value.injEq, exists_eq_left', false_or]
  | refused err => simp only [refused_bind, reduceCtorEq, false_and, exists_false, or_false]
  | panicked => simp only [panicked_bind, reduceCtorEq, true_or]

@[simp] theorem pure_eq_value {a b : α} : (pure a : Attempt ε α) = .value b ↔ a = b := by
  change Attempt.value a = .value b ↔ a = b
  rw [Attempt.value.injEq]

@[simp] theorem pure_ne_panicked {a : α} : (pure a : Attempt ε α) ≠ .panicked := by
  intro h
  cases h

@[simp] theorem call_eq_value {x : Except ε α} {a : α} : call x = .value a ↔ x = .ok a := by
  cases x with
  | ok b => simp only [call, Attempt.value.injEq, Except.ok.injEq]
  | error err => simp only [call, reduceCtorEq]

@[simp] theorem call_ne_panicked {x : Except ε α} : call x ≠ .panicked := by
  cases x <;> simp only [call, ne_eq, reduceCtorEq, not_false_eq_true]

@[simp] theorem expect_eq_value {x : Option α} {a : α} :
    (expect x : Attempt ε α) = .value a ↔ x = some a := by
  cases x with
  | some b => simp only [expect, Attempt.value.injEq, Option.some.injEq]
  | none => simp only [expect, reduceCtorEq]

@[simp] theorem expect_eq_panicked {x : Option α} :
    (expect x : Attempt ε α) = .panicked ↔ x = none := by
  cases x <;> simp [expect]

@[simp] theorem check_eq_value {c : Prop} [Decidable c] {err : ε} {u : Unit} :
    check c err = .value u ↔ c := by
  unfold check
  by_cases h : c <;> simp [h]

@[simp] theorem check_ne_panicked {c : Prop} [Decidable c] {err : ε} :
    check c err ≠ .panicked := by
  unfold check
  split <;> simp only [ne_eq, reduceCtorEq, not_false_eq_true]

/-- A list of attempts over an accumulator, in order. -/
def foldSteps (f : β → α → Attempt ε β) : β → List α → Attempt ε β
  | b, [] => .value b
  | b, a :: rest => f b a >>= fun b => foldSteps f b rest

/-- A loop each of whose steps hands back a value, with what holds of the items so far. -/
theorem foldSteps_invariant {f : β → α → Attempt ε β} {P : List α → β → Prop} {items : List α}
    (hstep : ∀ before a after b, items = before ++ a :: after → P before b →
      ∃ b', f b a = .value b' ∧ P (before ++ [a]) b') {b : β} (hb : P [] b) :
    ∃ c, foldSteps f b items = .value c ∧ P items c := by
  have hloop : ∀ rest before b, items = before ++ rest → P before b →
      ∃ c, foldSteps f b rest = .value c ∧ P items c := by
    intro rest
    induction rest with
    | nil =>
      intro before b hitems hP
      rw [List.append_nil] at hitems
      exact ⟨b, rfl, hitems ▸ hP⟩
    | cons a rest ih =>
      intro before b hitems hP
      obtain ⟨b', hf, hP'⟩ := hstep before a rest b hitems hP
      obtain ⟨c, hc, hPc⟩ := ih (before ++ [a]) b' (by rw [hitems, List.append_assoc]; rfl) hP'
      exact ⟨c, by rw [foldSteps, hf, value_bind, hc], hPc⟩
  exact hloop items [] b rfl hb

/-- A loop that fills a set: each step goes through and adds what its item adds. -/
theorem foldSteps_adds {κ : Type} {f : β → α → Attempt ε β} {S : β → κ → Prop}
    {A : α → κ → Prop} {items : List α} (hstep : ∀ a ∈ items, ∀ b,
      ∃ b', f b a = .value b' ∧ ∀ k, S b' k ↔ S b k ∨ A a k) (b : β) :
    ∃ c, foldSteps f b items = .value c ∧ ∀ k, S c k ↔ S b k ∨ ∃ a ∈ items, A a k := by
  have hstart : ∀ k, S b k ↔ S b k ∨ ∃ a ∈ ([] : List α), A a k := by
    intro k
    simp only [List.not_mem_nil, false_and, exists_false, or_false]
  refine foldSteps_invariant
    (P := fun before c => ∀ k, S c k ↔ S b k ∨ ∃ a ∈ before, A a k) ?_ hstart
  intro before a after c hitems hc
  have ha : a ∈ items := by
    rw [hitems]
    exact List.mem_append_right _ List.mem_cons_self
  obtain ⟨c', hf, hc'⟩ := hstep a ha c
  refine ⟨c', hf, ?_⟩
  intro k
  rw [hc', hc, or_assoc]
  simp only [List.mem_append, List.mem_singleton, or_and_right, exists_or, exists_eq_left]

/-- A scan that only checks its items: it goes through when each of them passes, else the
first that does not refuses. -/
theorem foldSteps_check_cases {f : Unit → α → Attempt ε Unit} {items : List α}
    (h : ∀ a ∈ items, f () a ≠ .panicked) :
    (∀ a ∈ items, f () a = .value ()) ∧ foldSteps f () items = .value () ∨
      (¬ ∀ a ∈ items, f () a = .value ()) ∧ ∃ err, foldSteps f () items = .refused err := by
  induction items with
  | nil => exact Or.inl ⟨fun a ha => absurd ha List.not_mem_nil, rfl⟩
  | cons a rest ih =>
    have hrest : ∀ b ∈ rest, f () b ≠ .panicked := fun b hb => h b (List.mem_cons_of_mem a hb)
    cases hf : f () a with
    | panicked => exact absurd hf (h a List.mem_cons_self)
    | refused err =>
      refine Or.inr ⟨fun hall => ?_, err, by rw [foldSteps, hf, refused_bind]⟩
      rw [hall a List.mem_cons_self] at hf
      cases hf
    | value u =>
      rw [foldSteps, hf, value_bind, List.forall_mem_cons]
      rcases ih hrest with ⟨hall, hloop⟩ | ⟨hnot, err, hloop⟩
      · exact Or.inl ⟨⟨hf, hall⟩, hloop⟩
      · exact Or.inr ⟨fun hall => hnot hall.2, err, hloop⟩

end Attempt

end Attempts
