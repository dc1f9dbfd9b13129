import Mathlib.Data.List.Forall2
import Mathlib.Data.Option.Basic

/-!
# Fallible steps

Functions that may refuse are chains of checks and fallible calls in
`Except ε`.  The laws below take a successful chain apart one link at a time and
put it back together, so no proof has to unfold a monadic bind.
-/

namespace Fallible

variable {ε ε' α β : Type}

/-- Succeeds when the condition holds; otherwise refuses with `err`. -/
def require (c : Prop) [Decidable c] (err : ε) : Except ε Unit :=
  if c then .ok () else .error err

/-- A missing value refuses with `err`. -/
def someOr (x : Option α) (err : ε) : Except ε α :=
  match x with
  | some a => .ok a
  | none => .error err

theorem require_eq_ok {c : Prop} [Decidable c] {err : ε} {u : Unit} :
    require c err = .ok u ↔ c := by
  unfold require
  by_cases h : c
  · simp [h]
  · simp [h]

theorem require_of {c : Prop} [Decidable c] (h : c) (err : ε) :
    require c err = .ok () := if_pos h

theorem require_of_not {c : Prop} [Decidable c] (h : ¬ c) (err : ε) :
    require c err = .error err := if_neg h

theorem error_ne_ok {err : ε} {a : α} : (.error err : Except ε α) ≠ .ok a := by
  intro h
  cases h

theorem someOr_eq_ok {x : Option α} {err : ε} {a : α} : someOr x err = .ok a ↔ x = some a := by
  cases x with
  | none => simp only [someOr, reduceCtorEq]
  | some b => simp only [someOr, Except.ok.injEq, Option.some.injEq]

theorem bind_eq_ok {x : Except ε α} {f : α → Except ε β} {b : β} :
    (x >>= f) = .ok b ↔ ∃ a, x = .ok a ∧ f a = .ok b := by
  cases x with
  | error err => simp only [bind, Except.bind, reduceCtorEq, false_and, exists_false]
  | ok a => simp only [bind, Except.bind, Except.ok.injEq, exists_eq_left']

theorem bind_eq_error {x : Except ε α} {f : α → Except ε β} {err : ε} :
    (x >>= f) = .error err ↔ x = .error err ∨ ∃ a, x = .ok a ∧ f a = .error err := by
  cases x with
  | error err' => simp only [bind, Except.bind, reduceCtorEq, false_and, exists_false, or_false,
      Except.error.injEq]
  | ok a => simp only [bind, Except.bind, Except.ok.injEq, exists_eq_left', reduceCtorEq, false_or]

theorem pure_eq_ok {a b : α} : (pure a : Except ε α) = .ok b ↔ a = b := by
  simp only [pure, Except.pure, Except.ok.injEq]

theorem ok_bind (a : α) (f : α → Except ε β) : ((.ok a : Except ε α) >>= f) = f a := rfl

theorem mapError_eq_ok {x : Except ε α} {f : ε → ε'} {a : α} :
    x.mapError f = .ok a ↔ x = .ok a := by
  cases x with
  | error err => simp only [Except.mapError, reduceCtorEq]
  | ok b => simp only [Except.mapError, Except.ok.injEq]

theorem map_eq_ok {x : Except ε α} {g : α → β} {b : β} :
    x.map g = .ok b ↔ ∃ a, x = .ok a ∧ b = g a := by
  cases x with
  | error err => simp only [Except.map, reduceCtorEq, false_and, exists_false]
  | ok a => simp only [Except.map, Except.ok.injEq, exists_eq_left', eq_comm]

theorem toOption_eq_some {x : Except ε α} {a : α} : x.toOption = some a ↔ x = .ok a := by
  cases x with
  | error err => simp only [Except.toOption, reduceCtorEq]
  | ok b => simp only [Except.toOption, Option.some.injEq, Except.ok.injEq]

theorem mapError_ok (f : ε → ε') (a : α) : (Except.ok a : Except ε α).mapError f = .ok a := rfl

/-- A list of fallible steps over an accumulator, in order. -/
def foldSteps (f : β → α → Except ε β) : β → List α → Except ε β
  | b, [] => .ok b
  | b, a :: rest =>
    match f b a with
    | .error err => .error err
    | .ok b => foldSteps f b rest

theorem foldSteps_cons_eq_ok {f : β → α → Except ε β} {b c : β} {a : α} {rest : List α} :
    foldSteps f b (a :: rest) = .ok c ↔ ∃ b', f b a = .ok b' ∧ foldSteps f b' rest = .ok c := by
  cases h : f b a with
  | error err => simp only [foldSteps, h, reduceCtorEq, false_and, exists_false]
  | ok b' => simp only [foldSteps, h, Except.ok.injEq, exists_eq_left']

theorem foldSteps_append (f : β → α → Except ε β) (b : β) (items rest : List α) :
    foldSteps f b (items ++ rest) = foldSteps f b items >>= fun c => foldSteps f c rest := by
  induction items generalizing b with
  | nil => rfl
  | cons a items ih =>
    rw [List.cons_append, foldSteps, foldSteps]
    cases f b a with
    | error err => rfl
    | ok b => exact ih b

/-- Steps that do the same on every item of the list do the same to the list. -/
theorem foldSteps_congr {f g : β → α → Except ε β} {items : List α}
    (h : ∀ a ∈ items, ∀ b, g b a = f b a) (b : β) : foldSteps g b items = foldSteps f b items := by
  induction items generalizing b with
  | nil => rfl
  | cons a rest ih =>
    rw [foldSteps, foldSteps, h a List.mem_cons_self]
    cases f b a with
    | error err => rfl
    | ok b => exact ih (fun other hother => h other (List.mem_cons_of_mem a hother)) b

/-- A fallible map succeeds exactly when every item does. -/
theorem mapM_eq_ok {f : α → Except ε β} {items : List α} {out : List β} :
    items.mapM f = .ok out ↔ List.Forall₂ (fun a b => f a = .ok b) items out := by
  induction items generalizing out with
  | nil =>
    rw [List.mapM_nil, pure_eq_ok]
    constructor
    · rintro rfl
      exact .nil
    · rintro ⟨⟩
      rfl
  | cons a rest ih =>
    simp only [List.mapM_cons, bind_eq_ok, pure_eq_ok, ih]
    constructor
    · rintro ⟨b, hb, bs, hbs, rfl⟩
      exact .cons hb hbs
    · rintro (_ | ⟨hb, hbs⟩)
      exact ⟨_, hb, _, hbs, rfl⟩

theorem exists_mapM {f : α → Except ε β} {items : List α}
    (h : ∀ a ∈ items, ∃ b, f a = .ok b) : ∃ out, items.mapM f = .ok out := by
  induction items with
  | nil => exact ⟨[], rfl⟩
  | cons a rest ih =>
    obtain ⟨b, hb⟩ := h a List.mem_cons_self
    obtain ⟨bs, hbs⟩ := ih fun a' ha' => h a' (List.mem_cons_of_mem _ ha')
    exact ⟨b :: bs, mapM_eq_ok.mpr (.cons hb (mapM_eq_ok.mp hbs))⟩

/-- An invariant that each successful step keeps, whatever the item. -/
theorem foldSteps_invariant {f : β → α → Except ε β} {P : β → Prop} {items : List α}
    (hstep : ∀ b a b', a ∈ items → P b → f b a = .ok b' → P b') {b c : β} (hb : P b)
    (h : foldSteps f b items = .ok c) : P c := by
  induction items generalizing b with
  | nil => exact Except.ok.inj h ▸ hb
  | cons a rest ih =>
    obtain ⟨b', hf, hrest⟩ := foldSteps_cons_eq_ok.mp h
    exact ih (fun b a b' ha => hstep b a b' (List.mem_cons_of_mem _ ha))
      (hstep b a b' List.mem_cons_self hb hf) hrest

/-- A loop goes through when every step can, given what is left to do. -/
theorem foldSteps_progress {f : β → α → Except ε β} {P : β → List α → Prop}
    (hstep : ∀ b a rest, P b (a :: rest) → ∃ b', f b a = .ok b' ∧ P b' rest) {b : β}
    {items : List α} (hb : P b items) : ∃ c, foldSteps f b items = .ok c ∧ P c [] := by
  induction items generalizing b with
  | nil => exact ⟨b, rfl, hb⟩
  | cons a rest ih =>
    obtain ⟨b', hf, hb'⟩ := hstep b a rest hb
    obtain ⟨c, hc, hP⟩ := ih hb'
    exact ⟨c, foldSteps_cons_eq_ok.mpr ⟨b', hf, hc⟩, hP⟩

section Look

/-! What a loop does to one part of its accumulator, `look`, when only the items
that name the part change it. -/

variable {γ : Type} {f : β → α → Except ε β} (look : β → γ) {N : α → Prop}

/-- No item names the part: it keeps its value. -/
theorem foldSteps_other (hother : ∀ b a b', ¬ N a → f b a = .ok b' → look b' = look b)
    {items : List α} {b c : β} (h : foldSteps f b items = .ok c)
    (hitems : ∀ a ∈ items, ¬ N a) : look c = look b :=
  foldSteps_invariant (P := fun b' => look b' = look b)
    (fun b₁ a b₂ ha hb₁ hf => (hother b₁ a b₂ (hitems a ha) hf).trans hb₁) rfl h

/-- Just one item names the part: the loop does to it what that item's step does. -/
theorem foldSteps_named (hother : ∀ b a b', ¬ N a → f b a = .ok b' → look b' = look b)
    {items : List α} (hitems : items.Pairwise fun a a' => ¬ (N a ∧ N a')) {b c : β}
    (h : foldSteps f b items = .ok c) {a : α} (ha : a ∈ items) (hname : N a) :
    ∃ b₁ b₂, f b₁ a = .ok b₂ ∧ look b₁ = look b ∧ look c = look b₂ := by
  induction items generalizing b with
  | nil => exact absurd ha List.not_mem_nil
  | cons first rest ih =>
    obtain ⟨b', hf, hrest⟩ := foldSteps_cons_eq_ok.mp h
    obtain ⟨hhead, htail⟩ := List.pairwise_cons.mp hitems
    rcases List.mem_cons.mp ha with rfl | ha
    · exact ⟨b, b', hf, rfl,
        foldSteps_other look hother hrest fun a' ha' hn => hhead a' ha' ⟨hname, hn⟩⟩
    · obtain ⟨b₁, b₂, hstep, hb₁, hb₂⟩ := ih htail hrest ha
      have hfirst : ¬ N first := fun hn => hhead a ha ⟨hn, hname⟩
      exact ⟨b₁, b₂, hstep, hb₁.trans (hother b first b' hfirst hf), hb₂⟩

end Look

/-- A loop whose steps each depend only on their item's own check. -/
theorem foldSteps_checked {f : β → α → Except ε β} {P : α → Prop} {g : β → α → β}
    (hf : ∀ b a c, f b a = .ok c ↔ P a ∧ c = g b a) {items : List α} {b c : β} :
    foldSteps f b items = .ok c ↔ (∀ a ∈ items, P a) ∧ c = items.foldl g b := by
  induction items generalizing b with
  | nil =>
    simp only [foldSteps, Except.ok.injEq, List.foldl_nil, List.not_mem_nil, false_implies,
      implies_true, true_and, eq_comm]
  | cons a rest ih =>
    rw [foldSteps_cons_eq_ok, List.foldl_cons, List.forall_mem_cons]
    constructor
    · rintro ⟨b', hstep, hrest⟩
      obtain ⟨ha, rfl⟩ := (hf b a b').mp hstep
      obtain ⟨hall, hc⟩ := ih.mp hrest
      exact ⟨⟨ha, hall⟩, hc⟩
    · rintro ⟨⟨ha, hall⟩, hc⟩
      exact ⟨g b a, (hf b a _).mpr ⟨ha, rfl⟩, ih.mpr ⟨hall, hc⟩⟩

/-- A scan that only checks its items succeeds when each of them passes. -/
theorem foldSteps_of_forall {f : Unit → α → Except ε Unit} {items : List α}
    (h : ∀ a ∈ items, f () a = .ok ()) : foldSteps f () items = .ok () := by
  induction items with
  | nil => rfl
  | cons a rest ih =>
    rw [foldSteps_cons_eq_ok]
    exact ⟨(), h a List.mem_cons_self, ih fun b hb => h b (List.mem_cons_of_mem _ hb)⟩

theorem forall_of_foldSteps {f : Unit → α → Except ε Unit} {items : List α}
    (h : foldSteps f () items = .ok ()) : ∀ a ∈ items, f () a = .ok () := by
  induction items with
  | nil => exact fun a ha => absurd ha List.not_mem_nil
  | cons b rest ih =>
    obtain ⟨u, hf, hrest⟩ := foldSteps_cons_eq_ok.mp h
    intro a ha
    rcases List.mem_cons.mp ha with rfl | ha
    · exact hf
    · exact ih hrest a ha

end Fallible
