import Mathlib.Data.Set.Basic

/-!
# Runs of deterministic step systems

A system is a step function `step : σ → ι → σ`.  This module fixes the
vocabulary in which every property of a whole run is stated: the state reached
by a list of inputs, the states visited on the way, a condition that holds at
every step, and the two rules the developments over it use.  An invariant that
one step preserves holds along a run, and a system whose states project onto
another system's states runs in lockstep with it.
-/

namespace StepRuns

universe u v w

variable {σ : Type u} {ι : Type v} {τ : Type w}

/-! ## 1. Runs, visited states, conditions along a run -/

/-- The state reached from `s` by the inputs in order. -/
def run (step : σ → ι → σ) (s : σ) : List ι → σ
  | [] => s
  | i :: rest => run step (step s i) rest

/-- Every state the run passes through, the first and the last included. -/
def visited (step : σ → ι → σ) (s : σ) : List ι → List σ
  | [] => [s]
  | i :: rest => s :: visited step (step s i) rest

/-- `C` holds of every state and input the run actually combines. -/
def Along (step : σ → ι → σ) (C : σ → ι → Prop) (s : σ) : List ι → Prop
  | [] => True
  | i :: rest => C s i ∧ Along step C (step s i) rest

variable {step : σ → ι → σ} {C D : σ → ι → Prop} {Inv : σ → Prop}

@[simp] theorem run_nil (s : σ) : run step s [] = s := rfl

@[simp] theorem run_cons (s : σ) (i : ι) (rest : List ι) :
    run step s (i :: rest) = run step (step s i) rest := rfl

theorem run_append (s : σ) (first second : List ι) :
    run step s (first ++ second) = run step (run step s first) second := by
  induction first generalizing s with
  | nil => rfl
  | cons i rest ih => exact ih (step s i)

theorem run_mem_visited (s : σ) (inputs : List ι) :
    run step s inputs ∈ visited step s inputs := by
  induction inputs generalizing s with
  | nil => exact List.mem_singleton.mpr rfl
  | cons i rest ih => exact List.mem_cons_of_mem s (ih (step s i))

theorem start_mem_visited (s : σ) (inputs : List ι) : s ∈ visited step s inputs := by
  cases inputs with
  | nil => exact List.mem_singleton.mpr rfl
  | cons i rest => exact List.mem_cons_self

/-- A state is visited exactly when some prefix of the inputs reaches it. -/
theorem mem_visited_iff {s t : σ} {inputs : List ι} :
    t ∈ visited step s inputs ↔
      ∃ first second, inputs = first ++ second ∧ run step s first = t := by
  induction inputs generalizing s with
  | nil =>
    simp only [visited, List.mem_singleton]
    constructor
    · rintro rfl
      exact ⟨[], [], rfl, rfl⟩
    · rintro ⟨first, second, h, hrun⟩
      obtain ⟨rfl, rfl⟩ := List.append_eq_nil_iff.mp h.symm
      exact hrun.symm
  | cons i rest ih =>
    simp only [visited, List.mem_cons]
    constructor
    · rintro (rfl | h)
      · exact ⟨[], i :: rest, rfl, rfl⟩
      · obtain ⟨first, second, rfl, hrun⟩ := ih.mp h
        exact ⟨i :: first, second, rfl, hrun⟩
    · rintro ⟨first, second, h, hrun⟩
      cases first with
      | nil => exact Or.inl hrun.symm
      | cons j first =>
        obtain ⟨rfl, rfl⟩ := List.cons_eq_cons.mp h
        exact Or.inr (ih.mpr ⟨first, second, rfl, hrun⟩)

/-- What either part of a run visits, the run visits. -/
theorem mem_visited_append_left {s t : σ} {first : List ι} (second : List ι)
    (h : t ∈ visited step s first) : t ∈ visited step s (first ++ second) := by
  obtain ⟨before, after, rfl, rfl⟩ := mem_visited_iff.mp h
  exact mem_visited_iff.mpr ⟨before, after ++ second, List.append_assoc .., rfl⟩

theorem mem_visited_append_right {s t : σ} {first second : List ι}
    (h : t ∈ visited step (run step s first) second) : t ∈ visited step s (first ++ second) := by
  obtain ⟨middle, rest, rfl, rfl⟩ := mem_visited_iff.mp h
  refine mem_visited_iff.mpr ⟨first ++ middle, rest, (List.append_assoc ..).symm, ?_⟩
  exact run_append s first middle

theorem mem_visited_append {s t : σ} {first second : List ι}
    (h : t ∈ visited step s (first ++ second)) :
    t ∈ visited step s first ∨ t ∈ visited step (run step s first) second := by
  induction first generalizing s with
  | nil => exact .inr h
  | cons i rest ih =>
    rcases List.mem_cons.mp h with rfl | h
    · exact .inl (start_mem_visited _ _)
    · rcases ih h with hin | hin
      · exact .inl (List.mem_cons_of_mem _ hin)
      · exact .inr hin

theorem along_append {s : σ} {first second : List ι} :
    Along step C s (first ++ second) ↔
      Along step C s first ∧ Along step C (run step s first) second := by
  induction first generalizing s with
  | nil => simp [Along]
  | cons i rest ih => simp only [List.cons_append, Along, ih, and_assoc, run_cons]

theorem along_mono (h : ∀ s i, C s i → D s i) {s : σ} {inputs : List ι} :
    Along step C s inputs → Along step D s inputs := by
  induction inputs generalizing s with
  | nil => exact id
  | cons i rest ih => exact fun hC => ⟨h s i hC.1, ih hC.2⟩

theorem along_of_forall (h : ∀ s i, C s i) (s : σ) (inputs : List ι) :
    Along step C s inputs := by
  induction inputs generalizing s with
  | nil => trivial
  | cons i rest ih => exact ⟨h s i, ih (step s i)⟩

theorem along_and {s : σ} {inputs : List ι} (hC : Along step C s inputs)
    (hD : Along step D s inputs) : Along step (fun s i => C s i ∧ D s i) s inputs := by
  induction inputs generalizing s with
  | nil => trivial
  | cons i rest ih => exact ⟨⟨hC.1, hD.1⟩, ih hC.2 hD.2⟩

theorem along_of_mem {P : ι → Prop} {inputs : List ι} (h : ∀ i ∈ inputs, P i) (s : σ) :
    Along step (fun _ i => P i) s inputs := by
  induction inputs generalizing s with
  | nil => trivial
  | cons i rest ih =>
    exact ⟨h i List.mem_cons_self, ih (fun j hj => h j (List.mem_cons_of_mem i hj)) (step s i)⟩

/-- A family of conditions may be checked one at a time. -/
theorem along_forall {κ : Sort*} {C : κ → σ → ι → Prop} {s : σ} {inputs : List ι}
    (h : ∀ a, Along step (C a) s inputs) : Along step (fun s i => ∀ a, C a s i) s inputs := by
  induction inputs generalizing s with
  | nil => trivial
  | cons i rest ih => exact ⟨fun a => (h a).1, ih fun a => (h a).2⟩

/-- What an input alone can bring about, and nothing undoes. -/
theorem run_iff_or_exists {Q : σ → Prop} {P : ι → Prop}
    (hstep : ∀ s i, Q (step s i) ↔ Q s ∨ P i) (s : σ) (inputs : List ι) :
    Q (run step s inputs) ↔ Q s ∨ ∃ i ∈ inputs, P i := by
  induction inputs generalizing s with
  | nil => simp
  | cons i rest ih =>
    rw [run_cons, ih, hstep, or_assoc]
    simp only [List.mem_cons, exists_eq_or_imp]

/-- A condition may be checked at each split of the inputs. -/
theorem along_of_splits {s : σ} {inputs : List ι}
    (h : ∀ first i rest, inputs = first ++ i :: rest → C (run step s first) i) :
    Along step C s inputs := by
  induction inputs generalizing s with
  | nil => trivial
  | cons i rest ih =>
    refine ⟨h [] i rest rfl, ih fun first j tail hsplit => ?_⟩
    exact h (i :: first) j tail (congrArg (i :: ·) hsplit)

/-- What holds of every visited state holds of the state after each step. -/
theorem along_of_visited {P : σ → Prop} {s : σ} {inputs : List ι}
    (h : ∀ t ∈ visited step s inputs, P t) :
    Along step (fun s i => P (step s i)) s inputs := by
  induction inputs generalizing s with
  | nil => trivial
  | cons i rest ih =>
    have htail : ∀ t ∈ visited step (step s i) rest, P t :=
      fun t ht => h t (List.mem_cons_of_mem s ht)
    exact ⟨htail _ (start_mem_visited _ _), ih htail⟩

/-! ## 2. The invariant rule -/

/-- **Invariant rule.** What one step preserves under `C` holds at the end of
every run whose steps all meet `C`. -/
theorem run_invariant_along (hstep : ∀ s i, Inv s → C s i → Inv (step s i))
    {s : σ} {inputs : List ι} (hs : Inv s) (hC : Along step C s inputs) :
    Inv (run step s inputs) := by
  induction inputs generalizing s with
  | nil => exact hs
  | cons i rest ih => exact ih (hstep s i hs hC.1) hC.2

/-- The rule for an invariant that every step preserves. -/
theorem run_invariant (hstep : ∀ s i, Inv s → Inv (step s i)) {s : σ} (hs : Inv s)
    (inputs : List ι) : Inv (run step s inputs) :=
  run_invariant_along (fun s i h _ => hstep s i h) hs
    (along_of_forall (C := fun _ _ => True) (fun _ _ => trivial) s inputs)

/-- An invariant holds in every state the run visits. -/
theorem visited_invariant_along (hstep : ∀ s i, Inv s → C s i → Inv (step s i))
    {s : σ} {inputs : List ι} (hs : Inv s) (hC : Along step C s inputs) :
    ∀ t ∈ visited step s inputs, Inv t := by
  intro t ht
  obtain ⟨first, second, rfl, rfl⟩ := mem_visited_iff.mp ht
  exact run_invariant_along hstep hs (along_append.mp hC).1

/-- A step fact that an invariant supports holds at every step of a run. -/
theorem along_of_invariant (hstep : ∀ s i, Inv s → C s i → Inv (step s i))
    (hD : ∀ s i, Inv s → C s i → D s i) {s : σ} {inputs : List ι} (hs : Inv s)
    (hC : Along step C s inputs) : Along step D s inputs := by
  induction inputs generalizing s with
  | nil => trivial
  | cons i rest ih => exact ⟨hD s i hs hC.1, ih (hstep s i hs hC.1) hC.2⟩

/-- A reflexive and transitive relation that every step respects relates the
two ends of a run. -/
theorem run_relation_along {R : σ → σ → Prop} (hrefl : ∀ s, R s s)
    (htrans : ∀ a b c, R a b → R b c → R a c) (hstep : ∀ s i, C s i → R s (step s i))
    {s : σ} {inputs : List ι} (hC : Along step C s inputs) : R s (run step s inputs) := by
  induction inputs generalizing s with
  | nil => exact hrefl s
  | cons i rest ih => exact htrans _ _ _ (hstep s i hC.1) (ih hC.2)

/-- And every state the run visits lies between its two ends. -/
theorem visited_between_along {R : σ → σ → Prop} (hrefl : ∀ s, R s s)
    (htrans : ∀ a b c, R a b → R b c → R a c) (hstep : ∀ s i, C s i → R s (step s i))
    {s : σ} {inputs : List ι} (hC : Along step C s inputs) :
    ∀ t ∈ visited step s inputs, R s t ∧ R t (run step s inputs) := by
  intro t ht
  obtain ⟨first, second, rfl, rfl⟩ := mem_visited_iff.mp ht
  obtain ⟨hfirst, hsecond⟩ := along_append.mp hC
  rw [run_append]
  exact ⟨run_relation_along hrefl htrans hstep hfirst,
    run_relation_along hrefl htrans hstep hsecond⟩

/-! ## 3. What a run puts out -/

section Traces

variable {ο : Type*} {out : σ → ι → Option ο} {seen : σ → ο → Prop}

/-- What the steps of a run put out, in order. -/
def trace (step : σ → ι → σ) (out : σ → ι → Option ο) (s : σ) : List ι → List ο
  | [] => []
  | i :: rest => (out s i).toList ++ trace step out (step s i) rest

private theorem not_mem_trace (hstable : ∀ s i o, seen s o → seen (step s i) o)
    (hout : ∀ s i o, out s i = some o → ¬ seen s o ∧ seen (step s i) o) {s : σ} {o : ο}
    (hseen : seen s o) (inputs : List ι) : o ∉ trace step out s inputs := by
  induction inputs generalizing s with
  | nil => exact List.not_mem_nil
  | cons i rest ih =>
    intro hmem
    rcases List.mem_append.mp hmem with hnow | hlater
    · exact (hout s i o (Option.mem_toList.mp hnow)).1 hseen
    · exact ih (hstable s i o hseen) hlater

/-- **Once each.** What is put out only while it is not yet seen, and is seen from
then on, is put out at most once along a run. -/
theorem trace_nodup (hstable : ∀ s i o, seen s o → seen (step s i) o)
    (hout : ∀ s i o, out s i = some o → ¬ seen s o ∧ seen (step s i) o) (s : σ)
    (inputs : List ι) : (trace step out s inputs).Nodup := by
  induction inputs generalizing s with
  | nil => exact List.nodup_nil
  | cons i rest ih =>
    cases hnow : out s i with
    | none =>
      simp only [trace, hnow, Option.toList_none, List.nil_append]
      exact ih (step s i)
    | some o =>
      simp only [trace, hnow, Option.toList_some, List.singleton_append]
      exact List.nodup_cons.mpr ⟨not_mem_trace hstable hout (hout s i o hnow).2 rest, ih _⟩

end Traces

/-- **Refinement by events.** When every step moves the abstraction by the event it puts
out, or not at all, a run moves it by its events in order. -/
theorem run_trace_along {ο : Type*} {out : σ → ι → Option ο} {apply : τ → ο → τ} (π : σ → τ)
    (hkept : ∀ s i, Inv s → C s i → Inv (step s i))
    (hstep : ∀ s i, Inv s → C s i → π (step s i) = run apply (π s) (out s i).toList)
    {s : σ} {inputs : List ι} (hs : Inv s) (hC : Along step C s inputs) :
    π (run step s inputs) = run apply (π s) (trace step out s inputs) := by
  induction inputs generalizing s with
  | nil => rfl
  | cons i rest ih =>
    rw [run_cons, ih (hkept s i hs hC.1) hC.2, hstep s i hs hC.1, trace, run_append]

/-- And each of the events comes at a state of the abstraction that lets it in. -/
theorem along_trace_along {ο : Type*} {out : σ → ι → Option ο} {apply : τ → ο → τ}
    {allows : τ → ο → Prop} (π : σ → τ) (hkept : ∀ s i, Inv s → C s i → Inv (step s i))
    (hstep : ∀ s i, Inv s → C s i → π (step s i) = run apply (π s) (out s i).toList)
    (hallows : ∀ s i o, Inv s → C s i → out s i = some o → allows (π s) o)
    {s : σ} {inputs : List ι} (hs : Inv s) (hC : Along step C s inputs) :
    Along apply allows (π s) (trace step out s inputs) := by
  induction inputs generalizing s with
  | nil => trivial
  | cons i rest ih =>
    have hrest := ih (hkept s i hs hC.1) hC.2
    rw [hstep s i hs hC.1] at hrest
    rw [trace, along_append]
    refine ⟨?_, hrest⟩
    cases hout : out s i with
    | none => trivial
    | some o => exact ⟨hallows s i o hs hC.1 hout, trivial⟩

/-- What holds of each thing a step puts out holds of all that a run puts out. -/
theorem forall_mem_trace {ο : Type*} {out : σ → ι → Option ο} {P : ο → Prop}
    (hkept : ∀ s i, Inv s → Inv (step s i)) (hout : ∀ s i o, Inv s → out s i = some o → P o)
    {s : σ} (hs : Inv s) (inputs : List ι) : ∀ o ∈ trace step out s inputs, P o := by
  induction inputs generalizing s with
  | nil => exact fun _ h => absurd h List.not_mem_nil
  | cons i rest ih =>
    intro o ho
    rcases List.mem_append.mp ho with hnow | hlater
    · exact hout s i o hs (Option.mem_toList.mp hnow)
    · exact ih (hkept s i hs) o hlater

/-- **Conservation.** When every step keeps contents and what it takes in together equal to
what it hands out and the contents left, so does every run: nothing is lost, doubled or
handed out out of turn. -/
theorem trace_conserved {α : Type*} {taken handed : σ → ι → Option α} (contents : σ → List α)
    (hkept : ∀ s i, Inv s → Inv (step s i))
    (hstep : ∀ s i, Inv s →
      contents s ++ (taken s i).toList = (handed s i).toList ++ contents (step s i))
    {s : σ} (hs : Inv s) (inputs : List ι) :
    contents s ++ trace step taken s inputs =
      trace step handed s inputs ++ contents (run step s inputs) := by
  induction inputs generalizing s with
  | nil => exact List.append_nil _
  | cons i rest ih =>
    rw [trace, trace, run_cons, ← List.append_assoc, hstep s i hs, List.append_assoc,
      ih (hkept s i hs), List.append_assoc]

/-! ## 4. Lockstep projections -/

/-! ## 5. Steps made of steps -/

/-- A system whose every step is a run of another system, showing nothing on the way but
what it shows at its two ends, has runs that are runs of the other. -/
theorem exists_run_of_expands {κ : Type*} {β : Type*} {gstep : σ → κ → σ} (view : σ → β)
    (hexpands : ∀ s k, ∃ inputs, gstep s k = run step s inputs ∧
      ∀ t ∈ visited step s inputs, view t = view s ∨ view t = view (gstep s k))
    (s : σ) (steps : List κ) :
    ∃ inputs, run gstep s steps = run step s inputs ∧
      (∀ t ∈ visited gstep s steps, t ∈ visited step s inputs) ∧
      ∀ t ∈ visited step s inputs, ∃ u ∈ visited gstep s steps, view t = view u := by
  induction steps generalizing s with
  | nil =>
    refine ⟨[], rfl, fun t ht => ht, fun t ht => ⟨t, ht, rfl⟩⟩
  | cons k rest ih =>
    obtain ⟨first, hfirst, hview⟩ := hexpands s k
    obtain ⟨second, hsecond, hvisited, hshown⟩ := ih (gstep s k)
    rw [hfirst] at hsecond hvisited hshown
    refine ⟨first ++ second, ?_, ?_, ?_⟩
    · rw [run_cons, hfirst, run_append]
      exact hsecond
    · intro t ht
      rcases List.mem_cons.mp ht with rfl | ht
      · exact start_mem_visited _ _
      · rw [hfirst] at ht
        exact mem_visited_append_right (hvisited t ht)
    · intro t ht
      rcases mem_visited_append ht with hin | hin
      · -- the state is passed on the way through the first step
        rcases hview t hin with hsame | hsame
        · exact ⟨s, start_mem_visited _ _, hsame⟩
        · exact ⟨gstep s k, List.mem_cons_of_mem _ (start_mem_visited _ _), hsame⟩
      · obtain ⟨u, hu, hsame⟩ := hshown t hin
        rw [← hfirst] at hu
        exact ⟨u, List.mem_cons_of_mem _ hu, hsame⟩

/-! ## 6. Components -/

section Components

variable {κ : Type*} {cstep : τ → κ → τ} {part : ι → Option κ} (π : σ → τ)

/-- A component that moves by the inputs addressed to it, and by no other, runs by itself. -/
theorem run_component (hstep : ∀ s i, π (step s i) = run cstep (π s) (part i).toList) (s : σ)
    (inputs : List ι) : π (run step s inputs) = run cstep (π s) (inputs.filterMap part) := by
  induction inputs generalizing s with
  | nil => rfl
  | cons i rest ih =>
    rw [run_cons, ih, hstep, List.filterMap_cons]
    cases part i with
    | none => rfl
    | some k => rfl

/-- What it puts out in the whole it puts out alone. -/
theorem trace_component {ο : Type*} {out : σ → ι → Option ο} {cout : τ → κ → Option ο}
    (hstep : ∀ s i, π (step s i) = run cstep (π s) (part i).toList)
    (hout : ∀ s i, out s i = (part i).bind (cout (π s))) (s : σ) (inputs : List ι) :
    trace step out s inputs = trace cstep cout (π s) (inputs.filterMap part) := by
  induction inputs generalizing s with
  | nil => rfl
  | cons i rest ih =>
    rw [trace, ih, hstep, hout, List.filterMap_cons]
    cases part i with
    | none => rfl
    | some k => rfl

end Components

end StepRuns
