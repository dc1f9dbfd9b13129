import Mathlib.Data.List.Chain
import Mathlib.Data.List.Induction

/-!
# Runs of equal labels

A list of labels falls into runs, each a label with the position of its first occurrence and
the number of occurrences in a row.  A scan keeps the run it is in apart from the runs it has
closed; at its end the two together tile the list.
-/

namespace LabelRuns

variable {κ : Type}

structure Run (κ : Type) where
  label : κ
  first : Nat
  count : Nat
  deriving DecidableEq

/-- The labels that runs stand for. -/
def spelled (runs : List (Run κ)) : List κ :=
  runs.flatMap fun run => List.replicate run.count run.label

theorem spelled_append (runs more : List (Run κ)) :
    spelled (runs ++ more) = spelled runs ++ spelled more := List.flatMap_append

/-- The runs lie side by side from position 0 on, none is empty, neighbours have different
labels, and together they spell the list. -/
structure Tiles (runs : List (Run κ)) (labels : List κ) : Prop where
  spells : spelled runs = labels
  starts : ∀ before run after, runs = before ++ run :: after →
    run.first = (spelled before).length
  nonempty : ∀ run ∈ runs, 0 < run.count
  alternate : runs.IsChain fun a b => a.label ≠ b.label

/-- There are no more runs than labels. -/
theorem Tiles.length_le {runs : List (Run κ)} {labels : List κ} (h : Tiles runs labels) :
    runs.length ≤ labels.length := by
  rw [← h.spells]
  have hpos := h.nonempty
  clear h
  induction runs with
  | nil => exact Nat.le_refl 0
  | cons run rest ih =>
    have hrun := hpos run List.mem_cons_self
    have hrest := ih fun r hr => hpos r (List.mem_cons_of_mem run hr)
    rw [spelled, List.flatMap_cons, List.length_append, List.length_replicate, List.length_cons,
      ← spelled]
    omega

/-- The runs closed so far and the run the scan is in. -/
structure Scan (κ : Type) where
  closed : List (Run κ)
  current : Option (Run κ)

namespace Scan

def runs (s : Scan κ) : List (Run κ) := s.closed ++ s.current.toList

def start : Scan κ := ⟨[], none⟩

variable [DecidableEq κ]

/-- One more label, at a position. -/
def step (s : Scan κ) (position : Nat) (label : κ) : Scan κ :=
  match s.current with
  | some run =>
    if run.label = label then ⟨s.closed, some { run with count := run.count + 1 }⟩
    else ⟨s.closed ++ [run], some ⟨label, position, 1⟩⟩
  | none => ⟨s.closed, some ⟨label, position, 1⟩⟩

end Scan

theorem tiles_start : Tiles (Scan.start : Scan κ).runs [] where
  spells := rfl
  starts := by
    intro before run after h
    cases before <;> cases h
  nonempty := fun _ h => absurd h List.not_mem_nil
  alternate := List.IsChain.nil

/-- A run that begins where the others end. -/
private theorem Tiles.concat {runs : List (Run κ)} {labels : List κ} (h : Tiles runs labels)
    {label : κ} (hlast : ∀ run ∈ runs.getLast?, run.label ≠ label) :
    Tiles (runs ++ [⟨label, labels.length, 1⟩]) (labels ++ [label]) where
  spells := by
    rw [spelled_append, h.spells]
    rfl
  starts := by
    intro before run after hsplit
    rcases List.append_eq_append_iff.mp hsplit with ⟨more, rfl, hrest⟩ | ⟨more, hruns, hrest⟩
    · cases more with
      | nil =>
        obtain ⟨rfl, -⟩ := List.cons.inj hrest
        rw [List.append_nil, h.spells]
      | cons r more => cases more <;> cases hrest
    · cases more with
      | nil =>
        obtain ⟨rfl, -⟩ := List.cons.inj hrest
        rw [List.append_nil] at hruns
        rw [← hruns, h.spells]
      | cons r more =>
        obtain ⟨rfl, -⟩ := List.cons.inj hrest
        exact h.starts before run more hruns
  nonempty := by
    intro run hrun
    rcases List.mem_append.mp hrun with hrun | hrun
    · exact h.nonempty run hrun
    · exact List.mem_singleton.mp hrun ▸ Nat.one_pos
  alternate := by
    refine List.isChain_append.mpr ⟨h.alternate, List.IsChain.singleton _, ?_⟩
    intro a ha b hb
    obtain rfl := Option.some.inj hb
    exact hlast a ha

/-- The last run grows by one. -/
private theorem Tiles.grow {closed : List (Run κ)} {run : Run κ} {labels : List κ}
    (h : Tiles (closed ++ [run]) labels) :
    Tiles (closed ++ [{ run with count := run.count + 1 }]) (labels ++ [run.label]) where
  spells := by
    rw [← h.spells, spelled_append, spelled_append, List.append_assoc]
    simp only [spelled, List.flatMap_cons, List.flatMap_nil, List.append_nil,
      List.replicate_succ']
  starts := by
    intro before r after hsplit
    rcases List.append_eq_append_iff.mp hsplit with ⟨more, rfl, hrest⟩ | ⟨more, hclosed, hrest⟩
    · cases more with
      | nil =>
        obtain ⟨rfl, -⟩ := List.cons.inj hrest
        rw [List.append_nil]
        exact h.starts closed run [] rfl
      | cons r' more => cases more <;> cases hrest
    · cases more with
      | nil =>
        obtain ⟨rfl, -⟩ := List.cons.inj hrest
        rw [List.append_nil] at hclosed
        rw [← hclosed]
        exact h.starts closed run [] rfl
      | cons r' more =>
        obtain ⟨rfl, -⟩ := List.cons.inj hrest
        exact h.starts before r (more ++ [run]) (by rw [hclosed, List.append_assoc]; rfl)
  nonempty := by
    intro r hr
    rcases List.mem_append.mp hr with hr | hr
    · exact h.nonempty r (List.mem_append_left _ hr)
    · exact List.mem_singleton.mp hr ▸ Nat.succ_pos _
  alternate := by
    obtain ⟨hclosed, -, hlast⟩ := List.isChain_append.mp h.alternate
    refine List.isChain_append.mpr ⟨hclosed, List.IsChain.singleton _, ?_⟩
    intro a ha b hb
    obtain rfl := Option.some.inj hb
    exact hlast a ha run rfl

/-- **One step of a scan.** If the runs tile the labels so far, they tile one label more. -/
theorem Tiles.step [DecidableEq κ] {s : Scan κ} {labels : List κ} (h : Tiles s.runs labels)
    (hcurrent : s.current = none → s.closed = []) (label : κ) :
    Tiles (s.step labels.length label).runs (labels ++ [label]) := by
  obtain ⟨closed, current⟩ := s
  cases current with
  | none =>
    obtain rfl := hcurrent rfl
    exact h.concat (fun run hrun => nomatch hrun)
  | some run =>
    by_cases hsame : run.label = label
    · have hstep : Scan.step ⟨closed, some run⟩ labels.length label =
          ⟨closed, some { run with count := run.count + 1 }⟩ := if_pos hsame
      rw [hstep, ← hsame]
      exact h.grow
    · have hstep : Scan.step ⟨closed, some run⟩ labels.length label =
          ⟨closed ++ [run], some ⟨label, labels.length, 1⟩⟩ := if_neg hsame
      rw [hstep]
      refine h.concat fun r hr => ?_
      rw [Scan.runs, Option.toList_some, List.getLast?_concat] at hr
      exact Option.some.inj hr ▸ hsame

/-- The scan of a whole list. -/
def scan [DecidableEq κ] (labels : List κ) : Scan κ :=
  labels.zipIdx.foldl (fun s item => s.step item.2 item.1) Scan.start

theorem scan_concat [DecidableEq κ] (labels : List κ) (label : κ) :
    scan (labels ++ [label]) = (scan labels).step labels.length label := by
  rw [scan, List.zipIdx_append, List.foldl_append, Nat.zero_add]
  rfl

theorem Scan.current_step [DecidableEq κ] (s : Scan κ) (position : Nat) (label : κ) :
    ((s.step position label).current.map Run.label) = some label := by
  unfold step
  split
  · split
    · rename_i run _ hsame
      rw [Option.map_some, hsame]
    · rfl
  · rfl

/-- A label other than the current run's begins a run. -/
theorem Scan.length_runs_step [DecidableEq κ] (s : Scan κ) (position : Nat) (label : κ) :
    (s.step position label).runs.length =
      if s.current.map Run.label = some label then s.runs.length else s.runs.length + 1 := by
  obtain ⟨closed, current⟩ := s
  cases current with
  | none => simp [step, runs]
  | some run =>
    by_cases hsame : run.label = label
    · simp [step, runs, hsame]
    · simp [step, runs, hsame]

/-- **Tiling.** The runs of a scan tile its list. -/
theorem tiles_scan [DecidableEq κ] (labels : List κ) :
    Tiles (scan labels).runs labels ∧
      ((scan labels).current = none → (scan labels).closed = []) := by
  induction labels using List.reverseRecOn with
  | nil => exact ⟨tiles_start, fun _ => rfl⟩
  | append_singleton labels label ih =>
    rw [scan_concat]
    refine ⟨ih.1.step ih.2 label, fun hnone => ?_⟩
    have hsome := (scan labels).current_step labels.length label
    rw [hnone] at hsome
    cases hsome

end LabelRuns
