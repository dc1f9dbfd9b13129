import Mathlib.Data.List.Basic

/-!
# Least items

The first of the least items of a list, under a comparison that is transitive but may
take different items for equal.
-/

namespace LeastItems

variable {α : Type} {cmp : α → α → Ordering}

/-- `min_by`: the first of the least items. -/
def minBy (cmp : α → α → Ordering) : List α → Option α
  | [] => none
  | a :: rest => some (rest.foldl (fun least b => if cmp least b = .gt then b else least) a)

private theorem foldl_least [Std.TransCmp cmp] (rest : List α) (a : α) :
    let least := rest.foldl (fun least b => if cmp least b = .gt then b else least) a
    least ∈ a :: rest ∧ ∀ b ∈ a :: rest, (cmp least b).isLE := by
  induction rest generalizing a with
  | nil =>
    refine ⟨List.mem_singleton.mpr rfl, fun b hb => ?_⟩
    obtain rfl := List.mem_singleton.mp hb
    rw [List.foldl_nil, (Std.ReflCmp.compare_self : cmp b b = .eq)]
    rfl
  | cons c rest ih =>
    simp only [List.foldl_cons]
    by_cases hgt : cmp a c = .gt
    · rw [if_pos hgt]
      obtain ⟨hmem, hleast⟩ := ih c
      refine ⟨List.mem_cons_of_mem _ hmem, fun b hb => ?_⟩
      rcases List.mem_cons.mp hb with rfl | hb
      · have hle : (cmp c b).isLE := by
          rw [(Std.OrientedCmp.eq_swap : cmp c b = (cmp b c).swap), hgt]
          rfl
        exact Std.TransCmp.isLE_trans (hleast c List.mem_cons_self) hle
      · exact hleast b hb
    · rw [if_neg hgt]
      obtain ⟨hmem, hleast⟩ := ih a
      refine ⟨?_, fun b hb => ?_⟩
      · rcases List.mem_cons.mp hmem with hfirst | hlater
        · rw [hfirst]
          exact List.mem_cons_self
        · exact List.mem_cons_of_mem _ (List.mem_cons_of_mem _ hlater)
      · rcases List.mem_cons.mp hb with rfl | hb
        · exact hleast b List.mem_cons_self
        · rcases List.mem_cons.mp hb with rfl | hb
          · refine Std.TransCmp.isLE_trans (hleast a List.mem_cons_self) ?_
            cases hcmp : cmp a b with
            | gt => exact absurd hcmp hgt
            | _ => rfl
          · exact hleast b (List.mem_cons_of_mem _ hb)

theorem minBy_eq_some [Std.TransCmp cmp] {items : List α} {a : α} (h : minBy cmp items = some a) :
    a ∈ items ∧ ∀ b ∈ items, (cmp a b).isLE := by
  cases items with
  | nil => cases h
  | cons c rest =>
    obtain rfl := Option.some.inj h
    exact foldl_least rest c

theorem minBy_eq_none {items : List α} : minBy cmp items = none ↔ items = [] := by
  cases items with
  | nil => exact iff_of_true rfl rfl
  | cons a rest => simp only [minBy, reduceCtorEq]

/-- Nothing before the first of the least items is as little as it. -/
theorem minBy_split [Std.TransCmp cmp] {items : List α} {a : α} (h : minBy cmp items = some a) :
    ∃ before later, items = before ++ a :: later ∧ ∀ b ∈ before, cmp a b = .lt := by
  cases items with
  | nil => cases h
  | cons c rest =>
    obtain rfl := Option.some.inj h
    clear h
    induction rest generalizing c with
    | nil => exact ⟨[], [], rfl, fun b hb => absurd hb List.not_mem_nil⟩
    | cons d rest ih =>
      rw [List.foldl_cons]
      by_cases hgt : cmp c d = .gt
      · rw [if_pos hgt]
        obtain ⟨before, later, hitems, hbefore⟩ := ih d
        refine ⟨c :: before, later, by rw [hitems, List.cons_append], ?_⟩
        intro b hb
        rcases List.mem_cons.mp hb with rfl | hb
        · have hle : (cmp (rest.foldl (fun least b => if cmp least b = .gt then b else least) d)
              d).isLE := (foldl_least rest d).2 d List.mem_cons_self
          exact Std.TransCmp.lt_of_isLE_of_lt hle (Std.OrientedCmp.lt_of_gt hgt)
        · exact hbefore b hb
      · rw [if_neg hgt]
        obtain ⟨before, later, hitems, hbefore⟩ := ih c
        cases before with
        | nil =>
          rw [List.nil_append, List.cons.injEq] at hitems
          refine ⟨[], d :: rest, by rw [← hitems.1, List.nil_append], ?_⟩
          exact fun b hb => absurd hb List.not_mem_nil
        | cons e before =>
          rw [List.cons_append, List.cons.injEq] at hitems
          refine ⟨e :: d :: before, later, ?_, ?_⟩
          · rw [← hitems.1, List.cons_append, List.cons_append, ← hitems.2]
          · intro b hb
            rcases List.mem_cons.mp hb with rfl | hb
            · exact hbefore b List.mem_cons_self
            · rcases List.mem_cons.mp hb with rfl | hb
              · have hlt := hbefore e List.mem_cons_self
                rw [← hitems.1] at hlt
                exact Std.TransCmp.lt_of_lt_of_isLE hlt (Ordering.isLE_iff_ne_gt.mpr hgt)
              · exact hbefore b (List.mem_cons_of_mem _ hb)

/-- In a list in order, the items no greater than the first of the least come after it. -/
theorem minBy_pairwise [Std.TransCmp cmp] {R : α → α → Prop} {items : List α}
    (hitems : items.Pairwise R) {a : α} (h : minBy cmp items = some a) {b : α} (hb : b ∈ items) :
    cmp a b = .lt ∨ b = a ∨ R a b := by
  obtain ⟨before, later, rfl, hbefore⟩ := minBy_split h
  rcases List.mem_append.mp hb with hb | hb
  · exact .inl (hbefore b hb)
  · rcases List.mem_cons.mp hb with rfl | hb
    · exact .inr (.inl rfl)
    · exact .inr (.inr ((List.pairwise_cons.mp (List.pairwise_append.mp hitems).2.1).1 b hb))

/-- A least item kept up to date; another takes its place only if it is less. -/
def keepLeast (cmp : α → α → Ordering) (best : Option α) (a : α) : Option α :=
  match best with
  | none => some a
  | some least => some (if cmp a least = .lt then a else least)

theorem foldl_keepLeast [Std.OrientedCmp cmp] (items : List α) :
    items.foldl (keepLeast cmp) none = minBy cmp items := by
  have hrest : ∀ (rest : List α) (a : α), rest.foldl (keepLeast cmp) (some a) =
      some (rest.foldl (fun least b => if cmp least b = .gt then b else least) a) := by
    intro rest
    induction rest with
    | nil => exact fun a => rfl
    | cons b rest ih =>
      intro a
      rw [List.foldl_cons, List.foldl_cons, keepLeast, ih]
      simp only [Std.OrientedCmp.gt_iff_lt]
  cases items with
  | nil => rfl
  | cons a rest => exact hrest rest a

end LeastItems
