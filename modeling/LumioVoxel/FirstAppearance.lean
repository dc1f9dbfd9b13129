import Mathlib.Data.List.Induction
import Mathlib.Data.List.Nodup
import Mathlib.Data.List.Sort

/-!
# Order of first appearance

The values of a list without repetitions, each standing where it occurred first.
Such a list is determined by its members and by the position of their first
occurrence, which is what makes a table collected in one pass canonical.
-/

namespace FirstAppearance

variable {α : Type} [DecidableEq α]

/-- A list names its members in the order in which they first occur in `xs`. -/
def InOrderOf (xs es : List α) : Prop := es.Pairwise fun a b => xs.idxOf a < xs.idxOf b

instance (xs es : List α) : Decidable (InOrderOf xs es) :=
  inferInstanceAs (Decidable (es.Pairwise _))

theorem idxOf?_of_mem {xs : List α} {b : α} (h : b ∈ xs) : xs.idxOf? b = some (xs.idxOf b) := by
  apply List.idxOf?_eq_some_iff.mpr
  refine ⟨List.idxOf_lt_length_of_mem h, List.getElem_idxOf _, ?_⟩
  intro j hj heq
  have hfalse := List.not_of_lt_findIdx hj
  rw [heq, beq_self_eq_true] at hfalse
  cases hfalse

theorem idxOf?_concat_self {xs : List α} {b : α} (h : b ∉ xs) :
    (xs ++ [b]).idxOf? b = some xs.length := by
  rw [idxOf?_of_mem (List.mem_append_right xs (List.mem_singleton.mpr rfl)),
    List.idxOf_append_of_notMem h, List.idxOf_cons_self, Nat.add_zero]

theorem idxOf?_concat_ne {xs : List α} {a b : α} (h : a ≠ b) :
    (xs ++ [b]).idxOf? a = xs.idxOf? a := by
  by_cases ha : a ∈ xs
  · rw [idxOf?_of_mem ha, idxOf?_of_mem (List.mem_append_left [b] ha),
      List.idxOf_append_of_mem ha]
  · have hnot : a ∉ xs ++ [b] := by
      rw [List.mem_append, List.mem_singleton]
      exact not_or.mpr ⟨ha, h⟩
    rw [List.idxOf?_eq_none_iff.mpr ha, List.idxOf?_eq_none_iff.mpr hnot]

theorem eraseDups_concat_of_mem {xs : List α} {b : α} (h : b ∈ xs) :
    (xs ++ [b]).eraseDups = xs.eraseDups := by
  rw [List.eraseDups_append]
  have hnone : [b].removeAll xs = [] := by simp [List.removeAll, h]
  rw [hnone, List.eraseDups_nil, List.append_nil]

theorem eraseDups_concat_of_not_mem {xs : List α} {b : α} (h : b ∉ xs) :
    (xs ++ [b]).eraseDups = xs.eraseDups ++ [b] := by
  rw [List.eraseDups_append]
  have hsome : [b].removeAll xs = [b] := by simp [List.removeAll, h]
  rw [hsome, List.eraseDups_cons, List.filter_nil, List.eraseDups_nil]

theorem eraseDups_append_left (xs ys : List α) : xs.eraseDups <+: (xs ++ ys).eraseDups := by
  rw [List.eraseDups_append]
  exact List.prefix_append _ _

theorem inOrderOf_eraseDups (xs : List α) : InOrderOf xs xs.eraseDups := by
  induction xs using List.reverseRecOn with
  | nil => exact List.Pairwise.nil
  | append_singleton xs b ih =>
    -- appending one value moves no first occurrence
    have hkeep : (xs.eraseDups).Pairwise
        fun a c => (xs ++ [b]).idxOf a < (xs ++ [b]).idxOf c := by
      apply List.Pairwise.imp_of_mem _ ih
      intro a c ha hc hlt
      rw [List.idxOf_append_of_mem (List.mem_eraseDups.mp ha),
        List.idxOf_append_of_mem (List.mem_eraseDups.mp hc)]
      exact hlt
    by_cases h : b ∈ xs
    · rw [eraseDups_concat_of_mem h]
      exact hkeep
    · rw [eraseDups_concat_of_not_mem h]
      apply List.pairwise_append.mpr
      refine ⟨hkeep, List.pairwise_singleton _ _, ?_⟩
      intro a ha c hc
      rw [List.mem_singleton.mp hc, List.idxOf_append_of_mem (List.mem_eraseDups.mp ha),
        List.idxOf_append_of_notMem h]
      exact Nat.lt_of_lt_of_le (List.idxOf_lt_length_of_mem (List.mem_eraseDups.mp ha))
        (Nat.le_add_right _ _)

theorem InOrderOf.nodup {xs es : List α} (h : InOrderOf xs es) : es.Nodup := by
  apply List.Pairwise.imp _ h
  intro a b hlt heq
  rw [heq] at hlt
  exact Nat.lt_irrefl _ hlt

theorem nodup_eraseDups (xs : List α) : xs.eraseDups.Nodup := (inOrderOf_eraseDups xs).nodup

/-- A table without repetitions that holds exactly the values of `xs` is a
permutation of the first appearances. -/
theorem perm_eraseDups {xs es : List α} (hnodup : es.Nodup) (hmem : ∀ a, a ∈ es ↔ a ∈ xs) :
    es.Perm xs.eraseDups := by
  apply (List.perm_ext_iff_of_nodup hnodup (nodup_eraseDups xs)).mpr
  intro a
  rw [hmem a, List.mem_eraseDups]

/-- **The order of first appearance is unique.** -/
theorem eq_eraseDups_iff {xs es : List α} (hnodup : es.Nodup) (hmem : ∀ a, a ∈ es ↔ a ∈ xs) :
    es = xs.eraseDups ↔ InOrderOf xs es := by
  constructor
  · intro h
    rw [h]
    exact inOrderOf_eraseDups xs
  · intro h
    apply List.Perm.eq_of_pairwise _ h (inOrderOf_eraseDups xs) (perm_eraseDups hnodup hmem)
    intro a b _ _ hab hba
    exact absurd hab (Nat.lt_asymm hba)

end FirstAppearance
