import Mathlib.Algebra.Order.Field.Basic
import Mathlib.Algebra.Order.Floor.Ring
import Mathlib.Algebra.Order.Monoid.Unbundled.WithTop
import Mathlib.Algebra.Order.Ring.Cast
import Mathlib.Tactic.Linarith
import Mathlib.Tactic.Ring

/-!
# Walks along a ray through a unit grid

A point moves on a line, `o + t * d` on one axis, and the unit intervals it is in are
walked in order.  An interval is left at one parameter, or never when the point does
not move; until then it holds the point, and at that parameter the next one does.
Everything a walk over several axes needs is here for one axis, over any ordered
field.
-/

namespace GridWalks

variable {K : Type*} [Field K] [LinearOrder K] [IsStrictOrderedRing K]
variable {o d t s : K} {c e : ℤ}

/-! ## 1. Points and intervals -/

/-- The interval from `c` to `c + 1`, both ends included, holds the point. -/
def Holds (o d : K) (c : ℤ) (t : K) : Prop := (c : K) ≤ o + t * d ∧ o + t * d ≤ c + 1

/-- The point is between the two ends. -/
def Meets (o d : K) (c : ℤ) (t : K) : Prop := (c : K) < o + t * d ∧ o + t * d < c + 1

/-- Where one interval is met, no other one holds the point. -/
theorem Holds.eq_of_meets (h : Holds o d c t) (h' : Meets o d e t) : e = c := by
  have hle : (e : K) < c + 1 := h'.1.trans_le h.2
  have hge : (c : K) < e + 1 := h.1.trans_lt h'.2
  have hle' : e < c + 1 := by exact_mod_cast hle
  have hge' : c < e + 1 := by exact_mod_cast hge
  omega

/-! ## 2. Leaving an interval -/

/-- The parameter at which the point leaves the interval. -/
def exit (o d : K) (c : ℤ) : WithTop K :=
  if 0 < d then (((c + 1 - o) / d : K) : WithTop K)
  else if d < 0 then (((o - c) / -d : K) : WithTop K)
  else ⊤

omit [IsStrictOrderedRing K] in
theorem exit_of_pos (h : 0 < d) : exit o d c = (((c + 1 - o) / d : K) : WithTop K) := if_pos h

omit [IsStrictOrderedRing K] in
theorem exit_of_neg (h : d < 0) : exit o d c = (((o - c) / -d : K) : WithTop K) := by
  rw [exit, if_neg (not_lt.mpr h.le), if_pos h]

omit [IsStrictOrderedRing K] in
theorem exit_of_zero : exit o 0 c = (⊤ : WithTop K) := by
  rw [exit, if_neg (lt_irrefl _), if_neg (lt_irrefl _)]

/-- Until it leaves the interval the point is in it. -/
theorem Holds.of_le_exit (h : Holds o d c t) (hts : t ≤ s) (hs : (s : WithTop K) ≤ exit o d c) :
    Holds o d c s := by
  obtain ⟨hlow, hhigh⟩ := h
  rcases lt_trichotomy d 0 with hd | rfl | hd
  · rw [exit_of_neg hd, WithTop.coe_le_coe, le_div_iff₀ (neg_pos.mpr hd)] at hs
    have hmono : s * d ≤ t * d := mul_le_mul_of_nonpos_right hts hd.le
    exact ⟨by linarith, by linarith⟩
  · rw [mul_zero] at hlow hhigh
    exact ⟨by rwa [mul_zero], by rwa [mul_zero]⟩
  · rw [exit_of_pos hd, WithTop.coe_le_coe, le_div_iff₀ hd] at hs
    have hmono : t * d ≤ s * d := mul_le_mul_of_nonneg_right hts hd.le
    exact ⟨by linarith, by linarith⟩

/-- The point is in the interval no longer than until it leaves it. -/
theorem Holds.le_exit (h : Holds o d c t) : (t : WithTop K) ≤ exit o d c := by
  obtain ⟨hlow, hhigh⟩ := h
  rcases lt_trichotomy d 0 with hd | rfl | hd
  · rw [exit_of_neg hd, WithTop.coe_le_coe, le_div_iff₀ (neg_pos.mpr hd)]
    linarith
  · rw [exit_of_zero]
    exact le_top
  · rw [exit_of_pos hd, WithTop.coe_le_coe, le_div_iff₀ hd]
    linarith

/-! ## 3. The next interval -/

theorem exit_succ (hd : 0 < d) :
    exit o d (c + 1) = exit o d c + ((1 / d : K) : WithTop K) := by
  rw [exit_of_pos hd, exit_of_pos hd, ← WithTop.coe_add, ← add_div]
  push_cast
  ring_nf

theorem exit_pred (hd : d < 0) :
    exit o d (c - 1) = exit o d c + ((1 / -d : K) : WithTop K) := by
  rw [exit_of_neg hd, exit_of_neg hd, ← WithTop.coe_add, ← add_div]
  push_cast
  ring_nf

omit [IsStrictOrderedRing K] in
/-- Leaving upwards, the point is at the upper end. -/
theorem point_of_exit_pos (hd : 0 < d) (ht : exit o d c = (t : WithTop K)) :
    o + t * d = c + 1 := by
  rw [exit_of_pos hd, WithTop.coe_inj] at ht
  rw [← ht, div_mul_cancel₀ _ hd.ne']
  ring

/-- Leaving downwards, the point is at the lower end. -/
theorem point_of_exit_neg (hd : d < 0) (ht : exit o d c = (t : WithTop K)) : o + t * d = c := by
  rw [exit_of_neg hd, WithTop.coe_inj] at ht
  have hne : -d ≠ 0 := (neg_pos.mpr hd).ne'
  have hmul : t * -d = o - c := by rw [← ht, div_mul_cancel₀ _ hne]
  linarith

theorem holds_succ (hd : 0 < d) (ht : exit o d c = (t : WithTop K)) : Holds o d (c + 1) t := by
  rw [Holds, point_of_exit_pos hd ht]
  push_cast
  exact ⟨le_refl _, by linarith⟩

theorem holds_pred (hd : d < 0) (ht : exit o d c = (t : WithTop K)) : Holds o d (c - 1) t := by
  rw [Holds, point_of_exit_neg hd ht]
  push_cast
  exact ⟨by linarith, by linarith⟩

/-- Once the point has left an interval upwards, it meets neither that one nor one below. -/
theorem not_meets_of_exit_pos (hd : 0 < d) (ht : exit o d c = (t : WithTop K)) (hts : t ≤ s)
    (he : e ≤ c) : ¬ Meets o d e s := by
  rintro ⟨-, hhigh⟩
  have hmono : t * d ≤ s * d := mul_le_mul_of_nonneg_right hts hd.le
  have hpoint := point_of_exit_pos hd ht
  have hcast : (e : K) ≤ c := by exact_mod_cast he
  linarith

theorem not_meets_of_exit_neg (hd : d < 0) (ht : exit o d c = (t : WithTop K)) (hts : t ≤ s)
    (he : c ≤ e) : ¬ Meets o d e s := by
  rintro ⟨hlow, -⟩
  have hmono : s * d ≤ t * d := mul_le_mul_of_nonpos_right hts hd.le
  have hpoint := point_of_exit_neg hd ht
  have hcast : (c : K) ≤ e := by exact_mod_cast he
  linarith

/-! ## 4. Between two bounds -/

/-- The point is between two bounds, in either order, exactly while the parameter is
between the two at which it reaches them. -/
theorem between_iff (hd : d ≠ 0) {a b : K} :
    (a ≤ o + t * d ∧ o + t * d ≤ b ∨ b ≤ o + t * d ∧ o + t * d ≤ a) ↔
      ((a - o) * (1 / d) ≤ t ∧ t ≤ (b - o) * (1 / d) ∨
        (b - o) * (1 / d) ≤ t ∧ t ≤ (a - o) * (1 / d)) := by
  have hreach : ∀ p : K, p = o + (p - o) * (1 / d) * d := by
    intro p
    rw [mul_assoc, one_div, inv_mul_cancel₀ hd, mul_one]
    ring
  generalize hu : (a - o) * (1 / d) = u
  generalize hv : (b - o) * (1 / d) = v
  have ha : a = o + u * d := hu ▸ hreach a
  have hb : b = o + v * d := hv ▸ hreach b
  rw [ha, hb]
  simp only [add_le_add_iff_left]
  rcases lt_or_gt_of_ne hd with hneg | hpos
  · simp only [mul_le_mul_right_of_neg hneg]
    tauto
  · simp only [mul_le_mul_iff_left₀ hpos]

/-! ## 5. Where a walk begins -/

variable [FloorRing K]

omit [IsStrictOrderedRing K] in
theorem holds_floor : Holds o d ⌊o⌋ 0 := by
  rw [Holds, zero_mul, add_zero]
  exact ⟨Int.floor_le o, (Int.lt_floor_add_one o).le⟩

/-- At a grid line the interval below holds the point as well. -/
theorem holds_floor_pred (h : o = ⌊o⌋) : Holds o d (⌊o⌋ - 1) 0 := by
  rw [Holds, zero_mul, add_zero]
  push_cast
  exact ⟨by linarith, by linarith⟩

end GridWalks
