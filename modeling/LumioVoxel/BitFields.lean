import Mathlib.Data.List.Induction
import Mathlib.Data.Nat.Bitwise

/-!
# Bit fields

Several small numbers share one word, each in a span of bits of its own.  What a word is
after a number was put into a span is said bit by bit; reading a span back, and reading
another span that lies apart from it, follow from that.  A record whose entries are put one
at a time keeps, under each name, the last value put there.
-/

namespace BitFields

/-! ## 1. Spans of a word -/

/-- `width` bits of a word, from bit `offset` on. -/
structure Span where
  offset : Nat
  width : Nat
  deriving DecidableEq, Repr

namespace Span

def Covers (s : Span) (i : Nat) : Prop := s.offset ≤ i ∧ i < s.offset + s.width

instance (s : Span) (i : Nat) : Decidable (s.Covers i) := inferInstanceAs (Decidable (_ ∧ _))

/-- No bit is in both spans. -/
def Apart (s t : Span) : Prop := ∀ i, s.Covers i → ¬ t.Covers i

theorem Apart.symm {s t : Span} (h : s.Apart t) : t.Apart s := fun i ht hs => h i hs ht

theorem apart_of_le {s t : Span} (h : s.offset + s.width ≤ t.offset) : s.Apart t := by
  rintro i ⟨-, hlt⟩ ⟨hle, -⟩
  omega

/-- The number a word has in the span. -/
def get (s : Span) (n : Nat) : Nat := n >>> s.offset % 2 ^ s.width

theorem testBit_get (s : Span) (n j : Nat) :
    (s.get n).testBit j = (decide (j < s.width) && n.testBit (s.offset + j)) := by
  rw [get, Nat.testBit_mod_two_pow, Nat.testBit_shiftRight]

/-- The word `m` is `n` with the number `v` in the span. -/
def Puts (s : Span) (n v m : Nat) : Prop :=
  ∀ i, m.testBit i = if s.Covers i then v.testBit (i - s.offset) else n.testBit i

/-- Putting a number leaves no choice of the word. -/
theorem Puts.unique {s : Span} {n v m m' : Nat} (h : s.Puts n v m) (h' : s.Puts n v m') :
    m = m' := by
  apply Nat.eq_of_testBit_eq
  intro i
  rw [h i, h' i]

theorem Puts.get_self {s : Span} {n v m : Nat} (h : s.Puts n v m) (hv : v < 2 ^ s.width) :
    s.get m = v := by
  apply Nat.eq_of_testBit_eq
  intro j
  rw [testBit_get, h (s.offset + j)]
  by_cases hj : j < s.width
  · have hin : s.Covers (s.offset + j) := ⟨Nat.le_add_right _ _, by omega⟩
    rw [if_pos hin, Nat.add_sub_cancel_left, decide_eq_true hj, Bool.true_and]
  · have hhigh : v < 2 ^ j := Nat.lt_of_lt_of_le hv (Nat.pow_le_pow_right (by decide) (by omega))
    rw [decide_eq_false hj, Bool.false_and, Nat.testBit_lt_two_pow hhigh]

/-- A span that lies apart is left as it was. -/
theorem Puts.get_apart {s t : Span} {n v m : Nat} (h : s.Puts n v m) (hst : s.Apart t) :
    t.get m = t.get n := by
  apply Nat.eq_of_testBit_eq
  intro j
  rw [testBit_get, testBit_get, h (t.offset + j)]
  by_cases hj : j < t.width
  · have hout : ¬ s.Covers (t.offset + j) := fun hs => hst _ hs ⟨Nat.le_add_right _ _, by omega⟩
    rw [if_neg hout]
  · rw [decide_eq_false hj, Bool.false_and, Bool.false_and]

/-- The word stays as short as it was when the span lies within it. -/
theorem Puts.lt_two_pow {s : Span} {n v m bits : Nat} (h : s.Puts n v m) (hn : n < 2 ^ bits)
    (hfit : s.offset + s.width ≤ bits) : m < 2 ^ bits := by
  apply Nat.lt_pow_two_of_testBit
  intro i hi
  have hout : ¬ s.Covers i := fun hs => absurd hs.2 (by omega)
  rw [h i, if_neg hout]
  exact Nat.testBit_lt_two_pow (Nat.lt_of_lt_of_le hn (Nat.pow_le_pow_right (by decide) hi))

/-- Clearing the span by its mask and then setting it puts the number there. -/
theorem puts_masked (s : Span) {w : Nat} (hfit : s.offset + s.width ≤ w) (n v : BitVec w)
    (hv : v.toNat < 2 ^ s.width) :
    s.Puts n.toNat v.toNat
      ((n &&& ~~~(BitVec.ofNat w (2 ^ s.width - 1) <<< s.offset)) ||| v <<< s.offset).toNat := by
  intro i
  simp only [BitVec.testBit_toNat, BitVec.getLsbD_or, BitVec.getLsbD_and, BitVec.getLsbD_not,
    BitVec.getLsbD_shiftLeft, BitVec.getLsbD_ofNat, Nat.testBit_two_pow_sub_one]
  by_cases hin : s.Covers i
  · have hlt : i < w := Nat.lt_of_lt_of_le hin.2 hfit
    have hpos : ¬ i < s.offset := Nat.not_lt.mpr hin.1
    have hw : i - s.offset < s.width := by have := hin.2; omega
    have hsub : i - s.offset < w := by omega
    simp [hin, hlt, hpos, hw, hsub]
  · rw [if_neg hin]
    by_cases hlow : i < s.offset
    · by_cases hi : i < w
      · simp [hlow, hi]
      · simp [hi, BitVec.getLsbD_of_ge n i (Nat.not_lt.mp hi)]
    · have hhigh : ¬ i - s.offset < s.width := fun hlt => hin ⟨Nat.not_lt.mp hlow, by omega⟩
      have hzero : v.getLsbD (i - s.offset) = false := by
        rw [← BitVec.testBit_toNat]
        exact Nat.testBit_lt_two_pow
          (Nat.lt_of_lt_of_le hv (Nat.pow_le_pow_right (by decide) (Nat.not_lt.mp hhigh)))
      by_cases hi : i < w
      · simp [hlow, hi, hhigh, hzero]
      · simp [hi, hzero, BitVec.getLsbD_of_ge n i (Nat.not_lt.mp hi)]

end Span

/-! ## 2. Records put one entry at a time -/

section Records

variable {κ ν σ : Type} [DecidableEq κ]

/-- The last value put under a name, of the puts that count. -/
def lastPut (counts : κ → ν → Prop) [∀ name value, Decidable (counts name value)]
    (puts : List (κ × ν)) (name : κ) : Option ν :=
  puts.foldl (fun last put => if put.1 = name ∧ counts put.1 put.2 then some put.2 else last) none

theorem lastPut_concat (counts : κ → ν → Prop) [∀ name value, Decidable (counts name value)]
    (puts : List (κ × ν)) (put : κ × ν) (name : κ) :
    lastPut counts (puts ++ [put]) name =
      if put.1 = name ∧ counts put.1 put.2 then some put.2 else lastPut counts puts name := by
  rw [lastPut, List.foldl_append]
  rfl

/-- A record whose puts set their own entry, leave every other, and leave all of them when
they do not count shows under each name the last value put there. -/
theorem show_puts (counts : κ → ν → Prop) [∀ name value, Decidable (counts name value)]
    (look : σ → κ → Option ν) (set : σ → κ → ν → σ)
    (hself : ∀ record name value, counts name value → look (set record name value) name = some value)
    (hother : ∀ record name value other, counts name value → name ≠ other →
      look (set record name value) other = look record other)
    (hrefused : ∀ record name value, ¬ counts name value → set record name value = record)
    (record : σ) (puts : List (κ × ν)) (name : κ) :
    look (puts.foldl (fun record put => set record put.1 put.2) record) name =
      (lastPut counts puts name).or (look record name) := by
  induction puts using List.reverseRecOn with
  | nil => rfl
  | append_singleton puts put ih =>
    rw [List.foldl_append, lastPut_concat]
    change look (set _ put.1 put.2) name = _
    by_cases hcounts : counts put.1 put.2
    · by_cases hname : put.1 = name
      · rw [if_pos ⟨hname, hcounts⟩, ← hname]
        exact hself _ _ _ hcounts
      · rw [if_neg fun h => hname h.1, hother _ _ _ _ hcounts hname]
        exact ih
    · rw [if_neg fun h => hcounts h.2, hrefused _ _ _ hcounts]
      exact ih

end Records

end BitFields
