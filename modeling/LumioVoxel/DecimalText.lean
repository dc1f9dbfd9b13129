import Mathlib.Algebra.Group.Int.Defs
import Mathlib.Algebra.Group.Nat.Defs
import Mathlib.Data.List.Basic
import Mathlib.Data.List.Induction

/-!
# Canonical decimal text

A natural number or an integer is written in exactly one way: no sign but a
leading minus, no leading zero, and no negative zero.  The two directions proved
here (a canonical text is the spelling of its value, and the spelling of a value
is canonical) are what a parser that only accepts canonical spellings needs.
-/

namespace DecimalText

/-- The text of a natural number. -/
abbrev digits (n : Nat) : List Char := Nat.toDigits 10 n

/-- The number a digit text denotes. -/
abbrev value (ds : List Char) : Nat := Nat.ofDigitChars 10 ds 0

/-- A non-empty digit text without a leading zero. -/
def Canonical (ds : List Char) : Prop :=
  ds ≠ [] ∧ (∀ c ∈ ds, c.isDigit = true) ∧ (1 < ds.length → ds.head? ≠ some '0')

/-! ## 1. Digits -/

theorem digitChar_of_isDigit {c : Char} (h : c.isDigit = true) :
    c.toNat - 48 < 10 ∧ (c.toNat - 48).digitChar = c := by
  simp only [Char.isDigit, Bool.and_eq_true, decide_eq_true_eq, ge_iff_le] at h
  obtain ⟨hlo, hhi⟩ := h
  rw [UInt32.le_iff_toNat_le] at hlo hhi
  have hlo' : 48 ≤ c.toNat := hlo
  have hhi' : c.toNat ≤ 57 := hhi
  have hlt : c.toNat - 48 < 10 := by omega
  refine ⟨hlt, Char.toNat_inj.mp ?_⟩
  rw [Nat.toNat_digitChar_of_lt_ten hlt]
  omega

theorem value_append_singleton (ds : List Char) (c : Char) :
    value (ds ++ [c]) = 10 * value ds + (c.toNat - 48) := by
  simp only [value, Nat.ofDigitChars_append, Nat.ofDigitChars_cons, Nat.ofDigitChars_nil]
  rfl

theorem value_digits (n : Nat) : value (digits n) = n := Nat.ofDigitChars_ten_toDigits

theorem digits_injective {m n : Nat} (h : digits m = digits n) : m = n := by
  rw [← value_digits m, h, value_digits]

theorem isDigit_of_mem_digits {n : Nat} {c : Char} (h : c ∈ digits n) : c.isDigit = true :=
  Nat.isDigit_of_mem_toDigits (by decide) (by decide) h

theorem length_digits_le {n k : Nat} (hk : 0 < k) : (digits n).length ≤ k ↔ n < 10 ^ k :=
  Nat.length_toDigits_le_iff (by decide) hk

/-- The first digit of a positive number is not zero. -/
theorem head?_digits_ne_zero {n : Nat} (hn : 0 < n) : (digits n).head? ≠ some '0' := by
  induction n using Nat.strongRecOn with
  | ind n ih =>
    by_cases hlt : n < 10
    · rw [digits, Nat.toDigits_of_lt_base hlt, List.head?_cons]
      intro h
      have hc := congrArg Char.toNat (Option.some.inj h)
      rw [Nat.toNat_digitChar_of_lt_ten hlt] at hc
      simp at hc
      omega
    · rw [digits, Nat.toDigits_of_base_le (by decide) (by omega), List.head?_append]
      have hrec := ih (n / 10) (by omega) (by omega)
      cases hd : (Nat.toDigits 10 (n / 10)).head? with
      | none => exact absurd (List.head?_eq_none_iff.mp hd) Nat.toDigits_ne_nil
      | some c => simpa [digits, hd] using hrec

/-! ## 2. Canonical spellings -/

theorem canonical_digits (n : Nat) : Canonical (digits n) := by
  refine ⟨Nat.toDigits_ne_nil, fun c => isDigit_of_mem_digits, fun hlen => ?_⟩
  apply head?_digits_ne_zero
  by_contra hn
  obtain rfl : n = 0 := by omega
  simp at hlen

private theorem value_pos {ds : List Char} (h : Canonical ds) (hhead : ds.head? ≠ some '0') :
    0 < value ds := by
  obtain ⟨hne, hdig, -⟩ := h
  cases ds with
  | nil => exact absurd rfl hne
  | cons c rest =>
    have hc := digitChar_of_isDigit (hdig c List.mem_cons_self)
    have hpos : 0 < c.toNat - 48 := by
      by_contra h0
      have hz : c.toNat - 48 = 0 := by omega
      rw [hz] at hc
      exact hhead (by rw [List.head?_cons, ← hc.2]; rfl)
    rw [value, Nat.ofDigitChars_cons, Nat.ofDigitChars_eq_ofDigitChars_zero]
    have : 0 < 10 ^ rest.length := Nat.pow_pos (by decide)
    have hmul := Nat.mul_pos this (show 0 < 10 * 0 + (c.toNat - '0'.toNat) by simpa using hpos)
    omega

/-- **Uniqueness.** A canonical text is the spelling of its value. -/
theorem digits_value {ds : List Char} (h : Canonical ds) : digits (value ds) = ds := by
  induction ds using List.reverseRecOn with
  | nil => exact absurd rfl h.1
  | append_singleton ds c ih =>
    have hc := digitChar_of_isDigit (h.2.1 c (by simp))
    rw [value_append_singleton]
    by_cases hnil : ds = []
    · subst hnil
      simp only [value, Nat.ofDigitChars_nil, Nat.mul_zero, Nat.zero_add, List.nil_append]
      rw [digits, Nat.toDigits_of_lt_base hc.1, hc.2]
    · -- the text before the last digit is canonical and does not start with zero
      have hhead : ds.head? ≠ some '0' := by
        have hlen : 1 < (ds ++ [c]).length := by
          have := List.length_pos_iff.mpr hnil
          simp only [List.length_append, List.length_singleton]
          omega
        have := h.2.2 hlen
        rwa [List.head?_append_of_ne_nil _ hnil] at this
      have hds : Canonical ds :=
        ⟨hnil, fun d hd => h.2.1 d (List.mem_append_left _ hd), fun _ => hhead⟩
      rw [digits, ← Nat.toDigits_append_toDigits (by decide) (value_pos hds hhead) hc.1,
        Nat.toDigits_of_lt_base hc.1, hc.2]
      exact congrArg (· ++ [c]) (ih hds)

/-! ## 3. Integers -/

/-- The text of an integer: a minus sign for the negative ones, then the digits. -/
def intText : Int → List Char
  | .ofNat n => digits n
  | .negSucc n => '-' :: digits (n + 1)

theorem toList_toString_int (a : Int) : (toString a).toList = intText a := by
  cases a with
  | ofNat n => simp [intText, Int.toString_eq_repr, Int.repr_eq_if, digits]
  | negSucc n =>
    simp [intText, Int.toString_eq_repr, Int.repr, digits]

@[simp] theorem intText_natCast (n : Nat) : intText (n : Int) = digits n := rfl

theorem intText_neg {n : Nat} (hn : 0 < n) : intText (-(n : Int)) = '-' :: digits n := by
  obtain ⟨m, rfl⟩ := Nat.exists_eq_succ_of_ne_zero (Nat.ne_of_gt hn)
  rfl

theorem not_isDigit_minus : ('-' : Char).isDigit = false := by decide

theorem head?_digits_ne_minus (n : Nat) : (digits n).head? ≠ some '-' := by
  intro h
  have := isDigit_of_mem_digits (List.mem_of_mem_head? h)
  rw [not_isDigit_minus] at this
  exact Bool.noConfusion this

theorem mem_intText {a : Int} {c : Char} (h : c ∈ intText a) : c = '-' ∨ c.isDigit = true := by
  cases a with
  | ofNat n => exact Or.inr (isDigit_of_mem_digits h)
  | negSucc n =>
    rcases List.mem_cons.mp h with h | h
    · exact Or.inl h
    · exact Or.inr (isDigit_of_mem_digits h)

end DecimalText
