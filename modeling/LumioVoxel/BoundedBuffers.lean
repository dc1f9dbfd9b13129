import Mathlib.Data.List.Induction
import Mathlib.Order.Lattice

/-!
# Bounded buffers

Items are counted one after another, and written from the front into a buffer that does
not grow.  Counting goes on after the buffer is full.
-/

namespace BoundedBuffers

variable {α : Type}

structure Counter (α : Type) where
  actualCount : Nat
  writtenCount : Nat
  buffer : List α

namespace Counter

/-- Written at the next place, if there is one. -/
def write (s : Counter α) (a : α) : Counter α :=
  if s.writtenCount < s.buffer.length then
    { s with buffer := s.buffer.set s.writtenCount a, writtenCount := s.writtenCount + 1 }
  else s

def count (s : Counter α) (a : α) : Counter α :=
  write { s with actualCount := s.actualCount + 1 } a

/-- The counter once the items have gone by. -/
def after (buffer items : List α) : Counter α where
  actualCount := items.length
  writtenCount := min buffer.length items.length
  buffer := items.take buffer.length ++ buffer.drop items.length

theorem length_buffer_after (buffer items : List α) :
    (after buffer items).buffer.length = buffer.length := by
  simp only [after, List.length_append, List.length_take, List.length_drop]
  omega

theorem after_nil (buffer : List α) : after buffer [] = ⟨0, 0, buffer⟩ := by
  simp only [after, List.length_nil, Nat.min_zero, List.take_nil, List.drop_zero, List.nil_append]

/-- What one more item does to a buffer depends on whether there is room. -/
theorem count_after (buffer items : List α) (a : α) :
    (after buffer items).count a = after buffer (items ++ [a]) := by
  unfold count write
  rw [length_buffer_after]
  by_cases hroom : items.length < buffer.length
  · have hwritten : (after buffer items).writtenCount = items.length :=
      Nat.min_eq_right hroom.le
    rw [if_pos (hwritten ▸ hroom)]
    have hlength : (items.take buffer.length).length = items.length := by
      rw [List.take_of_length_le hroom.le]
    have hset : (after buffer items).buffer.set items.length a =
        items ++ a :: buffer.drop (items.length + 1) := by
      simp only [after, List.take_of_length_le hroom.le]
      rw [List.set_append_right _ _ (le_refl _), Nat.sub_self, List.drop_eq_getElem_cons hroom,
        List.set_cons_zero]
    simp only [hwritten, hset]
    have hfits : (items ++ [a]).length ≤ buffer.length := by
      rw [List.length_append]
      exact hroom
    simp only [after, List.take_of_length_le hfits, List.length_append, List.length_singleton,
      List.append_assoc, List.singleton_append]
    rw [Nat.min_eq_right hroom]
  · have hfull : buffer.length ≤ items.length := not_lt.mp hroom
    have hwritten : (after buffer items).writtenCount = buffer.length := Nat.min_eq_left hfull
    rw [if_neg (hwritten ▸ lt_irrefl _)]
    have hnext : buffer.length ≤ (items ++ [a]).length := by
      rw [List.length_append]
      omega
    simp only [after, List.length_append, List.length_singleton, List.drop_of_length_le hfull,
      List.drop_of_length_le (hfull.trans (Nat.le_succ _)), List.take_append_of_le_length hfull]
    rw [Nat.min_eq_left hfull, Nat.min_eq_left (hfull.trans (Nat.le_succ _))]

theorem foldl_count (buffer items more : List α) :
    more.foldl count (after buffer items) = after buffer (items ++ more) := by
  induction more generalizing items with
  | nil => rw [List.foldl_nil, List.append_nil]
  | cons a more ih => rw [List.foldl_cons, count_after, ih, List.append_assoc, List.singleton_append]

/-- A buffer that takes all the items has them at its front. -/
theorem take_written {buffer items : List α}
    (h : (after buffer items).actualCount ≤ buffer.length) :
    (after buffer items).buffer.take (after buffer items).writtenCount = items := by
  have hfits : items.length ≤ buffer.length := h
  have hwritten : (after buffer items).writtenCount = items.length := Nat.min_eq_right hfits
  rw [hwritten]
  simp only [after, List.take_of_length_le hfits]
  exact List.take_left

end Counter

/-- The items written, and the rest of the buffer as it was. -/
structure Filled (buffer written rest : List α) : Prop where
  front : rest = written ++ buffer.drop written.length
  fits : written.length ≤ buffer.length

theorem filled_after (buffer items : List α) :
    Filled buffer (items.take buffer.length) (Counter.after buffer items).buffer where
  front := by
    rw [Counter.after, List.length_take]
    rcases le_total buffer.length items.length with hfull | hroom
    · rw [Nat.min_eq_left hfull, List.drop_of_length_le hfull, List.drop_length]
    · rw [Nat.min_eq_right hroom]
  fits := List.length_take_le _ _

/-- Items written at the positions they are numbered with replace the front of the buffer. -/
theorem foldl_set_zipIdx (buffer items : List α) (h : items.length ≤ buffer.length) :
    items.zipIdx.foldl (fun b item => b.set item.2 item.1) buffer =
      items ++ buffer.drop items.length := by
  induction items using List.reverseRecOn with
  | nil => rfl
  | append_singleton items a ih =>
    rw [List.length_append, List.length_singleton] at h ⊢
    rw [List.zipIdx_append, List.foldl_append, ih (by omega), Nat.zero_add]
    simp only [List.zipIdx_cons, List.zipIdx_nil, List.foldl_cons, List.foldl_nil]
    rw [List.set_append_right _ _ (Nat.le_refl _), Nat.sub_self,
      List.drop_eq_getElem_cons (by omega), List.set_cons_zero, List.append_assoc]
    rfl

end BoundedBuffers
