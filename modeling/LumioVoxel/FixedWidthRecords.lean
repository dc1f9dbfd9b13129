import Mathlib.Data.List.Basic

/-!
# Fixed-width records

A list of values stored as records of one width, back to back, and read again
by cutting the bytes into chunks.  A codec carries the two inverse laws of one
record; the library lifts them to whole tables.
-/

/-- The first `n` chunks of the given width. -/
def takeChunks {α : Type} (width : Nat) : Nat → List α → List (List α)
  | 0, _ => []
  | n + 1, xs => xs.take width :: takeChunks width n (xs.drop width)

/-- All chunks of exactly the given width; a shorter remainder is left out. -/
def fullChunks {α : Type} (width : Nat) (xs : List α) : List (List α) :=
  takeChunks width (xs.length / width) xs

section Chunks

variable {α β : Type} {width : Nat}

@[simp] theorem length_takeChunks (n : Nat) (xs : List α) :
    (takeChunks width n xs).length = n := by
  induction n generalizing xs with
  | zero => rfl
  | succ n ih => rw [takeChunks, List.length_cons, ih]

theorem length_of_mem_takeChunks {n : Nat} {xs chunk : List α} (hlen : n * width ≤ xs.length)
    (h : chunk ∈ takeChunks width n xs) : chunk.length = width := by
  induction n generalizing xs with
  | zero => exact absurd h List.not_mem_nil
  | succ n ih =>
    rw [Nat.succ_mul] at hlen
    rcases List.mem_cons.mp h with rfl | hrest
    · rw [List.length_take]
      exact Nat.min_eq_left (Nat.le_trans (Nat.le_add_left _ _) hlen)
    · apply ih _ hrest
      rw [List.length_drop]
      exact Nat.le_sub_of_add_le hlen

/-- Chunks laid end to end give back the bytes they cover. -/
theorem flatten_takeChunks {n : Nat} {xs : List α} (hlen : xs.length = n * width) :
    (takeChunks width n xs).flatten = xs := by
  induction n generalizing xs with
  | zero =>
    rw [Nat.zero_mul] at hlen
    rw [List.length_eq_zero_iff.mp hlen]
    rfl
  | succ n ih =>
    rw [Nat.succ_mul] at hlen
    have hrest : (xs.drop width).length = n * width := by
      rw [List.length_drop, hlen, Nat.add_sub_cancel]
    rw [takeChunks, List.flatten_cons, ih hrest, List.take_append_drop]

theorem takeChunks_flatMap {encode : β → List α} (hlen : ∀ b, (encode b).length = width)
    (bs : List β) : takeChunks width bs.length (bs.flatMap encode) = bs.map encode := by
  induction bs with
  | nil => rfl
  | cons b bs ih =>
    have hb := hlen b
    rw [List.length_cons, List.flatMap_cons, takeChunks, List.map_cons, List.take_left' hb,
      List.drop_left' hb, ih]

end Chunks

/-- One record of a fixed width, with both inverse laws. -/
structure RecordCodec (α β : Type) where
  width : Nat
  encode : β → List α
  decode : List α → β
  width_pos : 0 < width
  length_encode : ∀ b, (encode b).length = width
  decode_encode : ∀ b, decode (encode b) = b
  encode_decode : ∀ xs, xs.length = width → encode (decode xs) = xs

namespace RecordCodec

variable {α β : Type} (codec : RecordCodec α β)

/-- The records of the values, back to back. -/
def packed (bs : List β) : List α := bs.flatMap codec.encode

/-- The values of all full records. -/
def unpacked (xs : List α) : List β := (fullChunks codec.width xs).map codec.decode

theorem length_packed (bs : List β) : (codec.packed bs).length = bs.length * codec.width := by
  induction bs with
  | nil => rw [List.length_nil, Nat.zero_mul]; rfl
  | cons b bs ih =>
    have hcons : codec.packed (b :: bs) = codec.encode b ++ codec.packed bs := rfl
    rw [hcons, List.length_append, ih, codec.length_encode, List.length_cons, Nat.succ_mul,
      Nat.add_comm]

theorem length_unpacked (xs : List α) : (codec.unpacked xs).length = xs.length / codec.width := by
  rw [unpacked, List.length_map, fullChunks, length_takeChunks]

@[simp] theorem unpacked_packed (bs : List β) : codec.unpacked (codec.packed bs) = bs := by
  have hcount : (codec.packed bs).length / codec.width = bs.length := by
    rw [length_packed, Nat.mul_div_cancel _ codec.width_pos]
  have hdecode : codec.decode ∘ codec.encode = id := funext codec.decode_encode
  rw [unpacked, fullChunks, hcount, packed, takeChunks_flatMap codec.length_encode, List.map_map,
    hdecode, List.map_id]

/-- A table of whole records is the packing of the values read from it. -/
theorem packed_unpacked {xs : List α} (h : codec.width ∣ xs.length) :
    codec.packed (codec.unpacked xs) = xs := by
  have hlen : xs.length = xs.length / codec.width * codec.width := (Nat.div_mul_cancel h).symm
  have hkeep : (fullChunks codec.width xs).flatMap (codec.encode ∘ codec.decode) =
      (fullChunks codec.width xs).flatMap id := by
    apply List.flatMap_congr
    intro chunk hchunk
    exact codec.encode_decode chunk (length_of_mem_takeChunks (Nat.le_of_eq hlen.symm) hchunk)
  rw [packed, unpacked, List.flatMap_map]
  refine hkeep.trans ?_
  rw [List.flatMap_id, fullChunks, flatten_takeChunks hlen]

end RecordCodec
