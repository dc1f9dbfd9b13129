import LumioVoxel.WordEncodings

/-!
# Digests by number arithmetic

SHA-256 with its words as natural numbers, in which every word is computed before the next one
is asked for.  It is the same function, in a form in which a proof can evaluate it: two byte
strings have different digests when the numbers differ.
-/

namespace LumioVoxel

namespace Sha256

/-! ## 1. Values before use -/

/-- Hands a number on once it is computed. -/
def forced {α : Type} (n : Nat) (k : Nat → α) : α :=
  match n with
  | 0 => k 0
  | m + 1 => k (m + 1)

@[simp] theorem forced_eq {α : Type} (n : Nat) (k : Nat → α) : forced n k = k n := by
  cases n with
  | zero => rfl
  | succ m => rfl

/-- Hands a byte string on once all its bytes are computed. -/
def forcedBytes {α : Type} : Bytes → (Bytes → α) → α
  | [], k => k []
  | b :: rest, k => forced b.toNat fun n => forcedBytes rest fun rest => k (UInt8.ofNat n :: rest)

@[simp] theorem forcedBytes_eq {α : Type} (bytes : Bytes) (k : Bytes → α) :
    forcedBytes bytes k = k bytes := by
  induction bytes generalizing k with
  | nil => rfl
  | cons b rest ih => rw [forcedBytes, forced_eq, ih, UInt8.ofNat_toNat]

/-! ## 2. Words as numbers -/

/-- Eight words. -/
structure Numbers where
  w0 : Nat
  w1 : Nat
  w2 : Nat
  w3 : Nat
  w4 : Nat
  w5 : Nat
  w6 : Nat
  w7 : Nat
  deriving DecidableEq

def ChainState.numbers (h : ChainState) : Numbers :=
  ⟨h.w0.toNat, h.w1.toNat, h.w2.toNat, h.w3.toNat, h.w4.toNat, h.w5.toNat, h.w6.toNat, h.w7.toNat⟩

theorem ChainState.numbers_injective {h h' : ChainState} (heq : h.numbers = h'.numbers) :
    h = h' := by
  obtain ⟨a0, a1, a2, a3, a4, a5, a6, a7⟩ := h
  obtain ⟨b0, b1, b2, b3, b4, b5, b6, b7⟩ := h'
  simpa only [numbers, Numbers.mk.injEq, UInt32.toNat_inj, ChainState.mk.injEq] using heq

/-- A word of 32 bits. -/
def word (n : Nat) : Nat := n % 4294967296

def rotated (x n : Nat) : Nat := (x >>> n) ||| word (x <<< (32 - n))

theorem toNat_rotateRight (x n : UInt32) (hpos : 0 < n.toNat) (hlt : n.toNat < 32) :
    (rotateRight x n).toNat = rotated x.toNat n.toNat := by
  have hleft : (32 - n).toNat = 32 - n.toNat :=
    UInt32.toNat_sub_of_le _ _ (UInt32.le_iff_toNat_le.mpr (Nat.le_of_lt hlt))
  rw [rotateRight, rotated, word, UInt32.toNat_or, UInt32.toNat_shiftRight, UInt32.toNat_shiftLeft,
    hleft, Nat.mod_eq_of_lt hlt, Nat.mod_eq_of_lt (by omega : 32 - n.toNat < 32)]

/-! ## 3. The schedule -/

def nextWord (w : List Nat) : Nat :=
  let w15 := w.getD 14 0
  let w2 := w.getD 1 0
  let s0 := rotated w15 7 ^^^ rotated w15 18 ^^^ (w15 >>> 3)
  let s1 := rotated w2 17 ^^^ rotated w2 19 ^^^ (w2 >>> 10)
  word (w.getD 15 0 + s0 + w.getD 6 0 + s1)

theorem scheduleStep_numbers (w : List UInt32) :
    (scheduleStep w).map UInt32.toNat = nextWord (w.map UInt32.toNat) :: w.map UInt32.toNat := by
  have hword : ∀ i, (w.map UInt32.toNat).getD i 0 = (w.getD i 0).toNat := by
    intro i
    rw [List.getD_eq_getElem?_getD, List.getElem?_map, List.getD_eq_getElem?_getD,
      ← UInt32.toNat_zero, Option.getD_map]
  simp only [scheduleStep, nextWord, List.map_cons, hword, UInt32.toNat_add, UInt32.toNat_xor,
    UInt32.toNat_shiftRight, toNat_rotateRight, UInt32.reduceToNat, Nat.reduceLT, Nat.reduceMod,
    Nat.reducePow, word, Nat.mod_add_mod]

def extended {α : Type} : Nat → List Nat → (List Nat → α) → α
  | 0, w, k => k w
  | n + 1, w, k => forced (nextWord w) fun next => extended n (next :: w) k

theorem extended_eq {α : Type} (n : Nat) (w : List UInt32) (k : List Nat → α) :
    extended n (w.map UInt32.toNat) k = k ((extendSchedule n w).map UInt32.toNat) := by
  induction n generalizing w with
  | zero => rfl
  | succ n ih => rw [extended, forced_eq, ← scheduleStep_numbers, ih, extendSchedule]

/-- A block's words. -/
def wordNumber (bytes : Bytes) : Nat :=
  bytes.foldl (fun acc b => word (acc <<< 8) ||| b.toNat) 0

theorem toNat_beWord (bytes : Bytes) : (beWord bytes).toNat = wordNumber bytes := by
  have hfold : ∀ (bytes : Bytes) (acc : UInt32),
      (bytes.foldl (fun (acc : UInt32) b => (acc <<< 8) ||| b.toUInt32) acc).toNat =
        bytes.foldl (fun (acc : Nat) b => word (acc <<< 8) ||| b.toNat) acc.toNat := by
    intro bytes
    induction bytes with
    | nil => exact fun _ => rfl
    | cons b rest ih =>
      intro acc
      rw [List.foldl_cons, List.foldl_cons, ih, UInt32.toNat_or, UInt32.toNat_shiftLeft,
        UInt8.toNat_toUInt32]
      rfl
  exact hfold bytes 0

def wordNumbers : Nat → Bytes → List Nat
  | 0, _ => []
  | n + 1, block => wordNumber (block.take 4) :: wordNumbers n (block.drop 4)

theorem blockWords_numbers (n : Nat) (block : Bytes) :
    (blockWords n block).map UInt32.toNat = wordNumbers n block := by
  induction n generalizing block with
  | zero => rfl
  | succ n ih => rw [blockWords, List.map_cons, toNat_beWord, ih, wordNumbers]

/-! ## 4. The rounds -/

def rounded {α : Type} (a : Numbers) (k w : Nat) (next : Numbers → α) : α :=
  let s1 := rotated a.w4 6 ^^^ rotated a.w4 11 ^^^ rotated a.w4 25
  let ch := (a.w4 &&& a.w5) ^^^ ((4294967295 - a.w4) &&& a.w6)
  let t1 := a.w7 + s1 + ch + k + w
  let s0 := rotated a.w0 2 ^^^ rotated a.w0 13 ^^^ rotated a.w0 22
  let maj := (a.w0 &&& a.w1) ^^^ (a.w0 &&& a.w2) ^^^ (a.w1 &&& a.w2)
  forced (word (t1 + (s0 + maj))) fun first => forced (word (a.w3 + t1)) fun fifth =>
    next ⟨first, a.w0, a.w1, a.w2, fifth, a.w4, a.w5, a.w6⟩

theorem rounded_eq {α : Type} (a : ChainState) (k w : UInt32) (next : Numbers → α) :
    rounded a.numbers k.toNat w.toNat next = next (round a k w).numbers := by
  simp only [rounded, round, forced_eq, ChainState.numbers, word, UInt32.toNat_add,
    UInt32.toNat_xor, UInt32.toNat_and, UInt32.toNat_not, toNat_rotateRight, UInt32.reduceToNat,
    Nat.reduceLT, UInt32.size, Nat.reduceSub, Nat.reducePow, Nat.mod_add_mod, Nat.add_mod_mod]

def allRounds {α : Type} : List (Nat × Nat) → Numbers → (Numbers → α) → α
  | [], a, next => next a
  | (k, w) :: rest, a, next => rounded a k w fun a => allRounds rest a next

theorem allRounds_eq {α : Type} (kws : List (UInt32 × UInt32)) (a : ChainState)
    (next : Numbers → α) :
    allRounds (kws.map (Prod.map UInt32.toNat UInt32.toNat)) a.numbers next =
      next (kws.foldl (fun s kw => round s kw.1 kw.2) a).numbers := by
  induction kws generalizing a with
  | nil => rfl
  | cons kw rest ih =>
    rw [List.map_cons, Prod.map, allRounds, rounded_eq, ih, List.foldl_cons]

def constantNumbers : List Nat := roundConstants.map UInt32.toNat

def compressed {α : Type} (h : Numbers) (block : Bytes) (next : Numbers → α) : α :=
  extended 48 (wordNumbers 16 block).reverse fun w =>
    allRounds (constantNumbers.zip w.reverse) h fun a =>
      forced (word (h.w0 + a.w0)) fun h0 => forced (word (h.w1 + a.w1)) fun h1 =>
      forced (word (h.w2 + a.w2)) fun h2 => forced (word (h.w3 + a.w3)) fun h3 =>
      forced (word (h.w4 + a.w4)) fun h4 => forced (word (h.w5 + a.w5)) fun h5 =>
      forced (word (h.w6 + a.w6)) fun h6 => forced (word (h.w7 + a.w7)) fun h7 =>
        next ⟨h0, h1, h2, h3, h4, h5, h6, h7⟩

theorem compressed_eq {α : Type} (h : ChainState) (block : Bytes) (next : Numbers → α) :
    compressed h.numbers block next = next (compress h block).numbers := by
  rw [compressed, ← blockWords_numbers, ← List.map_reverse, extended_eq, ← List.map_reverse,
    constantNumbers, List.zip_map, allRounds_eq]
  simp only [forced_eq, compress, ChainState.numbers, word, UInt32.toNat_add, Nat.reducePow]
  rfl

/-! ## 5. The digest -/

def chained : List Bytes → Numbers → Numbers
  | [], h => h
  | block :: rest, h => forcedBytes block fun block => compressed h block fun h => chained rest h

theorem chained_eq (blocks : List Bytes) (h : ChainState) :
    chained blocks h.numbers = (blocks.foldl compress h).numbers := by
  induction blocks generalizing h with
  | nil => rfl
  | cons block rest ih => rw [chained, forcedBytes_eq, compressed_eq, ih, List.foldl_cons]

/-- The words of the digest. -/
def digestNumbers (data : Bytes) : Numbers :=
  forcedBytes data fun data =>
    chained (chunks (data.length / 64 + 2) (pad data)) initialState.numbers

theorem u32BeBytes_injective {a b : UInt32} (h : u32BeBytes a = u32BeBytes b) : a = b :=
  u32LeBytes_injective (congrArg (fun bytes => bytes.toList.reverse) h)

/-- The bytes of eight words tell them. -/
theorem eq_of_output {h h' : ChainState}
    (heq : u32BeBytes h.w0 ++ u32BeBytes h.w1 ++ u32BeBytes h.w2 ++ u32BeBytes h.w3 ++
        u32BeBytes h.w4 ++ u32BeBytes h.w5 ++ u32BeBytes h.w6 ++ u32BeBytes h.w7 =
      u32BeBytes h'.w0 ++ u32BeBytes h'.w1 ++ u32BeBytes h'.w2 ++ u32BeBytes h'.w3 ++
        u32BeBytes h'.w4 ++ u32BeBytes h'.w5 ++ u32BeBytes h'.w6 ++ u32BeBytes h'.w7) :
    h = h' := by
  obtain ⟨heq, h7⟩ := Vector.append_inj heq
  obtain ⟨heq, h6⟩ := Vector.append_inj heq
  obtain ⟨heq, h5⟩ := Vector.append_inj heq
  obtain ⟨heq, h4⟩ := Vector.append_inj heq
  obtain ⟨heq, h3⟩ := Vector.append_inj heq
  obtain ⟨heq, h2⟩ := Vector.append_inj heq
  obtain ⟨h0, h1⟩ := Vector.append_inj heq
  rcases h with ⟨a0, a1, a2, a3, a4, a5, a6, a7⟩
  rcases h' with ⟨b0, b1, b2, b3, b4, b5, b6, b7⟩
  simp only [ChainState.mk.injEq]
  exact ⟨u32BeBytes_injective h0, u32BeBytes_injective h1, u32BeBytes_injective h2,
    u32BeBytes_injective h3, u32BeBytes_injective h4, u32BeBytes_injective h5,
    u32BeBytes_injective h6, u32BeBytes_injective h7⟩

end Sha256

open Sha256 in
/-- **Digests are told apart by their numbers.** -/
theorem sha256_eq_iff_numbers (a b : Bytes) :
    sha256 a = sha256 b ↔ digestNumbers a = digestNumbers b := by
  simp only [digestNumbers, forcedBytes_eq, chained_eq]
  constructor
  · intro h
    exact congrArg ChainState.numbers (eq_of_output h)
  · intro h
    simp only [sha256, ChainState.numbers_injective h]

end LumioVoxel
