import Mathlib.Algebra.Group.Nat.Defs
import Mathlib.Data.List.Basic

/-!
# Plumbing: bytes, SHA-256, hexadecimal

The repository's own hash and the byte encodings everything above it shares.
Nothing here knows about sections or revisions.  The hash is computed, never
assumed: a run that needs two digests to differ evaluates them.
-/

namespace LumioVoxel

abbrev Bytes := List UInt8

/-- A 32-byte digest. -/
abbrev Digest := Vector UInt8 32

/-- The bytes of a string, in UTF-8. -/
def utf8 (s : String) : Bytes := s.toByteArray.data.toList

theorem utf8_injective {s t : String} (h : utf8 s = utf8 t) : s = t := by
  apply String.toByteArray_inj.mp
  exact ByteArray.ext (Array.toList_inj.mp h)

theorem fromUTF8?_utf8 (s : String) : String.fromUTF8? ⟨(utf8 s).toArray⟩ = some s := by
  have hbytes : (⟨(utf8 s).toArray⟩ : ByteArray) = s.toByteArray := ByteArray.ext rfl
  rw [hbytes, String.fromUTF8?, dif_pos s.isValidUTF8]
  rfl

theorem fromUTF8?_eq_some {bytes : Bytes} {s : String} :
    String.fromUTF8? ⟨bytes.toArray⟩ = some s ↔ bytes = utf8 s := by
  constructor
  · intro h
    unfold String.fromUTF8? at h
    split at h
    · obtain rfl := Option.some.inj h
      rfl
    · cases h
  · rintro rfl
    exact fromUTF8?_utf8 s

/-- `get(start..stop)` on a slice. -/
def slice (bytes : Bytes) (start stop : Nat) : Option Bytes :=
  if start ≤ stop ∧ stop ≤ bytes.length then some ((bytes.drop start).take (stop - start))
  else none

/-- `checked_add` on a `usize`. -/
def checkedAddUsize (a b : Nat) : Option Nat := if a + b < 2 ^ 64 then some (a + b) else none

theorem checkedAddUsize_eq_some {a b c : Nat} :
    checkedAddUsize a b = some c ↔ c = a + b ∧ c < 2 ^ 64 := by
  unfold checkedAddUsize
  constructor
  · intro h
    split at h
    · obtain rfl := Option.some.inj h
      exact ⟨rfl, by assumption⟩
    · cases h
  · rintro ⟨rfl, hlt⟩
    exact if_pos hlt

/-- What a slice of `n` bytes is, read from what is left at its start. -/
theorem slice_eq_some {bytes part : Bytes} {start n : Nat} (hstart : start ≤ bytes.length) :
    slice bytes start (start + n) = some part ↔
      part.length = n ∧ bytes.drop start = part ++ bytes.drop (start + n) := by
  have hlen : (bytes.drop start).length = bytes.length - start := List.length_drop
  unfold slice
  rw [Nat.add_sub_cancel_left]
  constructor
  · intro h
    split at h
    · rename_i hin
      obtain rfl := Option.some.inj h
      rw [List.length_take]
      refine ⟨by omega, ?_⟩
      rw [← List.drop_drop, List.take_append_drop]
    · cases h
  · rintro ⟨rfl, hsplit⟩
    have hsplitLen := congrArg List.length hsplit
    rw [List.length_append, List.length_drop, List.length_drop] at hsplitLen
    rw [if_pos ⟨Nat.le_add_right _ _, by omega⟩, hsplit, List.take_left]

/-! ## 1. Fixed-width integers as bytes -/

def u16LeBytes (n : UInt16) : Bytes :=
  [n.toUInt8, (n >>> 8).toUInt8]

def u32LeBytes (n : UInt32) : Bytes :=
  [n.toUInt8, (n >>> 8).toUInt8, (n >>> 16).toUInt8, (n >>> 24).toUInt8]

def u32BeBytes (n : UInt32) : Vector UInt8 4 :=
  #v[(n >>> 24).toUInt8, (n >>> 16).toUInt8, (n >>> 8).toUInt8, n.toUInt8]

def u64LeBytes (n : UInt64) : Bytes :=
  [n.toUInt8, (n >>> 8).toUInt8, (n >>> 16).toUInt8, (n >>> 24).toUInt8,
   (n >>> 32).toUInt8, (n >>> 40).toUInt8, (n >>> 48).toUInt8, (n >>> 56).toUInt8]

def u64BeBytes (n : UInt64) : Bytes := (u64LeBytes n).reverse

/-- `u16::from_le_bytes`. -/
def u16FromLeBytes (b0 b1 : UInt8) : UInt16 := UInt16.ofNat (b0.toNat + 256 * b1.toNat)

/-- `u32::from_le_bytes`. -/
def u32FromLeBytes (b0 b1 b2 b3 : UInt8) : UInt32 :=
  UInt32.ofNat (b0.toNat + 256 * b1.toNat + 65536 * b2.toNat + 16777216 * b3.toNat)

theorem u16FromLeBytes_bytes (n : UInt16) :
    u16FromLeBytes n.toUInt8 (n >>> 8).toUInt8 = n := by
  have hlt := n.toNat_lt
  apply UInt16.toNat_inj.mp
  simp [u16FromLeBytes, Nat.shiftRight_eq_div_pow]
  omega

theorem u32FromLeBytes_bytes (n : UInt32) :
    u32FromLeBytes n.toUInt8 (n >>> 8).toUInt8 (n >>> 16).toUInt8 (n >>> 24).toUInt8 = n := by
  have hlt := n.toNat_lt
  apply UInt32.toNat_inj.mp
  simp [u32FromLeBytes, Nat.shiftRight_eq_div_pow]
  omega

theorem u16LeBytes_fromLeBytes (b0 b1 : UInt8) : u16LeBytes (u16FromLeBytes b0 b1) = [b0, b1] := by
  have h0 := b0.toNat_lt
  have h1 := b1.toNat_lt
  simp only [u16LeBytes, List.cons.injEq, and_true]
  constructor <;> apply UInt8.toNat_inj.mp
  · simp [u16FromLeBytes]
  · simp [u16FromLeBytes, Nat.shiftRight_eq_div_pow]
    omega

theorem u32LeBytes_fromLeBytes (b0 b1 b2 b3 : UInt8) :
    u32LeBytes (u32FromLeBytes b0 b1 b2 b3) = [b0, b1, b2, b3] := by
  have h0 := b0.toNat_lt
  have h1 := b1.toNat_lt
  have h2 := b2.toNat_lt
  have h3 := b3.toNat_lt
  simp only [u32LeBytes, List.cons.injEq, and_true]
  refine ⟨?_, ?_, ?_, ?_⟩ <;> apply UInt8.toNat_inj.mp
  · simp [u32FromLeBytes]
  all_goals
    simp [u32FromLeBytes, Nat.shiftRight_eq_div_pow]
    omega

/-! ## 2. SHA-256 -/

namespace Sha256

/-- The round constants `K`. -/
def roundConstants : List UInt32 := [
  0x428a2f98, 0x71374491, 0xb5c0fbcf, 0xe9b5dba5, 0x3956c25b, 0x59f111f1, 0x923f82a4, 0xab1c5ed5,
  0xd807aa98, 0x12835b01, 0x243185be, 0x550c7dc3, 0x72be5d74, 0x80deb1fe, 0x9bdc06a7, 0xc19bf174,
  0xe49b69c1, 0xefbe4786, 0x0fc19dc6, 0x240ca1cc, 0x2de92c6f, 0x4a7484aa, 0x5cb0a9dc, 0x76f988da,
  0x983e5152, 0xa831c66d, 0xb00327c8, 0xbf597fc7, 0xc6e00bf3, 0xd5a79147, 0x06ca6351, 0x14292967,
  0x27b70a85, 0x2e1b2138, 0x4d2c6dfc, 0x53380d13, 0x650a7354, 0x766a0abb, 0x81c2c92e, 0x92722c85,
  0xa2bfe8a1, 0xa81a664b, 0xc24b8b70, 0xc76c51a3, 0xd192e819, 0xd6990624, 0xf40e3585, 0x106aa070,
  0x19a4c116, 0x1e376c08, 0x2748774c, 0x34b0bcb5, 0x391c0cb3, 0x4ed8aa4a, 0x5b9cca4f, 0x682e6ff3,
  0x748f82ee, 0x78a5636f, 0x84c87814, 0x8cc70208, 0x90befffa, 0xa4506ceb, 0xbef9a3f7, 0xc67178f2]

def rotateRight (x n : UInt32) : UInt32 := (x >>> n) ||| (x <<< (32 - n))

/-- Eight chaining words; the source's `h[0..8]` and `a[0..8]`. -/
structure ChainState where
  w0 : UInt32
  w1 : UInt32
  w2 : UInt32
  w3 : UInt32
  w4 : UInt32
  w5 : UInt32
  w6 : UInt32
  w7 : UInt32
  deriving DecidableEq, Repr

def initialState : ChainState :=
  ⟨0x6a09e667, 0xbb67ae85, 0x3c6ef372, 0xa54ff53a, 0x510e527f, 0x9b05688c, 0x1f83d9ab, 0x5be0cd19⟩

/-- Zero bytes pushed until the length is 56 modulo 64; `n` is the message length. -/
def paddingZeros (n : Nat) : Nat := (119 - n % 64) % 64

/-- The message, the delimiter, the zeros and the bit length in 64 bits. -/
def pad (data : Bytes) : Bytes :=
  data ++ [0x80] ++ List.replicate (paddingZeros data.length) 0 ++
    u64BeBytes (UInt64.ofNat data.length * 8)

/-- `chunks(64)`, given at least as many rounds as there are chunks. -/
def chunks : Nat → Bytes → List Bytes
  | 0, _ => []
  | rounds + 1, buf => if buf.isEmpty then [] else buf.take 64 :: chunks rounds (buf.drop 64)

def beWord (bytes : Bytes) : UInt32 :=
  bytes.foldl (fun acc b => (acc <<< 8) ||| b.toUInt32) 0

def blockWords : Nat → Bytes → List UInt32
  | 0, _ => []
  | n + 1, block => beWord (block.take 4) :: blockWords n (block.drop 4)

/-- One more schedule word.  The list holds the words so far, latest first, so
`w[i - k]` of the source stands at position `k - 1`. -/
def scheduleStep (w : List UInt32) : List UInt32 :=
  let w15 := w.getD 14 0
  let w2 := w.getD 1 0
  let s0 := rotateRight w15 7 ^^^ rotateRight w15 18 ^^^ (w15 >>> 3)
  let s1 := rotateRight w2 17 ^^^ rotateRight w2 19 ^^^ (w2 >>> 10)
  (w.getD 15 0 + s0 + w.getD 6 0 + s1) :: w

def extendSchedule : Nat → List UInt32 → List UInt32
  | 0, w => w
  | n + 1, w => extendSchedule n (scheduleStep w)

def schedule (block : Bytes) : List UInt32 :=
  (extendSchedule 48 (blockWords 16 block).reverse).reverse

def round (a : ChainState) (k word : UInt32) : ChainState :=
  let s1 := rotateRight a.w4 6 ^^^ rotateRight a.w4 11 ^^^ rotateRight a.w4 25
  let ch := (a.w4 &&& a.w5) ^^^ ((~~~a.w4) &&& a.w6)
  let t1 := a.w7 + s1 + ch + k + word
  let s0 := rotateRight a.w0 2 ^^^ rotateRight a.w0 13 ^^^ rotateRight a.w0 22
  let maj := (a.w0 &&& a.w1) ^^^ (a.w0 &&& a.w2) ^^^ (a.w1 &&& a.w2)
  let t2 := s0 + maj
  ⟨t1 + t2, a.w0, a.w1, a.w2, a.w3 + t1, a.w4, a.w5, a.w6⟩

def compress (h : ChainState) (block : Bytes) : ChainState :=
  let a := (roundConstants.zip (schedule block)).foldl (fun s kw => round s kw.1 kw.2) h
  ⟨h.w0 + a.w0, h.w1 + a.w1, h.w2 + a.w2, h.w3 + a.w3,
   h.w4 + a.w4, h.w5 + a.w5, h.w6 + a.w6, h.w7 + a.w7⟩

end Sha256

open Sha256 in
/-- FIPS 180-4 SHA-256, as the repository implements it. -/
def sha256 (data : Bytes) : Digest :=
  let h := (chunks (data.length / 64 + 2) (pad data)).foldl compress initialState
  u32BeBytes h.w0 ++ u32BeBytes h.w1 ++ u32BeBytes h.w2 ++ u32BeBytes h.w3 ++
    u32BeBytes h.w4 ++ u32BeBytes h.w5 ++ u32BeBytes h.w6 ++ u32BeBytes h.w7

/-! ## 3. Lower-case hexadecimal -/

def hexDigit (n : UInt8) : Char :=
  ("0123456789abcdef".toList).getD n.toNat '0'

def hexChars (bytes : Bytes) : List Char :=
  bytes.flatMap fun (b : UInt8) => [hexDigit (b >>> 4), hexDigit (b &&& 0xf)]

/-- Two lower-case digits for each byte. -/
def hex (bytes : Bytes) : String := String.ofList (hexChars bytes)

def hex32 (digest : Digest) : String := hex digest.toList

/-- Exactly 64 bytes, each a lower-case hexadecimal digit. -/
def isHash256 (value : String) : Bool :=
  (utf8 value).length == 64 &&
    (utf8 value).all fun b => (0x30 ≤ b && b ≤ 0x39) || (0x61 ≤ b && b ≤ 0x66)

end LumioVoxel
