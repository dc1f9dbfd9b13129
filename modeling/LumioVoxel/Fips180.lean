import Mathlib.Algebra.Group.Nat.Defs
import Mathlib.Data.List.Basic
import Mathlib.Data.Nat.Find
import Mathlib.Data.Nat.NthRoot.Defs
import Mathlib.Data.Nat.Prime.Defs
import Mathlib.Tactic.Ring

/-!
# The secure hash standard

SHA-256 as FIPS 180-4 states it: a function from strings of bits, of any length below
`2 ^ 64`, to strings of 256 bits.  The constants are not listed but computed from the roots of
primes they are taken from, and the schedule is its recurrence.
-/

namespace Fips180

/-! ## 1. Bits, words and numbers -/

/-- A string of bits, the most significant first. -/
abbrev Bits : Type := List Bool

abbrev Word : Type := BitVec 32

/-- The last `w` bits of a number. -/
def numberBits : Nat → Nat → Bits
  | 0, _ => []
  | w + 1, n => n.testBit w :: numberBits w n

/-- The number a string of bits stands for. -/
def number (bits : Bits) : Nat := bits.foldl (fun acc b => 2 * acc + b.toNat) 0

def byteBits (bytes : List UInt8) : Bits := bytes.flatMap fun b => numberBits 8 b.toNat

def wordBits (x : Word) : Bits := numberBits 32 x.toNat

def bitsWord (bits : Bits) : Word := BitVec.ofNat 32 (number bits)

/-! ## 2. Padding and parsing -/

theorem exists_zeros (l : Nat) : ∃ k, (l + 1 + k) % 512 = 448 :=
  ⟨959 - l % 512, by omega⟩

/-- The least number of zeros that leaves 64 bits free in the last block. -/
def zeros (l : Nat) : Nat := Nat.find (exists_zeros l)

/-- The message, a one, the zeros and the length of the message. -/
def pad (message : Bits) : Bits :=
  message ++ [true] ++ List.replicate (zeros message.length) false ++ numberBits 64 message.length

/-- The consecutive blocks of 512 bits. -/
def blocks (padded : Bits) : List Bits :=
  (List.range (padded.length / 512)).map fun i => (padded.drop (512 * i)).take 512

/-- The word `M_t` of a block. -/
def blockWord (block : Bits) (t : Nat) : Word := bitsWord ((block.drop (32 * t)).take 32)

/-! ## 3. Functions and constants -/

def Ch (x y z : Word) : Word := (x &&& y) ^^^ (~~~x &&& z)

def Maj (x y z : Word) : Word := (x &&& y) ^^^ (x &&& z) ^^^ (y &&& z)

def bigSigma0 (x : Word) : Word := x.rotateRight 2 ^^^ x.rotateRight 13 ^^^ x.rotateRight 22

def bigSigma1 (x : Word) : Word := x.rotateRight 6 ^^^ x.rotateRight 11 ^^^ x.rotateRight 25

def smallSigma0 (x : Word) : Word := x.rotateRight 7 ^^^ x.rotateRight 18 ^^^ (x >>> 3)

def smallSigma1 (x : Word) : Word := x.rotateRight 17 ^^^ x.rotateRight 19 ^^^ (x >>> 10)

/-- The first sixty-four primes. -/
def primes : List Nat := (List.range 312).filter fun p => p.Prime

/-- The first thirty-two bits of the fractional part of the `k`-th root of a number: its integer
part is shifted out on the left. -/
def rootFraction (k n : Nat) : Word := BitVec.ofNat 32 (Nat.nthRoot k (n * 2 ^ (32 * k)))

/-- The constant `K_t`, from a cube root. -/
def K (t : Nat) : Word := rootFraction 3 (primes.getD t 0)

/-- A word of the initial hash value, from a square root. -/
def H0 (j : Nat) : Word := rootFraction 2 (primes.getD j 0)

/-! ## 4. The hash -/

/-- The message schedule `W_t`. -/
def schedule (block : Bits) (t : Nat) : Word :=
  if t < 16 then blockWord block t
  else smallSigma1 (schedule block (t - 2)) + schedule block (t - 7) +
    smallSigma0 (schedule block (t - 15)) + schedule block (t - 16)
termination_by t

/-- The eight working variables, or the eight words of a hash value. -/
@[ext] structure Vars where
  a : Word
  b : Word
  c : Word
  d : Word
  e : Word
  f : Word
  g : Word
  h : Word

def initial : Vars := ⟨H0 0, H0 1, H0 2, H0 3, H0 4, H0 5, H0 6, H0 7⟩

def step (v : Vars) (k w : Word) : Vars :=
  let T1 := v.h + bigSigma1 v.e + Ch v.e v.f v.g + k + w
  let T2 := bigSigma0 v.a + Maj v.a v.b v.c
  ⟨T1 + T2, v.a, v.b, v.c, v.d + T1, v.e, v.f, v.g⟩

/-- One block: sixty-four steps, added to the hash value before it. -/
def compress (H : Vars) (block : Bits) : Vars :=
  let v := (List.range 64).foldl (fun v t => step v (K t) (schedule block t)) H
  ⟨v.a + H.a, v.b + H.b, v.c + H.c, v.d + H.d, v.e + H.e, v.f + H.f, v.g + H.g, v.h + H.h⟩

def digest (H : Vars) : Bits :=
  wordBits H.a ++ wordBits H.b ++ wordBits H.c ++ wordBits H.d ++ wordBits H.e ++ wordBits H.f ++
    wordBits H.g ++ wordBits H.h

def sha256 (message : Bits) : Bits := digest ((blocks (pad message)).foldl compress initial)

/-! ## 5. The primes -/

/-- Below `18 ^ 2` it is enough to try divisors below 18. -/
theorem prime_iff {p : Nat} (hp : p < 18 ^ 2) :
    p.Prime ↔ 2 ≤ p ∧ ∀ d ∈ List.range 18, 2 ≤ d → d ∣ p → d = p := by
  constructor
  · intro hprime
    refine ⟨hprime.two_le, ?_⟩
    intro d _ hd hdvd
    rcases hprime.eq_one_or_self_of_dvd d hdvd with rfl | rfl
    · omega
    · rfl
  · rintro ⟨htwo, hall⟩
    rw [Nat.prime_def_le_sqrt]
    refine ⟨htwo, ?_⟩
    intro d hd hsqrt hdvd
    have hsquare : d * d ≤ p := Nat.le_sqrt.mp hsqrt
    have hlt : d < 18 := by
      by_contra hge
      have := Nat.mul_le_mul (Nat.le_of_not_lt hge) (Nat.le_of_not_lt hge)
      omega
    obtain rfl := hall d (List.mem_range.mpr hlt) hd hdvd
    have := Nat.mul_le_mul_right d hd
    omega

theorem primes_eq : primes = [2, 3, 5, 7, 11, 13, 17, 19, 23, 29, 31, 37, 41, 43, 47, 53, 59, 61, 67,
    71, 73, 79, 83, 89, 97, 101, 103, 107, 109, 113, 127, 131, 137, 139, 149, 151, 157, 163, 167,
    173, 179, 181, 191, 193, 197, 199, 211, 223, 227, 229, 233, 239, 241, 251, 257, 263, 269, 271,
    277, 281, 283, 293, 307, 311] := by
  have htrial : primes = (List.range 312).filter fun p =>
      decide (2 ≤ p ∧ ∀ d ∈ List.range 18, 2 ≤ d → d ∣ p → d = p) := by
    apply List.filter_congr
    intro p hp
    have hlt : p < 18 ^ 2 := Nat.lt_trans (List.mem_range.mp hp) (by decide)
    exact decide_eq_decide.mpr (prime_iff hlt)
  rw [htrial]
  decide +kernel

/-! ## 6. Numbers in bits -/

@[simp] theorem length_numberBits (w n : Nat) : (numberBits w n).length = w := by
  induction w with
  | zero => rfl
  | succ w ih => rw [numberBits, List.length_cons, ih]

theorem numberBits_add (v w n : Nat) :
    numberBits (v + w) n = numberBits v (n / 2 ^ w) ++ numberBits w n := by
  induction v with
  | zero => rw [Nat.zero_add, numberBits, List.nil_append]
  | succ v ih =>
    rw [Nat.succ_add, numberBits, numberBits, ih, List.cons_append, Nat.testBit_div_two_pow]

/-- Only the last bits count. -/
theorem numberBits_mod (w n : Nat) {v : Nat} (h : w ≤ v) :
    numberBits w (n % 2 ^ v) = numberBits w n := by
  induction w with
  | zero => rfl
  | succ w ih =>
    have hbit : (n % 2 ^ v).testBit w = n.testBit w := by
      rw [Nat.testBit_mod_two_pow, decide_eq_true (Nat.lt_of_succ_le h), Bool.true_and]
    rw [numberBits, numberBits, hbit, ih (Nat.le_of_succ_le h)]

private theorem foldl_number (bits : Bits) (acc : Nat) :
    bits.foldl (fun acc b => 2 * acc + b.toNat) acc = acc * 2 ^ bits.length + number bits := by
  induction bits generalizing acc with
  | nil => simp [number]
  | cons b bits ih =>
    have hnumber : number (b :: bits) = b.toNat * 2 ^ bits.length + number bits := by
      rw [number, List.foldl_cons, ih, Nat.mul_zero, Nat.zero_add]
    rw [List.foldl_cons, ih, hnumber, List.length_cons, Nat.pow_succ]
    ring

theorem number_append (xs ys : Bits) :
    number (xs ++ ys) = number xs * 2 ^ ys.length + number ys := by
  rw [number, List.foldl_append, foldl_number]
  rfl

theorem number_numberBits (w n : Nat) : number (numberBits w n) = n % 2 ^ w := by
  induction w with
  | zero =>
    rw [Nat.pow_zero, Nat.mod_one]
    rfl
  | succ w ih =>
    have hcons : numberBits (w + 1) n = [n.testBit w] ++ numberBits w n := rfl
    have hbit : number [n.testBit w] = n / 2 ^ w % 2 := by
      rw [← Nat.toNat_testBit]
      exact Nat.zero_add _
    rw [hcons, number_append, hbit, ih, length_numberBits, Nat.mod_pow_succ]
    ring

/-! ## 7. Bytes in bits -/

theorem byteBits_append (xs ys : List UInt8) : byteBits (xs ++ ys) = byteBits xs ++ byteBits ys :=
  List.flatMap_append

@[simp] theorem length_byteBits (bytes : List UInt8) : (byteBits bytes).length = 8 * bytes.length := by
  induction bytes with
  | nil => rfl
  | cons b bytes ih =>
    have hcons : byteBits (b :: bytes) = numberBits 8 b.toNat ++ byteBits bytes := rfl
    rw [hcons, List.length_append, length_numberBits, ih, List.length_cons]
    omega

theorem take_byteBits (bytes : List UInt8) (n : Nat) :
    (byteBits bytes).take (8 * n) = byteBits (bytes.take n) := by
  by_cases h : n ≤ bytes.length
  · have hlength : (byteBits (bytes.take n)).length = 8 * n := by
      rw [length_byteBits, List.length_take_of_le h]
    conv_lhs => rw [← List.take_append_drop n bytes, byteBits_append, ← hlength]
    exact List.take_left
  · have hle : bytes.length ≤ n := Nat.le_of_not_le h
    rw [List.take_of_length_le hle, List.take_of_length_le]
    rw [length_byteBits]
    omega

theorem drop_byteBits (bytes : List UInt8) (n : Nat) :
    (byteBits bytes).drop (8 * n) = byteBits (bytes.drop n) := by
  have hwhole : byteBits (bytes.take n) ++ (byteBits bytes).drop (8 * n) =
      byteBits (bytes.take n) ++ byteBits (bytes.drop n) := by
    rw [← take_byteBits, List.take_append_drop, take_byteBits, ← byteBits_append,
      List.take_append_drop]
  exact List.append_cancel_left hwhole

/-- A number in bits is its first byte and the rest. -/
theorem byteBits_cons {b : UInt8} {bytes : List UInt8} {w n : Nat}
    (hb : b.toNat = n / 2 ^ w % 2 ^ 8) (hbytes : byteBits bytes = numberBits w n) :
    byteBits (b :: bytes) = numberBits (8 + w) n := by
  have hcons : byteBits (b :: bytes) = numberBits 8 b.toNat ++ byteBits bytes := rfl
  rw [hcons, hbytes, numberBits_add, hb, numberBits_mod 8 _ (Nat.le_refl 8)]

theorem number_byteBits_concat (bytes : List UInt8) (b : UInt8) :
    number (byteBits (bytes ++ [b])) = number (byteBits bytes) * 2 ^ 8 + b.toNat := by
  have hlast : byteBits [b] = numberBits 8 b.toNat := List.append_nil _
  rw [byteBits_append, number_append, hlast, number_numberBits, length_numberBits,
    Nat.mod_eq_of_lt b.toNat_lt]

theorem byteBits_replicate_zero (n : Nat) :
    byteBits (List.replicate n 0) = List.replicate (8 * n) false := by
  induction n with
  | zero => rfl
  | succ n ih =>
    have hcons : byteBits (List.replicate (n + 1) 0) =
        List.replicate 8 false ++ byteBits (List.replicate n 0) := rfl
    rw [hcons, ih, ← List.replicate_add, Nat.mul_succ, Nat.add_comm]

end Fips180
