import LumioVoxel.Fips180
import LumioVoxel.Plumbing
import Mathlib.Data.List.Induction

/-!
# The hash is the standard's

The repository's hash works on bytes and machine words, pads with a loop and writes the schedule
into an array.  On every message whose length in bits fits in 64 bits it computes what the
standard says of the message's bits.
-/

namespace LumioVoxel

namespace Sha256

open Fips180 (byteBits numberBits)

/-! ## 1. Padding -/

/-- The loop that pads stops at the first length that is 56 modulo 64. -/
theorem paddingZeros_least (n : Nat) :
    (n + 1 + paddingZeros n) % 64 = 56 ∧ ∀ k, (n + 1 + k) % 64 = 56 → paddingZeros n ≤ k := by
  unfold paddingZeros
  constructor
  · omega
  · intro k hk
    omega

/-- The zero bits are those of the zero bytes and the seven of the delimiter. -/
theorem zeros_eq (n : Nat) : Fips180.zeros (8 * n) = 7 + 8 * paddingZeros n := by
  obtain ⟨hstop, hleast⟩ := paddingZeros_least n
  apply (Nat.find_eq_iff _).mpr
  constructor
  · omega
  · intro k hk hfound
    unfold paddingZeros at hk hstop
    omega

theorem byteBits_u64BeBytes (n : UInt64) : byteBits (u64BeBytes n) = numberBits 64 n.toNat := by
  simp only [u64BeBytes, u64LeBytes, List.reverse_cons, List.reverse_nil, List.nil_append,
    List.cons_append]
  refine Fips180.byteBits_cons (w := 56) ?_ (Fips180.byteBits_cons (w := 48) ?_
    (Fips180.byteBits_cons (w := 40) ?_ (Fips180.byteBits_cons (w := 32) ?_
    (Fips180.byteBits_cons (w := 24) ?_ (Fips180.byteBits_cons (w := 16) ?_
    (Fips180.byteBits_cons (w := 8) ?_ (Fips180.byteBits_cons (w := 0) ?_ rfl)))))))
  all_goals simp [Nat.shiftRight_eq_div_pow]

theorem byteBits_u32BeBytes (n : UInt32) :
    byteBits (u32BeBytes n).toList = numberBits 32 n.toNat := by
  show byteBits [(n >>> 24).toUInt8, (n >>> 16).toUInt8, (n >>> 8).toUInt8, n.toUInt8] = _
  refine Fips180.byteBits_cons (w := 24) ?_ (Fips180.byteBits_cons (w := 16) ?_
    (Fips180.byteBits_cons (w := 8) ?_ (Fips180.byteBits_cons (w := 0) ?_ rfl)))
  all_goals simp [Nat.shiftRight_eq_div_pow]

theorem byteBits_pad {data : Bytes} (h : data.length < 2 ^ 61) :
    byteBits (pad data) = Fips180.pad (byteBits data) := by
  have hlength : (UInt64.ofNat data.length * 8).toNat = 8 * data.length := by
    rw [UInt64.toNat_mul, UInt64.toNat_ofNat_of_lt' (Nat.lt_trans h (by decide))]
    show data.length * 8 % 2 ^ 64 = _
    omega
  have hdelimiter : byteBits [0x80] = [true] ++ List.replicate 7 false := rfl
  rw [pad, Fips180.byteBits_append, Fips180.byteBits_append, Fips180.byteBits_append,
    byteBits_u64BeBytes, hlength, Fips180.byteBits_replicate_zero, hdelimiter, Fips180.pad,
    Fips180.length_byteBits, zeros_eq, List.replicate_add]
  simp only [List.append_assoc]

/-! ## 2. Blocks -/

theorem length_pad (data : Bytes) :
    ∃ n, n ≤ data.length / 64 + 2 ∧ (pad data).length = 64 * n := by
  have hlength : (pad data).length = data.length + 1 + paddingZeros data.length + 8 := by
    simp only [pad, u64BeBytes, u64LeBytes, List.length_append, List.length_cons, List.length_nil,
      List.length_replicate, List.length_reverse]
  refine ⟨(pad data).length / 64, ?_, ?_⟩
  · rw [hlength]
    unfold paddingZeros
    omega
  · rw [hlength]
    unfold paddingZeros
    omega

private theorem chunks_succ {n : Nat} (rounds : Nat) {buf : Bytes} (h : buf.length = 64 * (n + 1)) :
    chunks (rounds + 1) buf = buf.take 64 :: chunks rounds (buf.drop 64) ∧
      (buf.drop 64).length = 64 * n := by
  have hne : buf.isEmpty = false := by
    rw [List.isEmpty_eq_false_iff, ← List.length_pos_iff]
    omega
  constructor
  · rw [chunks, hne]
    rfl
  · rw [List.length_drop]
    omega

/-- Bytes in whole blocks are cut into blocks of 64. -/
theorem chunks_eq {n rounds : Nat} (hrounds : n ≤ rounds) {buf : Bytes}
    (h : buf.length = 64 * n) :
    chunks rounds buf = (List.range n).map fun i => (buf.drop (64 * i)).take 64 := by
  induction n generalizing rounds buf with
  | zero =>
    obtain rfl := List.length_eq_zero_iff.mp h
    cases rounds <;> rfl
  | succ n ih =>
    obtain ⟨rounds, rfl⟩ : ∃ m, rounds = m + 1 := ⟨rounds - 1, by omega⟩
    obtain ⟨hchunks, hrest⟩ := chunks_succ rounds h
    rw [hchunks, ih (Nat.le_of_succ_le_succ hrounds) hrest, List.range_succ_eq_map]
    simp only [List.map_cons, List.map_map, List.drop_drop, Function.comp_def, Nat.mul_zero,
      List.drop_zero, Nat.mul_succ, Nat.add_comm]

theorem length_of_mem_chunks {n rounds : Nat} (hrounds : n ≤ rounds) {buf : Bytes}
    (h : buf.length = 64 * n) {block : Bytes} (hblock : block ∈ chunks rounds buf) :
    block.length = 64 := by
  rw [chunks_eq hrounds h] at hblock
  obtain ⟨i, hi, rfl⟩ := List.mem_map.mp hblock
  rw [List.mem_range] at hi
  rw [List.length_take, List.length_drop]
  omega

theorem flatten_chunks {n rounds : Nat} (hrounds : n ≤ rounds) {buf : Bytes}
    (h : buf.length = 64 * n) : (chunks rounds buf).flatten = buf := by
  induction n generalizing rounds buf with
  | zero =>
    obtain rfl := List.length_eq_zero_iff.mp h
    cases rounds <;> rfl
  | succ n ih =>
    obtain ⟨rounds, rfl⟩ : ∃ m, rounds = m + 1 := ⟨rounds - 1, by omega⟩
    obtain ⟨hchunks, hrest⟩ := chunks_succ rounds h
    rw [hchunks, List.flatten_cons, ih (Nat.le_of_succ_le_succ hrounds) hrest,
      List.take_append_drop]

/-- The blocks are the standard's. -/
theorem blocks_byteBits {n rounds : Nat} (hrounds : n ≤ rounds) {buf : Bytes}
    (h : buf.length = 64 * n) :
    Fips180.blocks (byteBits buf) = (chunks rounds buf).map byteBits := by
  have hcount : 8 * (64 * n) / 512 = n := by omega
  rw [chunks_eq hrounds h, Fips180.blocks, Fips180.length_byteBits, h, hcount, List.map_map]
  apply List.map_congr_left
  intro i _
  have hstart : 512 * i = 8 * (64 * i) := by omega
  show ((byteBits buf).drop (512 * i)).take (8 * 64) = byteBits ((buf.drop (64 * i)).take 64)
  rw [hstart, Fips180.drop_byteBits, Fips180.take_byteBits]

/-! ## 3. The schedule -/

theorem toNat_beWord_concat (bytes : Bytes) (b : UInt8) :
    (beWord (bytes ++ [b])).toNat = ((beWord bytes).toNat * 2 ^ 8 + b.toNat) % 2 ^ 32 := by
  have hb := b.toNat_lt
  have hshift : ((beWord bytes <<< 8).toNat) = 2 ^ 8 * ((beWord bytes).toNat % 2 ^ 24) := by
    simp [Nat.shiftLeft_eq]
    omega
  rw [beWord, List.foldl_append, List.foldl_cons, List.foldl_nil, ← beWord, UInt32.toNat_or, hshift,
    UInt8.toNat_toUInt32, ← Nat.two_pow_add_eq_or_of_lt hb]
  omega

/-- A word is read most significant byte first. -/
theorem beWord_eq (bytes : Bytes) :
    beWord bytes = UInt32.ofBitVec (Fips180.bitsWord (byteBits bytes)) := by
  have hvalue : (beWord bytes).toNat = Fips180.number (byteBits bytes) % 2 ^ 32 := by
    induction bytes using List.reverseRecOn with
    | nil => rfl
    | append_singleton bytes b ih =>
      rw [toNat_beWord_concat, Fips180.number_byteBits_concat, ih]
      omega
  apply UInt32.toNat_inj.mp
  rw [hvalue]
  exact (BitVec.toNat_ofNat _ _).symm

theorem blockWords_eq (n : Nat) (block : Bytes) :
    blockWords n block = (List.range n).map fun t => beWord ((block.drop (4 * t)).take 4) := by
  induction n generalizing block with
  | zero => rfl
  | succ n ih =>
    rw [blockWords, ih, List.range_succ_eq_map]
    simp only [List.map_cons, List.map_map, List.drop_drop, Function.comp_def, Nat.mul_zero,
      List.drop_zero, Nat.mul_succ, Nat.add_comm]

/-- The standard's schedule of a block, in machine words. -/
def standardSchedule (block : Bytes) (t : Nat) : UInt32 :=
  UInt32.ofBitVec (Fips180.schedule (byteBits block) t)

theorem blockWords_schedule (block : Bytes) :
    blockWords 16 block = (List.range 16).map (standardSchedule block) := by
  rw [blockWords_eq]
  apply List.map_congr_left
  intro t ht
  have hstart : 32 * t = 8 * (4 * t) := by omega
  have hword : Fips180.blockWord (byteBits block) t =
      Fips180.bitsWord (byteBits ((block.drop (4 * t)).take 4)) := by
    show Fips180.bitsWord (((byteBits block).drop (32 * t)).take (8 * 4)) = _
    rw [hstart, Fips180.drop_byteBits, Fips180.take_byteBits]
  rw [standardSchedule, Fips180.schedule, if_pos (List.mem_range.mp ht), hword, beWord_eq]

/-- Rotating by two shifts, on machine words. -/
theorem toBitVec_rotateRight (x : UInt32) {n : UInt32} (hpos : 0 < n.toNat) (hlt : n.toNat < 32) :
    (rotateRight x n).toBitVec = x.toBitVec.rotateRight n.toNat := by
  have hamount : ∀ m : UInt32, m.toNat < 32 → (m.toBitVec % 32).toNat = m.toNat := by
    intro m hm
    rw [BitVec.toNat_umod]
    exact Nat.mod_eq_of_lt hm
  have hleft : (32 - n).toNat = 32 - n.toNat := by
    rw [UInt32.toNat_sub_of_le]
    · rfl
    · exact UInt32.le_iff_toNat_le.mpr (Nat.le_of_lt hlt)
  have hshiftLeft : (x <<< (32 - n)).toBitVec = x.toBitVec <<< (32 - n.toNat) := by
    rw [UInt32.toBitVec_shiftLeft, BitVec.shiftLeft_eq', hamount _ (by omega), hleft]
  have hshiftRight : (x >>> n).toBitVec = x.toBitVec >>> n.toNat := by
    rw [UInt32.toBitVec_shiftRight, BitVec.ushiftRight_eq', hamount _ hlt]
  rw [rotateRight, UInt32.toBitVec_or, hshiftLeft, hshiftRight, BitVec.rotateRight_def,
    Nat.mod_eq_of_lt hlt]

/-- The shape of the two small sigmas. -/
private theorem toBitVec_rotationsShift (x : UInt32) {a b : UInt32} (c : UInt32)
    (ha : 0 < a.toNat ∧ a.toNat < 32) (hb : 0 < b.toNat ∧ b.toNat < 32) :
    (rotateRight x a ^^^ rotateRight x b ^^^ (x >>> c)).toBitVec =
      x.toBitVec.rotateRight a.toNat ^^^ x.toBitVec.rotateRight b.toNat ^^^
        (x >>> c).toBitVec := by
  rw [UInt32.toBitVec_xor, UInt32.toBitVec_xor, toBitVec_rotateRight x ha.1 ha.2,
    toBitVec_rotateRight x hb.1 hb.2]

/-- The shape of the two big ones. -/
private theorem toBitVec_rotations (x : UInt32) {a b c : UInt32}
    (ha : 0 < a.toNat ∧ a.toNat < 32) (hb : 0 < b.toNat ∧ b.toNat < 32)
    (hc : 0 < c.toNat ∧ c.toNat < 32) :
    (rotateRight x a ^^^ rotateRight x b ^^^ rotateRight x c).toBitVec =
      x.toBitVec.rotateRight a.toNat ^^^ x.toBitVec.rotateRight b.toNat ^^^
        x.toBitVec.rotateRight c.toNat := by
  rw [UInt32.toBitVec_xor, UInt32.toBitVec_xor, toBitVec_rotateRight x ha.1 ha.2,
    toBitVec_rotateRight x hb.1 hb.2, toBitVec_rotateRight x hc.1 hc.2]

theorem smallSigma0_eq (x : UInt32) :
    (rotateRight x 7 ^^^ rotateRight x 18 ^^^ (x >>> 3)).toBitVec =
      Fips180.smallSigma0 x.toBitVec :=
  toBitVec_rotationsShift x 3 (by decide) (by decide)

theorem smallSigma1_eq (x : UInt32) :
    (rotateRight x 17 ^^^ rotateRight x 19 ^^^ (x >>> 10)).toBitVec =
      Fips180.smallSigma1 x.toBitVec :=
  toBitVec_rotationsShift x 10 (by decide) (by decide)

theorem bigSigma0_eq (x : UInt32) :
    (rotateRight x 2 ^^^ rotateRight x 13 ^^^ rotateRight x 22).toBitVec =
      Fips180.bigSigma0 x.toBitVec :=
  toBitVec_rotations x (by decide) (by decide) (by decide)

theorem bigSigma1_eq (x : UInt32) :
    (rotateRight x 6 ^^^ rotateRight x 11 ^^^ rotateRight x 25).toBitVec =
      Fips180.bigSigma1 x.toBitVec :=
  toBitVec_rotations x (by decide) (by decide) (by decide)

/-- One more word of the schedule is the standard's next. -/
theorem scheduleStep_eq (block : Bytes) {m : Nat} (h : 16 ≤ m) :
    scheduleStep ((List.range m).map (standardSchedule block)).reverse =
      ((List.range (m + 1)).map (standardSchedule block)).reverse := by
  have hword : ∀ k, k < m → ((List.range m).map (standardSchedule block)).reverse.getD k 0 =
      standardSchedule block (m - (k + 1)) := by
    intro k hk
    have hindex : m - 1 - k = m - (k + 1) := by omega
    simp [List.getD, hk, hindex]
  have hnext : standardSchedule block (m - 16) +
      (rotateRight (standardSchedule block (m - 15)) 7 ^^^
        rotateRight (standardSchedule block (m - 15)) 18 ^^^
        (standardSchedule block (m - 15) >>> 3)) + standardSchedule block (m - 7) +
      (rotateRight (standardSchedule block (m - 2)) 17 ^^^
        rotateRight (standardSchedule block (m - 2)) 19 ^^^
        (standardSchedule block (m - 2) >>> 10)) = standardSchedule block m := by
    apply UInt32.toBitVec_inj.mp
    rw [UInt32.toBitVec_add, UInt32.toBitVec_add, UInt32.toBitVec_add, smallSigma0_eq,
      smallSigma1_eq]
    conv_rhs => rw [standardSchedule, Fips180.schedule, if_neg (Nat.not_lt.mpr h)]
    simp only [standardSchedule]
    -- the standard adds the four words in the opposite order
    ac_rfl
  rw [scheduleStep, hword 14 (by omega), hword 1 (by omega), hword 15 (by omega),
    hword 6 (by omega), List.range_succ, List.map_append, List.reverse_append]
  exact congrArg (· :: _) hnext

theorem schedule_eq (block : Bytes) :
    schedule block = (List.range 64).map (standardSchedule block) := by
  have hextend : ∀ n m, 16 ≤ m →
      extendSchedule n ((List.range m).map (standardSchedule block)).reverse =
        ((List.range (m + n)).map (standardSchedule block)).reverse := by
    intro n
    induction n with
    | zero => exact fun m _ => rfl
    | succ n ih =>
      intro m hm
      rw [extendSchedule, scheduleStep_eq block hm, ih (m + 1) (Nat.le_succ_of_le hm),
        Nat.succ_add_eq_add_succ]
  rw [schedule, blockWords_schedule, hextend 48 16 (Nat.le_refl 16), List.reverse_reverse]

/-! ## 4. The rounds -/

/-- The words of the standard's constants, and of its initial hash value. -/
theorem roundConstants_eq :
    roundConstants = (List.range 64).map fun t => UInt32.ofBitVec (Fips180.K t) := by
  simp only [Fips180.K, Fips180.primes_eq]
  decide +kernel

def vars (s : ChainState) : Fips180.Vars :=
  ⟨s.w0.toBitVec, s.w1.toBitVec, s.w2.toBitVec, s.w3.toBitVec, s.w4.toBitVec, s.w5.toBitVec,
    s.w6.toBitVec, s.w7.toBitVec⟩

theorem vars_initialState : vars initialState = Fips180.initial := by
  simp only [Fips180.initial, Fips180.H0, Fips180.primes_eq]
  ext1 <;> decide +kernel

theorem vars_round (a : ChainState) (k word : UInt32) :
    vars (round a k word) = Fips180.step (vars a) k.toBitVec word.toBitVec := by
  have hs1 := bigSigma1_eq a.w4
  have hs0 := bigSigma0_eq a.w0
  simp only [vars, round, Fips180.step, UInt32.toBitVec_add, hs0, hs1]
  rfl

theorem vars_compress (h : ChainState) (block : Bytes) :
    vars (compress h block) = Fips180.compress (vars h) (byteBits block) := by
  have hrounds : ((roundConstants.zip (schedule block)).foldl (fun s kw => round s kw.1 kw.2) h) =
      (List.range 64).foldl (fun s t => round s (UInt32.ofBitVec (Fips180.K t))
        (standardSchedule block t)) h := by
    rw [roundConstants_eq, schedule_eq, List.zip_map', List.foldl_map]
  have hsteps : vars ((List.range 64).foldl (fun s t => round s (UInt32.ofBitVec (Fips180.K t))
      (standardSchedule block t)) h) = (List.range 64).foldl (fun v t => Fips180.step v
        (Fips180.K t) (Fips180.schedule (byteBits block) t)) (vars h) := by
    symm
    apply List.foldl_hom
    intro s t
    exact (vars_round s _ _).symm
  rw [Fips180.compress, ← hsteps, ← hrounds]
  ext1 <;> exact BitVec.add_comm _ _

end Sha256

/-! ## 5. The hash -/

open Sha256 in
/-- **The hash is the standard's.**  On every message shorter than `2 ^ 61` bytes the digest's bits
are SHA-256 of the message's bits; the blocks that are processed have 64 bytes each and are the
padded message. -/
theorem sha256_eq_fips180 (data : Bytes) (h : data.length < 2 ^ 61) :
    Fips180.byteBits (sha256 data).toList = Fips180.sha256 (Fips180.byteBits data) ∧
      (∀ block ∈ chunks (data.length / 64 + 2) (pad data), block.length = 64) ∧
      (chunks (data.length / 64 + 2) (pad data)).flatten = pad data := by
  obtain ⟨n, hn, hlength⟩ := length_pad data
  refine ⟨?_, fun block hblock => length_of_mem_chunks hn hlength hblock, flatten_chunks hn hlength⟩
  have hblocks : Fips180.blocks (Fips180.pad (Fips180.byteBits data)) =
      (chunks (data.length / 64 + 2) (pad data)).map Fips180.byteBits := by
    rw [← byteBits_pad h, blocks_byteBits hn hlength]
  have hchain : (Fips180.blocks (Fips180.pad (Fips180.byteBits data))).foldl Fips180.compress
      Fips180.initial = vars ((chunks (data.length / 64 + 2) (pad data)).foldl compress
        initialState) := by
    rw [hblocks, List.foldl_map, ← vars_initialState]
    apply List.foldl_hom
    intro state block
    exact (vars_compress state block).symm
  rw [Fips180.sha256, hchain]
  simp only [sha256, Fips180.digest, vars, Fips180.wordBits, Vector.toList_append,
    Fips180.byteBits_append, byteBits_u32BeBytes]
  rfl

/-- The message of three bytes. -/
theorem sha256_eq_fips180_abc :
    [0x61, 0x62, 0x63].length < 2 ^ 61 ∧
      Fips180.byteBits (sha256 [0x61, 0x62, 0x63]).toList =
        Fips180.sha256 (Fips180.byteBits [0x61, 0x62, 0x63]) :=
  ⟨by decide, (sha256_eq_fips180 [0x61, 0x62, 0x63] (by decide)).1⟩

end LumioVoxel
