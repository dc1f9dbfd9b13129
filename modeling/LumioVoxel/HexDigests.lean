import LumioVoxel.CanonicalObject

/-!
# Digests in hexadecimal

Writing a digest in lower-case hexadecimal and reading it back.  What is written
always passes the well-formedness check that every reader makes first.
-/

namespace LumioVoxel

open Fallible

/-- Two digits for each byte; anything else is refused. -/
def hexPairs : List Char → Option Bytes
  | [] => some []
  | hi :: lo :: rest => do
    let hi ← CanonicalParser.hexValue hi
    let lo ← CanonicalParser.hexValue lo
    let rest ← hexPairs rest
    return UInt8.ofNat (16 * hi + lo) :: rest
  | [_] => none

/-! ## 1. Bytes of an ASCII text -/

theorem utf8_ofList (chars : List Char) :
    utf8 (String.ofList chars) = chars.flatMap String.utf8EncodeChar := by
  rw [utf8, String.toByteArray_ofList, List.utf8Encode]
  exact congrArg Array.toList List.data_toByteArray

theorem utf8_ofList_ascii {chars : List Char} (h : ∀ c ∈ chars, c.utf8Size = 1) :
    utf8 (String.ofList chars) = chars.map fun c => c.val.toUInt8 := by
  rw [utf8_ofList]
  induction chars with
  | nil => rfl
  | cons c rest ih =>
    have hc := String.utf8EncodeChar_eq_singleton (h c List.mem_cons_self)
    have hrest := ih fun d hd => h d (List.mem_cons_of_mem _ hd)
    rw [List.flatMap_cons, hc, hrest, List.map_cons]
    rfl

/-! ## 2. One byte -/

private theorem hexDigit_nibble : ∀ n : Fin 16,
    CanonicalParser.hexValue (hexDigit (UInt8.ofNat n)) = some n.val ∧
      (hexDigit (UInt8.ofNat n)).utf8Size = 1 ∧
      ((0x30 ≤ (hexDigit (UInt8.ofNat n)).val.toUInt8 &&
          (hexDigit (UInt8.ofNat n)).val.toUInt8 ≤ 0x39) ||
        (0x61 ≤ (hexDigit (UInt8.ofNat n)).val.toUInt8 &&
          (hexDigit (UInt8.ofNat n)).val.toUInt8 ≤ 0x66)) = true := by
  decide

private theorem nibbles (b : UInt8) :
    (b >>> 4).toNat < 16 ∧ (b &&& 0xf).toNat < 16 ∧
      16 * (b >>> 4).toNat + (b &&& 0xf).toNat = b.toNat := by
  have hlt := b.toNat_lt
  have hlow : (b &&& 0xf).toNat = b.toNat % 16 := by
    simpa using Nat.and_two_pow_sub_one_eq_mod b.toNat 4
  have hhigh : (b >>> 4).toNat = b.toNat / 16 := by
    simp [Nat.shiftRight_eq_div_pow]
  omega

private theorem mem_hexChars {c : Char} {bytes : Bytes} (h : c ∈ hexChars bytes) :
    ∃ n : Fin 16, c = hexDigit (UInt8.ofNat n) := by
  obtain ⟨b, -, hc⟩ := List.mem_flatMap.mp h
  obtain ⟨hhigh, hlow, -⟩ := nibbles b
  rcases List.mem_cons.mp hc with rfl | hc
  · exact ⟨⟨_, hhigh⟩, by rw [UInt8.ofNat_toNat]⟩
  · obtain rfl := List.mem_singleton.mp hc
    exact ⟨⟨_, hlow⟩, by rw [UInt8.ofNat_toNat]⟩

theorem hexPairs_hexChars (bytes : Bytes) : hexPairs (hexChars bytes) = some bytes := by
  induction bytes with
  | nil => rfl
  | cons b rest ih =>
    obtain ⟨hhigh, hlow, hsum⟩ := nibbles b
    have hhi := (hexDigit_nibble ⟨_, hhigh⟩).1
    have hlo := (hexDigit_nibble ⟨_, hlow⟩).1
    simp only [UInt8.ofNat_toNat] at hhi hlo
    have hchars : hexChars (b :: rest) =
        hexDigit (b >>> 4) :: hexDigit (b &&& 0xf) :: hexChars rest := rfl
    rw [hchars, hexPairs]
    simp only [hhi, hlo, ih, Option.bind_eq_bind, Option.bind_some, hsum, UInt8.ofNat_toNat]
    rfl

theorem hex_injective {a b : Bytes} (h : hex a = hex b) : a = b := by
  have hchars : hexChars a = hexChars b := String.ofList_injective h
  have hpairs := hexPairs_hexChars a
  rw [hchars, hexPairs_hexChars] at hpairs
  exact (Option.some.inj hpairs).symm

/-! ## 3. Digests -/

theorem length_hexChars (bytes : Bytes) : (hexChars bytes).length = 2 * bytes.length := by
  induction bytes with
  | nil => rfl
  | cons b rest ih =>
    have hchars : hexChars (b :: rest) =
        hexDigit (b >>> 4) :: hexDigit (b &&& 0xf) :: hexChars rest := rfl
    rw [hchars, List.length_cons, List.length_cons, ih, List.length_cons]
    omega

/-- A digest's text is always well formed. -/
theorem isHash256_hex32 (digest : Digest) : isHash256 (hex32 digest) = true := by
  have hascii : ∀ c ∈ hexChars digest.toList, c.utf8Size = 1 := by
    intro c hc
    obtain ⟨n, rfl⟩ := mem_hexChars hc
    exact (hexDigit_nibble n).2.1
  have hbytes : utf8 (hex32 digest) =
      (hexChars digest.toList).map fun c => c.val.toUInt8 := utf8_ofList_ascii hascii
  have hlength : (utf8 (hex32 digest)).length = 64 := by
    rw [hbytes, List.length_map, length_hexChars, Vector.length_toList]
  have hdigits : (utf8 (hex32 digest)).all (fun b =>
      (0x30 ≤ b && b ≤ 0x39) || (0x61 ≤ b && b ≤ 0x66)) = true := by
    rw [hbytes, List.all_map, List.all_eq_true]
    intro c hc
    obtain ⟨n, rfl⟩ := mem_hexChars hc
    exact (hexDigit_nibble n).2.2
  rw [isHash256, hlength, hdigits]
  rfl

/-- The digest a text spells, if it spells one. -/
def readHex32 (value : String) : Option Digest :=
  match hexPairs value.toList with
  | some bytes => if h : bytes.toArray.size = 32 then some ⟨bytes.toArray, h⟩ else none
  | none => none

theorem readHex32_hex32 (digest : Digest) : readHex32 (hex32 digest) = some digest := by
  have hpairs : hexPairs (hex32 digest).toList = some digest.toList := by
    rw [hex32, hex, String.toList_ofList, hexPairs_hexChars]
  have hsize : digest.toList.toArray.size = 32 := by
    rw [List.size_toArray, Vector.length_toList]
  rw [readHex32, hpairs]
  simp only [dif_pos hsize]
  rfl

end LumioVoxel
