import LumioVoxel.Attempts
import LumioVoxel.SectionKey
import LumioVoxel.Utf8Cursors
import Mathlib.Data.Nat.Log

/-!
# Key text

The key parsers slice and index their text by bytes, and both panic where no character or no
byte is.  This module embeds the parsers with those steps as they are, for section keys and for
chunk keys.  No text makes them panic, and each accepts exactly the canonical spellings of its
own keys.
-/

namespace LumioVoxel

open Attempts DecimalText Fallible Utf8Cursors

/-- The two coordinates of a column of sections. -/
structure ChunkId where
  x : Int
  z : Int
  x_mem : SECTION_COORD_MIN ≤ x ∧ x ≤ SECTION_COORD_MAX
  z_mem : SECTION_COORD_MIN ≤ z ∧ z ≤ SECTION_COORD_MAX

/-- The canonical text of the key. -/
def ChunkId.key (id : ChunkId) : String := "c:" ++ toString id.x ++ ":" ++ toString id.z

namespace KeyText

/-! ## 1. Byte steps that may panic -/

/-- `&text[offset..]`: the characters from a byte offset on, if it is a boundary. -/
def sliceFrom : List Char → Nat → Option (List Char)
  | text, 0 => some text
  | [], _ + 1 => none
  | c :: rest, offset + 1 =>
    if c.utf8Size ≤ offset + 1 then sliceFrom rest (offset + 1 - c.utf8Size) else none

/-- `u32::ilog10`, which panics at zero. -/
def ilog10 (n : Nat) : Option Nat := if n = 0 then none else some (Nat.log 10 n)

def isAsciiDigit (byte : UInt8) : Bool := 48 ≤ byte && byte ≤ 57

theorem sliceFrom_minus (rest : List Char) : sliceFrom ('-' :: rest) 1 = some rest := by
  have hsize : ('-' : Char).utf8Size = 1 := by decide
  rw [sliceFrom, hsize, if_pos (Nat.le_refl 1)]
  cases rest <;> rfl

theorem ilog10_coordMin : ilog10 SECTION_COORD_MIN.natAbs = some 9 := by
  have hlog : Nat.log 10 2147483648 = 9 :=
    Nat.log_eq_of_pow_le_of_lt_pow (by decide) (by decide)
  exact congrArg some hlog

private theorem toNat_lt_of_isDigit {c : Char} (h : c.isDigit = true) :
    48 ≤ c.toNat ∧ c.toNat ≤ 57 := by
  simp only [Char.isDigit, Bool.and_eq_true, decide_eq_true_eq] at h
  exact ⟨UInt32.le_iff_toNat_le.mp h.1, UInt32.le_iff_toNat_le.mp h.2⟩

/-- A character is a digit exactly when all its bytes are. -/
private theorem all_utf8EncodeChar (c : Char) :
    (String.utf8EncodeChar c).all isAsciiDigit = c.isDigit := by
  rcases Nat.lt_or_ge c.toNat 128 with hlt | hge
  · have hbyte : (UInt8.ofNat c.toNat).toNat = c.toNat := by
      rw [UInt8.toNat_ofNat']
      omega
    rw [utf8EncodeChar_of_ascii hlt, List.all_cons, List.all_nil, Bool.and_true,
      Bool.eq_iff_iff]
    simp only [isAsciiDigit, Char.isDigit, Bool.and_eq_true, decide_eq_true_eq,
      UInt8.le_iff_toNat_le, hbyte, ge_iff_le, UInt32.le_iff_toNat_le]
    rfl
  · obtain ⟨byte, tail, hencode, hbyte⟩ := utf8EncodeChar_of_not_ascii hge
    have hfirst : isAsciiDigit byte = false := by
      simp only [isAsciiDigit, Bool.and_eq_false_iff, decide_eq_false_iff_not,
        UInt8.le_iff_toNat_le]
      right
      exact Nat.not_le.mpr (Nat.lt_of_lt_of_le (by decide) hbyte)
    have hchar : c.isDigit = false := by
      rw [Bool.eq_false_iff]
      intro h
      have := (toNat_lt_of_isDigit h).2
      omega
    rw [hencode, List.all_cons, hfirst, hchar, Bool.false_and]

theorem all_encoded (text : List Char) :
    (encoded text).all isAsciiDigit = text.all Char.isDigit := by
  induction text with
  | nil => rfl
  | cons c rest ih =>
    rw [encoded_cons, List.all_append, all_utf8EncodeChar, ih, List.all_cons]

/-- The bytes of a digit text are its characters. -/
theorem encoded_digits {text : List Char} (h : text.all Char.isDigit = true) :
    encoded text = text.map fun c => UInt8.ofNat c.toNat := by
  induction text with
  | nil => rfl
  | cons c rest ih =>
    rw [List.all_cons, Bool.and_eq_true] at h
    have hascii : c.toNat < 128 := Nat.lt_of_le_of_lt (toNat_lt_of_isDigit h.1).2 (by decide)
    rw [encoded_cons, utf8EncodeChar_of_ascii hascii, ih h.2]
    rfl

theorem length_encoded (text : List Char) : (encoded text).length = utf8Length text := by
  induction text with
  | nil => rfl
  | cons c rest ih =>
    rw [encoded_cons, List.length_append, String.length_utf8EncodeChar, ih, utf8Length]

/-! ## 2. The parsers -/

/-- `digits.len() > 1 && digits.as_bytes()[0] == b'0'`. -/
def leadingZero (digits : List Char) : Attempt KeyError Bool :=
  if 1 < (encoded digits).length then do
    let first ← Attempt.expect (encoded digits)[0]?
    return first == 48
  else return false

/-- `raw.parse::<i64>()` on an optional minus sign and digits. -/
def parseI64 (negative : Bool) (digits : List Char) : Option Int :=
  let magnitude : Int := DecimalText.value digits
  let value := if negative then -magnitude else magnitude
  if -2 ^ 63 ≤ value ∧ value < 2 ^ 63 then some value else none

/-- `if negative { &raw[1..] } else { raw }`. -/
def digitsOf (raw : List Char) (negative : Bool) : Attempt KeyError (List Char) :=
  if negative then Attempt.expect (sliceFrom raw 1) else .value raw

/-- Canonical decimal, as a 64-bit signed integer. -/
def parseDecimal (raw : List Char) (kind : KeyKind) : Attempt KeyError Int := do
  Attempt.check (raw ≠ []) ⟨kind, .emptyComponent⟩
  let negative := raw.head? == some '-'
  let digits ← digitsOf raw negative
  Attempt.check (¬ (digits = [] ∨ (encoded digits).all isAsciiDigit = false))
    ⟨kind, .nonCanonicalCoordinate⟩
  let zero ← leadingZero digits
  Attempt.check (zero = false) ⟨kind, .nonCanonicalCoordinate⟩
  Attempt.check (¬ (negative ∧ digits = ['0'])) ⟨kind, .nonCanonicalCoordinate⟩
  Attempt.call (someOr (parseI64 negative digits) ⟨kind, .coordinateOutOfBounds⟩)

/-- A 32-bit signed coordinate. -/
abbrev Coordinate : Type := { v : Int // SECTION_COORD_MIN ≤ v ∧ v ≤ SECTION_COORD_MAX }

def parseI32 (raw : List Char) (kind : KeyKind) : Attempt KeyError Coordinate := do
  let digits := if raw.head? = some '-' then raw.tail else raw
  let log ← Attempt.expect (ilog10 SECTION_COORD_MIN.natAbs)
  Attempt.check (¬ log + 1 < (encoded digits).length) ⟨kind, .nonCanonicalCoordinate⟩
  let value ← parseDecimal raw kind
  if h : SECTION_COORD_MIN ≤ value ∧ value ≤ SECTION_COORD_MAX then return ⟨value, h⟩
  else Attempt.refused ⟨kind, .coordinateOutOfBounds⟩

/-- A layer of a column. -/
abbrev Layer : Type := { y : Nat // y ≤ SECTION_Y_MAX }

def checkSectionY (value : Int) (kind : KeyKind) : Attempt KeyError Layer :=
  if h : SECTION_Y_MIN ≤ value ∧ value ≤ SECTION_Y_MAX then
    .value ⟨value.toNat, Int.toNat_le.mpr h.2⟩
  else .refused ⟨kind, .sectionYOutOfRange⟩

/-- `SectionId::parse`. -/
def parseSection (raw : String) : Attempt KeyError SectionId := do
  let parts ← Attempt.call (splitKey raw SECTION_KEY_PREFIX .section)
  Attempt.check (parts.length = SECTION_KEY_ARITY) ⟨.section, .wrongArity⟩
  let px ← Attempt.expect parts[0]?
  let x ← parseI32 px .section
  let py ← Attempt.expect parts[1]?
  let rawY ← parseDecimal py .section
  let y ← checkSectionY rawY .section
  let pz ← Attempt.expect parts[2]?
  let z ← parseI32 pz .section
  return ⟨x, y, z, x.property, y.property, z.property⟩

/-- A chunk key with three coordinates is the retired spelling. -/
def arityRejection (found : Nat) : KeyRejection :=
  if found = SECTION_KEY_ARITY then .legacyThreeCoordinateChunkKey else .wrongArity

/-- `ChunkId::parse`. -/
def parseChunk (raw : String) : Attempt KeyError ChunkId := do
  let parts ← Attempt.call (splitKey raw CHUNK_KEY_PREFIX .chunk)
  Attempt.check (parts.length = CHUNK_KEY_ARITY) ⟨.chunk, arityRejection parts.length⟩
  let px ← Attempt.expect parts[0]?
  let x ← parseI32 px .chunk
  let pz ← Attempt.expect parts[1]?
  let z ← parseI32 pz .chunk
  return ⟨x, z, x.property, z.property⟩

/-! ## 3. No step panics -/

theorem leadingZero_of_digits {digits : List Char} (h : digits.all Char.isDigit = true) :
    leadingZero digits = .value (decide (1 < digits.length ∧ digits.head? = some '0')) := by
  unfold leadingZero
  rw [encoded_digits h, List.length_map]
  split
  · rename_i hlen
    obtain ⟨c, rest, rfl⟩ := List.exists_cons_of_length_pos (Nat.lt_trans Nat.one_pos hlen)
    have hrange := toNat_lt_of_isDigit (List.all_eq_true.mp h c List.mem_cons_self)
    have hbyte : (UInt8.ofNat c.toNat == 48) = decide (c = '0') := by
      rw [Bool.eq_iff_iff, beq_iff_eq, decide_eq_true_eq, ← UInt8.toNat_inj, UInt8.toNat_ofNat',
        Nat.mod_eq_of_lt (by omega)]
      exact ⟨fun hc => Char.toNat_inj.mp hc, fun hc => hc ▸ rfl⟩
    simp only [List.map_cons, List.getElem?_cons_zero, Attempt.expect, Attempt.value_bind, hbyte,
      hlen, true_and, List.head?_cons, Option.some.injEq]
    rfl
  · rename_i hlen
    simp only [hlen, false_and, decide_false]
    rfl

theorem digitsOf_eq (raw : List Char) :
    digitsOf raw (raw.head? == some '-') =
      .value (if raw.head? = some '-' then raw.tail else raw) := by
  by_cases hneg : raw.head? = some '-'
  · obtain ⟨rest, rfl⟩ := List.head?_eq_some_iff.mp hneg
    simp only [digitsOf, List.head?_cons, beq_self_eq_true, if_true, sliceFrom_minus,
      Attempt.expect, List.tail_cons]
  · simp only [digitsOf, hneg, if_false, beq_iff_eq]

/-- The parser with its slices is the parser on characters: none of its steps panics. -/
theorem parseDecimal_eq (raw : List Char) (kind : KeyKind) :
    parseDecimal raw kind = Attempt.call (LumioVoxel.parseDecimal raw kind) := by
  unfold parseDecimal LumioVoxel.parseDecimal
  by_cases hempty : raw = []
  · simp only [hempty, if_true, Attempt.check, ne_eq, not_true_eq_false, if_false]
    rfl
  simp only [hempty, if_false, Attempt.check, ne_eq, not_false_eq_true, if_true,
    Attempt.value_bind, digitsOf_eq, all_encoded]
  generalize (if raw.head? = some '-' then raw.tail else raw) = digits
  by_cases hchars : digits = [] ∨ digits.all Char.isDigit = false
  · simp only [hchars, not_true_eq_false, if_false, if_true]
    rfl
  have hall : digits.all Char.isDigit = true :=
    Bool.not_eq_false _ ▸ fun h => hchars (Or.inr h)
  simp only [hchars, not_false_eq_true, if_true, if_false, Attempt.value_bind,
    leadingZero_of_digits hall]
  by_cases hzero : 1 < digits.length ∧ digits.head? = some '0'
  · simp only [hzero, decide_true, Bool.true_eq_false, if_false, and_self, if_true]
    rfl
  simp only [hzero, decide_false, if_true, if_false, Attempt.value_bind, beq_iff_eq]
  by_cases hminus : raw.head? = some '-' ∧ digits = ['0']
  · simp only [hminus, and_self, not_true_eq_false, if_false, if_true]
    rfl
  simp only [hminus, not_false_eq_true, if_true, if_false, Attempt.value_bind, parseI64,
    beq_iff_eq]
  generalize (if raw.head? = some '-' then _ else _ : Int) = v
  by_cases hrange : -2 ^ 63 ≤ v ∧ v < 2 ^ 63
  · rw [if_pos hrange, if_pos hrange]
    rfl
  · rw [if_neg hrange, if_neg hrange]
    rfl

theorem parseI32_eq_value {raw : List Char} {kind : KeyKind} {v : Coordinate} :
    parseI32 raw kind = .value v ↔ raw = intText v := by
  have hiff : parseI32 raw kind = .value v ↔ LumioVoxel.parseI32 raw kind = .ok v.val := by
    unfold parseI32 LumioVoxel.parseI32
    generalize (if raw.head? = some '-' then raw.tail else raw) = digits
    simp only [ilog10_coordMin, Attempt.expect, Attempt.value_bind, length_encoded,
      parseDecimal_eq]
    by_cases hlen : maxCoordinateDigits < utf8Length digits
    · have hlen' : 9 + 1 < utf8Length digits := hlen
      simp only [hlen, hlen', Attempt.check, not_true_eq_false, if_false, if_true,
        Attempt.refused_bind, reduceCtorEq]
    have hlen' : ¬ 9 + 1 < utf8Length digits := hlen
    simp only [hlen, hlen', Attempt.check, not_false_eq_true, if_true, if_false,
      Attempt.value_bind]
    cases LumioVoxel.parseDecimal raw kind with
    | error err => simp only [Attempt.call, Attempt.refused_bind, reduceCtorEq]
    | ok value =>
      simp only [Attempt.call, Attempt.value_bind]
      by_cases h : SECTION_COORD_MIN ≤ value ∧ value ≤ SECTION_COORD_MAX
      · rw [dif_pos h, if_neg (by omega), Attempt.pure_eq_value, Except.ok.injEq,
          Subtype.ext_iff]
      · rw [dif_neg h, if_pos (by omega)]
        simp only [reduceCtorEq]
  rw [hiff, parseI32_eq_ok]
  exact ⟨fun h => h.1, fun h => ⟨h, v.property⟩⟩

theorem parseI32_ne_panicked (raw : List Char) (kind : KeyKind) :
    parseI32 raw kind ≠ .panicked := by
  unfold parseI32
  intro h
  simp only [ilog10_coordMin, Attempt.expect, Attempt.value_bind, Attempt.bind_eq_panicked,
    Attempt.check_ne_panicked, parseDecimal_eq, Attempt.call_ne_panicked, false_or] at h
  obtain ⟨-, -, value, -, h⟩ := h
  split at h
  · exact Attempt.pure_ne_panicked h
  · cases h

theorem parseDecimal_ne_panicked (raw : List Char) (kind : KeyKind) :
    parseDecimal raw kind ≠ .panicked := by
  rw [parseDecimal_eq]
  exact Attempt.call_ne_panicked

theorem checkSectionY_ne_panicked (value : Int) (kind : KeyKind) :
    checkSectionY value kind ≠ .panicked := by
  unfold checkSectionY
  split <;> simp only [ne_eq, reduceCtorEq, not_false_eq_true]

theorem checkSectionY_eq_value {value : Int} {kind : KeyKind} {y : Layer} :
    checkSectionY value kind = .value y ↔ value = (y.val : Int) := by
  have hy : (y.val : Int) ≤ SECTION_Y_MAX := Int.ofNat_le.mpr y.property
  unfold checkSectionY
  split
  · rename_i h
    rw [Attempt.value.injEq, Subtype.ext_iff]
    change value.toNat = y.val ↔ value = y.val
    simp only [SECTION_Y_MIN] at h
    omega
  · rename_i h
    simp only [reduceCtorEq, false_iff]
    rintro rfl
    exact h ⟨Int.natCast_nonneg _, hy⟩

/-- A part of a key is there when the key has that many parts. -/
private theorem part_ne_none {parts : List (List Char)} {arity i : Nat}
    (h : parts.length = arity) (hi : i < arity) : parts[i]? ≠ none := by
  rw [ne_eq, List.getElem?_eq_none_iff, h]
  exact Nat.not_le.mpr hi

theorem parseSection_ne_panicked (raw : String) : parseSection raw ≠ .panicked := by
  unfold parseSection
  intro h
  simp only [Attempt.bind_eq_panicked, Attempt.call_ne_panicked, Attempt.check_ne_panicked,
    Attempt.check_eq_value, Attempt.expect_eq_panicked, Attempt.pure_ne_panicked,
    parseI32_ne_panicked, parseDecimal_ne_panicked, checkSectionY_ne_panicked, false_or,
    and_false, exists_false, or_false] at h
  obtain ⟨parts, -, _, hlen, h⟩ := h
  rcases h with h | ⟨-, -, -, -, h | ⟨-, -, -, -, -, -, h⟩⟩
  · exact part_ne_none hlen (by decide) h
  · exact part_ne_none hlen (by decide) h
  · exact part_ne_none hlen (by decide) h

theorem parseChunk_ne_panicked (raw : String) : parseChunk raw ≠ .panicked := by
  unfold parseChunk
  intro h
  simp only [Attempt.bind_eq_panicked, Attempt.call_ne_panicked, Attempt.check_ne_panicked,
    Attempt.check_eq_value, Attempt.expect_eq_panicked, Attempt.pure_ne_panicked,
    parseI32_ne_panicked, false_or, and_false, exists_false, or_false] at h
  obtain ⟨parts, -, _, hlen, h⟩ := h
  rcases h with h | ⟨-, -, -, -, h⟩
  · exact part_ne_none hlen (by decide) h
  · exact part_ne_none hlen (by decide) h

/-! ## 4. Which texts parse -/

/-- Three parts, by their positions. -/
private theorem eq_three {parts : List (List Char)} {a b c : List Char} (h : parts.length = 3)
    (ha : parts[0]? = some a) (hb : parts[1]? = some b) (hc : parts[2]? = some c) :
    parts = [a, b, c] := by
  obtain ⟨a', b', c', rfl⟩ := List.length_eq_three.mp h
  simp only [List.getElem?_cons_zero, List.getElem?_cons_succ, Option.some.injEq] at ha hb hc
  rw [ha, hb, hc]

private theorem eq_two {parts : List (List Char)} {a b : List Char} (h : parts.length = 2)
    (ha : parts[0]? = some a) (hb : parts[1]? = some b) : parts = [a, b] := by
  obtain ⟨a', b', rfl⟩ := List.length_eq_two.mp h
  simp only [List.getElem?_cons_zero, List.getElem?_cons_succ, Option.some.injEq] at ha hb
  rw [ha, hb]

theorem parseDecimal_eq_value {raw : List Char} {kind : KeyKind} {v : Int} :
    parseDecimal raw kind = .value v ↔ raw = intText v ∧ -2 ^ 63 ≤ v ∧ v < 2 ^ 63 := by
  rw [parseDecimal_eq, Attempt.call_eq_value, LumioVoxel.parseDecimal_eq_ok]

/-- Section keys parse exactly in their canonical spelling. -/
theorem parseSection_eq_value {raw : String} {id : SectionId} :
    parseSection raw = .value id ↔ raw = id.key := by
  unfold parseSection
  simp only [Attempt.bind_eq_value, Attempt.call_eq_value, Attempt.check_eq_value,
    Attempt.expect_eq_value, Attempt.pure_eq_value, parseI32_eq_value, parseDecimal_eq_value,
    checkSectionY_eq_value]
  constructor
  · rintro ⟨parts, hsplit, _, hlen, px, hpx, x, rfl, py, hpy, rawY, ⟨rfl, -⟩, y, rfl, pz, hpz, z,
      rfl, rfl⟩
    apply String.toList_inj.mp
    rw [splitKey_eq_ok hsplit, eq_three hlen hpx hpy hpz, SectionId.toList_key, intText_natCast]
    simp [List.intercalate, SECTION_KEY_PREFIX]
  · rintro rfl
    have hy := id.y_le
    simp only [SECTION_Y_MAX] at hy
    exact ⟨_, splitKey_key id, (), rfl, _, rfl, ⟨id.x, id.x_mem⟩, rfl, _, rfl, (id.y : Int),
      ⟨(intText_natCast id.y).symm, by omega, by omega⟩, ⟨id.y, id.y_le⟩, rfl, _, rfl,
      ⟨id.z, id.z_mem⟩, rfl, rfl⟩

/-- The characters of a canonical chunk key, colon by colon. -/
theorem toList_chunkKey (id : ChunkId) :
    id.key.toList = ['c'] ++ ':' :: (intText id.x ++ ':' :: intText id.z) := by
  simp only [ChunkId.key, String.toList_append, toList_toString_int, List.append_assoc]
  rfl

theorem splitKey_chunkKey (id : ChunkId) :
    splitKey id.key CHUNK_KEY_PREFIX .chunk = .ok [intText id.x, intText id.z] := by
  have hsplit : id.key.toList.splitOn ':' = [['c'], intText id.x, intText id.z] := by
    rw [toList_chunkKey, List.splitOn_append_cons_self_of_not_mem (by decide),
      List.splitOn_append_cons_self_of_not_mem (colon_not_mem_intText id.x),
      List.splitOn_eq_singleton (colon_not_mem_intText id.z)]
  simp only [splitKey, hsplit]
  rfl

/-- Chunk keys parse exactly in their canonical spelling. -/
theorem parseChunk_eq_value {raw : String} {id : ChunkId} :
    parseChunk raw = .value id ↔ raw = id.key := by
  unfold parseChunk
  simp only [Attempt.bind_eq_value, Attempt.call_eq_value, Attempt.check_eq_value,
    Attempt.expect_eq_value, Attempt.pure_eq_value, parseI32_eq_value]
  constructor
  · rintro ⟨parts, hsplit, _, hlen, px, hpx, x, rfl, pz, hpz, z, rfl, rfl⟩
    apply String.toList_inj.mp
    rw [splitKey_eq_ok hsplit, eq_two hlen hpx hpz, toList_chunkKey]
    simp [List.intercalate, CHUNK_KEY_PREFIX]
  · rintro rfl
    exact ⟨_, splitKey_chunkKey id, (), rfl, _, rfl, ⟨id.x, id.x_mem⟩, rfl, _, rfl,
      ⟨id.z, id.z_mem⟩, rfl, rfl⟩

/-- No key of a section is a key of a chunk. -/
theorem sectionKey_ne_chunkKey (id : SectionId) (chunk : ChunkId) : id.key ≠ chunk.key := by
  intro h
  have hlist := congrArg String.toList h
  rw [SectionId.toList_key, toList_chunkKey] at hlist
  exact absurd (List.cons.inj hlist).1 (by decide)

/-- **Keys.** A section key and a chunk key parse in exactly their canonical spelling, no text
is both, and no text makes a parser panic. -/
theorem keys_parse_exactly :
    (∀ (raw : String) (id : SectionId), parseSection raw = .value id ↔ raw = id.key) ∧
    (∀ (raw : String) (id : ChunkId), parseChunk raw = .value id ↔ raw = id.key) ∧
    (∀ (raw : String) (id : SectionId) (chunk : ChunkId),
      ¬ (parseSection raw = .value id ∧ parseChunk raw = .value chunk)) ∧
    ∀ raw : String, parseSection raw ≠ .panicked ∧ parseChunk raw ≠ .panicked := by
  refine ⟨fun _ _ => parseSection_eq_value, fun _ _ => parseChunk_eq_value, ?_,
    fun raw => ⟨parseSection_ne_panicked raw, parseChunk_ne_panicked raw⟩⟩
  rintro raw id chunk ⟨hsection, hchunk⟩
  exact sectionKey_ne_chunkKey id chunk
    ((parseSection_eq_value.mp hsection).symm.trans (parseChunk_eq_value.mp hchunk))

end KeyText

end LumioVoxel
