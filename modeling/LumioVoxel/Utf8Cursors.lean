import Mathlib.Data.List.Basic

/-!
# Cursors into UTF-8 text

A byte offset into a text is at a character boundary when the characters before it
take up that many bytes.  At a boundary the next byte says what the next character
is: an ASCII character is its own byte, and every other one begins with a byte of at
least 128.  So a reader that looks at bytes and steps over whole characters reads
the text character by character.
-/

namespace Utf8Cursors

/-! ## 1. Encoded text -/

def encoded (text : List Char) : List UInt8 := text.flatMap String.utf8EncodeChar

@[simp] theorem encoded_nil : encoded [] = [] := rfl

theorem encoded_cons (c : Char) (text : List Char) :
    encoded (c :: text) = String.utf8EncodeChar c ++ encoded text := rfl

theorem encoded_append (first second : List Char) :
    encoded (first ++ second) = encoded first ++ encoded second := List.flatMap_append

/-- The bytes of a string are its encoded characters. -/
theorem data_toByteArray (s : String) : s.toByteArray.data.toList = encoded s.toList := by
  have hencode : s.toByteArray = s.toList.utf8Encode := by
    conv_lhs => rw [← String.ofList_toList (s := s)]
    rfl
  rw [hencode, List.utf8Encode, List.toList_data_toByteArray]
  rfl

theorem length_le_encoded (text : List Char) : text.length ≤ (encoded text).length := by
  induction text with
  | nil => exact Nat.le_refl 0
  | cons c text ih =>
    have hpos := c.utf8Size_pos
    rw [encoded_cons, List.length_append, String.length_utf8EncodeChar, List.length_cons]
    omega

theorem utf8EncodeChar_of_ascii {c : Char} (h : c.toNat < 128) :
    String.utf8EncodeChar c = [UInt8.ofNat c.toNat] := by
  have hle : c.val.toNat ≤ 0x7f := Nat.le_of_lt_succ h
  simp only [String.utf8EncodeChar, if_pos hle]
  rfl

theorem utf8Size_of_ascii {c : Char} (h : c.toNat < 128) : c.utf8Size = 1 := by
  rw [← String.length_utf8EncodeChar, utf8EncodeChar_of_ascii h]
  rfl

/-- A character outside ASCII begins with a byte outside ASCII. -/
theorem utf8EncodeChar_of_not_ascii {c : Char} (h : 128 ≤ c.toNat) :
    ∃ byte tail, String.utf8EncodeChar c = byte :: tail ∧ 128 ≤ byte.toNat := by
  have hgt : ¬ c.val.toNat ≤ 0x7f := Nat.not_le.mpr h
  simp only [String.utf8EncodeChar, if_neg hgt]
  split
  · refine ⟨_, _, rfl, ?_⟩
    rw [UInt8.toNat_ofNat']
    omega
  · split
    · refine ⟨_, _, rfl, ?_⟩
      rw [UInt8.toNat_ofNat']
      omega
    · refine ⟨_, _, rfl, ?_⟩
      rw [UInt8.toNat_ofNat']
      omega

/-- An ASCII byte at the front is a character at the front. -/
theorem exists_char_of_encoded {text : List Char} {byte : UInt8} {tail : List UInt8}
    (h : encoded text = byte :: tail) (hascii : byte.toNat < 128) :
    ∃ c rest, text = c :: rest ∧ c.toNat = byte.toNat ∧ tail = encoded rest := by
  cases text with
  | nil => cases h
  | cons c rest =>
    rw [encoded_cons] at h
    by_cases hc : c.toNat < 128
    · rw [utf8EncodeChar_of_ascii hc] at h
      obtain ⟨rfl, rfl⟩ := List.cons.inj h
      refine ⟨c, rest, rfl, ?_, rfl⟩
      rw [UInt8.toNat_ofNat']
      omega
    · obtain ⟨first, others, hencode, hfirst⟩ := utf8EncodeChar_of_not_ascii (Nat.not_lt.mp hc)
      rw [hencode] at h
      obtain ⟨rfl, -⟩ := List.cons.inj h
      omega

/-! ## 2. Boundaries -/

/-- The characters of the text from the offset on are the rest. -/
def Boundary (text rest : List Char) (offset : Nat) : Prop :=
  ∃ before, text = before ++ rest ∧ offset = (encoded before).length

variable {text rest : List Char} {offset : Nat} {c : Char}

theorem boundary_zero (text : List Char) : Boundary text text 0 := ⟨[], rfl, rfl⟩

theorem Boundary.drop_encoded (h : Boundary text rest offset) :
    (encoded text).drop offset = encoded rest := by
  obtain ⟨before, rfl, rfl⟩ := h
  rw [encoded_append, List.drop_left]

theorem Boundary.getElem? (h : Boundary text rest offset) :
    (encoded text)[offset]? = (encoded rest).head? := by
  rw [← h.drop_encoded, List.head?_drop]

/-- Past one whole character is the next boundary. -/
theorem Boundary.advance (h : Boundary text (c :: rest) offset) :
    Boundary text rest (offset + c.utf8Size) := by
  obtain ⟨before, rfl, rfl⟩ := h
  refine ⟨before ++ [c], by simp, ?_⟩
  rw [encoded_append, List.length_append, encoded_cons, encoded_nil, List.append_nil,
    String.length_utf8EncodeChar]

theorem Boundary.advance_ascii (h : Boundary text (c :: rest) offset) (hc : c.toNat < 128) :
    Boundary text rest (offset + 1) := by
  rw [← utf8Size_of_ascii hc]
  exact h.advance

/-- The last boundary is the length of the text in bytes. -/
theorem Boundary.nil_iff (h : Boundary text rest offset) :
    offset = (encoded text).length ↔ rest = [] := by
  obtain ⟨before, rfl, rfl⟩ := h
  rw [encoded_append, List.length_append]
  constructor
  · intro heq
    have hle := length_le_encoded rest
    exact List.eq_nil_of_length_eq_zero (by omega)
  · rintro rfl
    rfl

theorem Boundary.le (h : Boundary text rest offset) : offset ≤ (encoded text).length := by
  obtain ⟨before, rfl, rfl⟩ := h
  rw [encoded_append, List.length_append]
  exact Nat.le_add_right _ _

/-! ## 3. The character at an offset -/

/-- The character that begins at a byte offset, if one does. -/
def charAt : List Char → Nat → Option Char
  | [], _ => none
  | c :: _, 0 => some c
  | c :: rest, offset => if c.utf8Size ≤ offset then charAt rest (offset - c.utf8Size) else none

theorem Boundary.charAt (h : Boundary text rest offset) : charAt text offset = rest.head? := by
  obtain ⟨before, rfl, rfl⟩ := h
  induction before with
  | nil =>
    cases rest with
    | nil => rfl
    | cons c rest => rfl
  | cons d before ih =>
    have hpos := d.utf8Size_pos
    rw [encoded_cons, List.length_append, String.length_utf8EncodeChar, List.cons_append]
    obtain ⟨n, hn⟩ : ∃ n, d.utf8Size + (encoded before).length = n + 1 :=
      ⟨d.utf8Size + (encoded before).length - 1, by omega⟩
    rw [hn, Utf8Cursors.charAt, ← hn, if_pos (Nat.le_add_right _ _), Nat.add_sub_cancel_left]
    · exact ih
    · intro h
      cases h

end Utf8Cursors
