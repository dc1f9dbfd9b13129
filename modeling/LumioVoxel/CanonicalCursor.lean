import LumioVoxel.CanonicalObject
import LumioVoxel.Utf8Cursors

/-!
# The canonical parser at its byte cursor

The parser keeps the text and a byte offset into it, decides by the next byte and
steps over whole characters.  It is given here as the source has it, with two ends
of its own beside a value and an error: an index out of range, and a loop that is
out of steps.  Neither is ever reached, and what the parser comes to is what the
reading by characters comes to.
-/

namespace LumioVoxel

open DecimalText Fallible Utf8Cursors

/-! ## 1. Outcomes -/

inductive Outcome (α : Type) where
  | value (a : α)
  | refused (err : DecodeError)
  | panic
  | outOfSteps
  deriving DecidableEq

namespace Outcome

variable {α β : Type}

def bind (x : Outcome α) (f : α → Outcome β) : Outcome β :=
  match x with
  | value a => f a
  | refused err => refused err
  | panic => panic
  | outOfSteps => outOfSteps

instance : Monad Outcome where
  pure := value
  bind := bind

theorem value_bind (a : α) (f : α → Outcome β) : (Outcome.value a >>= f) = f a := rfl

end Outcome

/-! ## 2. The parser -/

/-- `offset` is the source's `at`.  It stays within the text, so it is a natural number. -/
structure Parser where
  text : String
  offset : Nat
  deriving DecidableEq, Repr

def isAsciiDigit (byte : UInt8) : Bool := 0x30 ≤ byte && byte ≤ 0x39

def isAsciiHexdigit (byte : UInt8) : Bool :=
  isAsciiDigit byte || (0x61 ≤ byte && byte ≤ 0x66) || (0x41 ≤ byte && byte ≤ 0x46)

def hexDigitValue (byte : UInt8) : Nat :=
  if isAsciiDigit byte then byte.toNat - 0x30
  else if 0x61 ≤ byte then byte.toNat - 0x57
  else byte.toNat - 0x37

/-- `from_str_radix(hex, 16)` on hexadecimal digits. -/
def fromStrRadix (hex : Bytes) : Nat := hex.foldl (fun n byte => n * 16 + hexDigitValue byte) 0

/-- A surrogate half is not a scalar value. -/
def charFromU32 (code : Nat) : Option Char :=
  if h : Nat.isValidChar code then some (Char.ofNatAux code h) else none

/-- `parse::<u64>` on decimal digits. -/
def parseU64 (digits : Bytes) : Option UInt64 :=
  if value (digits.map fun byte => Char.ofNat byte.toNat) < 2 ^ 64 then
    some (UInt64.ofNat (value (digits.map fun byte => Char.ofNat byte.toNat)))
  else none

namespace Parser

def bytes (p : Parser) : Bytes := utf8 p.text

def peek (p : Parser) : Option UInt8 := p.bytes[p.offset]?

def advance (p : Parser) (n : Nat) : Parser := { p with offset := p.offset + n }

def eat (p : Parser) (byte : UInt8) : Outcome Parser :=
  if p.peek = some byte then .value (p.advance 1) else .refused .malformed

/-- The four digits of a `\u` escape. -/
def unicodeEscape (p : Parser) : Outcome (Char × Parser) :=
  match slice p.bytes p.offset (p.offset + 4) with
  | none => .refused .malformed
  | some hex =>
    -- bytes that are not UTF-8 fail the digit check as well
    if hex.all isAsciiHexdigit then
      match charFromU32 (fromStrRadix hex) with
      | none => .refused .malformed
      | some ch => .value (ch, p.advance 4)
    else
      .refused .malformed

def escape (p : Parser) : Outcome (Char × Parser) :=
  if p.peek = some '"'.toUInt8 then .value ('"', p.advance 1)
  else if p.peek = some '\\'.toUInt8 then .value ('\\', p.advance 1)
  else if p.peek = some 'u'.toUInt8 then (p.advance 1).unicodeEscape
  else .refused .malformed

/-- The loop of `string`, one character in each step. -/
def stringLoop : Nat → Parser → List Char → Outcome (String × Parser)
  | 0, _, _ => .outOfSteps
  | steps + 1, p, out =>
    match p.peek with
    | none => .refused .malformed
    | some byte =>
      if byte = '"'.toUInt8 then
        .value (String.ofList out, p.advance 1)
      else if byte = '\\'.toUInt8 then do
        let (ch, p) ← (p.advance 1).escape
        stringLoop steps p (out ++ [ch])
      else if byte < 0x20 then
        .refused .malformed
      else
        match charAt p.text.toList p.offset with
        | none => .refused .malformed
        | some ch => stringLoop steps (p.advance ch.utf8Size) (out ++ [ch])

def string (p : Parser) (steps : Nat) : Outcome (String × Parser) := do
  let p ← p.eat '"'.toUInt8
  stringLoop steps p []

def skipDigits : Nat → Parser → Outcome Parser
  | 0, _ => .outOfSteps
  | steps + 1, p =>
    if p.peek.any isAsciiDigit then skipDigits steps (p.advance 1) else .value p

def uint (p : Parser) (steps : Nat) : Outcome (UInt64 × Parser) := do
  let stop ← skipDigits steps p
  match slice stop.bytes p.offset stop.offset with
  | none => .panic
  | some digits =>
    if digits = [] ∨ (1 < digits.length ∧ digits.head? = some '0'.toUInt8) then
      .refused .malformed
    else
      match parseU64 digits with
      | none => .refused .malformed
      | some n => .value (n, stop)

/-- The loop of `array`, one item in each round. -/
def arrayLoop (steps : Nat) : Nat → Parser → List String → Outcome (CanonicalValue × Parser)
  | 0, _, _ => .outOfSteps
  | rounds + 1, p, items => do
    let (item, p) ← p.string steps
    if p.peek = some ','.toUInt8 then arrayLoop steps rounds (p.advance 1) (items ++ [item])
    else if p.peek = some ']'.toUInt8 then .value (.textArray (items ++ [item]), p.advance 1)
    else .refused .malformed

def array (p : Parser) (steps : Nat) : Outcome (CanonicalValue × Parser) := do
  let p ← p.eat '['.toUInt8
  if p.peek = some ']'.toUInt8 then .value (.textArray [], p.advance 1)
  else arrayLoop steps steps p []

def value (p : Parser) (steps : Nat) : Outcome (CanonicalValue × Parser) :=
  if p.peek = some '"'.toUInt8 then do
    let (text, p) ← p.string steps
    return (.text text, p)
  else if p.peek = some '['.toUInt8 then
    p.array steps
  else if p.peek.any isAsciiDigit then do
    let (n, p) ← p.uint steps
    return (.uint n, p)
  else
    .refused .malformed

/-- The loop of `object`, one member in each round. -/
def objectLoop (steps : Nat) : Nat → Parser → CanonicalObject → Outcome (CanonicalObject × Parser)
  | 0, _, _ => .outOfSteps
  | rounds + 1, p, object => do
    let (key, p) ← p.string steps
    let p ← p.eat ':'.toUInt8
    let (v, p) ← p.value steps
    match object.insert key v with
    | .error _ => .refused .duplicateMember
    | .ok object =>
      if p.peek = some ','.toUInt8 then objectLoop steps rounds (p.advance 1) object
      else if p.peek = some '}'.toUInt8 then .value (object, p.advance 1)
      else .refused .malformed

def object (p : Parser) (steps : Nat) : Outcome (CanonicalObject × Parser) := do
  let p ← p.eat '{'.toUInt8
  if p.peek = some '}'.toUInt8 then .value (.new, p.advance 1)
  else objectLoop steps steps p .new

/-- The whole input, as valid UTF-8, is one object. -/
def parse (bytes : Bytes) (steps : Nat) : Outcome CanonicalObject :=
  match String.fromUTF8? ⟨bytes.toArray⟩ with
  | none => .refused .malformed
  | some text => do
    let (object, p) ← object ⟨text, 0⟩ steps
    if p.offset = bytes.length then .value object else .refused .malformed

/-- Parses, then requires the canonical spelling of what was parsed. -/
def decode (bytes : Bytes) (steps : Nat) : Outcome CanonicalObject := do
  let object ← parse bytes steps
  if object.encodeBytes = bytes then .value object else .refused .notCanonical

/-! ## 3. Where the cursor stands -/

/-- The cursor is at a character boundary of the text, before the rest. -/
structure At (text : String) (rest : List Char) (p : Parser) : Prop where
  text_eq : p.text = text
  boundary : Boundary text.toList rest p.offset

variable {text : String} {rest : List Char} {c d : Char} {p : Parser}

theorem At.bytes (h : p.At text rest) : p.bytes = encoded text.toList := by
  rw [Parser.bytes, utf8, data_toByteArray, h.text_eq]

theorem At.peek (h : p.At text rest) : p.peek = (encoded rest).head? := by
  rw [Parser.peek, h.bytes, h.boundary.getElem?]

theorem At.peek_nil (h : p.At text []) : p.peek = none := h.peek

theorem At.peek_ascii (h : p.At text (c :: rest)) (hc : c.toNat < 128) :
    p.peek = some c.toUInt8 := by
  rw [h.peek, encoded_cons, utf8EncodeChar_of_ascii hc]
  rfl

theorem At.peek_not_ascii (h : p.At text (c :: rest)) (hc : 128 ≤ c.toNat) :
    ∃ byte, p.peek = some byte ∧ 128 ≤ byte.toNat := by
  obtain ⟨byte, tail, hencode, hbyte⟩ := utf8EncodeChar_of_not_ascii hc
  refine ⟨byte, ?_, hbyte⟩
  rw [h.peek, encoded_cons, hencode]
  rfl

theorem At.advance (h : p.At text (c :: rest)) (hc : c.toNat < 128) :
    (p.advance 1).At text rest :=
  ⟨h.text_eq, h.boundary.advance_ascii hc⟩

theorem toNat_toUInt8 (hc : c.toNat < 128) : c.toUInt8.toNat = c.toNat := by
  have hval : c.toUInt8.toNat = c.toNat % 256 := rfl
  omega

theorem toUInt8_inj (hc : c.toNat < 128) (hd : d.toNat < 128) (h : c.toUInt8 = d.toUInt8) :
    c = d := by
  have hnat := congrArg UInt8.toNat h
  rw [toNat_toUInt8 hc, toNat_toUInt8 hd] at hnat
  exact Char.toNat_inj.mp hnat

/-- The next byte is an ASCII character's exactly when that is the next character. -/
theorem At.peek_eq_iff (h : p.At text rest) (hd : d.toNat < 128) :
    p.peek = some d.toUInt8 ↔ rest.head? = some d := by
  cases rest with
  | nil =>
    rw [h.peek_nil]
    exact iff_of_false (fun h => by cases h) (fun h => by cases h)
  | cons c rest =>
    rw [List.head?_cons, Option.some.injEq]
    by_cases hc : c.toNat < 128
    · rw [h.peek_ascii hc, Option.some.injEq]
      exact ⟨toUInt8_inj hc hd, congrArg Char.toUInt8⟩
    · obtain ⟨byte, hpeek, hbyte⟩ := h.peek_not_ascii (Nat.not_lt.mp hc)
      rw [hpeek, Option.some.injEq]
      constructor
      · rintro rfl
        rw [toNat_toUInt8 hd] at hbyte
        omega
      · rintro rfl
        omega

/-- The next byte is a digit exactly when the next character is. -/
theorem At.peek_isAsciiDigit (h : p.At text rest) :
    p.peek.any isAsciiDigit = rest.head?.any Char.isDigit := by
  cases rest with
  | nil => rw [h.peek_nil]; rfl
  | cons c rest =>
    rw [List.head?_cons, Option.any_some]
    by_cases hc : c.toNat < 128
    · rw [h.peek_ascii hc, Option.any_some, Bool.eq_iff_iff]
      simp only [isAsciiDigit, Char.isDigit, Bool.and_eq_true, decide_eq_true_eq,
        UInt8.le_iff_toNat_le, UInt32.le_iff_toNat_le, toNat_toUInt8 hc]
      rfl
    · obtain ⟨byte, hpeek, hbyte⟩ := h.peek_not_ascii (Nat.not_lt.mp hc)
      rw [hpeek, Option.any_some]
      have hleft : isAsciiDigit byte = false := by
        simp only [isAsciiDigit, Bool.and_eq_false_iff, decide_eq_false_iff_not,
          UInt8.le_iff_toNat_le]
        right
        have : (0x39 : UInt8).toNat = 57 := rfl
        omega
      have hright : c.isDigit = false := by
        simp only [Char.isDigit, Bool.and_eq_false_iff, decide_eq_false_iff_not,
          UInt32.le_iff_toNat_le]
        right
        have : ('9' : Char).val.toNat = 57 := rfl
        have : c.val.toNat = c.toNat := rfl
        omega
      rw [hleft, hright]

/-! ## 4. Two readings -/

/-- The reading by characters and the one at the cursor end alike. -/
inductive Agrees {α β : Type} (R : α → β → Prop) : Except DecodeError α → Outcome β → Prop
  | value {a : α} {b : β} (h : R a b) : Agrees R (.ok a) (.value b)
  | refused (err : DecodeError) : Agrees R (.error err) (.refused err)

theorem Agrees.eq_refused {α β : Type} {R : α → β → Prop} {err : DecodeError} {y : Outcome β}
    (h : Agrees R (.error err) y) : y = .refused err := by
  cases h
  rfl

theorem Agrees.eq_value {α β : Type} {R : α → β → Prop} {a : α} {y : Outcome β}
    (h : Agrees R (.ok a) y) : ∃ b, y = .value b ∧ R a b := by
  cases h with
  | value h => exact ⟨_, rfl, h⟩

/-- The same value, and the cursor before what the other reading did not consume. -/
def Reads {α : Type} (text : String) (r : α × List Char) (s : α × Parser) : Prop :=
  s.1 = r.1 ∧ s.2.At text r.2

theorem Agrees.bind {α β γ δ : Type} {R : α → β → Prop} {S : γ → δ → Prop}
    {x : Except DecodeError α} {y : Outcome β} (h : Agrees R x y) {f : α → Except DecodeError γ}
    {g : β → Outcome δ} (hfg : ∀ a b, x = .ok a → R a b → Agrees S (f a) (g b)) :
    Agrees S (x >>= f) (y >>= g) := by
  cases h with
  | value h => exact hfg _ _ rfl h
  | refused err => exact .refused err

theorem eat_agrees (h : p.At text rest) (hc : c.toNat < 128) :
    Agrees (fun rest p => p.At text rest) (CanonicalParser.eat c rest) (p.eat c.toUInt8) := by
  unfold eat
  cases rest with
  | nil =>
    rw [h.peek_nil, if_neg (by intro h; cases h)]
    exact .refused .malformed
  | cons d rest =>
    by_cases hdc : d = c
    · subst hdc
      rw [if_pos (h.peek_ascii hc), CanonicalParser.eat, if_pos rfl]
      exact .value (h.advance hc)
    · have hpeek : p.peek ≠ some c.toUInt8 := fun hpeek =>
        hdc (Option.some.inj ((h.peek_eq_iff hc).mp hpeek))
      rw [if_neg hpeek, CanonicalParser.eat, if_neg hdc]
      exact .refused .malformed

/-! ## 5. Strings -/

private theorem hexValue_ascii : ∀ n : Fin 128, CanonicalParser.hexValue (Char.ofNat n) =
    if isAsciiHexdigit (Char.ofNat n).toUInt8 then some (hexDigitValue (Char.ofNat n).toUInt8)
    else none := by
  decide

theorem hexValue_of_ascii (hc : c.toNat < 128) : CanonicalParser.hexValue c =
    if isAsciiHexdigit c.toUInt8 then some (hexDigitValue c.toUInt8) else none := by
  have h := hexValue_ascii ⟨c.toNat, hc⟩
  rwa [Char.ofNat_toNat] at h

theorem ascii_of_hexValue {n : Nat} (h : CanonicalParser.hexValue c = some n) : c.toNat < 128 := by
  by_contra hc
  have hval : 128 ≤ c.val.toNat := Nat.not_lt.mp hc
  have hle : ∀ d : Char, d.val.toNat < 128 → ¬ c ≤ d := by
    intro d hd hcd
    have := UInt32.le_iff_toNat_le.mp (Char.le_def.mp hcd)
    omega
  rw [CanonicalParser.hexValue, if_neg fun h => hle '9' (by decide) h.2,
    if_neg fun h => hle 'f' (by decide) h.2, if_neg fun h => hle 'F' (by decide) h.2] at h
  cases h

/-- The four digits of an escape, read by characters. -/
def unicodeChars : List Char → Except DecodeError (Char × List Char)
  | a :: b :: c :: d :: rest =>
    match CanonicalParser.escapedChar a b c d with
    | some ch => .ok (ch, rest)
    | none => .error .malformed
  | _ => .error .malformed

/-- One escape after its backslash, read by characters. -/
def escapeChars : List Char → Except DecodeError (Char × List Char)
  | '"' :: rest => .ok ('"', rest)
  | '\\' :: rest => .ok ('\\', rest)
  | 'u' :: rest => unicodeChars rest
  | _ => .error .malformed

theorem encoded_cons_ascii (hc : c.toNat < 128) (rest : List Char) :
    encoded (c :: rest) = c.toUInt8 :: encoded rest := by
  rw [encoded_cons, utf8EncodeChar_of_ascii hc]
  rfl

/-- Characters that are hexadecimal digits are bytes that are. -/
theorem hexdigits_of_unicodeChars {r : Char × List Char} (h : unicodeChars rest = .ok r) :
    4 ≤ (encoded rest).length ∧ ((encoded rest).take 4).all isAsciiHexdigit = true := by
  have hdigit : ∀ {c : Char} {n : Nat}, CanonicalParser.hexValue c = some n →
      c.toNat < 128 ∧ isAsciiHexdigit c.toUInt8 = true := by
    intro c n hc
    have hascii := ascii_of_hexValue hc
    rw [hexValue_of_ascii hascii] at hc
    split at hc
    · rename_i hhex
      exact ⟨hascii, hhex⟩
    · cases hc
  unfold unicodeChars at h
  split at h
  · rename_i a b c d rest
    split at h
    · rename_i ch hescaped
      obtain ⟨_, ha, hescaped⟩ := Option.bind_eq_some_iff.mp hescaped
      obtain ⟨_, hb, hescaped⟩ := Option.bind_eq_some_iff.mp hescaped
      obtain ⟨_, hc, hescaped⟩ := Option.bind_eq_some_iff.mp hescaped
      obtain ⟨_, hd, -⟩ := Option.bind_eq_some_iff.mp hescaped
      rw [encoded_cons_ascii (hdigit ha).1, encoded_cons_ascii (hdigit hb).1,
        encoded_cons_ascii (hdigit hc).1, encoded_cons_ascii (hdigit hd).1]
      refine ⟨by simp only [List.length_cons]; omega, ?_⟩
      simp only [List.take_succ_cons, List.take_zero, List.all_cons, List.all_nil, (hdigit ha).2,
        (hdigit hb).2, (hdigit hc).2, (hdigit hd).2, Bool.and_self]
    · cases h
  · cases h

/-- Bytes that are hexadecimal digits are characters that are, and mean the same. -/
theorem unicodeChars_of_hexdigits (hlength : 4 ≤ (encoded rest).length)
    (hhex : ((encoded rest).take 4).all isAsciiHexdigit = true) :
    ∃ a b c d tail, rest = a :: b :: c :: d :: tail ∧
      (∀ x ∈ [a, b, c, d], x.toNat < 128) ∧
      CanonicalParser.escapedChar a b c d =
        charFromU32 (fromStrRadix ((encoded rest).take 4)) := by
  have hnext : ∀ {rest : List Char} {n : Nat}, n + 1 ≤ (encoded rest).length →
      ((encoded rest).take (n + 1)).all isAsciiHexdigit = true →
      ∃ c tail, rest = c :: tail ∧ c.toNat < 128 ∧
        CanonicalParser.hexValue c = some (hexDigitValue c.toUInt8) ∧
        n ≤ (encoded tail).length ∧ ((encoded tail).take n).all isAsciiHexdigit = true := by
    intro rest n hlength hhex
    obtain ⟨byte, tail, hencoded⟩ :=
      List.exists_cons_of_length_pos (Nat.lt_of_lt_of_le (Nat.succ_pos n) hlength)
    rw [hencoded, List.take_succ_cons, List.all_cons, Bool.and_eq_true] at hhex
    have hbyte : byte.toNat < 128 := by
      have := hhex.1
      simp only [isAsciiHexdigit, isAsciiDigit, Bool.or_eq_true, Bool.and_eq_true,
        decide_eq_true_eq, UInt8.le_iff_toNat_le] at this
      have h39 : (0x39 : UInt8).toNat = 57 := rfl
      have h66 : (0x66 : UInt8).toNat = 102 := rfl
      have h46 : (0x46 : UInt8).toNat = 70 := rfl
      omega
    obtain ⟨c, rest, rfl, hc, rfl⟩ := exists_char_of_encoded hencoded hbyte
    have hascii : c.toNat < 128 := by omega
    have hsame : c.toUInt8 = byte := UInt8.toNat_inj.mp ((toNat_toUInt8 hascii).trans hc)
    refine ⟨c, rest, rfl, hascii, ?_, ?_, hhex.2⟩
    · rw [hexValue_of_ascii hascii, hsame, if_pos hhex.1]
    · rw [hencoded, List.length_cons] at hlength
      omega
  obtain ⟨a, rest, rfl, ha, hva, hlength, hhex⟩ := hnext hlength hhex
  obtain ⟨b, rest, rfl, hb, hvb, hlength, hhex⟩ := hnext hlength hhex
  obtain ⟨c, rest, rfl, hc, hvc, hlength, hhex⟩ := hnext hlength hhex
  obtain ⟨d, rest, rfl, hd, hvd, -, -⟩ := hnext hlength hhex
  refine ⟨a, b, c, d, rest, rfl, ?_, ?_⟩
  · simp only [List.mem_cons, List.not_mem_nil, or_false]
    rintro x (rfl | rfl | rfl | rfl)
    · exact ha
    · exact hb
    · exact hc
    · exact hd
  · rw [encoded_cons_ascii ha, encoded_cons_ascii hb, encoded_cons_ascii hc, encoded_cons_ascii hd]
    have hradix : fromStrRadix ([a.toUInt8, b.toUInt8, c.toUInt8, d.toUInt8]) =
        ((hexDigitValue a.toUInt8 * 16 + hexDigitValue b.toUInt8) * 16 +
          hexDigitValue c.toUInt8) * 16 + hexDigitValue d.toUInt8 := by
      simp only [fromStrRadix, List.foldl_cons, List.foldl_nil, Nat.zero_mul, Nat.zero_add]
    rw [CanonicalParser.escapedChar, hva, hvb, hvc, hvd, List.take_succ_cons, List.take_succ_cons,
      List.take_succ_cons, List.take_succ_cons, List.take_zero, hradix]
    rfl

/-- The four bytes at the cursor, when there are four. -/
theorem At.slice (h : p.At text rest) (n : Nat) :
    slice p.bytes p.offset (p.offset + n) =
      if n ≤ (encoded rest).length then some ((encoded rest).take n) else none := by
  have hlength := congrArg List.length h.boundary.drop_encoded
  have hle := h.boundary.le
  rw [List.length_drop] at hlength
  rw [LumioVoxel.slice, h.bytes, h.boundary.drop_encoded, Nat.add_sub_cancel_left]
  by_cases hn : n ≤ (encoded rest).length
  · rw [if_pos hn, if_pos ⟨Nat.le_add_right _ _, by omega⟩]
  · rw [if_neg hn, if_neg fun h => hn (by omega)]

theorem unicodeEscape_agrees (h : p.At text rest) :
    Agrees (Reads text) (unicodeChars rest) p.unicodeEscape := by
  have hrefused : ¬ (4 ≤ (encoded rest).length ∧
      ((encoded rest).take 4).all isAsciiHexdigit = true) →
      unicodeChars rest = .error .malformed := by
    intro hnot
    cases hread : unicodeChars rest with
    | ok r => exact absurd (hexdigits_of_unicodeChars hread) hnot
    | error err =>
      unfold unicodeChars at hread
      split at hread
      · split at hread
        · cases hread
        · exact hread.symm
      · exact hread.symm
  rw [unicodeEscape, h.slice]
  by_cases hlength : 4 ≤ (encoded rest).length
  · rw [if_pos hlength]
    by_cases hhex : ((encoded rest).take 4).all isAsciiHexdigit = true
    · obtain ⟨a, b, c, d, tail, rfl, hascii, hescaped⟩ := unicodeChars_of_hexdigits hlength hhex
      simp only [if_pos hhex, ← hescaped, unicodeChars]
      cases CanonicalParser.escapedChar a b c d with
      | none => exact .refused .malformed
      | some ch =>
        refine .value ⟨rfl, h.text_eq, ?_⟩
        have ha := h.boundary.advance_ascii (hascii a (by simp))
        have hb := ha.advance_ascii (hascii b (by simp))
        have hc := hb.advance_ascii (hascii c (by simp))
        exact hc.advance_ascii (hascii d (by simp))
    · simp only [if_neg hhex]
      rw [hrefused fun hall => hhex hall.2]
      exact .refused .malformed
  · rw [if_neg hlength, hrefused fun hall => hlength hall.1]
    exact .refused .malformed

theorem escape_agrees (h : p.At text rest) :
    Agrees (Reads text) (escapeChars rest) p.escape := by
  simp only [escape, h.peek_eq_iff (show '"'.toNat < 128 by decide),
    h.peek_eq_iff (show '\\'.toNat < 128 by decide), h.peek_eq_iff (show 'u'.toNat < 128 by decide)]
  unfold escapeChars
  split
  · exact .value ⟨rfl, h.advance (by decide)⟩
  · exact .value ⟨rfl, h.advance (by decide)⟩
  · exact unicodeEscape_agrees (h.advance (by decide))
  · rename_i hquote hbackslash hu
    rw [if_neg, if_neg, if_neg]
    · exact .refused .malformed
    · intro hhead
      obtain ⟨tail, rfl⟩ := List.head?_eq_some_iff.mp hhead
      exact hu tail rfl
    · intro hhead
      obtain ⟨tail, rfl⟩ := List.head?_eq_some_iff.mp hhead
      exact hbackslash tail rfl
    · intro hhead
      obtain ⟨tail, rfl⟩ := List.head?_eq_some_iff.mp hhead
      exact hquote tail rfl

open CanonicalParser in
/-- A backslash that no escape follows. -/
private theorem stringBody_no_escape (hquote : ∀ tail, rest ≠ '"' :: tail)
    (hbackslash : ∀ tail, rest ≠ '\\' :: tail)
    (hu : ∀ a b c d tail, rest ≠ 'u' :: a :: b :: c :: d :: tail) :
    stringBody ('\\' :: rest) = .error .malformed := by
  rw [stringBody.eq_def]
  split
  · rename_i h
    cases h
  · rename_i h
    cases h
  · rename_i tail h
    exact absurd (List.cons.inj h).2 (hquote tail)
  · rename_i tail h
    exact absurd (List.cons.inj h).2 (hbackslash tail)
  · rename_i a b c d tail h
    exact absurd (List.cons.inj h).2 (hu a b c d tail)
  · rfl
  · rename_i hnot h
    exact absurd (List.cons.inj h).1.symm hnot

open CanonicalParser in
/-- A string body that begins with an escape. -/
theorem stringBody_escape (rest : List Char) : stringBody ('\\' :: rest) =
    match escapeChars rest with
    | .ok (ch, rest) => pushChar ch (stringBody rest)
    | .error err => .error err := by
  fun_cases escapeChars rest with
  | case1 tail => rfl
  | case2 tail => rfl
  | case3 tail =>
    fun_cases unicodeChars tail with
    | case1 a b c d tail ch hescaped =>
      rw [stringBody, hescaped]
    | case2 a b c d tail hescaped =>
      rw [stringBody, hescaped]
    | case3 tail hnot =>
      apply stringBody_no_escape
      · intro tail h
        cases h
      · intro tail h
        cases h
      · intro a b c d tail h
        exact hnot a b c d tail (List.cons.inj h).2
  | case4 rest hquote hbackslash hu =>
    exact stringBody_no_escape hquote hbackslash fun a b c d tail => hu (a :: b :: c :: d :: tail)

theorem length_of_escapeChars {r : Char × List Char} (h : escapeChars rest = .ok r) :
    r.2.length ≤ rest.length := by
  revert h
  fun_cases escapeChars rest with
  | case1 tail =>
    rintro ⟨⟩
    simp
  | case2 tail =>
    rintro ⟨⟩
    simp
  | case3 tail =>
    fun_cases unicodeChars tail with
    | case1 a b c d tail ch hescaped =>
      rintro ⟨⟩
      simp only [List.length_cons]
      omega
    | case2 a b c d tail hescaped => exact fun h => absurd h error_ne_ok
    | case3 tail hnot => exact fun h => absurd h error_ne_ok
  | case4 => exact fun h => absurd h error_ne_ok

/-- A step over one character of a string. -/
private theorem stringLoop_step {steps : Nat} {out : List Char}
    (ih : ∀ (rest : List Char) (p : Parser) (out : List Char), p.At text rest →
      rest.length < steps →
      Agrees (Reads text)
        ((CanonicalParser.stringBody rest).map fun r => (String.ofList (out ++ r.1), r.2))
        (stringLoop steps p out))
    {p : Parser} (h : p.At text rest) (hsteps : rest.length < steps) (ch : Char) :
    Agrees (Reads text)
      ((CanonicalParser.pushChar ch (CanonicalParser.stringBody rest)).map fun r =>
        (String.ofList (out ++ r.1), r.2))
      (stringLoop steps p (out ++ [ch])) := by
  have hread := ih rest p (out ++ [ch]) h hsteps
  cases hbody : CanonicalParser.stringBody rest with
  | error err =>
    rw [hbody] at hread
    exact hread
  | ok r =>
    rw [hbody] at hread
    simp only [Except.map, CanonicalParser.pushChar] at hread ⊢
    rwa [List.append_assoc, List.singleton_append] at hread

theorem stringLoop_agrees (steps : Nat) : ∀ (rest : List Char) (p : Parser) (out : List Char),
    p.At text rest → rest.length < steps →
    Agrees (Reads text)
      ((CanonicalParser.stringBody rest).map fun r => (String.ofList (out ++ r.1), r.2))
      (stringLoop steps p out) := by
  induction steps with
  | zero =>
    intro rest p out h hsteps
    exact absurd hsteps (Nat.not_lt_zero _)
  | succ steps ih =>
    intro rest p out h hsteps
    cases rest with
    | nil =>
      rw [stringLoop, h.peek_nil]
      exact .refused .malformed
    | cons c rest =>
      rw [List.length_cons, Nat.add_lt_add_iff_right] at hsteps
      have hcharAt : charAt p.text.toList p.offset = some c := by
        rw [h.text_eq, h.boundary.charAt]
        rfl
      have hplain : (p.advance c.utf8Size).At text rest := ⟨h.text_eq, h.boundary.advance⟩
      by_cases hascii : c.toNat < 128
      · have hbyte : ∀ d : Char, d.toNat < 128 → (c.toUInt8 = d.toUInt8 ↔ c = d) :=
          fun d hd => ⟨toUInt8_inj hascii hd, congrArg Char.toUInt8⟩
        have hcontrol : c.toUInt8 < 0x20 ↔ c.toNat < 0x20 := by
          rw [UInt8.lt_iff_toNat_lt, toNat_toUInt8 hascii]
          rfl
        simp only [stringLoop, h.peek_ascii hascii, hbyte '"' (by decide), hbyte '\\' (by decide),
          hcontrol, hcharAt]
        by_cases hquote : c = '"'
        · subst hquote
          rw [if_pos rfl]
          exact .value ⟨by simp, h.advance hascii⟩
        · rw [if_neg hquote]
          by_cases hbackslash : c = '\\'
          · subst hbackslash
            rw [if_pos rfl, stringBody_escape]
            have hagrees := escape_agrees (h.advance hascii)
            cases hescape : escapeChars rest with
            | error err =>
              rw [hescape] at hagrees
              rw [hagrees.eq_refused]
              exact .refused err
            | ok r =>
              rw [hescape] at hagrees
              obtain ⟨s, hescaped, hch, hat⟩ := hagrees.eq_value
              have hlength := length_of_escapeChars hescape
              rw [hescaped, Outcome.value_bind, hch]
              exact stringLoop_step ih hat (Nat.lt_of_le_of_lt hlength hsteps) r.1
          · rw [if_neg hbackslash, stringBody_plain hquote hbackslash]
            by_cases hlow : c.toNat < 0x20
            · rw [if_pos hlow, if_pos hlow]
              exact .refused .malformed
            · rw [if_neg hlow, if_neg hlow]
              exact stringLoop_step ih hplain hsteps c
      · have hlarge : 128 ≤ c.toNat := Nat.not_lt.mp hascii
        obtain ⟨byte, hpeek, hbyte⟩ := h.peek_not_ascii hlarge
        have hne : ∀ d : Char, d.toNat < 128 → byte ≠ d.toUInt8 ∧ c ≠ d := by
          intro d hd
          refine ⟨?_, ?_⟩
          · rintro rfl
            rw [toNat_toUInt8 hd] at hbyte
            omega
          · rintro rfl
            exact hascii hd
        have hcontrol : ¬ byte < 0x20 := by
          rw [UInt8.lt_iff_toNat_lt]
          have : (0x20 : UInt8).toNat = 32 := rfl
          omega
        obtain ⟨hbquote, hquote⟩ := hne '"' (by decide)
        obtain ⟨hbbackslash, hbackslash⟩ := hne '\\' (by decide)
        simp only [stringLoop, hpeek, if_neg hbquote, if_neg hbbackslash, if_neg hcontrol, hcharAt]
        rw [stringBody_plain hquote hbackslash, if_neg (by omega)]
        exact stringLoop_step ih hplain hsteps c

/-- Reading a character takes it. -/
theorem length_of_eat {tail : List Char} (h : CanonicalParser.eat c rest = .ok tail) :
    rest.length = tail.length + 1 := by
  revert h
  fun_cases CanonicalParser.eat c rest with
  | case1 => exact fun h => absurd h error_ne_ok
  | case2 rest =>
    rintro ⟨⟩
    rfl
  | case3 d rest hne => exact fun h => absurd h error_ne_ok

open CanonicalParser in
theorem pushChar_eq_ok {x : Except DecodeError (List Char × List Char)}
    {r : List Char × List Char} (h : pushChar c x = .ok r) : ∃ body, x = .ok body ∧ r.2 = body.2 := by
  cases x with
  | error err => cases h
  | ok body =>
    cases h
    exact ⟨body, rfl, rfl⟩

theorem length_of_stringBody {r : List Char × List Char}
    (h : CanonicalParser.stringBody rest = .ok r) : r.2.length < rest.length := by
  fun_induction CanonicalParser.stringBody rest generalizing r with
  | case1 => exact absurd h error_ne_ok
  | case2 rest =>
    cases h
    exact Nat.lt_succ_self _
  | case3 rest ih | case4 rest ih =>
    obtain ⟨body, hbody, hrest⟩ := pushChar_eq_ok h
    have := ih hbody
    simp only [List.length_cons, hrest]
    omega
  | case5 a b c d rest ch hescaped ih =>
    obtain ⟨body, hbody, hrest⟩ := pushChar_eq_ok h
    have := ih hbody
    simp only [List.length_cons, hrest]
    omega
  | case6 a b c d rest hescaped => exact absurd h error_ne_ok
  | case7 => exact absurd h error_ne_ok
  | case8 => exact absurd h error_ne_ok
  | case9 =>
    rename_i ih
    obtain ⟨body, hbody, hrest⟩ := pushChar_eq_ok h
    have := ih hbody
    simp only [List.length_cons, hrest]
    omega

theorem string_agrees {steps : Nat} (h : p.At text rest) (hsteps : rest.length ≤ steps) :
    Agrees (Reads text) (CanonicalParser.string rest) (p.string steps) := by
  apply (eat_agrees h (by decide)).bind
  intro tail p heat hat
  have hlength := length_of_eat heat
  have hloop := stringLoop_agrees steps tail p [] hat (by omega)
  cases hbody : CanonicalParser.stringBody tail with
  | error err =>
    rw [hbody] at hloop
    exact hloop
  | ok r =>
    rw [hbody] at hloop
    exact hloop

theorem length_of_string {r : String × List Char} (h : CanonicalParser.string rest = .ok r) :
    r.2.length < rest.length := by
  simp only [CanonicalParser.string, bind_eq_ok, pure_eq_ok] at h
  obtain ⟨tail, heat, body, hbody, rfl⟩ := h
  have := length_of_eat heat
  have := length_of_stringBody hbody
  show body.2.length < rest.length
  omega

/-! ## 6. Numbers -/

/-- The digits at the cursor are stepped over, one byte each. -/
theorem skipDigits_agrees (steps : Nat) : ∀ (rest : List Char) (p : Parser), p.At text rest →
    rest.length < steps → ∃ stop, skipDigits steps p = .value stop ∧
      stop.At text (rest.dropWhile Char.isDigit) ∧
      stop.offset = p.offset + (rest.takeWhile Char.isDigit).length := by
  induction steps with
  | zero =>
    intro rest p h hsteps
    exact absurd hsteps (Nat.not_lt_zero _)
  | succ steps ih =>
    intro rest p h hsteps
    rw [skipDigits, h.peek_isAsciiDigit]
    cases rest with
    | nil => exact ⟨p, rfl, h, rfl⟩
    | cons c rest =>
      rw [List.length_cons, Nat.add_lt_add_iff_right] at hsteps
      rw [List.head?_cons, Option.any_some]
      by_cases hdigit : c.isDigit = true
      · have hascii : c.toNat < 128 := by
          simp only [Char.isDigit, Bool.and_eq_true, decide_eq_true_eq,
            UInt32.le_iff_toNat_le] at hdigit
          have : ('9' : Char).val.toNat = 57 := rfl
          have : c.val.toNat = c.toNat := rfl
          omega
        obtain ⟨stop, hskip, hat, hoffset⟩ := ih rest (p.advance 1) (h.advance hascii) hsteps
        rw [if_pos hdigit, List.dropWhile_cons_of_pos hdigit, List.takeWhile_cons_of_pos hdigit]
        refine ⟨stop, hskip, hat, ?_⟩
        have hnext : (p.advance 1).offset = p.offset + 1 := rfl
        rw [hoffset, hnext, List.length_cons]
        omega
      · rw [if_neg hdigit, List.dropWhile_cons_of_neg hdigit, List.takeWhile_cons_of_neg hdigit]
        exact ⟨p, rfl, h, rfl⟩

/-- ASCII characters are one byte each. -/
theorem encoded_of_ascii {ds : List Char} (h : ∀ c ∈ ds, c.toNat < 128) :
    encoded ds = ds.map Char.toUInt8 := by
  induction ds with
  | nil => rfl
  | cons c ds ih =>
    rw [encoded_cons_ascii (h c List.mem_cons_self), List.map_cons,
      ih fun d hd => h d (List.mem_cons_of_mem c hd)]

theorem parseU64_of_ascii {ds : List Char} (h : ∀ c ∈ ds, c.toNat < 128) :
    parseU64 (ds.map Char.toUInt8) =
      if DecimalText.value ds < 2 ^ 64 then some (UInt64.ofNat (DecimalText.value ds)) else none := by
  have hback : (ds.map Char.toUInt8).map (fun byte => Char.ofNat byte.toNat) = ds := by
    rw [List.map_map]
    refine (List.map_congr_left fun c hc => ?_).trans (List.map_id ds)
    rw [Function.comp_apply, toNat_toUInt8 (h c hc), Char.ofNat_toNat, id_eq]
  rw [parseU64, hback]

theorem ascii_of_isDigit (h : c.isDigit = true) : c.toNat < 128 := by
  simp only [Char.isDigit, Bool.and_eq_true, decide_eq_true_eq, UInt32.le_iff_toNat_le] at h
  have : ('9' : Char).val.toNat = 57 := rfl
  have : c.val.toNat = c.toNat := rfl
  omega

theorem uint_agrees {steps : Nat} (h : p.At text rest) (hsteps : rest.length < steps) :
    Agrees (Reads text) (CanonicalParser.uint rest) (p.uint steps) := by
  obtain ⟨stop, hskip, hat, hoffset⟩ := skipDigits_agrees steps rest p h hsteps
  have hsplit : rest.takeWhile Char.isDigit ++ rest.dropWhile Char.isDigit = rest :=
    List.takeWhile_append_dropWhile
  have hdigit : ∀ c ∈ rest.takeWhile Char.isDigit, c.isDigit = true :=
    List.all_eq_true.mp List.all_takeWhile
  rw [uint, hskip, Outcome.value_bind]
  simp only [CanonicalParser.uint]
  generalize rest.takeWhile Char.isDigit = ds at *
  generalize rest.dropWhile Char.isDigit = tail at *
  subst hsplit
  have hascii : ∀ c ∈ ds, c.toNat < 128 := fun c hc => ascii_of_isDigit (hdigit c hc)
  have hslice : slice stop.bytes p.offset stop.offset = some (ds.map Char.toUInt8) := by
    have hbytes : stop.bytes = p.bytes := by rw [hat.bytes, h.bytes]
    rw [hbytes, hoffset, h.slice, encoded_append, encoded_of_ascii hascii,
      if_pos (by simp), List.take_left' (List.length_map _)]
  have hzero : (ds.map Char.toUInt8).head? = some '0'.toUInt8 ↔ ds.head? = some '0' := by
    cases ds with
    | nil => exact iff_of_false (fun h => by cases h) (fun h => by cases h)
    | cons c ds =>
      simp only [List.map_cons, List.head?_cons, Option.some.injEq]
      exact ⟨toUInt8_inj (hascii c List.mem_cons_self) (by decide), congrArg Char.toUInt8⟩
  simp only [hslice, List.map_eq_nil_iff, List.length_map, hzero, parseU64_of_ascii hascii,
    List.drop_left]
  by_cases hrules : ds = [] ∨ (1 < ds.length ∧ ds.head? = some '0')
  · rw [if_pos hrules, require_of_not fun h => hrules.elim h.1 h.2]
    exact .refused .malformed
  · rw [if_neg hrules, require_of (not_or.mp hrules), ok_bind]
    by_cases hmax : DecimalText.value ds < 2 ^ 64
    · rw [if_pos hmax, require_of hmax, ok_bind]
      exact .value ⟨rfl, hat⟩
    · rw [if_neg hmax, require_of_not hmax]
      exact .refused .malformed

theorem length_of_uint {r : UInt64 × List Char} (h : CanonicalParser.uint rest = .ok r) :
    r.2.length < rest.length := by
  simp only [CanonicalParser.uint, bind_eq_ok, require_eq_ok, pure_eq_ok, exists_and_left,
    exists_const] at h
  obtain ⟨⟨hne, -⟩, -, rfl⟩ := h
  have hsplit : rest.takeWhile Char.isDigit ++ rest.dropWhile Char.isDigit = rest :=
    List.takeWhile_append_dropWhile
  have hlength := congrArg List.length hsplit
  have hpos := List.length_pos_of_ne_nil hne
  rw [List.length_append] at hlength
  simp only [List.length_drop]
  omega

/-! ## 7. Arrays, values and objects -/

/-- What follows an item: a comma, the closing character, or a refusal. -/
private theorem next_cases (h : p.At text rest) {close : Char} (hclose : close.toNat < 128) :
    (∃ tail, rest = ',' :: tail ∧ p.peek = some ','.toUInt8 ∧ (p.advance 1).At text tail) ∨
      (∃ tail, rest = close :: tail ∧ p.peek ≠ some ','.toUInt8 ∧ p.peek = some close.toUInt8 ∧
        (p.advance 1).At text tail) ∨
      ((∀ tail, rest ≠ ',' :: tail) ∧ (∀ tail, rest ≠ close :: tail) ∧
        p.peek ≠ some ','.toUInt8 ∧ p.peek ≠ some close.toUInt8) := by
  by_cases hcomma : rest.head? = some ','
  · obtain ⟨tail, rfl⟩ := List.head?_eq_some_iff.mp hcomma
    exact .inl ⟨tail, rfl, h.peek_ascii (by decide), h.advance (by decide)⟩
  · have hpeek : p.peek ≠ some ','.toUInt8 := fun hp => hcomma ((h.peek_eq_iff (by decide)).mp hp)
    by_cases hend : rest.head? = some close
    · obtain ⟨tail, rfl⟩ := List.head?_eq_some_iff.mp hend
      exact .inr (.inl ⟨tail, rfl, hpeek, h.peek_ascii hclose, h.advance hclose⟩)
    · refine .inr (.inr ⟨?_, ?_, hpeek, fun hp => hend ((h.peek_eq_iff hclose).mp hp)⟩)
      · rintro tail rfl
        exact hcomma rfl
      · rintro tail rfl
        exact hend rfl

/-- The items read so far, and the cursor before what follows the array. -/
def ReadsItems (text : String) (items : List String) (r : List String × List Char)
    (s : CanonicalValue × Parser) : Prop :=
  s.1 = .textArray (items ++ r.1) ∧ s.2.At text r.2

theorem arrayLoop_agrees (steps rounds : Nat) : ∀ (reader : Nat) (rest : List Char) (p : Parser)
    (items : List String), p.At text rest → rest.length ≤ reader → rest.length < rounds →
    rest.length ≤ steps →
    Agrees (ReadsItems text items) (CanonicalParser.arrayItems reader rest)
      (arrayLoop steps rounds p items) := by
  induction rounds with
  | zero =>
    intro reader rest p items h hreader hrounds hsteps
    exact absurd hrounds (Nat.not_lt_zero _)
  | succ rounds ih =>
    intro reader rest p items h hreader hrounds hsteps
    cases reader with
    | zero =>
      obtain rfl := List.eq_nil_of_length_eq_zero (Nat.le_zero.mp hreader)
      have hstring := string_agrees h hsteps
      rw [arrayLoop, hstring.eq_refused]
      exact .refused .malformed
    | succ reader =>
      rw [CanonicalParser.arrayItems, arrayLoop]
      apply (string_agrees h hsteps).bind
      rintro ⟨item, tail⟩ ⟨item', p⟩ hitem ⟨hsame, hat⟩
      obtain rfl : item' = item := hsame
      have hlength : tail.length < rest.length := length_of_string hitem
      rcases next_cases hat (show ']'.toNat < 128 by decide) with
        ⟨tail, rfl, hpeek, hnext⟩ | ⟨tail, rfl, hcomma, hpeek, hnext⟩ | ⟨hnot, hnot', hcomma, hpeek⟩
      · rw [List.length_cons] at hlength
        have hagrees := ih reader tail _ (items ++ [item']) hnext (by omega) (by omega) (by omega)
        simp only [if_pos hpeek]
        cases hread : CanonicalParser.arrayItems reader tail with
        | error err =>
          rw [hread] at hagrees
          rw [hagrees.eq_refused]
          exact .refused err
        | ok r =>
          rw [hread] at hagrees
          obtain ⟨s, hloop, hitems, hend⟩ := hagrees.eq_value
          rw [hloop]
          refine .value ⟨?_, hend⟩
          rw [hitems, List.append_assoc]
          rfl
      · simp only [if_neg hcomma, if_pos hpeek]
        exact .value ⟨rfl, hnext⟩
      · simp only [if_neg hcomma, if_neg hpeek]
        exact .refused .malformed

theorem length_of_arrayItems {reader : Nat} {r : List String × List Char}
    (h : CanonicalParser.arrayItems reader rest = .ok r) : r.2.length < rest.length := by
  induction reader generalizing rest r with
  | zero => exact absurd h error_ne_ok
  | succ reader ih =>
    simp only [CanonicalParser.arrayItems, bind_eq_ok] at h
    obtain ⟨⟨item, tail⟩, hitem, h⟩ := h
    have hlength : tail.length < rest.length := length_of_string hitem
    split at h
    · rename_i next hnext
      obtain rfl : tail = ',' :: next := hnext
      obtain ⟨⟨items, stop⟩, hitems, hpure⟩ := bind_eq_ok.mp h
      obtain rfl := pure_eq_ok.mp hpure
      have : stop.length < next.length := ih hitems
      rw [List.length_cons] at hlength
      show stop.length < rest.length
      omega
    · rename_i next hnext
      obtain rfl : tail = ']' :: next := hnext
      obtain rfl := pure_eq_ok.mp h
      rw [List.length_cons] at hlength
      show next.length < rest.length
      omega
    · exact absurd h error_ne_ok

theorem array_agrees {steps : Nat} (h : p.At text rest) (hsteps : rest.length ≤ steps) :
    Agrees (Reads text) (CanonicalParser.array rest) (p.array steps) := by
  apply (eat_agrees h (by decide)).bind
  intro tail p heat hat
  have hlength := length_of_eat heat
  by_cases hempty : tail.head? = some ']'
  · obtain ⟨tail, rfl⟩ := List.head?_eq_some_iff.mp hempty
    rw [if_pos (hat.peek_ascii (by decide))]
    exact .value ⟨rfl, hat.advance (by decide)⟩
  · have hpeek : p.peek ≠ some ']'.toUInt8 := fun hp => hempty ((hat.peek_eq_iff (by decide)).mp hp)
    have hnot : ∀ stop, tail ≠ ']' :: stop := by
      rintro stop rfl
      exact hempty rfl
    have hagrees := arrayLoop_agrees steps steps tail.length tail p [] hat (Nat.le_refl _)
      (by omega) (by omega)
    simp only [if_neg hpeek]
    cases hread : CanonicalParser.arrayItems tail.length tail with
    | error err =>
      rw [hread] at hagrees
      rw [hagrees.eq_refused]
      exact .refused err
    | ok r =>
      rw [hread] at hagrees
      obtain ⟨s, hloop, hitems, hend⟩ := hagrees.eq_value
      rw [hloop]
      exact .value ⟨hitems, hend⟩

theorem length_of_array {r : CanonicalValue × List Char} (h : CanonicalParser.array rest = .ok r) :
    r.2.length < rest.length := by
  simp only [CanonicalParser.array, bind_eq_ok] at h
  obtain ⟨tail, heat, h⟩ := h
  have hlength := length_of_eat heat
  split at h
  · obtain rfl := pure_eq_ok.mp h
    simp only [List.length_cons] at hlength ⊢
    omega
  · obtain ⟨⟨items, stop⟩, hitems, hpure⟩ := bind_eq_ok.mp h
    obtain rfl := pure_eq_ok.mp hpure
    have : stop.length < tail.length := length_of_arrayItems hitems
    show stop.length < rest.length
    omega

theorem value_agrees {steps : Nat} (h : p.At text rest) (hsteps : rest.length < steps) :
    Agrees (Reads text) (CanonicalParser.value rest) (p.value steps) := by
  simp only [value, h.peek_eq_iff (show '"'.toNat < 128 by decide),
    h.peek_eq_iff (show '['.toNat < 128 by decide), h.peek_isAsciiDigit]
  fun_cases CanonicalParser.value rest with
  | case1 tail =>
    rw [List.head?_cons, if_pos rfl]
    apply (string_agrees h (Nat.le_of_lt hsteps)).bind
    rintro ⟨raw, tail⟩ ⟨raw', p⟩ - ⟨rfl, hat⟩
    exact .value ⟨rfl, hat⟩
  | case2 tail =>
    rw [List.head?_cons, if_neg (by decide), if_pos rfl]
    exact array_agrees h (Nat.le_of_lt hsteps)
  | case3 c tail hquote hbracket hdigit =>
    simp only [List.head?_cons, Option.some.injEq, if_neg hquote, if_neg hbracket, Option.any_some,
      hdigit, if_true]
    apply (uint_agrees h hsteps).bind
    rintro ⟨n, tail⟩ ⟨n', p⟩ - ⟨rfl, hat⟩
    exact .value ⟨rfl, hat⟩
  | case4 c tail hquote hbracket hdigit =>
    simp only [List.head?_cons, Option.some.injEq, if_neg hquote, if_neg hbracket, Option.any_some,
      hdigit, Bool.false_eq_true, if_false]
    exact .refused .malformed
  | case5 => exact .refused .malformed

theorem length_of_value {r : CanonicalValue × List Char} (h : CanonicalParser.value rest = .ok r) :
    r.2.length < rest.length := by
  revert h
  fun_cases CanonicalParser.value rest with
  | case1 tail =>
    intro h
    obtain ⟨⟨raw, stop⟩, hstring, hpure⟩ := bind_eq_ok.mp h
    obtain rfl := pure_eq_ok.mp hpure
    exact length_of_string hstring
  | case2 tail => exact length_of_array
  | case3 c tail hquote hbracket hdigit =>
    intro h
    obtain ⟨⟨n, stop⟩, huint, hpure⟩ := bind_eq_ok.mp h
    obtain rfl := pure_eq_ok.mp hpure
    exact length_of_uint huint
  | case4 => exact fun h => absurd h error_ne_ok
  | case5 => exact fun h => absurd h error_ne_ok

theorem objectLoop_agrees (steps rounds : Nat) : ∀ (reader : Nat) (rest : List Char) (p : Parser)
    (object : CanonicalObject), p.At text rest → rest.length ≤ reader → rest.length < rounds →
    rest.length < steps →
    Agrees (Reads text) (CanonicalParser.members reader object rest)
      (objectLoop steps rounds p object) := by
  induction rounds with
  | zero =>
    intro reader rest p object h hreader hrounds hsteps
    exact absurd hrounds (Nat.not_lt_zero _)
  | succ rounds ih =>
    intro reader rest p object h hreader hrounds hsteps
    cases reader with
    | zero =>
      obtain rfl := List.eq_nil_of_length_eq_zero (Nat.le_zero.mp hreader)
      have hstring := string_agrees h (Nat.zero_le steps)
      rw [objectLoop, hstring.eq_refused]
      exact .refused .malformed
    | succ reader =>
      rw [CanonicalParser.members, objectLoop]
      apply (string_agrees h (Nat.le_of_lt hsteps)).bind
      rintro ⟨key, tail₁⟩ ⟨key', p₁⟩ hkey ⟨hsame, hat₁⟩
      obtain rfl : key' = key := hsame
      have hlength₁ : tail₁.length < rest.length := length_of_string hkey
      apply (eat_agrees hat₁ (show ':'.toNat < 128 by decide)).bind
      intro tail₂ p₂ heat hat₂
      have hlength₂ : tail₁.length = tail₂.length + 1 := length_of_eat heat
      apply (value_agrees hat₂ (by omega)).bind
      rintro ⟨v, tail₃⟩ ⟨v', p₃⟩ hvalue ⟨hsame, hat₃⟩
      obtain rfl : v' = v := hsame
      have hlength₃ : tail₃.length < tail₂.length := length_of_value hvalue
      simp only
      cases hinsert : object.insert key' v' with
      | error err => exact .refused .duplicateMember
      | ok next =>
        rw [mapError_ok, ok_bind]
        rcases next_cases hat₃ (show '}'.toNat < 128 by decide) with ⟨tail, rfl, hpeek, hnext⟩ |
          ⟨tail, rfl, hcomma, hpeek, hnext⟩ | ⟨hnot, hnot', hcomma, hpeek⟩
        · rw [List.length_cons] at hlength₃
          simp only [if_pos hpeek]
          exact ih reader tail _ next hnext (by omega) (by omega) (by omega)
        · simp only [if_neg hcomma, if_pos hpeek]
          exact .value ⟨rfl, hnext⟩
        · simp only [if_neg hcomma, if_neg hpeek]
          exact .refused .malformed

theorem object_agrees {steps : Nat} (h : p.At text rest) (hsteps : rest.length < steps) :
    Agrees (Reads text) (CanonicalParser.object rest) (p.object steps) := by
  apply (eat_agrees h (by decide)).bind
  intro tail p heat hat
  have hlength := length_of_eat heat
  by_cases hempty : tail.head? = some '}'
  · obtain ⟨tail, rfl⟩ := List.head?_eq_some_iff.mp hempty
    rw [if_pos (hat.peek_ascii (by decide))]
    exact .value ⟨rfl, hat.advance (by decide)⟩
  · have hpeek : p.peek ≠ some '}'.toUInt8 := fun hp => hempty ((hat.peek_eq_iff (by decide)).mp hp)
    have hnot : ∀ stop, tail ≠ '}' :: stop := by
      rintro stop rfl
      exact hempty rfl
    simp only [if_neg hpeek]
    exact objectLoop_agrees steps steps tail.length tail p .new hat (Nat.le_refl _) (by omega)
      (by omega)

/-! ## 8. The whole input -/

/-- The text of an input is before its first character. -/
theorem at_start (text : String) : (⟨text, 0⟩ : Parser).At text text.toList :=
  ⟨rfl, boundary_zero text.toList⟩

theorem parse_agrees {bytes : Bytes} {steps : Nat} (hsteps : bytes.length < steps) :
    Agrees Eq (CanonicalParser.parse bytes) (parse bytes steps) := by
  unfold CanonicalParser.parse parse
  cases htext : String.fromUTF8? ⟨bytes.toArray⟩ with
  | none => exact .refused .malformed
  | some text =>
    have hbytes : encoded text.toList = bytes := by
      rw [fromUTF8?_eq_some.mp htext, utf8, data_toByteArray]
    have hlength : text.toList.length < steps := by
      have := length_le_encoded text.toList
      rw [hbytes] at this
      omega
    apply (object_agrees (at_start text) hlength).bind
    rintro ⟨object, rest⟩ ⟨object', p⟩ - ⟨rfl, hat⟩
    have hend : p.offset = bytes.length ↔ rest = [] := by
      rw [← hbytes]
      exact hat.boundary.nil_iff
    by_cases hrest : rest = []
    · simp only [require_of hrest, if_pos (hend.mpr hrest)]
      exact .value rfl
    · simp only [require_of_not hrest, if_neg fun h => hrest (hend.mp h)]
      exact .refused .malformed

theorem decode_agrees {bytes : Bytes} {steps : Nat} (hsteps : bytes.length < steps) :
    Agrees Eq (CanonicalObject.decode bytes) (decode bytes steps) := by
  apply (parse_agrees hsteps).bind
  rintro object object' - rfl
  by_cases henc : object.encodeBytes = bytes
  · simp only [require_of henc, if_pos henc]
    exact .value rfl
  · simp only [require_of_not henc, if_neg henc]
    exact .refused .notCanonical

/-- An accepted input is the encoding of what was read, whatever the steps allowed. -/
theorem eq_encodeBytes_of_decode {bytes : Bytes} {steps : Nat} {o : CanonicalObject}
    (h : decode bytes steps = .value o) : bytes = o.encodeBytes := by
  cases hparse : parse bytes steps with
  | value o' =>
    rw [decode, hparse, Outcome.value_bind] at h
    split at h
    · rename_i henc
      obtain rfl := Outcome.value.inj h
      exact henc.symm
    · cases h
  | refused err =>
    rw [decode, hparse] at h
    cases h
  | panic =>
    rw [decode, hparse] at h
    cases h
  | outOfSteps =>
    rw [decode, hparse] at h
    cases h

/-- **The canonical codec.** At the cursor every encoding decodes to its object, no two
objects share one, nothing else is accepted, and every input ends in a value or an
error within one step more than it has bytes. -/
theorem canonical_codec :
    (∀ (o : CanonicalObject) (steps : Nat), o.encodeBytes.length < steps →
        decode o.encodeBytes steps = .value o) ∧
      (∀ o o' : CanonicalObject, o.encode = o'.encode → o = o') ∧
      (∀ (bytes : Bytes) (steps : Nat) (o : CanonicalObject),
        decode bytes steps = .value o → bytes = o.encodeBytes) ∧
      ∀ (bytes : Bytes) (steps : Nat), bytes.length < steps →
        (∃ o, decode bytes steps = .value o) ∨ ∃ err, decode bytes steps = .refused err := by
  refine ⟨?_, ?_, ?_, ?_⟩
  · intro o steps hsteps
    have hagrees := decode_agrees hsteps
    rw [decode_encodeBytes] at hagrees
    obtain ⟨o', hdecode, rfl⟩ := hagrees.eq_value
    exact hdecode
  · intro o o' h
    exact encodeBytes_injective (congrArg utf8 h)
  · intro bytes steps o h
    exact eq_encodeBytes_of_decode h
  · intro bytes steps hsteps
    have hagrees := decode_agrees hsteps
    cases hread : CanonicalObject.decode bytes with
    | ok o =>
      rw [hread] at hagrees
      obtain ⟨o', hdecode, -⟩ := hagrees.eq_value
      exact .inl ⟨o', hdecode⟩
    | error err =>
      rw [hread] at hagrees
      exact .inr ⟨err, hagrees.eq_refused⟩

end Parser

end LumioVoxel
