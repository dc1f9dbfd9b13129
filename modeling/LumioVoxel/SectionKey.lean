import LumioVoxel.ContractTerms
import LumioVoxel.DecimalText
import LumioVoxel.FallibleSteps
import LumioVoxel.OrderedMaps
import LumioVoxel.Plumbing

/-!
# Section keys

A section is named by `s:<x>:<y>:<z>` with `y` its layer inside the column.  The
parser refuses every spelling but the canonical one, with the rejection that says
which rule refused it.  The main result is that parsing succeeds on exactly the
texts `SectionId.key` prints, so a key and its identifier are interchangeable.
-/

namespace LumioVoxel

inductive KeyKind where
  | section
  | chunk
  deriving DecidableEq, Repr

/-- Why a key was refused. -/
inductive KeyRejection where
  | legacyThreeCoordinateChunkKey
  | wrongPrefix
  | wrongArity
  | emptyComponent
  | nonCanonicalCoordinate
  | sectionYOutOfRange
  | coordinateOutOfBounds
  deriving DecidableEq, Repr

structure KeyError where
  kind : KeyKind
  rejection : KeyRejection
  deriving DecidableEq, Repr

/-- The contract error a refused key reports. -/
def KeyError.errorId (err : KeyError) : String :=
  match err.rejection, err.kind with
  | .sectionYOutOfRange, _ => SECTION_Y_OUT_OF_RANGE
  | .coordinateOutOfBounds, _ => COORDINATE_OUT_OF_BOUNDS
  | _, .section => UNKNOWN_SECTION_KEY
  | _, .chunk => UNKNOWN_CHUNK_KEY

/-- A section's coordinates, with the bounds their machine types and the
contract give them. -/
structure SectionId where
  x : Int
  y : Nat
  z : Int
  x_mem : SECTION_COORD_MIN ≤ x ∧ x ≤ SECTION_COORD_MAX
  y_le : y ≤ SECTION_Y_MAX
  z_mem : SECTION_COORD_MIN ≤ z ∧ z ≤ SECTION_COORD_MAX
  deriving DecidableEq

/-- The section at the origin. -/
def originSection : SectionId := ⟨0, 0, 0, by decide, by decide, by decide⟩

def neighbourSection : SectionId := { originSection with x := 1, x_mem := by decide }

namespace SectionId

@[ext] theorem ext {a b : SectionId} (hx : a.x = b.x) (hy : a.y = b.y) (hz : a.z = b.z) :
    a = b := by
  cases a
  cases b
  simp_all

/-! ## 1. Order -/

/-- Lexicographic in `(x, y, z)`. -/
instance : Ord SectionId where
  compare := compareLex (compareOn (·.x)) (compareLex (compareOn (·.y)) (compareOn (·.z)))

instance : Std.TransOrd SectionId :=
  inferInstanceAs (Std.TransCmp
    (compareLex (compareOn SectionId.x) (compareLex (compareOn SectionId.y) (compareOn SectionId.z))))

instance : Std.LawfulEqOrd SectionId where
  eq_of_compare {a b} h := by
    have h' : compareLex (compareOn SectionId.x)
        (compareLex (compareOn SectionId.y) (compareOn SectionId.z)) a b = .eq := h
    simp only [compareLex_eq_eq, compareOn, Std.compare_eq_iff_eq] at h'
    exact SectionId.ext h'.1 h'.2.1 h'.2.2

/-! ## 2. Printing and parsing -/

/-- The canonical text of the key. -/
def key (id : SectionId) : String :=
  "s:" ++ toString id.x ++ ":" ++ toString id.y ++ ":" ++ toString id.z

end SectionId

/-- The components after the first `:`, provided the text before it is the
expected one.  A three-coordinate `c:` key offered as a section key is refused
as the retired spelling it is. -/
def splitKey (raw expected : String) (kind : KeyKind) : Except KeyError (List (List Char)) :=
  let parts := raw.toList.splitOn ':'
  let found := parts.headD []
  let components := parts.tail
  if found ≠ expected.toList then
    if kind = .section ∧ found = CHUNK_KEY_PREFIX.toList ∧
        components.length = SECTION_KEY_ARITY then
      .error ⟨kind, .legacyThreeCoordinateChunkKey⟩
    else
      .error ⟨kind, .wrongPrefix⟩
  else
    .ok components

/-- Canonical decimal, as a 64-bit signed integer. -/
def parseDecimal (raw : List Char) (kind : KeyKind) : Except KeyError Int :=
  if raw = [] then
    .error ⟨kind, .emptyComponent⟩
  else
    let negative := raw.head? = some '-'
    let digits := if negative then raw.tail else raw
    if digits = [] ∨ digits.all Char.isDigit = false then
      .error ⟨kind, .nonCanonicalCoordinate⟩
    else if 1 < digits.length ∧ digits.head? = some '0' then
      .error ⟨kind, .nonCanonicalCoordinate⟩
    else if negative ∧ digits = ['0'] then
      .error ⟨kind, .nonCanonicalCoordinate⟩
    else
      let magnitude : Int := DecimalText.value digits
      let value := if negative then -magnitude else magnitude
      -- a text too long for 64 bits is out of bounds, not misspelled
      if -2 ^ 63 ≤ value ∧ value < 2 ^ 63 then .ok value
      else .error ⟨kind, .coordinateOutOfBounds⟩

/-- `SECTION_COORD_MIN.unsigned_abs().ilog10() + 1`. -/
def maxCoordinateDigits : Nat := 10

/-- The length of a text in UTF-8 bytes. -/
def utf8Length : List Char → Nat
  | [] => 0
  | c :: rest => c.utf8Size + utf8Length rest

/-- A coordinate in the 32-bit range.  The length guard counts UTF-8 bytes. -/
def parseI32 (raw : List Char) (kind : KeyKind) : Except KeyError Int :=
  let digits := if raw.head? = some '-' then raw.tail else raw
  if maxCoordinateDigits < utf8Length digits then
    .error ⟨kind, .nonCanonicalCoordinate⟩
  else
    match parseDecimal raw kind with
    | .error err => .error err
    | .ok value =>
      if value < SECTION_COORD_MIN ∨ SECTION_COORD_MAX < value then
        .error ⟨kind, .coordinateOutOfBounds⟩
      else
        .ok value

def checkSectionY (value : Int) (kind : KeyKind) : Except KeyError Nat :=
  if value < SECTION_Y_MIN ∨ SECTION_Y_MAX < value then .error ⟨kind, .sectionYOutOfRange⟩
  else .ok value.toNat

theorem checkSectionY_le {value : Int} {kind : KeyKind} {y : Nat}
    (h : checkSectionY value kind = .ok y) : y ≤ SECTION_Y_MAX ∧ (y : Int) = value := by
  unfold checkSectionY at h
  split at h
  · cases h
  · rename_i hrange
    obtain rfl := Except.ok.inj h
    simp only [SECTION_Y_MIN, SECTION_Y_MAX] at hrange ⊢
    omega

theorem parseI32_mem {raw : List Char} {kind : KeyKind} {v : Int}
    (h : parseI32 raw kind = .ok v) : SECTION_COORD_MIN ≤ v ∧ v ≤ SECTION_COORD_MAX := by
  unfold parseI32 at h
  generalize (if raw.head? = some '-' then raw.tail else raw) = digits at h
  simp only at h
  split at h
  · cases h
  · split at h
    · cases h
    · split at h
      · cases h
      · obtain rfl := Except.ok.inj h
        omega

namespace SectionId

/-- Parses a canonical section key; every other text is an error. -/
def parse (raw : String) : Except KeyError SectionId :=
  match splitKey raw SECTION_KEY_PREFIX .section with
  | .error err => .error err
  | .ok [px, py, pz] =>
    match hx : parseI32 px .section with
    | .error err => .error err
    | .ok x =>
      match parseDecimal py .section with
      | .error err => .error err
      | .ok rawY =>
        match hy : checkSectionY rawY .section with
        | .error err => .error err
        | .ok y =>
          match hz : parseI32 pz .section with
          | .error err => .error err
          | .ok z => .ok ⟨x, y, z, parseI32_mem hx, (checkSectionY_le hy).1, parseI32_mem hz⟩
  | .ok _ => .error ⟨.section, .wrongArity⟩

end SectionId

/-! ## 3. Which texts parse -/

open DecimalText

/-- A digit text the decimal parser's spelling rules let through is canonical. -/
private theorem canonical_of_rules {ds : List Char}
    (hchars : ¬ (ds = [] ∨ ds.all Char.isDigit = false))
    (hzero : ¬ (1 < ds.length ∧ ds.head? = some '0')) : Canonical ds := by
  rw [not_or, Bool.not_eq_false, List.all_eq_true] at hchars
  exact ⟨hchars.1, hchars.2, fun hlen hhead => hzero ⟨hlen, hhead⟩⟩

/-- A text parses as a decimal exactly when it is the canonical spelling of a
64-bit value. -/
theorem parseDecimal_eq_ok {raw : List Char} {kind : KeyKind} {v : Int} :
    parseDecimal raw kind = .ok v ↔ raw = intText v ∧ -2 ^ 63 ≤ v ∧ v < 2 ^ 63 := by
  constructor
  · intro h
    unfold parseDecimal at h
    split at h
    · cases h
    by_cases hneg : raw.head? = some '-'
    · obtain ⟨ds, rfl⟩ := List.head?_eq_some_iff.mp hneg
      simp only [List.head?_cons, if_true, List.tail_cons, true_and] at h
      split at h
      · cases h
      split at h
      · cases h
      split at h
      · cases h
      split at h
      · rename_i hchars hzero hnz hrange
        obtain rfl := Except.ok.inj h
        have hds := digits_value (canonical_of_rules hchars hzero)
        have hpos : 0 < value ds := by
          by_contra h0
          have hv : value ds = 0 := by omega
          rw [hv] at hds
          exact hnz hds.symm
        exact ⟨by rw [intText_neg hpos, hds], hrange⟩
      · cases h
    · simp only [hneg, if_false, false_and] at h
      split at h
      · cases h
      split at h
      · cases h
      split at h
      · rename_i hchars hzero hrange
        obtain rfl := Except.ok.inj h
        exact ⟨by rw [intText_natCast, digits_value (canonical_of_rules hchars hzero)], hrange⟩
      · cases h
  · rintro ⟨rfl, hrange⟩
    cases v with
    | ofNat n =>
      obtain ⟨hne, hdig, hzero⟩ := canonical_digits n
      simp only [parseDecimal, intText, hne, head?_digits_ne_minus, if_false, false_or,
        false_and]
      rw [List.all_eq_true.mpr hdig, if_neg Bool.noConfusion,
        if_neg (fun h => hzero h.1 h.2), value_digits]
      exact if_pos hrange
    | negSucc n =>
      obtain ⟨hne, hdig, hzero⟩ := canonical_digits (n + 1)
      have hnz : digits (n + 1) ≠ ['0'] := by
        intro h
        have := congrArg value h
        rw [value_digits] at this
        exact Nat.succ_ne_zero n this
      simp only [parseDecimal, intText, List.head?_cons, List.tail_cons, if_true, if_false, hne,
        false_or, true_and, hnz, reduceCtorEq]
      rw [List.all_eq_true.mpr hdig, if_neg Bool.noConfusion,
        if_neg (fun h => hzero h.1 h.2), value_digits]
      exact if_pos hrange

/-- The spelling of a value in the 32-bit range has at most ten digits. -/
private theorem utf8Size_digits {n : Nat} (h : n ≤ 2147483648) :
    utf8Length (digits n) ≤ maxCoordinateDigits := by
  have hone : ∀ c ∈ digits n, c.utf8Size = 1 := by
    intro c hc
    have hd := isDigit_of_mem_digits hc
    simp only [Char.isDigit, Bool.and_eq_true, decide_eq_true_eq] at hd
    rw [Char.utf8Size, if_pos]
    exact UInt32.le_trans hd.2 (by decide)
  have hlength : ∀ text : List Char, (∀ c ∈ text, c.utf8Size = 1) →
      utf8Length text = text.length := by
    intro text
    induction text with
    | nil => exact fun _ => rfl
    | cons c rest ih =>
      intro hall
      rw [utf8Length, hall c List.mem_cons_self, ih fun d hd => hall d (List.mem_cons_of_mem _ hd),
        List.length_cons, Nat.add_comm]
  rw [hlength _ hone]
  exact (length_digits_le (by decide)).mpr (Nat.lt_of_le_of_lt h (by decide))

theorem parseI32_eq_ok {raw : List Char} {kind : KeyKind} {v : Int} :
    parseI32 raw kind = .ok v ↔
      raw = intText v ∧ SECTION_COORD_MIN ≤ v ∧ v ≤ SECTION_COORD_MAX := by
  constructor
  · intro h
    have hmem := parseI32_mem h
    refine ⟨?_, hmem⟩
    unfold parseI32 at h
    generalize (if raw.head? = some '-' then raw.tail else raw) = digits at h
    simp only at h
    split at h
    · cases h
    split at h
    · cases h
    rename_i w hw
    split at h
    · cases h
    obtain rfl := Except.ok.inj h
    exact (parseDecimal_eq_ok.mp hw).1
  · rintro ⟨rfl, hmem⟩
    have hdec : parseDecimal (intText v) kind = .ok v := by
      simp only [SECTION_COORD_MIN, SECTION_COORD_MAX] at hmem
      exact parseDecimal_eq_ok.mpr ⟨rfl, by omega, by omega⟩
    have hlen : ¬ maxCoordinateDigits <
        utf8Length (if (intText v).head? = some '-' then (intText v).tail else intText v) := by
      simp only [SECTION_COORD_MIN, SECTION_COORD_MAX] at hmem
      cases v with
      | ofNat n =>
        have hn : n ≤ 2147483648 := by
          have hcast : Int.ofNat n = (n : Int) := rfl
          omega
        rw [intText, if_neg (head?_digits_ne_minus n)]
        exact Nat.not_lt.mpr (utf8Size_digits hn)
      | negSucc n =>
        have hn : n + 1 ≤ 2147483648 := by omega
        simp only [intText, List.head?_cons, if_true, List.tail_cons]
        exact Nat.not_lt.mpr (utf8Size_digits hn)
    unfold parseI32
    simp only [hdec]
    rw [if_neg hlen, if_neg (by omega)]

theorem checkSectionY_natCast {y : Nat} {kind : KeyKind} (h : y ≤ SECTION_Y_MAX) :
    checkSectionY y kind = .ok y := by
  unfold checkSectionY
  simp only [SECTION_Y_MIN, SECTION_Y_MAX] at h ⊢
  rw [if_neg (by omega), Int.toNat_natCast]

/-- The characters of a canonical key, colon by colon. -/
theorem SectionId.toList_key (id : SectionId) :
    id.key.toList =
      ['s'] ++ ':' :: (intText id.x ++ ':' :: (digits id.y ++ ':' :: intText id.z)) := by
  simp only [SectionId.key, String.toList_append, toList_toString_int, Nat.toString_eq_repr,
    Nat.toList_repr, List.append_assoc]
  rfl

theorem SectionId.key_ne_empty (id : SectionId) : id.key ≠ "" := by
  intro hempty
  have hlist := id.toList_key
  rw [hempty] at hlist
  cases hlist

theorem colon_not_mem_intText (v : Int) : ':' ∉ intText v := by
  intro h
  rcases mem_intText h with h | h
  · exact absurd h (by decide)
  · exact absurd h (by decide)

private theorem colon_not_mem_digits (n : Nat) : ':' ∉ digits n :=
  fun h => absurd (isDigit_of_mem_digits h) (by decide)

theorem splitKey_key (id : SectionId) :
    splitKey id.key SECTION_KEY_PREFIX .section =
      .ok [intText id.x, digits id.y, intText id.z] := by
  have hsplit : id.key.toList.splitOn ':' =
      [['s'], intText id.x, digits id.y, intText id.z] := by
    rw [SectionId.toList_key, List.splitOn_append_cons_self_of_not_mem (by decide),
      List.splitOn_append_cons_self_of_not_mem (colon_not_mem_intText id.x),
      List.splitOn_append_cons_self_of_not_mem (colon_not_mem_digits id.y),
      List.splitOn_eq_singleton (colon_not_mem_intText id.z)]
  simp only [splitKey, hsplit]
  rfl

/-- The text is the prefix and the components, joined by colons. -/
theorem splitKey_eq_ok {raw expected : String} {kind : KeyKind} {components : List (List Char)}
    (h : splitKey raw expected kind = .ok components) :
    raw.toList = [':'].intercalate (expected.toList :: components) := by
  unfold splitKey at h
  simp only at h
  split at h
  · split at h <;> cases h
  · rename_i hfound
    obtain rfl := Except.ok.inj h
    rw [← not_not.mp hfound]
    have hne : raw.toList.splitOn ':' ≠ [] := List.splitOn_ne_nil _ _
    obtain ⟨part, rest, hparts⟩ := List.exists_cons_of_ne_nil hne
    rw [hparts]
    simp only [List.headD_cons, List.tail_cons]
    rw [← hparts, List.intercalate_splitOn]

namespace SectionId

/-- **Parsing accepts exactly the canonical spelling.** -/
theorem parse_eq_ok {raw : String} {id : SectionId} : parse raw = .ok id ↔ raw = id.key := by
  constructor
  · intro h
    unfold parse at h
    split at h
    · cases h
    · rename_i px py pz hsplit
      split at h
      · cases h
      rename_i x hx
      split at h
      · cases h
      rename_i rawY hrawY
      split at h
      · cases h
      rename_i y hy
      split at h
      · cases h
      rename_i z hz
      obtain rfl := Except.ok.inj h
      have htext : raw.toList =
          ['s'] ++ ':' :: (intText x ++ ':' :: (digits y ++ ':' :: intText z)) := by
        rw [splitKey_eq_ok hsplit, (parseI32_eq_ok.mp hx).1, (parseI32_eq_ok.mp hz).1,
          (parseDecimal_eq_ok.mp hrawY).1, ← (checkSectionY_le hy).2, intText_natCast]
        simp [List.intercalate, SECTION_KEY_PREFIX]
      apply String.toList_inj.mp
      rw [toList_key]
      exact htext
    · cases h
  · rintro rfl
    have hx : parseI32 (intText id.x) .section = .ok id.x := parseI32_eq_ok.mpr ⟨rfl, id.x_mem⟩
    have hz : parseI32 (intText id.z) .section = .ok id.z := parseI32_eq_ok.mpr ⟨rfl, id.z_mem⟩
    have hy : parseDecimal (digits id.y) .section = .ok (id.y : Int) := by
      have := id.y_le
      simp only [SECTION_Y_MAX] at this
      exact parseDecimal_eq_ok.mpr ⟨rfl, by omega, by omega⟩
    unfold parse
    rw [splitKey_key]
    simp only
    split
    · rename_i err herr
      rw [hx] at herr
      cases herr
    rename_i x hx'
    obtain rfl := Except.ok.inj (hx.symm.trans hx')
    simp only [hy]
    split
    · rename_i err herr
      rw [checkSectionY_natCast id.y_le] at herr
      cases herr
    rename_i y hy'
    obtain rfl := Except.ok.inj ((checkSectionY_natCast id.y_le).symm.trans hy')
    split
    · rename_i err herr
      rw [hz] at herr
      cases herr
    rename_i z hz'
    obtain rfl := Except.ok.inj (hz.symm.trans hz')
    rfl

@[simp] theorem parse_key (id : SectionId) : parse id.key = .ok id := parse_eq_ok.mpr rfl

/-- Different sections have different keys. -/
theorem key_injective {a b : SectionId} (h : a.key = b.key) : a = b := by
  have := parse_eq_ok.mpr h
  rw [parse_key] at this
  exact Except.ok.inj this

end SectionId

end LumioVoxel
