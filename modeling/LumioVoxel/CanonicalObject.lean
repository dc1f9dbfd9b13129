import LumioVoxel.DecimalText
import LumioVoxel.FallibleSteps
import LumioVoxel.OrderedMaps
import LumioVoxel.Plumbing

/-!
# Canonical objects

The repository's own encoding of a set of named members: members in name order,
every string quoted and escaped, every integer bare.  The parser accepts more
than the encoder writes, and decoding then compares the bytes with a fresh
encoding, so what decodes is exactly what encodes.
-/

namespace LumioVoxel

open DecimalText Fallible

inductive CanonicalValue where
  | text (value : String)
  | uint (value : UInt64)
  | textArray (items : List String)
  deriving DecidableEq, Repr

namespace CanonicalValue

def asText : CanonicalValue → Option String
  | .text value => some value
  | _ => none

def asUint : CanonicalValue → Option UInt64
  | .uint value => some value
  | _ => none

end CanonicalValue

/-- A member name offered twice. -/
structure DuplicateMember where
  key : String
  deriving DecidableEq, Repr

inductive DecodeError where
  | malformed
  | duplicateMember
  | notCanonical
  deriving DecidableEq, Repr

structure CanonicalObject where
  members : BTreeMap String CanonicalValue
  deriving DecidableEq

/-! ## 1. Encoding -/

namespace CanonicalObject

def new : CanonicalObject := ⟨∅⟩

/-- Adds one member; a name already present is refused. -/
def insert (object : CanonicalObject) (key : String) (value : CanonicalValue) :
    Except DuplicateMember CanonicalObject :=
  match object.members[key]? with
  | some _ => .error ⟨key⟩
  | none => .ok ⟨object.members.insert key value⟩

def insertAll (object : CanonicalObject) (members : List (String × CanonicalValue)) :
    Except DuplicateMember CanonicalObject :=
  foldSteps (fun object member => object.insert member.1 member.2) object members

/-- A control character as `\u` and four lower-case hexadecimal digits. -/
def controlEscape (c : Char) : List Char :=
  let code := UInt8.ofNat c.toNat
  ['\\', 'u', '0', '0', hexDigit (code >>> 4), hexDigit (code &&& 0xf)]

def quotedChar (c : Char) : List Char :=
  if c = '"' then ['\\', '"']
  else if c = '\\' then ['\\', '\\']
  else if c.toNat < 0x20 then controlEscape c
  else [c]

def quoted (raw : String) : List Char := '"' :: (raw.toList.flatMap quotedChar ++ ['"'])

/-- Items joined by bare commas. -/
def joined : List (List Char) → List Char
  | [] => []
  | [item] => item
  | item :: rest => item ++ ',' :: joined rest

def valueText : CanonicalValue → List Char
  | .text value => quoted value
  | .uint value => digits value.toNat
  | .textArray items => '[' :: (joined (items.map quoted) ++ [']'])

def memberText (member : String × CanonicalValue) : List Char :=
  quoted member.1 ++ ':' :: valueText member.2

def encode (object : CanonicalObject) : String :=
  String.ofList ('{' :: (joined (object.members.toList.map memberText) ++ ['}']))

def encodeBytes (object : CanonicalObject) : Bytes := utf8 object.encode

end CanonicalObject

/-! ## 2. Parsing -/

/-! Each parser returns a value and the characters it did not consume. -/

namespace CanonicalParser

def hexValue (c : Char) : Option Nat :=
  if '0' ≤ c ∧ c ≤ '9' then some (c.toNat - 48)
  else if 'a' ≤ c ∧ c ≤ 'f' then some (c.toNat - 87)
  else if 'A' ≤ c ∧ c ≤ 'F' then some (c.toNat - 55)
  else none

/-- A scalar value from four hexadecimal digits; a surrogate half is none. -/
def escapedChar (a b c d : Char) : Option Char := do
  let a ← hexValue a
  let b ← hexValue b
  let c ← hexValue c
  let d ← hexValue d
  let code := ((a * 16 + b) * 16 + c) * 16 + d
  if h : Nat.isValidChar code then some (Char.ofNatAux code h) else none

def pushChar (c : Char) : Except DecodeError (List Char × List Char) →
    Except DecodeError (List Char × List Char)
  | .ok (text, rest) => .ok (c :: text, rest)
  | .error err => .error err

/-- The characters of a string up to and including its closing quote. -/
def stringBody : List Char → Except DecodeError (List Char × List Char)
  | [] => .error .malformed
  | '"' :: rest => .ok ([], rest)
  | '\\' :: '"' :: rest => pushChar '"' (stringBody rest)
  | '\\' :: '\\' :: rest => pushChar '\\' (stringBody rest)
  | '\\' :: 'u' :: a :: b :: c :: d :: rest =>
    match escapedChar a b c d with
    | some ch => pushChar ch (stringBody rest)
    | none => .error .malformed
  | '\\' :: _ => .error .malformed
  | c :: rest => if c.toNat < 0x20 then .error .malformed else pushChar c (stringBody rest)

def eat (c : Char) : List Char → Except DecodeError (List Char)
  | [] => .error .malformed
  | d :: rest => if d = c then .ok rest else .error .malformed

def string (input : List Char) : Except DecodeError (String × List Char) := do
  let rest ← eat '"' input
  let (text, rest) ← stringBody rest
  return (String.ofList text, rest)

def uint (input : List Char) : Except DecodeError (UInt64 × List Char) := do
  let ds := input.takeWhile Char.isDigit
  require (ds ≠ [] ∧ ¬ (1 < ds.length ∧ ds.head? = some '0')) .malformed
  require (value ds < 2 ^ 64) .malformed
  return (UInt64.ofNat (value ds), input.drop ds.length)

/-- The items of an array after the first `[`, one string in each round. -/
def arrayItems : Nat → List Char → Except DecodeError (List String × List Char)
  | 0, _ => .error .malformed
  | rounds + 1, input => do
    let (item, rest) ← string input
    match rest with
    | ',' :: rest =>
      let (items, rest) ← arrayItems rounds rest
      return (item :: items, rest)
    | ']' :: rest => return ([item], rest)
    | _ => throw .malformed

def array (input : List Char) : Except DecodeError (CanonicalValue × List Char) := do
  let rest ← eat '[' input
  match rest with
  | ']' :: rest => return (.textArray [], rest)
  | rest =>
    let (items, rest) ← arrayItems rest.length rest
    return (.textArray items, rest)

def value (input : List Char) : Except DecodeError (CanonicalValue × List Char) :=
  match input with
  | '"' :: _ => do
    let (text, rest) ← string input
    return (.text text, rest)
  | '[' :: _ => array input
  | c :: _ =>
    if c.isDigit then do
      let (n, rest) ← uint input
      return (.uint n, rest)
    else
      .error .malformed
  | [] => .error .malformed

/-- The members after the first `{`, one in each round. -/
def members : Nat → CanonicalObject → List Char → Except DecodeError (CanonicalObject × List Char)
  | 0, _, _ => .error .malformed
  | rounds + 1, object, input => do
    let (key, rest) ← string input
    let rest ← eat ':' rest
    let (v, rest) ← value rest
    let object ← (object.insert key v).mapError fun _ => DecodeError.duplicateMember
    match rest with
    | ',' :: rest => members rounds object rest
    | '}' :: rest => return (object, rest)
    | _ => throw .malformed

def object (input : List Char) : Except DecodeError (CanonicalObject × List Char) := do
  let rest ← eat '{' input
  match rest with
  | '}' :: rest => return (.new, rest)
  | rest => members rest.length .new rest

/-- The whole input, as valid UTF-8, is one object. -/
def parse (bytes : Bytes) : Except DecodeError CanonicalObject := do
  let text ← someOr (String.fromUTF8? ⟨bytes.toArray⟩) .malformed
  let (object, rest) ← object text.toList
  require (rest = []) .malformed
  return object

end CanonicalParser

/-- Parses, then requires the canonical spelling of what was parsed. -/
def CanonicalObject.decode (bytes : Bytes) : Except DecodeError CanonicalObject := do
  let object ← CanonicalParser.parse bytes
  require (object.encodeBytes = bytes) .notCanonical
  return object

/-! ## 3. Decoding an encoding -/

section RoundTrip

open CanonicalObject CanonicalParser

private theorem escapedChar_control : ∀ n : Fin 32,
    escapedChar '0' '0' (hexDigit (UInt8.ofNat n >>> 4)) (hexDigit (UInt8.ofNat n &&& 0xf)) =
      some (Char.ofNat n) := by
  decide

theorem stringBody_plain {c : Char} (hq : c ≠ '"') (hb : c ≠ '\\') (rest : List Char) :
    stringBody (c :: rest) =
      if c.toNat < 0x20 then .error .malformed else pushChar c (stringBody rest) := by
  rw [stringBody.eq_def]
  split
  · rename_i h
    cases h
  · rename_i h
    exact absurd (List.cons.inj h).1 hq
  · rename_i h
    exact absurd (List.cons.inj h).1 hb
  · rename_i h
    exact absurd (List.cons.inj h).1 hb
  · rename_i h
    exact absurd (List.cons.inj h).1 hb
  · rename_i h
    exact absurd (List.cons.inj h).1 hb
  · rename_i h
    obtain ⟨rfl, rfl⟩ := List.cons.inj h
    rfl

/-- A quoted character reads back as the character. -/
private theorem stringBody_quotedChar (c : Char) (rest : List Char) :
    stringBody (quotedChar c ++ rest) = pushChar c (stringBody rest) := by
  unfold quotedChar
  by_cases hq : c = '"'
  · subst hq
    rfl
  by_cases hb : c = '\\'
  · subst hb
    rfl
  rw [if_neg hq, if_neg hb]
  by_cases hc : c.toNat < 0x20
  · have hesc := escapedChar_control ⟨c.toNat, hc⟩
    rw [if_pos hc]
    simp only [controlEscape, List.cons_append, List.nil_append]
    rw [stringBody]
    simp only [Char.ofNat_toNat] at hesc
    rw [hesc]
  · rw [if_neg hc, List.singleton_append, stringBody_plain hq hb, if_neg hc]

private theorem stringBody_quoted (text rest : List Char) :
    stringBody (text.flatMap quotedChar ++ '"' :: rest) = .ok (text, rest) := by
  induction text with
  | nil => rfl
  | cons c text ih =>
    rw [List.flatMap_cons, List.append_assoc, stringBody_quotedChar, ih]
    rfl

theorem string_quoted (raw : String) (rest : List Char) :
    string (quoted raw ++ rest) = .ok (raw, rest) := by
  have hshape : quoted raw ++ rest = '"' :: (raw.toList.flatMap quotedChar ++ '"' :: rest) := by
    simp [quoted]
  rw [hshape]
  simp only [string, eat, if_true, ok_bind, stringBody_quoted, String.ofList_toList]
  rfl

/-- Nothing more of a number follows. -/
def EndsNumber (rest : List Char) : Prop := ∀ c ∈ rest.head?, c.isDigit = false

private theorem takeWhile_digits {n : Nat} {rest : List Char} (h : EndsNumber rest) :
    (digits n ++ rest).takeWhile Char.isDigit = digits n := by
  rw [List.takeWhile_append_of_pos fun c hc => isDigit_of_mem_digits hc]
  cases rest with
  | nil => simp
  | cons c rest => rw [List.takeWhile_cons_of_neg (by simp [h c rfl]), List.append_nil]

theorem uint_digits (n : UInt64) {rest : List Char} (h : EndsNumber rest) :
    uint (digits n.toNat ++ rest) = .ok (n, rest) := by
  obtain ⟨hne, -, hzero⟩ := canonical_digits n.toNat
  have hrules : digits n.toNat ≠ [] ∧
      ¬ (1 < (digits n.toNat).length ∧ (digits n.toNat).head? = some '0') :=
    ⟨hne, fun hh => hzero hh.1 hh.2⟩
  simp only [uint, takeWhile_digits h, require_of hrules, value_digits, require_of n.toNat_lt,
    ok_bind, List.drop_left, UInt64.ofNat_toNat]
  rfl

private theorem arrayItems_joined {items : List String} (hne : items ≠ []) {rounds : Nat}
    (hrounds : items.length ≤ rounds) (rest : List Char) :
    arrayItems rounds (joined (items.map quoted) ++ ']' :: rest) = .ok (items, rest) := by
  induction items generalizing rounds with
  | nil => exact absurd rfl hne
  | cons item items ih =>
    obtain ⟨rounds, rfl⟩ : ∃ r, rounds = r + 1 :=
      ⟨rounds - 1, by rw [List.length_cons] at hrounds; omega⟩
    cases items with
    | nil =>
      simp only [List.map_cons, List.map_nil, joined, arrayItems, string_quoted, ok_bind]
      rfl
    | cons next items =>
      have hrounds' : (next :: items).length ≤ rounds := by
        simp only [List.length_cons] at hrounds ⊢
        omega
      have hrec := ih (List.cons_ne_nil _ _) hrounds'
      simp only [List.map_cons, joined, List.append_assoc, List.cons_append, arrayItems,
        string_quoted, ok_bind]
      simp only [List.map_cons] at hrec
      rw [hrec]
      rfl

private theorem length_le_joined (items : List String) :
    items.length ≤ (joined (items.map quoted)).length := by
  induction items with
  | nil => exact Nat.le_refl _
  | cons item items ih =>
    cases items with
    | nil => simp [joined, quoted]
    | cons next items =>
      simp only [List.map_cons, joined, List.length_append, List.length_cons] at ih ⊢
      omega

private theorem head?_joined_quoted (item : String) (items : List String) (rest : List Char) :
    ∃ tail, joined ((item :: items).map quoted) ++ rest = '"' :: tail := by
  cases items with
  | nil => exact ⟨_, rfl⟩
  | cons next items => exact ⟨_, rfl⟩

theorem array_items (items : List String) (rest : List Char) :
    array ('[' :: (joined (items.map quoted) ++ [']']) ++ rest) = .ok (.textArray items, rest) := by
  have hshape : '[' :: (joined (items.map quoted) ++ [']']) ++ rest =
      '[' :: (joined (items.map quoted) ++ ']' :: rest) := by simp
  rw [hshape]
  simp only [array, eat, if_true, ok_bind]
  cases items with
  | nil => rfl
  | cons item items =>
    obtain ⟨tail, htail⟩ := head?_joined_quoted item items (']' :: rest)
    have hlen : (item :: items).length ≤
        (joined ((item :: items).map quoted) ++ ']' :: rest).length := by
      have := length_le_joined (item :: items)
      rw [List.length_append]
      omega
    have hitems := arrayItems_joined (List.cons_ne_nil item items) hlen rest
    rw [htail] at hitems ⊢
    show (arrayItems _ ('"' :: tail) >>= _) = _
    rw [hitems]
    rfl

theorem value_valueText (v : CanonicalValue) {rest : List Char} (h : EndsNumber rest) :
    CanonicalParser.value (valueText v ++ rest) = .ok (v, rest) := by
  cases v with
  | text raw =>
    have hstring := string_quoted raw rest
    simp only [valueText, quoted, List.cons_append] at hstring ⊢
    simp only [CanonicalParser.value, hstring, ok_bind]
    rfl
  | uint n =>
    have huint := uint_digits n h
    simp only [valueText]
    obtain ⟨c, ds, hds⟩ := List.exists_cons_of_ne_nil (canonical_digits n.toNat).1
    have hc : c.isDigit = true := isDigit_of_mem_digits (n := n.toNat) (hds ▸ List.mem_cons_self)
    rw [hds] at huint ⊢
    have hq : c ≠ '"' := fun heq => absurd (heq ▸ hc) (by decide)
    have hb : c ≠ '[' := fun heq => absurd (heq ▸ hc) (by decide)
    rw [List.cons_append] at huint ⊢
    rw [CanonicalParser.value.eq_def]
    split
    · rename_i heq
      exact absurd (List.cons.inj heq).1 hq
    · rename_i heq
      exact absurd (List.cons.inj heq).1 hb
    · rename_i heq
      obtain ⟨rfl, rfl⟩ := List.cons.inj heq
      rw [if_pos hc, huint]
      rfl
    · rename_i heq
      cases heq
  | textArray items => exact array_items items rest

private theorem members_joined {ms : List (String × CanonicalValue)} (hne : ms ≠ []) {rounds : Nat}
    (hrounds : ms.length ≤ rounds) {o o' : CanonicalObject} (h : o.insertAll ms = .ok o')
    (rest : List Char) :
    CanonicalParser.members rounds o (joined (ms.map memberText) ++ '}' :: rest) =
      .ok (o', rest) := by
  induction ms generalizing rounds o with
  | nil => exact absurd rfl hne
  | cons m ms ih =>
    obtain ⟨rounds, rfl⟩ : ∃ r, rounds = r + 1 :=
      ⟨rounds - 1, by rw [List.length_cons] at hrounds; omega⟩
    obtain ⟨o₁, hinsert, hrest⟩ := foldSteps_cons_eq_ok.mp h
    cases ms with
    | nil =>
      obtain rfl := Except.ok.inj hrest
      have hends : EndsNumber ('}' :: rest) := fun c hc => Option.some.inj hc ▸ by decide
      simp only [List.map_cons, List.map_nil, joined, memberText, List.append_assoc,
        List.cons_append, CanonicalParser.members, string_quoted, ok_bind, eat, if_true,
        value_valueText m.2 hends,
        hinsert, mapError_ok]
      rfl
    | cons next ms =>
      have hends : ∀ tail : List Char, EndsNumber (',' :: tail) :=
        fun tail c hc => Option.some.inj hc ▸ by decide
      have hrounds' : (next :: ms).length ≤ rounds := by
        simp only [List.length_cons] at hrounds ⊢
        omega
      have hrec := ih (List.cons_ne_nil _ _) hrounds' hrest
      simp only [List.map_cons] at hrec
      simp only [List.map_cons, joined, memberText, List.append_assoc, List.cons_append,
        CanonicalParser.members, string_quoted, ok_bind, eat, if_true, value_valueText m.2 (hends _),
        hinsert, mapError_ok]
      simp only [memberText] at hrec
      rw [hrec]

private theorem length_le_joined_members (ms : List (String × CanonicalValue)) :
    ms.length ≤ (joined (ms.map memberText)).length := by
  induction ms with
  | nil => exact Nat.le_refl _
  | cons m ms ih =>
    cases ms with
    | nil => simp [joined, memberText, quoted]
    | cons next ms =>
      simp only [List.map_cons, joined, List.length_append, List.length_cons] at ih ⊢
      omega

private theorem head?_joined_members (m : String × CanonicalValue)
    (ms : List (String × CanonicalValue)) (rest : List Char) :
    ∃ tail, joined ((m :: ms).map memberText) ++ rest = '"' :: tail := by
  cases ms with
  | nil => exact ⟨_, rfl⟩
  | cons next ms => exact ⟨_, rfl⟩

/-- Members under distinct new names are all added. -/
theorem insertAll_of_fresh {ms : List (String × CanonicalValue)}
    (hms : ms.Pairwise fun a b => a.1 ≠ b.1) {o : CanonicalObject}
    (hfresh : ∀ m ∈ ms, o.members[m.1]? = none) :
    o.insertAll ms = .ok ⟨ms.foldl (fun t m => t.insert m.1 m.2) o.members⟩ := by
  induction ms generalizing o with
  | nil => rfl
  | cons m ms ih =>
    obtain ⟨hhead, htail⟩ := List.pairwise_cons.mp hms
    have hinsert : o.insert m.1 m.2 = .ok ⟨o.members.insert m.1 m.2⟩ := by
      rw [CanonicalObject.insert, hfresh m List.mem_cons_self]
    refine foldSteps_cons_eq_ok.mpr ⟨_, hinsert, ih htail fun m' hm' => ?_⟩
    rw [BTreeMap.getElem?_insert_ne _ (hhead m' hm')]
    exact hfresh m' (List.mem_cons_of_mem _ hm')

/-- Members under distinct names make an object of exactly those members. -/
theorem exists_insertAll {ms : List (String × CanonicalValue)}
    (hms : ms.Pairwise fun a b => a.1 ≠ b.1) :
    ∃ o, CanonicalObject.new.insertAll ms = .ok o ∧
      ∀ name v, o.members[name]? = some v ↔ (name, v) ∈ ms := by
  refine ⟨_, insertAll_of_fresh hms fun m _ => BTreeMap.getElem?_empty m.1, fun name v => ?_⟩
  exact BTreeMap.getElem?_foldl_insert_iff hms

theorem insertAll_toList (o : CanonicalObject) :
    CanonicalObject.new.insertAll o.members.toList = .ok o := by
  have h := insertAll_of_fresh (BTreeMap.pairwise_toList o.members) (o := CanonicalObject.new)
    fun m _ => BTreeMap.getElem?_empty m.1
  rw [h, CanonicalObject.new, BTreeMap.foldl_insert_toList]

theorem object_encode (o : CanonicalObject) : object o.encode.toList = .ok (o, []) := by
  have hall := insertAll_toList o
  simp only [CanonicalObject.encode, String.toList_ofList, object, eat, if_true, ok_bind]
  cases hms : o.members.toList with
  | nil =>
    rw [hms] at hall
    rw [← Except.ok.inj hall]
    rfl
  | cons m ms =>
    rw [hms] at hall
    obtain ⟨tail, htail⟩ := head?_joined_members m ms ['}']
    have hlen : (m :: ms).length ≤ (joined ((m :: ms).map memberText) ++ ['}']).length := by
      have := length_le_joined_members (m :: ms)
      rw [List.length_append]
      omega
    have hmembers := members_joined (List.cons_ne_nil m ms) hlen hall []
    rw [htail] at hmembers ⊢
    exact hmembers

/-- **Round trip.** An encoding decodes to the object that was encoded. -/
theorem decode_encodeBytes (o : CanonicalObject) : decode o.encodeBytes = .ok o := by
  have hparse : parse o.encodeBytes = .ok o := by
    simp only [parse, CanonicalObject.encodeBytes, fromUTF8?_utf8, someOr, ok_bind, object_encode]
    rfl
  simp only [decode, hparse, ok_bind]
  rfl

theorem encodeBytes_injective {o o' : CanonicalObject} (h : o.encodeBytes = o'.encodeBytes) :
    o = o' := by
  have hdecode := decode_encodeBytes o
  rw [h, decode_encodeBytes] at hdecode
  exact (Except.ok.inj hdecode).symm

theorem decode_eq_ok {bytes : Bytes} {o : CanonicalObject} :
    decode bytes = .ok o ↔ bytes = o.encodeBytes := by
  constructor
  · intro h
    simp only [decode, bind_eq_ok, require_eq_ok, pure_eq_ok, exists_and_left, exists_const] at h
    obtain ⟨o', -, henc, rfl⟩ := h
    exact henc.symm
  · rintro rfl
    exact decode_encodeBytes o

end RoundTrip

end LumioVoxel
