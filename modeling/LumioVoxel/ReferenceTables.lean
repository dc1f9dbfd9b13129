import LumioVoxel.BlockEntityBinding
import LumioVoxel.WordEncodings

/-!
# The wire form of a reference table

A count, and for each reference its offset, the length of its entity id and the id.  The
writer goes through the table in ascending order of offsets.  Validation and parsing read
the same entries with the same loop, validation first, and neither asks for an order.
-/

namespace LumioVoxel

open Fallible

/-! ## 1. Writing -/

namespace SparseReferenceTable

def writeReference (bytes : Bytes) (reference : CellOffset × String) :
    Except BindingError Bytes := do
  let id := utf8 reference.2
  require (id.length < 2 ^ 16) .notSparse
  return bytes ++ u16LeBytes reference.1.raw ++ u16LeBytes (UInt16.ofNat id.length) ++ id

/-- Canonical binding payload: count, then offset and entity id only. -/
def toWireBytes (table : SparseReferenceTable) : Except BindingError Bytes := do
  require (table.size < 2 ^ 16) .notSparse
  foldSteps writeReference (u16LeBytes (UInt16.ofNat table.size)) table.toList

/-! ## 2. Reading -/

/-- `read_u16`: the number at the cursor and the cursor after it. -/
def readU16 (bytes : Bytes) (cursor : Nat) : Except BindingError (UInt16 × Nat) := do
  let stop ← someOr (checkedAddUsize cursor 2) .notSparse
  let pair ← someOr (slice bytes cursor stop) .notSparse
  return (u16FromLeBytes (pair.getD 0 0) (pair.getD 1 0), stop)

/-- One round of the loop that validation and parsing have in common. -/
def readReference (bytes : Bytes) (read : SparseReferenceTable × Nat) :
    Except BindingError (SparseReferenceTable × Nat) := do
  let (raw, cursor) ← readU16 bytes read.2
  let offset ← (CellOffset.new raw).mapError BindingError.block
  let (length, cursor) ← readU16 bytes cursor
  let stop ← someOr (checkedAddUsize cursor length.toNat) .notSparse
  let part ← someOr (slice bytes cursor stop) .notSparse
  let id ← someOr (String.fromUTF8? ⟨part.toArray⟩) .notSparse
  let table ← insertEntry read.1 offset id
  return (table, stop)

/-- The whole loop, from the cursor after the count. -/
def readReferences (bytes : Bytes) (count : UInt16) (cursor : Nat) :
    Except BindingError (SparseReferenceTable × Nat) :=
  foldSteps (fun read _ => readReference bytes read) (∅, cursor) (List.range count.toNat)

def validateWireBytes (bytes : Bytes) : Except BindingError Unit := do
  let (count, cursor) ← readU16 bytes 0
  require (count.toNat ≤ CELL_OFFSET_MAX + 1) .notSparse
  let (_, cursor) ← readReferences bytes count cursor
  require (cursor = bytes.length) .notSparse

def fromWireBytes (bytes : Bytes) : Except BindingError SparseReferenceTable := do
  validateWireBytes bytes
  let (count, cursor) ← readU16 bytes 0
  let (table, _) ← readReferences bytes count cursor
  return table

end SparseReferenceTable

def BindingState.referencesPayload (state : BindingState) : Except BindingError Bytes :=
  SparseReferenceTable.toWireBytes state.references

def BindingState.validateWirePayload (bytes : Bytes) : Except BindingError Unit :=
  SparseReferenceTable.validateWireBytes bytes

/-! ## 3. Spelled references -/

namespace SparseReferenceTable

/-- What a reference is on the wire. -/
def spelledReference (reference : CellOffset × String) : Bytes :=
  u16LeBytes reference.1.raw ++
    (u16LeBytes (UInt16.ofNat (utf8 reference.2).length) ++ utf8 reference.2)

/-- References in the given order, after their number. -/
def spelled (references : List (CellOffset × String)) : Bytes :=
  u16LeBytes (UInt16.ofNat references.length) ++ references.flatMap spelledReference

/-- The length of the id fits its field. -/
def Fits (reference : CellOffset × String) : Prop := (utf8 reference.2).length < 2 ^ 16

/-- References that a table can hold and a parser accepts: ids that are not empty and
fit, and no two for one offset. -/
structure Sparse (references : List (CellOffset × String)) : Prop where
  named : ∀ reference ∈ references, reference.2 ≠ ""
  fits : ∀ reference ∈ references, Fits reference
  distinct : references.Pairwise fun a b => a.1 ≠ b.1

theorem selfDelimiting_reference : SelfDelimiting Fits spelledReference := by
  have hpair := selfDelimiting_u16.seq (SelfDelimiting.lengthPrefixed selfDelimiting_length16)
  apply Delimited.comap (k := fun reference : CellOffset × String =>
    (reference.1.raw, utf8 reference.2)) hpair
  · exact fun _ hfits => ⟨trivial, hfits⟩
  · rintro ⟨⟨raw, _⟩, id⟩ ⟨⟨raw', _⟩, id'⟩ - - h
    obtain ⟨rfl, hid⟩ := Prod.mk.inj h
    obtain rfl : id = id' := utf8_injective hid
    rfl

/-- A byte string spells at most one list of references. -/
theorem spelled_injective {references references' : List (CellOffset × String)}
    (hcount : references.length < 2 ^ 16) (hcount' : references'.length < 2 ^ 16)
    (hfits : ∀ reference ∈ references, Fits reference)
    (hfits' : ∀ reference ∈ references', Fits reference)
    (h : spelled references = spelled references') : references = references' :=
  (SelfDelimiting.counted selfDelimiting_length16 selfDelimiting_reference).injective trivial
    ⟨hcount, hfits⟩ ⟨hcount', hfits'⟩ h

/-! ## 4. What one round reads -/

variable {bytes : Bytes} {cursor stop : Nat}

theorem readU16_eq_ok {n : UInt16} (hcursor : cursor ≤ bytes.length) :
    readU16 bytes cursor = .ok (n, stop) ↔ stop = cursor + 2 ∧ stop < 2 ^ 64 ∧
      bytes.drop cursor = u16LeBytes n ++ bytes.drop stop := by
  simp only [readU16, bind_eq_ok, someOr_eq_ok, checkedAddUsize_eq_some, pure_eq_ok, Prod.mk.injEq]
  constructor
  · rintro ⟨_, ⟨rfl, hlt⟩, pair, hpair, rfl, rfl⟩
    obtain ⟨hlen, hsplit⟩ := (slice_eq_some hcursor).mp hpair
    obtain ⟨b0, b1, rfl⟩ := List.length_eq_two.mp hlen
    refine ⟨rfl, hlt, ?_⟩
    rw [hsplit]
    exact congrArg (· ++ _) (u16LeBytes_fromLeBytes b0 b1).symm
  · rintro ⟨rfl, hlt, hsplit⟩
    refine ⟨_, ⟨rfl, hlt⟩, u16LeBytes n, (slice_eq_some hcursor).mpr ⟨rfl, hsplit⟩, ?_, rfl⟩
    exact u16FromLeBytes_bytes n

theorem insertEntry_eq_ok {table next : SparseReferenceTable} {offset : CellOffset} {id : String} :
    insertEntry table offset id = .ok next ↔
      (id ≠ "" ∧ table[offset]? = none) ∧ next = table.insert offset id := by
  simp only [insertEntry, bind_eq_ok, require_eq_ok, exists_const, pure_eq_ok,
    eq_comm (a := next)]

/-- A text at the cursor ends within the bytes. -/
private theorem end_le (text : Bytes) (hcursor : cursor ≤ bytes.length)
    (hsplit : bytes.drop cursor = text ++ bytes.drop (cursor + text.length)) :
    cursor + text.length ≤ bytes.length := by
  have hlen := congrArg List.length hsplit
  rw [List.length_append, List.length_drop, List.length_drop] at hlen
  omega

/-- What one round of the loop takes from the bytes and adds to the table. -/
structure Takes (bytes : Bytes) (read next : SparseReferenceTable × Nat)
    (reference : CellOffset × String) : Prop where
  named : reference.2 ≠ ""
  fits : Fits reference
  fresh : read.1[reference.1]? = none
  text : bytes.drop read.2 = spelledReference reference ++ bytes.drop next.2
  table : next.1 = read.1.insert reference.1 reference.2
  cursor : next.2 = read.2 + (spelledReference reference).length

theorem length_spelledReference (reference : CellOffset × String) :
    (spelledReference reference).length = 4 + (utf8 reference.2).length := by
  simp only [spelledReference, u16LeBytes, List.length_append, List.length_cons, List.length_nil]
  omega

theorem takes_of_readReference {read next : SparseReferenceTable × Nat}
    (hcursor : read.2 ≤ bytes.length) (h : readReference bytes read = .ok next) :
    ∃ reference, Takes bytes read next reference := by
  simp only [readReference, bind_eq_ok, mapError_eq_ok, someOr_eq_ok, checkedAddUsize_eq_some,
    fromUTF8?_eq_some, insertEntry_eq_ok, pure_eq_ok] at h
  obtain ⟨⟨raw, cursor₁⟩, hraw, offset, hoffset, ⟨length, cursor₂⟩, hlength, stop, ⟨rfl, -⟩, part,
    hpart, id, rfl, table, ⟨⟨hnamed, hfresh⟩, rfl⟩, rfl⟩ := h
  obtain ⟨rfl, -, hsplit₁⟩ := (readU16_eq_ok hcursor).mp hraw
  have hcursor₁ : read.2 + 2 ≤ bytes.length := end_le (u16LeBytes raw) hcursor hsplit₁
  obtain ⟨rfl, -, hsplit₂⟩ := (readU16_eq_ok hcursor₁).mp hlength
  have hcursor₂ : read.2 + 2 + 2 ≤ bytes.length :=
    end_le (u16LeBytes length) hcursor₁ hsplit₂
  obtain ⟨hlen, hsplit₃⟩ := (slice_eq_some hcursor₂).mp hpart
  have hlt := length.toNat_lt
  have hback : UInt16.ofNat (utf8 id).length = length := by rw [hlen, UInt16.ofNat_toNat]
  obtain rfl : offset.raw = raw := by
    unfold CellOffset.new at hoffset
    split at hoffset
    · rw [← Except.ok.inj hoffset]
    · cases hoffset
  refine ⟨(offset, id), hnamed, ?_, hfresh, ?_, rfl, ?_⟩
  · rw [Fits, hlen]
    exact hlt
  · rw [hsplit₁, hsplit₂, hsplit₃, spelledReference, hback]
    simp only [List.append_assoc]
  · rw [length_spelledReference, hlen]
    simp only
    omega

/-- The text after a text. -/
private theorem drop_after {text rest : Bytes} (h : bytes.drop cursor = text ++ rest) :
    bytes.drop (cursor + text.length) = rest := by
  rw [← List.drop_drop, h, List.drop_left]

private theorem readU16_of_drop {n : UInt16} {rest : Bytes} (hbytes : bytes.length < 2 ^ 64)
    (h : bytes.drop cursor = u16LeBytes n ++ rest) :
    readU16 bytes cursor = .ok (n, cursor + 2) := by
  have hlen := congrArg List.length h
  have htwo : (u16LeBytes n).length = 2 := rfl
  rw [List.length_drop, List.length_append, htwo] at hlen
  refine (readU16_eq_ok (by omega)).mpr ⟨rfl, by omega, ?_⟩
  rw [h, ← drop_after h, htwo]

theorem readReference_of_takes {read next : SparseReferenceTable × Nat}
    {reference : CellOffset × String} (hbytes : bytes.length < 2 ^ 64)
    (h : Takes bytes read next reference) : readReference bytes read = .ok next := by
  obtain ⟨offset, id⟩ := reference
  obtain ⟨table, stop⟩ := next
  obtain ⟨hnamed, hfits, hfresh, htext, rfl, hstop⟩ := h
  generalize bytes.drop stop = rest at htext
  simp only [spelledReference, List.append_assoc] at htext
  have hoffset : CellOffset.new offset.raw = .ok offset := dif_pos offset.le_max
  have htext₁ : bytes.drop (read.2 + 2) = _ := drop_after htext
  have htext₂ : bytes.drop (read.2 + 2 + 2) = _ := drop_after htext₁
  have hlen := congrArg List.length htext₂
  rw [List.length_drop, List.length_append] at hlen
  have hpos : 0 < (utf8 id).length := by
    apply List.length_pos_iff.mpr
    intro hnil
    exact hnamed (utf8_injective hnil)
  have hcount : (UInt16.ofNat (utf8 id).length).toNat = (utf8 id).length :=
    UInt16.toNat_ofNat_of_lt' hfits
  rw [length_spelledReference] at hstop
  obtain rfl : stop = read.2 + 2 + 2 + (utf8 id).length := by
    have hsame : stop = read.2 + (4 + (utf8 id).length) := hstop
    omega
  have hend := checkedAddUsize_eq_some.mpr ⟨rfl, (by omega : read.2 + 2 + 2 + (utf8 id).length < _)⟩
  have hpart : slice bytes (read.2 + 2 + 2) (read.2 + 2 + 2 + (utf8 id).length) = some (utf8 id) :=
    (slice_eq_some (by omega)).mpr ⟨rfl, by rw [htext₂, ← drop_after htext₂]⟩
  simp only [readReference, readU16_of_drop hbytes htext, ok_bind, hoffset, mapError_ok,
    readU16_of_drop hbytes htext₁, hcount, hend, someOr, hpart, fromUTF8?_utf8,
    insertEntry_eq_ok.mpr ⟨⟨hnamed, hfresh⟩, rfl⟩]
  rfl

/-! ## 5. The loop -/

/-- Rounds that take these references, one after another. -/
inductive TakesAll (bytes : Bytes) : SparseReferenceTable × Nat → SparseReferenceTable × Nat →
    List (CellOffset × String) → Prop
  | done (read : SparseReferenceTable × Nat) : TakesAll bytes read read []
  | next {read next final : SparseReferenceTable × Nat} {reference : CellOffset × String}
      {references : List (CellOffset × String)} (first : Takes bytes read next reference)
      (rest : TakesAll bytes next final references) :
      TakesAll bytes read final (reference :: references)

/-- References filed one by one. -/
def filed (table : SparseReferenceTable) (references : List (CellOffset × String)) :
    SparseReferenceTable :=
  references.foldl (fun table reference => table.insert reference.1 reference.2) table

variable {read final : SparseReferenceTable × Nat} {references : List (CellOffset × String)}

theorem Takes.cursor_le {next : SparseReferenceTable × Nat} {reference : CellOffset × String}
    (h : Takes bytes read next reference) (hcursor : read.2 ≤ bytes.length) :
    next.2 ≤ bytes.length := by
  rw [h.cursor]
  exact end_le _ hcursor (h.cursor ▸ h.text)

theorem takesAll_of_loop {items : List Nat} (hcursor : read.2 ≤ bytes.length)
    (h : foldSteps (fun read _ => readReference bytes read) read items = .ok final) :
    ∃ references, references.length = items.length ∧ TakesAll bytes read final references := by
  induction items generalizing read with
  | nil =>
    obtain rfl := Except.ok.inj h
    exact ⟨[], rfl, .done read⟩
  | cons item items ih =>
    obtain ⟨next, hfirst, hrest⟩ := foldSteps_cons_eq_ok.mp h
    obtain ⟨reference, htakes⟩ := takes_of_readReference hcursor hfirst
    obtain ⟨references, hlen, hall⟩ := ih (htakes.cursor_le hcursor) hrest
    exact ⟨reference :: references, congrArg (· + 1) hlen, .next htakes hall⟩

theorem loop_of_takesAll (hbytes : bytes.length < 2 ^ 64)
    (h : TakesAll bytes read final references) {items : List Nat}
    (hlen : items.length = references.length) :
    foldSteps (fun read _ => readReference bytes read) read items = .ok final := by
  induction h generalizing items with
  | done read =>
    obtain rfl := List.eq_nil_of_length_eq_zero hlen
    rfl
  | next first _ ih =>
    obtain ⟨item, items, rfl⟩ := List.exists_cons_of_length_eq_add_one hlen
    exact foldSteps_cons_eq_ok.mpr
      ⟨_, readReference_of_takes hbytes first, ih (Nat.succ.inj hlen)⟩

/-- What the rounds take is sparse, spelled in the bytes, and new to the table. -/
theorem TakesAll.sound (h : TakesAll bytes read final references) :
    Sparse references ∧ (∀ reference ∈ references, read.1[reference.1]? = none) ∧
      bytes.drop read.2 = references.flatMap spelledReference ++ bytes.drop final.2 ∧
      final = (filed read.1 references, read.2 + (references.flatMap spelledReference).length) := by
  induction h with
  | done read => exact ⟨⟨by simp, by simp, .nil⟩, by simp, rfl, rfl⟩
  | @next read next final reference references first _ ih =>
    obtain ⟨hsparse, hfresh, htext, hfinal⟩ := ih
    rw [first.table] at hfresh
    have hother : ∀ other ∈ references, reference.1 ≠ other.1 ∧ read.1[other.1]? = none := by
      intro other hmem
      have hnone := hfresh other hmem
      rw [BTreeMap.getElem?_insert] at hnone
      split at hnone
      · cases hnone
      · rename_i hne
        exact ⟨hne, hnone⟩
    refine ⟨⟨?_, ?_, ?_⟩, ?_, ?_, ?_⟩
    · exact List.forall_mem_cons.mpr ⟨first.named, hsparse.named⟩
    · exact List.forall_mem_cons.mpr ⟨first.fits, hsparse.fits⟩
    · exact List.pairwise_cons.mpr ⟨fun other hmem => (hother other hmem).1, hsparse.distinct⟩
    · exact List.forall_mem_cons.mpr ⟨first.fresh, fun other hmem => (hother other hmem).2⟩
    · rw [first.text, htext, List.flatMap_cons, List.append_assoc]
    · rw [hfinal, first.table, first.cursor, List.flatMap_cons, List.length_append, Nat.add_assoc]
      rfl

/-- And the other way round. -/
theorem takesAll_of (hsparse : Sparse references) {rest : Bytes}
    (hfresh : ∀ reference ∈ references, read.1[reference.1]? = none)
    (htext : bytes.drop read.2 = references.flatMap spelledReference ++ rest) :
    TakesAll bytes read
      (filed read.1 references, read.2 + (references.flatMap spelledReference).length)
      references := by
  induction references generalizing read with
  | nil => exact .done read
  | cons reference references ih =>
    obtain ⟨hnamed, hfits, hdistinct⟩ := hsparse
    obtain ⟨hhead, htail⟩ := List.pairwise_cons.mp hdistinct
    rw [List.flatMap_cons, List.append_assoc] at htext
    have hafter := drop_after htext
    let next : SparseReferenceTable × Nat :=
      (read.1.insert reference.1 reference.2, read.2 + (spelledReference reference).length)
    have hfirst : Takes bytes read next reference :=
      ⟨hnamed _ List.mem_cons_self, hfits _ List.mem_cons_self, hfresh _ List.mem_cons_self,
        by rw [htext, hafter], rfl, rfl⟩
    have hsparse' : Sparse references :=
      ⟨fun other hmem => hnamed other (List.mem_cons_of_mem _ hmem),
        fun other hmem => hfits other (List.mem_cons_of_mem _ hmem), htail⟩
    have hfresh' : ∀ other ∈ references, next.1[other.1]? = none := by
      intro other hmem
      rw [BTreeMap.getElem?_insert, if_neg (hhead other hmem)]
      exact hfresh other (List.mem_cons_of_mem _ hmem)
    have hall := ih hsparse' hfresh' hafter
    rw [List.flatMap_cons, List.length_append, ← Nat.add_assoc]
    exact .next hfirst hall

/-! ## 6. What is accepted and what is written -/

variable {table : SparseReferenceTable}

/-- There are 4096 offsets. -/
theorem Sparse.length_le (h : Sparse references) : references.length ≤ CELL_OFFSET_MAX + 1 := by
  have hnodup : (references.map fun reference => reference.1.index).Nodup := by
    apply List.pairwise_map.mpr
    exact h.distinct.imp fun hne heq => hne (CellOffset.index_injective heq)
  have hsubset : (references.map fun reference => reference.1.index) ⊆ List.range 4096 := by
    intro index hmem
    obtain ⟨reference, -, rfl⟩ := List.mem_map.mp hmem
    exact List.mem_range.mpr reference.1.index_lt
  have hle := (List.subperm_of_subset hnodup hsubset).length_le
  rwa [List.length_map, List.length_range] at hle

private theorem length_texts_le (h : ∀ reference ∈ references, Fits reference) :
    (references.flatMap spelledReference).length ≤ references.length * 65539 := by
  induction references with
  | nil => exact Nat.zero_le _
  | cons reference references ih =>
    obtain ⟨hfirst, hrest⟩ := List.forall_mem_cons.mp h
    have hrec := ih hrest
    rw [Fits] at hfirst
    rw [List.flatMap_cons, List.length_append, length_spelledReference, List.length_cons]
    omega

theorem Sparse.length_spelled_lt (h : Sparse references) :
    (spelled references).length < 2 ^ 64 := by
  have hcount := h.length_le
  have htexts := length_texts_le h.fits
  have hhead : (u16LeBytes (UInt16.ofNat references.length)).length = 2 := rfl
  rw [spelled, List.length_append, hhead]
  simp only [CELL_OFFSET_MAX] at hcount
  omega

/-- The count of a spelled list is read back. -/
private theorem readU16_spelled (h : Sparse references) :
    readU16 (spelled references) 0 = .ok (UInt16.ofNat references.length, 2) ∧
      (UInt16.ofNat references.length).toNat = references.length ∧
      (spelled references).drop 2 = references.flatMap spelledReference ++ [] := by
  have hcount := h.length_le
  refine ⟨readU16_of_drop h.length_spelled_lt List.drop_zero, ?_, ?_⟩
  · exact UInt16.toNat_ofNat_of_lt' (Nat.lt_of_le_of_lt hcount (by decide))
  · have hhead : (spelled references).drop 0 = u16LeBytes (UInt16.ofNat references.length) ++
        references.flatMap spelledReference := List.drop_zero
    rw [List.append_nil]
    exact drop_after hhead

theorem readReferences_spelled (h : Sparse references) :
    readReferences (spelled references) (UInt16.ofNat references.length) 2 =
      .ok (filed ∅ references, (spelled references).length) := by
  obtain ⟨-, hcount, htext⟩ := readU16_spelled h
  have hall : TakesAll (spelled references) (∅, 2) _ references :=
    takesAll_of h (fun _ _ => BTreeMap.getElem?_empty _) htext
  have hlen : (spelled references).length = 2 + (references.flatMap spelledReference).length := by
    rw [spelled, List.length_append]
    rfl
  rw [hlen]
  apply loop_of_takesAll h.length_spelled_lt hall
  rw [List.length_range, hcount]

/-- **Validation accepts exactly the spelled lists.** -/
theorem validateWireBytes_eq_ok :
    validateWireBytes bytes = .ok () ↔
      ∃ references, Sparse references ∧ bytes = spelled references := by
  constructor
  · intro h
    simp only [validateWireBytes, bind_eq_ok, require_eq_ok, exists_and_left, exists_const] at h
    obtain ⟨⟨count, cursor⟩, hcount, hmax, ⟨table, stop⟩, hloop, rfl⟩ := h
    obtain ⟨rfl, -, hhead⟩ := (readU16_eq_ok (Nat.zero_le _)).mp hcount
    have hcursor : 0 + 2 ≤ bytes.length := end_le (u16LeBytes count) (Nat.zero_le _) hhead
    obtain ⟨references, hlen, hall⟩ := takesAll_of_loop hcursor hloop
    obtain ⟨hsparse, -, htext, -⟩ := hall.sound
    refine ⟨references, hsparse, ?_⟩
    rw [List.length_range] at hlen
    rw [List.drop_zero] at hhead
    simp only [List.drop_length, List.append_nil] at htext
    rw [hhead, htext, spelled, hlen, UInt16.ofNat_toNat]
  · rintro ⟨references, hsparse, rfl⟩
    obtain ⟨hread, hcount, -⟩ := readU16_spelled hsparse
    simp only [validateWireBytes, hread, ok_bind, hcount]
    rw [require_of hsparse.length_le, ok_bind, readReferences_spelled hsparse, ok_bind]
    exact require_of rfl _

/-- **Parsing accepts exactly the spelled lists**, and files them. -/
theorem fromWireBytes_eq_ok :
    fromWireBytes bytes = .ok table ↔
      ∃ references, Sparse references ∧ bytes = spelled references ∧
        references.Perm table.toList := by
  have hread : ∀ references, Sparse references →
      fromWireBytes (spelled references) = .ok (filed ∅ references) := by
    intro references hsparse
    have hvalid := validateWireBytes_eq_ok.mpr ⟨references, hsparse, rfl⟩
    simp only [fromWireBytes, hvalid, ok_bind, (readU16_spelled hsparse).1,
      readReferences_spelled hsparse]
    rfl
  constructor
  · intro h
    obtain ⟨_, hvalid, -⟩ := bind_eq_ok.mp h
    obtain ⟨references, hsparse, rfl⟩ := validateWireBytes_eq_ok.mp hvalid
    obtain rfl := Except.ok.inj ((hread references hsparse).symm.trans h)
    exact ⟨references, hsparse, rfl, (BTreeMap.toList_foldl_insert_perm hsparse.distinct).symm⟩
  · rintro ⟨references, hsparse, rfl, hperm⟩
    rw [hread references hsparse]
    exact congrArg _ ((BTreeMap.foldl_insert_eq_iff_perm hsparse.distinct).mpr hperm)

theorem toWireBytes_eq_ok :
    toWireBytes table = .ok bytes ↔
      table.size < 2 ^ 16 ∧ (∀ reference ∈ table.toList, Fits reference) ∧
        bytes = spelled table.toList := by
  have hstep : ∀ (bytes : Bytes) reference out, writeReference bytes reference = .ok out ↔
      Fits reference ∧ out = bytes ++ spelledReference reference := by
    intro bytes reference out
    simp only [writeReference, bind_eq_ok, require_eq_ok, exists_const, pure_eq_ok, Fits,
      spelledReference, List.append_assoc, eq_comm (a := out)]
  simp only [toWireBytes, bind_eq_ok, require_eq_ok, exists_const, foldSteps_checked hstep,
    List.foldl_append_eq_append, spelled, Std.ExtTreeMap.length_toList, List.flatMap_def]

/-! ## 7. Tables -/

/-- Every id of the table is non-empty. -/
def Named (table : SparseReferenceTable) : Prop :=
  ∀ (offset : CellOffset) (id : String), table[offset]? = some id → id ≠ ""

theorem named_empty : Named ∅ := by
  intro offset id h
  rw [BTreeMap.getElem?_empty] at h
  cases h

/-- Insertion is the only way into a table. -/
theorem named_insertEntry {next : SparseReferenceTable} {offset : CellOffset} {id : String}
    (htable : Named table) (h : insertEntry table offset id = .ok next) : Named next := by
  obtain ⟨⟨hid, -⟩, rfl⟩ := insertEntry_eq_ok.mp h
  intro other id' hother
  rw [BTreeMap.getElem?_insert] at hother
  split at hother
  · rw [← Option.some.inj hother]
    exact hid
  · exact htable other id' hother

theorem sparse_toList (hnamed : Named table)
    (hfits : ∀ reference ∈ table.toList, Fits reference) : Sparse table.toList where
  named := fun _ hmem => hnamed _ _ (BTreeMap.mem_toList.mp hmem)
  fits := hfits
  distinct := BTreeMap.pairwise_toList table

/-- The references of a table stand in ascending order. -/
theorem pairwise_index_toList (table : SparseReferenceTable) :
    table.toList.Pairwise fun a b => a.1.index < b.1.index := by
  have hordered := Std.ExtTreeMap.ordered_keys_toList (t := table)
  exact hordered.imp fun {a b} h =>
    Nat.compare_eq_lt.mp (show compareOn CellOffset.index a.1 b.1 = .lt from h)

/-- **Round trip and acceptance.** What is written is read back; validation and parsing
accept the same byte strings; and those are exactly a count and as many references, with
non-empty ids and no offset twice, and nothing behind them. -/
theorem wire_round_trip :
    (∀ (table : SparseReferenceTable) (bytes : Bytes), Named table →
      toWireBytes table = .ok bytes → fromWireBytes bytes = .ok table) ∧
    (∀ bytes : Bytes, BindingState.validateWirePayload bytes = .ok () ↔
      ∃ table, fromWireBytes bytes = .ok table) ∧
    ∀ (bytes : Bytes) (table : SparseReferenceTable), fromWireBytes bytes = .ok table →
      ∃ references : List (CellOffset × String), bytes = spelled references ∧
        (∀ reference ∈ references, reference.2 ≠ "" ∧ Fits reference) ∧
        (references.Pairwise fun a b => a.1 ≠ b.1) ∧ references.Perm table.toList := by
  refine ⟨fun table bytes hnamed hwritten => ?_, fun bytes => ?_, fun bytes table hread => ?_⟩
  · obtain ⟨-, hfits, rfl⟩ := toWireBytes_eq_ok.mp hwritten
    exact fromWireBytes_eq_ok.mpr ⟨table.toList, sparse_toList hnamed hfits, rfl, .refl _⟩
  · constructor
    · intro h
      obtain ⟨references, hsparse, rfl⟩ := validateWireBytes_eq_ok.mp h
      exact ⟨filed ∅ references, fromWireBytes_eq_ok.mpr ⟨references, hsparse, rfl,
        (BTreeMap.toList_foldl_insert_perm hsparse.distinct).symm⟩⟩
    · rintro ⟨table, h⟩
      obtain ⟨references, hsparse, rfl, -⟩ := fromWireBytes_eq_ok.mp h
      exact validateWireBytes_eq_ok.mpr ⟨references, hsparse, rfl⟩
  · obtain ⟨references, hsparse, hbytes, hperm⟩ := fromWireBytes_eq_ok.mp hread
    exact ⟨references, hbytes, fun reference hmem => ⟨hsparse.named reference hmem,
      hsparse.fits reference hmem⟩, hsparse.distinct, hperm⟩

def entityTable : SparseReferenceTable :=
  (∅ : SparseReferenceTable).insert ⟨21, by decide⟩ "entity-1"

theorem wire_round_trip_entity :
    ∃ bytes, toWireBytes entityTable = .ok bytes ∧ fromWireBytes bytes = .ok entityTable ∧
      ∃ references : List (CellOffset × String), bytes = spelled references ∧
        references.Perm entityTable.toList := by
  have hlist : entityTable.toList = [(⟨21, by decide⟩, "entity-1")] :=
    BTreeMap.toList_insert_empty _ _
  have hnamed : Named entityTable := by
    apply named_insertEntry named_empty
    exact insertEntry_eq_ok.mpr ⟨⟨by decide, BTreeMap.getElem?_empty _⟩, rfl⟩
  have hwritten : toWireBytes entityTable = .ok (spelled entityTable.toList) := by
    refine toWireBytes_eq_ok.mpr ⟨?_, ?_, rfl⟩
    · rw [← Std.ExtTreeMap.length_toList, hlist]
      decide
    · rw [hlist]
      intro reference hmem
      obtain rfl := List.mem_singleton.mp hmem
      exact show (utf8 "entity-1").length < 2 ^ 16 by decide
  have hread := wire_round_trip.1 _ _ hnamed hwritten
  obtain ⟨references, hbytes, -, -, hperm⟩ := wire_round_trip.2.2 _ _ hread
  exact ⟨_, hwritten, hread, references, hbytes, hperm⟩

/-! ## 8. Several spellings of one table -/

theorem Sparse.perm {references' : List (CellOffset × String)} (h : Sparse references)
    (hperm : references'.Perm references) : Sparse references' where
  named := fun reference hmem => h.named reference (hperm.mem_iff.mp hmem)
  fits := fun reference hmem => h.fits reference (hperm.mem_iff.mp hmem)
  distinct := hperm.symm.pairwise h.distinct fun hne heq => hne heq.symm

/-- What was parsed can be written again, in ascending order. -/
theorem toWireBytes_of_sparse (h : Sparse references) (hperm : references.Perm table.toList) :
    toWireBytes table = .ok (spelled table.toList) := by
  have hlist := h.perm hperm.symm
  refine toWireBytes_eq_ok.mpr ⟨?_, hlist.fits, rfl⟩
  rw [← Std.ExtTreeMap.length_toList]
  exact Nat.lt_of_le_of_lt hlist.length_le (by decide)

/-- Sorted references are the table's own list. -/
theorem eq_toList_iff (hperm : references.Perm table.toList) :
    references = table.toList ↔ references.Pairwise fun a b => a.1.index < b.1.index := by
  constructor
  · rintro rfl
    exact pairwise_index_toList table
  · intro hsorted
    apply List.Perm.eq_of_pairwise (fun a b _ _ hab hba => ?_) hsorted
      (pairwise_index_toList table) hperm
    omega

/-- **The spellings of a table.** An accepted byte string lists the references of its table
in some order, and is the written form exactly when that order is ascending; the accepted
spellings of one table are the orders of its references. -/
theorem accepted_spellings (h : fromWireBytes bytes = .ok table) :
    ∃ (written : Bytes) (references : List (CellOffset × String)),
      toWireBytes table = .ok written ∧ bytes = spelled references ∧
        references.Perm table.toList ∧
        (bytes = written ↔ references.Pairwise fun a b => a.1.index < b.1.index) ∧
        ∀ other : Bytes, fromWireBytes other = .ok table ↔
          ∃ references', references'.Perm references ∧ other = spelled references' := by
  obtain ⟨references, hsparse, rfl, hperm⟩ := fromWireBytes_eq_ok.mp h
  have hlist := hsparse.perm hperm.symm
  have hcount : ∀ {references}, Sparse references → references.length < 2 ^ 16 :=
    fun hsparse => Nat.lt_of_le_of_lt hsparse.length_le (by decide)
  refine ⟨spelled table.toList, references, toWireBytes_of_sparse hsparse hperm, rfl, hperm, ?_,
    fun other => ?_⟩
  · rw [← eq_toList_iff hperm]
    exact ⟨spelled_injective (hcount hsparse) (hcount hlist) hsparse.fits hlist.fits,
      congrArg spelled⟩
  · rw [fromWireBytes_eq_ok]
    constructor
    · rintro ⟨references', -, rfl, hperm'⟩
      exact ⟨references', hperm'.trans hperm.symm, rfl⟩
    · rintro ⟨references', hperm', rfl⟩
      exact ⟨references', hsparse.perm hperm', rfl, hperm'.trans hperm⟩

def swappedReferences : List (CellOffset × String) :=
  [(⟨1, by decide⟩, "b"), (⟨0, by decide⟩, "a")]

private theorem sparse_swapped : Sparse swappedReferences where
  named := by decide
  fits := by unfold Fits; decide
  distinct := by decide

private theorem swapped_read (bytes : Bytes) (h : bytes = spelled swappedReferences) :
    fromWireBytes bytes = .ok (filed ∅ swappedReferences) :=
  fromWireBytes_eq_ok.mpr ⟨_, sparse_swapped, h,
    (BTreeMap.toList_foldl_insert_perm sparse_swapped.distinct).symm⟩

theorem accepted_spellings_swapped :
    ∃ (written : Bytes) (references : List (CellOffset × String)),
      toWireBytes (filed ∅ swappedReferences) = .ok written ∧
        [2, 0, 1, 0, 1, 0, 98, 0, 0, 1, 0, 97] = spelled references ∧
        ([2, 0, 1, 0, 1, 0, 98, 0, 0, 1, 0, 97] = written ↔
          references.Pairwise fun a b => a.1.index < b.1.index) := by
  obtain ⟨written, references, hwritten, hbytes, -, hiff, -⟩ :=
    accepted_spellings (swapped_read [2, 0, 1, 0, 1, 0, 98, 0, 0, 1, 0, 97] (by decide))
  exact ⟨written, references, hwritten, hbytes, hiff⟩

/-- Two references in descending order are accepted as well as in ascending order. -/
theorem swapped_spelling_accepted :
    ∃ table, fromWireBytes [2, 0, 1, 0, 1, 0, 98, 0, 0, 1, 0, 97] = .ok table ∧
      fromWireBytes [2, 0, 0, 0, 1, 0, 97, 1, 0, 1, 0, 98] = .ok table ∧
      toWireBytes table ≠ .ok [2, 0, 1, 0, 1, 0, 98, 0, 0, 1, 0, 97] := by
  have hswapped := swapped_read [2, 0, 1, 0, 1, 0, 98, 0, 0, 1, 0, 97] (by decide)
  have hperm : swappedReferences.Perm (filed ∅ swappedReferences).toList :=
    (BTreeMap.toList_foldl_insert_perm sparse_swapped.distinct).symm
  refine ⟨_, hswapped, ?_, ?_⟩
  · exact fromWireBytes_eq_ok.mpr ⟨swappedReferences.reverse,
      sparse_swapped.perm (List.reverse_perm _), by decide, (List.reverse_perm _).trans hperm⟩
  · intro hwritten
    rw [toWireBytes_of_sparse sparse_swapped hperm, Except.ok.injEq] at hwritten
    have hsame : swappedReferences = (filed ∅ swappedReferences).toList := spelled_injective
      (by decide) (by rw [← hperm.length_eq]; decide) sparse_swapped.fits
      (sparse_swapped.perm hperm.symm).fits (Eq.trans (by decide) hwritten.symm)
    exact absurd ((eq_toList_iff hperm).mp hsame) (by decide)

end SparseReferenceTable

end LumioVoxel
