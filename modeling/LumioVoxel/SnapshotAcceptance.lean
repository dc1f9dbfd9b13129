import LumioVoxel.PreimageIdentities
import LumioVoxel.Utf8Cursors

/-!
# Which bytes are snapshots

Preflight takes bytes from outside.  What it accepts is a manifest, spelled in the one way a
manifest of its fields is spelled: no member is missing, none is added, and none is written
differently.
-/

namespace LumioVoxel

open DebugText Fallible Utf8Cursors

/-! ## 1. Texts of digests -/

/-- The characters a digest's text is made of. -/
def IsLowerHex (c : Char) : Prop :=
  0x30 ≤ c.toNat ∧ c.toNat ≤ 0x39 ∨ 0x61 ≤ c.toNat ∧ c.toNat ≤ 0x66

theorem exists_hexDigit {c : Char} (h : IsLowerHex c) :
    ∃ n : Fin 16, hexDigit (UInt8.ofNat n) = c := by
  have hall : ∀ m : Fin 128, 0x30 ≤ m.val ∧ m.val ≤ 0x39 ∨ 0x61 ≤ m.val ∧ m.val ≤ 0x66 →
      ∃ n : Fin 16, hexDigit (UInt8.ofNat n) = Char.ofNat m := by
    decide
  have hlt : c.toNat < 128 := by
    rcases h with ⟨-, hle⟩ | ⟨-, hle⟩
    · omega
    · omega
  obtain ⟨n, hn⟩ := hall ⟨c.toNat, hlt⟩ h
  exact ⟨n, hn.trans (Char.ofNat_toNat c)⟩

/-- Digits in pairs are the text of bytes. -/
theorem exists_hexChars (n : Nat) {chars : List Char} (h : ∀ c ∈ chars, IsLowerHex c)
    (hlength : chars.length = 2 * n) : ∃ bytes : Bytes, hexChars bytes = chars := by
  have hpair : ∀ hi lo : Fin 16,
      UInt8.ofNat (16 * hi + lo) >>> 4 = UInt8.ofNat hi ∧
        UInt8.ofNat (16 * hi + lo) &&& 0xf = UInt8.ofNat lo := by
    decide
  induction n generalizing chars with
  | zero => exact ⟨[], (List.eq_nil_of_length_eq_zero hlength).symm⟩
  | succ n ih =>
    match chars, hlength with
    | hi :: lo :: rest, hlength =>
      obtain ⟨high, rfl⟩ := exists_hexDigit (h hi List.mem_cons_self)
      obtain ⟨low, rfl⟩ := exists_hexDigit (h lo (List.mem_cons_of_mem _ List.mem_cons_self))
      have hrest : ∀ c ∈ rest, IsLowerHex c :=
        fun c hc => h c (List.mem_cons_of_mem _ (List.mem_cons_of_mem _ hc))
      have hcount : rest.length = 2 * n := by
        rw [List.length_cons, List.length_cons] at hlength
        omega
      obtain ⟨bytes, rfl⟩ := ih hrest hcount
      refine ⟨UInt8.ofNat (16 * high + low) :: bytes, ?_⟩
      rw [hexChars, List.flatMap_cons, (hpair high low).1, (hpair high low).2]
      rfl

/-- **Well-formed hashes are texts of digests.** -/
theorem isHash256_iff {value : String} :
    isHash256 value = true ↔ ∃ digest, value = hex32 digest := by
  constructor
  · intro h
    obtain ⟨hlength, hdigits⟩ := Bool.and_eq_true_iff.mp h
    have hbytes : utf8 value = value.toList.flatMap String.utf8EncodeChar := by
      rw [← utf8_ofList, String.ofList_toList]
    rw [hbytes, List.all_flatMap, List.all_eq_true] at hdigits
    have hchar : ∀ c ∈ value.toList,
        IsLowerHex c ∧ String.utf8EncodeChar c = [UInt8.ofNat c.toNat] := by
      intro c hc
      have hc := hdigits c hc
      by_cases hascii : c.toNat < 128
      · have hencode := utf8EncodeChar_of_ascii hascii
        refine ⟨?_, hencode⟩
        rw [hencode] at hc
        simp only [List.all_cons, List.all_nil, Bool.and_true, Bool.or_eq_true, Bool.and_eq_true,
          decide_eq_true_eq, UInt8.le_iff_toNat_le, UInt8.toNat_ofNat'] at hc
        rw [Nat.mod_eq_of_lt (by omega)] at hc
        exact hc
      · obtain ⟨byte, tail, hencode, hbyte⟩ := utf8EncodeChar_of_not_ascii (Nat.le_of_not_lt hascii)
        rw [hencode, List.all_cons] at hc
        simp only [Bool.and_eq_true, Bool.or_eq_true, decide_eq_true_eq,
          UInt8.le_iff_toNat_le] at hc
        have hle : byte.toNat ≤ 0x66 := by
          rcases hc.1 with ⟨-, hle⟩ | ⟨-, hle⟩
          · exact Nat.le_trans hle (by decide)
          · exact hle
        omega
    have hcount : value.toList.length = 2 * 32 := by
      have hsum : (value.toList.flatMap String.utf8EncodeChar).length = value.toList.length := by
        rw [List.length_flatMap, List.map_congr_left fun c hc => by
          rw [(hchar c hc).2, List.length_singleton]]
        simp
      rw [← hsum, ← hbytes]
      exact beq_iff_eq.mp hlength
    obtain ⟨bytes, hspelled⟩ := exists_hexChars 32 (fun c hc => (hchar c hc).1) hcount
    have hsize : bytes.toArray.size = 32 := by
      have hdouble := length_hexChars bytes
      rw [hspelled, hcount] at hdouble
      rw [List.size_toArray]
      omega
    refine ⟨⟨bytes.toArray, hsize⟩, ?_⟩
    rw [hex32, hex, show (Vector.mk bytes.toArray hsize).toList = bytes from rfl, hspelled,
      String.ofList_toList]
  · rintro ⟨digest, rfl⟩
    exact isHash256_hex32 digest

theorem parseHex32_eq_ok {value : String} {digest : Digest} :
    parseHex32 value = .ok digest ↔ value = hex32 digest := by
  simp only [parseHex32, bind_eq_ok, require_eq_ok, someOr_eq_ok, exists_and_left, exists_const]
  constructor
  · rintro ⟨hhash, hread⟩
    obtain ⟨spelled, rfl⟩ := isHash256_iff.mp hhash
    rw [readHex32_hex32] at hread
    rw [Option.some.inj hread]
  · rintro rfl
    exact ⟨isHash256_hex32 digest, readHex32_hex32 digest⟩

/-! ## 2. The manifest of decoded fields -/

namespace DecodedRestore

variable {decoded : DecodedRestore}

/-- The members that every manifest has, those before its sections' and those behind them. -/
def header (decoded : DecodedRestore) : List (String × CanonicalValue) :=
  [("schemaId", .text SNAPSHOT_PAYLOAD_SCHEMA),
   ("headerSchemaId", .text SNAPSHOT_HEADER_SCHEMA),
   ("magic", .text SNAPSHOT_MAGIC),
   ("schemaEpoch", .uint SNAPSHOT_SCHEMA_EPOCH),
   ("worldId", .text decoded.worldId),
   ("contextId", .text decoded.contextId),
   ("generation", .uint decoded.generation),
   ("worldRevision", .uint decoded.worldRevision)]

def trailer (decoded : DecodedRestore) : List (String × CanonicalValue) :=
  [("configHash", .text decoded.configHash),
   ("rootIdentity", .text (hex32 decoded.rootIdentity))]

/-- The members of the manifest that says the fields. -/
def members (decoded : DecodedRestore) : List (String × CanonicalValue) :=
  decoded.header ++
    decoded.sectionRevisionSet.toList.map
      (fun item => (SECTION_REVISION ++ item.1, .uint item.2)) ++
    decoded.trailer

/-- The bytes are the manifest of the fields. -/
def SpelledBy (decoded : DecodedRestore) (bytes : Bytes) : Prop :=
  preimageOf decoded.members = .ok bytes

/-- The fields are what preflight was asked for. -/
structure Expected (decoded : DecodedRestore) (expectedWorldId : String)
    (expectedGeneration : UInt64) (snapshot : VoxelConfigSnapshot) : Prop where
  worldId : decoded.worldId = expectedWorldId
  worldId_ne : expectedWorldId ≠ ""
  contextId_ne : decoded.contextId ≠ ""
  generation : decoded.generation = expectedGeneration
  configHash : decoded.configHash = snapshot.configHash
  configHash_isHash : isHash256 decoded.configHash = true
  keys : ∀ key revision, decoded.sectionRevisionSet[key]? = some revision → key ≠ ""

theorem names_fixed (decoded : DecodedRestore) :
    (decoded.header ++ decoded.trailer).map Prod.fst =
      ["schemaId", "headerSchemaId", "magic", "schemaEpoch", "worldId", "contextId", "generation",
        "worldRevision", "configHash", "rootIdentity"] := rfl

theorem known_iff (decoded : DecodedRestore) {name : String} :
    isKnownField name = true ↔ ∃ v, (name, v) ∈ decoded.header ++ decoded.trailer := by
  rw [isKnownField, ← decoded.names_fixed, List.contains_iff_mem, List.mem_map]
  constructor
  · rintro ⟨⟨name, v⟩, hmem, rfl⟩
    exact ⟨v, hmem⟩
  · rintro ⟨v, hmem⟩
    exact ⟨(name, v), hmem, rfl⟩

theorem members_distinct (decoded : DecodedRestore) :
    decoded.members.Pairwise fun a b => a.1 ≠ b.1 := by
  have hnames : decoded.members.map Prod.fst =
      ["schemaId", "headerSchemaId", "magic", "schemaEpoch", "worldId", "contextId", "generation",
        "worldRevision"] ++
      (decoded.sectionRevisionSet.toList.map fun item => SECTION_REVISION ++ item.1) ++
      ["configHash", "rootIdentity"] := by
    rw [members, List.map_append, List.map_append, List.map_map]
    rfl
  rw [← List.pairwise_map (f := Prod.fst) (R := (· ≠ ·)), hnames]
  apply pairwise_around_sections
  · decide
  · decide

theorem mem_members {name : String} {v : CanonicalValue} :
    (name, v) ∈ decoded.members ↔ (name, v) ∈ decoded.header ++ decoded.trailer ∨
      ∃ key revision, name = SECTION_REVISION ++ key ∧ v = .uint revision ∧
        decoded.sectionRevisionSet[key]? = some revision := by
  simp only [members, List.mem_append, List.mem_map]
  constructor
  · rintro ((hheader | ⟨⟨key, revision⟩, hitem, heq⟩) | htrailer)
    · exact .inl (.inl hheader)
    · obtain ⟨rfl, rfl⟩ := Prod.mk.inj heq
      exact .inr ⟨key, revision, rfl, rfl, BTreeMap.mem_toList.mp hitem⟩
    · exact .inl (.inr htrailer)
  · rintro ((hheader | htrailer) | ⟨key, revision, rfl, rfl, hrevision⟩)
    · exact .inl (.inl hheader)
    · exact .inr htrailer
    · exact .inl (.inr ⟨(key, revision), BTreeMap.mem_toList.mpr hrevision, rfl⟩)

end DecodedRestore

/-! ## 3. What preflight accepts -/

theorem requireText_eq_ok {fields : CanonicalObject} {key value : String} :
    requireText fields key = .ok value ↔ fields.members[key]? = some (.text value) := by
  rw [requireText, someOr_eq_ok]
  cases fields.members[key]? with
  | none => simp
  | some v => cases v <;> simp [CanonicalValue.asText]

theorem requireUint_eq_ok {fields : CanonicalObject} {key : String} {value : UInt64} :
    requireUint fields key = .ok value ↔ fields.members[key]? = some (.uint value) := by
  rw [requireUint, someOr_eq_ok]
  cases fields.members[key]? with
  | none => simp
  | some v => cases v <;> simp [CanonicalValue.asUint]

theorem decodeCanonicalObject_eq_ok {bytes : Bytes} {fields : CanonicalObject} :
    decodeCanonicalObject bytes = .ok fields ↔ bytes = fields.encodeBytes := by
  simp only [decodeCanonicalObject, bind_eq_ok, require_eq_ok, mapError_eq_ok,
    decode_eq_ok, exists_and_left, exists_const]
  constructor
  · exact And.right
  · rintro rfl
    exact ⟨encodeBytes_ne_nil fields, rfl⟩

/-- Once the revisions are collected, every member is a known one or a section's. -/
theorem known_of_collect {fields : CanonicalObject} {sections : BTreeMap String UInt64}
    (h : collectSectionRevisions fields = .ok sections) {name : String} {v : CanonicalValue}
    (hmember : fields.members[name]? = some v) :
    isKnownField name = true ∨
      ∃ key revision, key ≠ "" ∧ name = SECTION_REVISION ++ key ∧ v = .uint revision := by
  have hdistinct : fields.members.toList.Pairwise fun a a' =>
      ¬ (a = (name, v) ∧ a' = (name, v)) := by
    refine (BTreeMap.pairwise_toList _).imp ?_
    rintro a a' hne ⟨rfl, rfl⟩
    exact hne rfl
  obtain ⟨before, after, hstep, -⟩ := foldSteps_named (fun _ => ()) (fun _ _ _ _ _ => rfl)
    hdistinct h (BTreeMap.mem_toList.mpr hmember) rfl
  unfold collectMember at hstep
  split at hstep
  · simp only [bind_eq_ok, require_eq_ok, exists_and_left, exists_const] at hstep
    exact .inl hstep.1
  · rename_i key hsection
    simp only [bind_eq_ok, require_eq_ok, someOr_eq_ok, exists_and_left] at hstep
    obtain ⟨hne, -, revision, hrevision, -⟩ := hstep
    refine .inr ⟨key, revision, hne, sectionOfMember_eq_some hsection, ?_⟩
    cases v with
    | uint value => rw [Option.some.inj hrevision]
    | _ => cases hrevision

/-- Objects with the same members are one. -/
theorem CanonicalObject.eq_of_members {fields fields' : CanonicalObject}
    (h : ∀ (name : String) (v : CanonicalValue),
      fields.members[name]? = some v ↔ fields'.members[name]? = some v) : fields = fields' := by
  have hmembers : fields.members = fields'.members := by
    apply Std.ExtTreeMap.ext_getElem?
    intro name
    apply Option.ext
    exact h name
  cases fields
  cases fields'
  cases hmembers
  rfl

namespace DecodedRestore

variable {decoded : DecodedRestore}

/-- Manifests of the fields are encodings of the objects with their members. -/
theorem spelledBy_iff {bytes : Bytes} : decoded.SpelledBy bytes ↔
    ∃ fields : CanonicalObject, bytes = fields.encodeBytes ∧
      ∀ name v, fields.members[name]? = some v ↔ (name, v) ∈ decoded.members := by
  obtain ⟨object, hinsert, hmembers⟩ := exists_insertAll decoded.members_distinct
  rw [SpelledBy, preimageOf, hinsert, ok_bind]
  constructor
  · intro h
    exact ⟨object, (Except.ok.inj h).symm, hmembers⟩
  · rintro ⟨fields, rfl, hfields⟩
    rw [CanonicalObject.eq_of_members fun name v => (hmembers name v).trans (hfields name v).symm]
    rfl

theorem getElem?_section {fields : CanonicalObject}
    (h : ∀ name v, fields.members[name]? = some v ↔ (name, v) ∈ decoded.members) (key : String) :
    fields.members[SECTION_REVISION ++ key]?.bind CanonicalValue.asUint =
      decoded.sectionRevisionSet[key]? := by
  have hsection : ∀ v, fields.members[SECTION_REVISION ++ key]? = some v ↔
      ∃ revision, v = .uint revision ∧ decoded.sectionRevisionSet[key]? = some revision := by
    intro v
    rw [h, mem_members]
    constructor
    · rintro (hfixed | ⟨key', revision, hname, rfl, hrevision⟩)
      · exact absurd rfl (section_name_unknown (decoded.known_iff.mpr ⟨v, hfixed⟩))
      · rw [section_name_injective hname]
        exact ⟨revision, rfl, hrevision⟩
    · rintro ⟨revision, rfl, hrevision⟩
      exact .inr ⟨key, revision, rfl, rfl, hrevision⟩
  cases hmember : fields.members[SECTION_REVISION ++ key]? with
  | none =>
    cases hrevision : decoded.sectionRevisionSet[key]? with
    | none => rfl
    | some revision =>
      rw [(hsection _).mpr ⟨revision, rfl, hrevision⟩] at hmember
      cases hmember
  | some v =>
    obtain ⟨revision, rfl, hrevision⟩ := (hsection v).mp hmember
    exact hrevision.symm

/-- Preflight reads the ten members every manifest has, and collects the others. -/
theorem validate_eq_ok {bytes : Bytes} {worldId : String} {generation : UInt64}
    {snapshot : VoxelConfigSnapshot} :
    RestorePreflight.validate bytes worldId generation snapshot = .ok decoded ↔
      ∃ fields : CanonicalObject, bytes = fields.encodeBytes ∧
        (∀ member ∈ decoded.header ++ decoded.trailer,
          fields.members[member.1]? = some member.2) ∧
        collectSectionRevisions fields = .ok decoded.sectionRevisionSet ∧
        decoded.worldId = worldId ∧ worldId ≠ "" ∧ decoded.contextId ≠ "" ∧
        decoded.generation = generation ∧ decoded.configHash = snapshot.configHash ∧
        isHash256 decoded.configHash = true := by
  simp only [RestorePreflight.validate, bind_eq_ok, require_eq_ok, requireText_eq_ok,
    requireUint_eq_ok, parseHex32_eq_ok, decodeCanonicalObject_eq_ok, pure_eq_ok, exists_and_left,
    exists_const]
  constructor
  · rintro ⟨hne, fields, hbytes, schema, hschema, header, hheader, magic, hmagic, epoch, hepoch,
      ⟨rfl, rfl, rfl, rfl⟩, world, hworld, context, hcontext, ⟨-, hcontextne⟩, hsame, gen, hgen,
      hgeneration, revision, hrevision, config, hconfig, ⟨hhash, happroved⟩, hex, hhex, root, rfl,
      sections, hsections, rfl⟩
    refine ⟨fields, hbytes, ?_, hsections, hsame, hne, hcontextne, hgeneration, happroved, hhash⟩
    intro member hmember
    simp only [DecodedRestore.header, DecodedRestore.trailer, List.cons_append, List.nil_append,
      List.mem_cons, List.not_mem_nil, or_false] at hmember
    rcases hmember with rfl | rfl | rfl | rfl | rfl | rfl | rfl | rfl | rfl | rfl
    · exact hschema
    · exact hheader
    · exact hmagic
    · exact hepoch
    · exact hworld
    · exact hcontext
    · exact hgen
    · exact hrevision
    · exact hconfig
    · exact hhex
  · rintro ⟨fields, hbytes, hfixed, hsections, hsame, hne, hcontextne, hgeneration, happroved,
      hhash⟩
    simp only [header, trailer, List.cons_append, List.nil_append, List.forall_mem_cons,
      List.not_mem_nil, false_implies, implies_true, and_true] at hfixed
    obtain ⟨hschema, hheader, hmagic, hepoch, hworld, hcontext, hgen, hrevision, hconfig, hroot⟩ :=
      hfixed
    exact ⟨hne, fields, hbytes, _, hschema, _, hheader, _, hmagic, _, hepoch, ⟨rfl, rfl, rfl, rfl⟩,
      _, hworld, _, hcontext, ⟨hsame ▸ hne, hcontextne⟩, hsame, _, hgen, hgeneration, _, hrevision,
      _, hconfig, ⟨hhash, happroved⟩, _, hroot, _, rfl, _, hsections, rfl⟩

theorem accepted_iff {bytes : Bytes} {worldId : String} {generation : UInt64}
    {snapshot : VoxelConfigSnapshot} :
    RestorePreflight.validate bytes worldId generation snapshot = .ok decoded ↔
      decoded.SpelledBy bytes ∧ decoded.Expected worldId generation snapshot := by
  rw [validate_eq_ok, spelledBy_iff]
  constructor
  · rintro ⟨fields, rfl, hfixed, hcollect, hsame, hne, hcontextne, hgeneration, happroved, hhash⟩
    have hsection : ∀ key, decoded.sectionRevisionSet[key]? =
        fields.members[SECTION_REVISION ++ key]?.bind CanonicalValue.asUint :=
      getElem?_collectSectionRevisions hcollect
    have hmembers : ∀ name v, fields.members[name]? = some v ↔ (name, v) ∈ decoded.members := by
      intro name v
      rw [mem_members]
      constructor
      · intro hmember
        rcases known_of_collect hcollect hmember with hknown | ⟨key, revision, -, rfl, rfl⟩
        · obtain ⟨w, hw⟩ := decoded.known_iff.mp hknown
          obtain rfl := Option.some.inj (hmember.symm.trans (hfixed _ hw))
          exact .inl hw
        · refine .inr ⟨key, revision, rfl, rfl, ?_⟩
          rw [hsection, hmember]
          rfl
      · rintro (hin | ⟨key, revision, rfl, rfl, hrevision⟩)
        · exact hfixed _ hin
        · rw [hsection] at hrevision
          obtain ⟨v, hmember, hvalue⟩ := Option.bind_eq_some_iff.mp hrevision
          cases v with
          | uint value =>
            obtain rfl := Option.some.inj hvalue
            exact hmember
          | _ => cases hvalue
    refine ⟨⟨fields, rfl, hmembers⟩, hsame, hne, hcontextne, hgeneration, happroved, hhash, ?_⟩
    intro key revision hrevision
    have hmember := (hmembers _ _).mpr (mem_members.mpr (.inr ⟨key, revision, rfl, rfl, hrevision⟩))
    rcases known_of_collect hcollect hmember with hknown | ⟨key', -, hne, hname, -⟩
    · exact absurd rfl (section_name_unknown hknown)
    · exact section_name_injective hname ▸ hne
  · rintro ⟨⟨fields, rfl, hmembers⟩, hexpected⟩
    obtain ⟨sections, hcollect⟩ : ∃ sections, collectSectionRevisions fields = .ok sections := by
      apply exists_collectSectionRevisions
      intro name v hmember
      rcases mem_members.mp ((hmembers name v).mp hmember) with hin |
        ⟨key, revision, rfl, rfl, hrevision⟩
      · exact .inl (decoded.known_iff.mpr ⟨v, hin⟩)
      · exact .inr ⟨key, revision, hexpected.keys key revision hrevision, rfl, rfl⟩
    have hsections : sections = decoded.sectionRevisionSet := by
      apply Std.ExtTreeMap.ext_getElem?
      intro key
      rw [getElem?_collectSectionRevisions hcollect, getElem?_section hmembers]
    refine ⟨fields, rfl, fun member hin => ?_, hsections ▸ hcollect, hexpected.worldId,
      hexpected.worldId_ne, hexpected.contextId_ne, hexpected.generation, hexpected.configHash,
      hexpected.configHash_isHash⟩
    exact (hmembers member.1 member.2).mpr (mem_members.mpr (.inl hin))

end DecodedRestore

section Captures

variable [UnicodeTables]

/-- **Preflight accepts manifests, and nothing else.** Bytes are accepted exactly if they are
the manifest of the returned fields and the fields are what was asked for; and then they are
the bytes that every capture with these fields is written as. -/
theorem preflight_accepts_manifests (bytes : Bytes) (worldId : String) (generation : UInt64)
    (snapshot : VoxelConfigSnapshot) (decoded : DecodedRestore) :
    (RestorePreflight.validate bytes worldId generation snapshot = .ok decoded ↔
      decoded.SpelledBy bytes ∧ decoded.Expected worldId generation snapshot) ∧
    (decoded.SpelledBy bytes → ∀ (capture : VoxelCaptureRef) writer metadata writer',
      capture.decoded = decoded → encodeCapture capture writer = .ok (metadata, writer') →
        writer'.buf = writer.buf ++ bytes) := by
  refine ⟨DecodedRestore.accepted_iff, ?_⟩
  rintro hspelled capture writer metadata writer' rfl hencode
  obtain ⟨object, hobject, hwritten⟩ := encodeCapture_eq_ok hencode
  have hmanifest : capture.decoded.SpelledBy object.encodeBytes :=
    DecodedRestore.spelledBy_iff.mpr ⟨object, rfl, manifest_getElem? hobject⟩
  rw [hwritten, Except.ok.inj (hspelled.symm.trans hmanifest)]

end Captures

end LumioVoxel
